import Datatent.Core.Pages.DataPageManager

/-!
# The document area of a page

The walk over the documents of a page starts at the header of the page. For a page whose id
has a nonzero low byte it takes the header for a first document, whose size (`firstSize`) it
reads from the page type and the ids of the neighbours. The first document added to a fresh
page goes to where this size leads, and it stays in the document area of the page exactly
when the page is clear for it (`Clear`).
-/

namespace Datatent.DataPageManager

open Constants

/-- The size of what the walk takes for the first document of a data page. -/
def firstSize (header : PageHeader) : Nat :=
  50 + 256 * (header.pagePrevId.toNat + 65536 * (header.pageNextId.toNat % 256))

namespace HasDataPage

variable {memory : Bytes} {id : UInt32} {header : PageHeader}

/-- A number read from the header is read from the slot. -/
theorem readLE_header (h : HasDataPage memory id header) {i n : Nat} (hi : i + n ≤ 92) :
  Bytes.readLE ((memory.drop (64092 * id.toNat)).drop i) n
    = Bytes.readLE (header.bytes.drop i) n
  := by
  apply Bytes.readLE_drop_congr
  intro j _ hj
  rw [List.getElem?_drop, h.getElem?_header (by omega)]

/-- The first byte of the slot is the low byte of the page id. -/
theorem headD_slot (h : HasDataPage memory id header) :
  ((memory.drop (64092 * id.toNat)).headD 0).toNat = header.pageId.toNat % 256
  := by
  rw [← Span.readUInt16_zero_mod, Span.readUInt16_toNat, h.readLE_header (by decide),
    PageHeader.pageId, Span.readUInt16_toNat, PageHeader.PAGE_ID]

/-- The length the walk reads at the front of the slot. -/
theorem readUInt32_slot (h : HasDataPage memory id header) :
  (Span.readUInt32 (memory.drop (64092 * id.toNat)) Document.DOCUMENT_LENGTH).toNat + 48
    = firstSize header
  := by
  have hlow : Bytes.readLE (header.bytes.drop 5) 1 < 256 := Bytes.readLE_lt _ 1
  have htype : Bytes.readLE (header.bytes.drop 2) 1 = 2 := by
    have hbyte := h.type
    rw [PageHeader.pageType, PageHeader.PAGE_TYPE, List.getD_eq_getElem?_getD] at hbyte
    simp only [Bytes.readLE, List.headD_eq_head?_getD, List.head?_drop, hbyte]
    rfl
  have hlength : Bytes.readLE (header.bytes.drop 2) 4
      = Bytes.readLE (header.bytes.drop 2) 1 + 256 * (Bytes.readLE (header.bytes.drop 3) 2
        + 65536 * Bytes.readLE (header.bytes.drop 5) 1) := by
    rw [show 4 = 1 + (2 + 1) from rfl, Bytes.readLE_add, Bytes.readLE_add, List.drop_drop,
      List.drop_drop]
    rfl
  have hnext : Bytes.readLE (header.bytes.drop 5) 2
      = Bytes.readLE (header.bytes.drop 5) 1
        + 256 * Bytes.readLE ((header.bytes.drop 5).drop 1) 1 := Bytes.readLE_add _ 1 1
  rw [Span.readUInt32_toNat, Document.DOCUMENT_LENGTH, h.readLE_header (by decide), firstSize,
    PageHeader.pagePrevId, PageHeader.pageNextId, Span.readUInt16_toNat, Span.readUInt16_toNat,
    PageHeader.PAGE_PREV_ID, PageHeader.PAGE_NEXT_ID]
  omega

/-- The size the walk computes for what it takes for the first document. -/
theorem toNat_size (h : HasDataPage memory id header) :
  (Span.readUInt32 (memory.drop (64092 * id.toNat)) Document.DOCUMENT_LENGTH
    + DOCUMENT_HEADER_SIZE).toNat = firstSize header
  := by
  have hsize := h.readUInt32_slot
  have hprev := header.pagePrevId.toNat_lt
  have hlt : firstSize header < 2 ^ 32 := by
    rw [firstSize]
    omega
  rw [UInt32.toNat_add, DOCUMENT_HEADER_SIZE_toNat, hsize, Nat.mod_eq_of_lt hlt]

/-- In a slot of a page whose id has a zero low byte the search ends where it starts. -/
theorem slotAt_zero (h : HasDataPage memory id header) (hid : header.pageId.toNat % 256 = 0) :
  (pageOver id header).SlotAt memory 0
  := by
  apply DataPage.findEmptySlot_of_end
  right
  apply UInt8.toNat_inj.mp
  exact h.headD_slot.trans hid

/-- In a slot of a page whose id has a nonzero low byte the walk takes the header for the first
part of a document with the id of the page. -/
theorem getNext_slot (h : HasDataPage memory id header) (hid : header.pageId.toNat % 256 ≠ 0)
    (hroom : firstSize header ≤ (memory.drop (64092 * id.toNat)).length)
    (hlt : firstSize header < 2 ^ 31) :
  Document.getNextDocumentSliceAndAdjustOffset (memory.drop (64092 * id.toNat))
    = .ok (some ((memory.drop (64092 * id.toNat)).take (firstSize header)), header.pageId,
        (memory.drop (64092 * id.toNat)).drop (firstSize header))
  := by
  have hslot : 64092 ≤ (memory.drop (64092 * id.toNat)).length := by
    have hroom := h.room
    rw [List.length_drop]
    omega
  have hhead : (memory.drop (64092 * id.toNat)).headD 0 ≠ 0 := by
    intro hzero
    apply hid
    rw [← h.headD_slot, hzero]
    rfl
  have hsize : toInt (Span.readUInt32 (memory.drop (64092 * id.toNat)) Document.DOCUMENT_LENGTH
      + DOCUMENT_HEADER_SIZE) = firstSize header := by
    rw [toInt_of_lt (by rw [h.toNat_size]; exact hlt), h.toNat_size]
  have hpageId : Span.readUInt16 (memory.drop (64092 * id.toNat)) Document.DOCUMENT_ID
      = header.pageId := by
    rw [Span.readUInt16, h.readLE_header (by decide)]
    rfl
  rw [Document.getNext_eq_of_size (by omega) hhead hsize hroom, hpageId]

/-- In such a slot the search ends at the size of what the walk takes for the first document,
if it reads no document there. -/
theorem slotAt_firstSize (h : HasDataPage memory id header)
    (hid : header.pageId.toNat % 256 ≠ 0)
    (hroom : firstSize header ≤ (memory.drop (64092 * id.toNat)).length)
    (hlt : firstSize header < 2 ^ 31)
    (hend : ((memory.drop (64092 * id.toNat)).drop (firstSize header)).length < 48
      ∨ ((memory.drop (64092 * id.toNat)).drop (firstSize header)).headD 0 = 0) :
  (pageOver id header).SlotAt memory (firstSize header)
  := by
  have hslot : 0 < (memory.drop (64092 * id.toNat)).length := by
    have hroom := h.room
    rw [List.length_drop]
    omega
  obtain ⟨rounds, hrounds⟩ : ∃ rounds, (memory.drop (64092 * id.toNat)).length = rounds + 1 :=
    ⟨_, (Nat.sub_add_cancel hslot).symm⟩
  rw [DataPage.SlotAt, pageOver]
  dsimp only
  rw [DataPage.findEmptySlot_of_next _ (h.getNext_slot hid hroom hlt), hrounds]
  exact DataPage.findEmptySlot_of_end rounds hend

/-- What the walk takes for the first document, read as a document. -/
theorem exists_document (h : HasDataPage memory id header)
    (hroom : firstSize header ≤ (memory.drop (64092 * id.toNat)).length) :
  ∃ document, Document.ofSlice ((memory.drop (64092 * id.toNat)).take (firstSize header))
      = .ok document
    ∧ document.header.documentId = header.pageId
    ∧ document.slice = (memory.drop (64092 * id.toNat)).take (firstSize header)
    ∧ document.header.contentLength.toNat + 48 = firstSize header
  := by
  have hfirst : 50 ≤ firstSize header := Nat.le_add_right 50 _
  have hread : ∀ i n, i + n ≤ 48 →
      Bytes.readLE (((memory.drop (64092 * id.toNat)).take (firstSize header)).drop i) n
        = Bytes.readLE ((memory.drop (64092 * id.toNat)).drop i) n := by
    intro i n hi
    apply Bytes.readLE_drop_congr
    intro j _ hj
    exact List.getElem?_take_of_lt (by omega)
  rw [Document.ofSlice, Document.DocumentHeader.read, if_neg]
  · refine ⟨_, rfl, ?_, rfl, ?_⟩
    · dsimp only
      rw [Span.readUInt16, hread _ _ (by decide), h.readLE_header (by decide)]
      rfl
    · dsimp only
      rw [Span.readUInt32, hread _ _ (by decide)]
      exact h.readUInt32_slot
  · rw [List.length_take, Nat.min_eq_left hroom, DOCUMENT_HEADER_SIZE_toNat]
    omega

/-- Under the id of the page the header and what comes behind it are found. -/
theorem findById_pageId (h : HasDataPage memory id header) (hid : header.pageId.toNat % 256 ≠ 0)
    (hroom : firstSize header ≤ (memory.drop (64092 * id.toNat)).length)
    (hlt : firstSize header < 2 ^ 31) :
  ∃ content, (pageOver id header).findById memory header.pageId = .ok (some content)
    ∧ content.length + 48 = firstSize header
  := by
  have hfirst : 50 ≤ firstSize header := Nat.le_add_right 50 _
  obtain ⟨document, hdocument, hsame, hslice, hlength⟩ := h.exists_document hroom
  have htake : document.slice.length = firstSize header := by
    rw [hslice, List.length_take, Nat.min_eq_left hroom]
  have hcontent : document.getContent
      = .ok ((document.slice.drop 48).take document.header.contentLength.toNat) := by
    rw [Document.getContent, Span.readBytes, toInt_of_lt (by omega), DOCUMENT_HEADER_SIZE_toNat,
      Int.toNat_natCast, if_neg (by omega), if_neg (by omega), if_neg (by omega),
      if_neg (by omega)]
  refine ⟨(document.slice.drop 48).take document.header.contentLength.toNat, ?_, ?_⟩
  · rw [DataPage.findById, pageOver]
    dsimp only
    rw [DataPage.findByIdFrom_of_next _ (h.getNext_slot hid hroom hlt) hdocument, if_pos hsame,
      hcontent]
    rfl
  · rw [List.length_take, List.length_drop]
    omega

/-- Where the walk reads one document no other id is found. -/
theorem findById_ne (h : HasDataPage memory id header) (hid : header.pageId.toNat % 256 ≠ 0)
    (hroom : firstSize header ≤ (memory.drop (64092 * id.toNat)).length)
    (hlt : firstSize header < 2 ^ 31)
    (hend : ((memory.drop (64092 * id.toNat)).drop (firstSize header)).length < 48
      ∨ ((memory.drop (64092 * id.toNat)).drop (firstSize header)).headD 0 = 0)
    {documentId : UInt16} (hne : header.pageId ≠ documentId) :
  (pageOver id header).findById memory documentId = .ok none
  := by
  have hfirst : 50 ≤ firstSize header := Nat.le_add_right 50 _
  obtain ⟨document, hdocument, hsame, -, -⟩ := h.exists_document hroom
  obtain ⟨rounds, hrounds⟩ : ∃ rounds, (memory.drop (64092 * id.toNat)).length = rounds + 1 :=
    ⟨_, (Nat.sub_add_cancel (by omega)).symm⟩
  rw [DataPage.findById, pageOver]
  dsimp only
  rw [DataPage.findByIdFrom_of_next _ (h.getNext_slot hid hroom hlt) hdocument, hsame, if_neg hne,
    hrounds, DataPage.findByIdFrom, Document.getNext_of_end hend]
  rfl

/-- In a slot of a page whose id has a nonzero low byte a search that ends in the memory ends
at or behind the size of what the walk takes for the first document. -/
theorem le_of_slotAt (h : HasDataPage memory id header) (hid : header.pageId.toNat % 256 ≠ 0)
    {d : Nat} (hslot : (pageOver id header).SlotAt memory d)
    (hd : 64092 * id.toNat + d < memory.length) :
  firstSize header ≤ d
  := by
  rw [DataPage.SlotAt, pageOver] at hslot
  dsimp only at hslot
  obtain ⟨⟨documentSlice, id', rest⟩, hnext, hrest⟩ := Except.bind_eq_ok_iff.mp hslot
  cases documentSlice with
  | none =>
      have hroom := h.room
      obtain ⟨-, hend⟩ := Document.getNext_eq_none hnext
      rcases hend with hend | hend
      · rw [List.length_drop] at hend
        omega
      · exfalso
        apply hid
        rw [← h.headD_slot, hend]
        rfl
  | some documentSlice =>
      obtain ⟨-, size, hsize, hint, -, rfl⟩ := Document.getNext_eq_some hnext
      have hfirst := toInt_eq_natCast hint
      rw [h.toNat_size] at hfirst
      obtain ⟨d', hd', hdrop, -⟩ := DataPage.findEmptySlot_eq_ok hrest
      have hlength := congrArg List.length hdrop
      simp only [List.length_drop] at hlength hd' hsize
      omega

end HasDataPage

/-! ### Fresh pages -/

/-- The slot of a page begins with the header of a data page with its id, all its bytes free
and the bytes behind the fields zero, as a header is written, and its document area is
zero. -/
structure FreshSlot (memory : Bytes) (id : UInt32) (header : PageHeader) : Prop extends
    HasDataPage memory id header where
  pageId : header.pageId.toNat = id.toNat
  free : header.pageNumberOfFreeBytes = PAGE_SIZE
  reserved : ∀ i, 18 ≤ i → i < 92 → header.bytes[i]? = some 0
  area : ∀ i, 92 ≤ i → i < 64092 → memory[64092 * id.toNat + i]? = some 0

/-- A block image whose first slots are fresh pages with the given headers. -/
def FreshImage (memory : Bytes) (headers : List PageHeader) : Prop :=
  ∀ (id : UInt32) (h : id.toNat < headers.length), FreshSlot memory id headers[id.toNat]

/-- Opening a page and adding a content saves the content and changes no byte outside the
document area of the page. -/
def AddsWithin (memory : Bytes) (id : UInt32) (content : Bytes) (typeId : UInt32) : Prop :=
  ∃ page result, getPageById memory id = .ok (.data page)
    ∧ page.tryAddContent memory content typeId = .ok result ∧ result.saved = true
    ∧ ∀ i, ¬ (64092 * id.toNat + 92 ≤ i ∧ i < 64092 * (id.toNat + 1)) →
        result.memory[i]? = memory[i]?

/-- A page is clear for a content of the given length: it is one of the pages of a block but
not the first one, what the walk takes for the first document covers its header, and the
document fits behind that into the page. -/
def Clear (id : UInt32) (header : PageHeader) (length : Nat) : Prop :=
  id ≠ 0 ∧ id.toNat ≤ 100 ∧ 92 ≤ firstSize header ∧ firstSize header + 48 + length ≤ 64092

instance (id : UInt32) (header : PageHeader) (length : Nat) :
    Decidable (Clear id header length) :=
  inferInstanceAs (Decidable (_ ∧ _))

namespace FreshSlot

variable {memory content : Bytes} {id : UInt32} {header : PageHeader}

/-- The call on a fresh page is accepted. -/
theorem accepts (id : UInt32)
    (hlength : content.length + 48 ≤ header.pageNumberOfFreeBytes.toNat) :
  DataPage.Accepts (pageOver id header).header content header.pageTypeId
  := ⟨rfl, Nat.le_of_add_right_le hlength⟩

/-- What adding a content within the document area of a fresh page comes to. -/
theorem addsWithin_iff (h : FreshSlot memory id header)
    (hlength : content.length + 48 ≤ header.pageNumberOfFreeBytes.toNat) :
  AddsWithin memory id content header.pageTypeId
    ↔ id.toNat ≤ 100 ∧ ∃ d, (pageOver id header).SlotAt memory d
        ∧ 64092 * id.toNat + d + 48 + content.length ≤ memory.length
        ∧ ∀ i, ¬ (64092 * id.toNat + 92 ≤ i ∧ i < 64092 * (id.toNat + 1)) →
            (Bytes.overwrite memory (64092 * id.toNat + d)
              (Document.encode header.pageNextDocumentId content))[i]? = memory[i]?
  := by
  constructor
  · rintro ⟨page, result, hpage, hresult, -, hsame⟩
    obtain ⟨hid, hheader, -⟩ := getPageById_eq_ok hpage
    rw [getPageById_eq_data hid h.toHasDataPage] at hpage
    cases hpage
    obtain ⟨d, hslot, hfits, rfl⟩ := DataPage.tryAddContent_eq_ok (accepts id hlength) hresult
    exact ⟨hid, d, hslot, hfits, hsame⟩
  · rintro ⟨hid, d, hslot, hfits, hsame⟩
    exact ⟨_, _, getPageById_eq_data hid h.toHasDataPage,
      DataPage.tryAddContent_of_slotAt (accepts id hlength) hslot hfits, rfl, hsame⟩

/-- On a fresh page that is clear the walk reads one document, which begins with the header and
ends in the document area. -/
theorem ends_of_clear (h : FreshSlot memory id header) {length : Nat}
    (hclear : Clear id header length) :
  header.pageId.toNat % 256 ≠ 0 ∧ firstSize header ≤ (memory.drop (64092 * id.toNat)).length
    ∧ firstSize header < 2 ^ 31
    ∧ ((memory.drop (64092 * id.toNat)).drop (firstSize header)).headD 0 = 0
  := by
  obtain ⟨hne, hid, hbehind, hfits⟩ := hclear
  have hroom := h.room
  have hpos : 0 < id.toNat := by
    apply Nat.pos_of_ne_zero
    intro hzero
    apply hne
    exact UInt32.toNat_inj.mp hzero
  refine ⟨?_, ?_, ?_, ?_⟩
  · rw [h.pageId]
    omega
  · rw [List.length_drop]
    omega
  · omega
  · rw [List.headD_eq_head?_getD, List.head?_drop, List.getElem?_drop,
      h.area (firstSize header) hbehind (by omega)]
    rfl

/-- On a fresh page that is clear for a content the walk comes to the slot behind the header. -/
theorem slotAt_of_clear (h : FreshSlot memory id header) {length : Nat}
    (hclear : Clear id header length) :
  (pageOver id header).SlotAt memory (firstSize header)
  := by
  obtain ⟨hlow, hwithin, hlt, hend⟩ := h.ends_of_clear hclear
  exact h.slotAt_firstSize hlow hwithin hlt (.inr hend)

/-- A content that a fresh page is clear for fits into the memory. -/
theorem fits_of_clear (h : FreshSlot memory id header) {length : Nat}
    (hclear : Clear id header length) :
  64092 * id.toNat + firstSize header + 48 + length ≤ memory.length
  := by
  have hroom := h.room
  have hfits := hclear.2.2.2
  omega

/-- A content is added within the document area of a page that is clear for it. -/
theorem addsWithin_of_clear (h : FreshSlot memory id header)
    (hlength : content.length + 48 ≤ header.pageNumberOfFreeBytes.toNat)
    (hclear : Clear id header content.length) :
  AddsWithin memory id content header.pageTypeId
  := by
  have hslot := h.slotAt_of_clear hclear
  have hinMemory := h.fits_of_clear hclear
  obtain ⟨hne, hid, hbehind, hfits⟩ := hclear
  apply (h.addsWithin_iff hlength).mpr
  refine ⟨hid, firstSize header, hslot, hinMemory, ?_⟩
  intro i hi
  have hinside : 64092 * id.toNat + firstSize header
      + (Document.encode header.pageNextDocumentId content).length ≤ memory.length := by
    rw [Document.length_encode]
    omega
  by_cases hbefore : i < 64092 * id.toNat + firstSize header
  · rw [Bytes.getElem?_overwrite_of_lt hinside hbefore]
  · rw [Bytes.getElem?_overwrite_of_le hinside]
    rw [Document.length_encode]
    omega

/-- On the first page of a block no content is added within the document area: the header of
the document goes over the number of free bytes. -/
theorem ne_zero_of_addsWithin (h : FreshSlot memory id header)
    (hlength : content.length + 48 ≤ header.pageNumberOfFreeBytes.toNat)
    (hadds : AddsWithin memory id content header.pageTypeId) :
  id ≠ 0
  := by
  rintro rfl
  obtain ⟨-, d, hslot, hfits, hsame⟩ := (h.addsWithin_iff hlength).mp hadds
  have hroom := h.room
  obtain rfl : d = 0 := by
    apply hslot.unique (h.slotAt_zero (by rw [h.pageId]; rfl))
    · change 64092 * (0 : UInt32).toNat + d ≤ memory.length
      omega
    · exact Nat.zero_le _
  have hinside : 0 + (Document.encode header.pageNextDocumentId content).length
      ≤ memory.length := by
    rw [Document.length_encode]
    omega
  have hbyte := hsame (0 + 12) (by omega)
  rw [Nat.add_zero, show 64092 * (0 : UInt32).toNat = 0 from rfl,
    Bytes.getElem?_overwrite_of_mem hinside (by rw [Document.length_encode]; omega)] at hbyte
  have hzero : (Document.encode header.pageNextDocumentId content)[12]? = some 0 := by
    have hbyte := Document.getElem?_encode_zero header.pageNextDocumentId content []
      (i := 12) (by decide) (by decide)
    rwa [List.append_nil] at hbyte
  have hheader := h.getElem?_header (i := 12) (by decide)
  rw [hzero, show 0 + 12 = 64092 * (0 : UInt32).toNat + 12 from rfl, hheader] at hbyte
  have hfree := congrArg UInt32.toNat h.free
  have hlow := UInt8.toNat_lt ((header.bytes.drop 11).headD 0)
  have hmid : (header.bytes.drop 11).tail.headD 0 = 0 := by
    rw [List.tail_drop, List.headD_eq_head?_getD, List.head?_drop, ← hbyte]
    rfl
  rw [PageHeader.pageNumberOfFreeBytes, Span.readUInt32_toNat, PAGE_SIZE_toNat,
    PageHeader.PAGE_NUMBER_OF_FREE_BYTES, Bytes.readLE, Bytes.readLE, hmid, UInt8.toNat_zero]
    at hfree
  omega

/-- A nonempty content is written behind the header of the page only where what the walk
takes for the first document covers the header. -/
theorem le_firstSize_of_addsWithin (h : FreshSlot memory id header) (hne : id ≠ 0)
    (hpos : 0 < content.length)
    (hlength : content.length + 48 ≤ header.pageNumberOfFreeBytes.toNat)
    (hadds : AddsWithin memory id content header.pageTypeId) :
  92 ≤ firstSize header
  := by
  by_contra hbefore
  have hfirst : firstSize header = 50 := by
    rw [firstSize] at hbefore ⊢
    omega
  obtain ⟨hid, d, hslot, hfits, hsame⟩ := (h.addsWithin_iff hlength).mp hadds
  have hroom := h.room
  have hpage : header.pageId.toNat % 256 ≠ 0 := by
    rw [h.pageId, Nat.mod_eq_of_lt (by omega)]
    intro hzero
    apply hne
    exact UInt32.toNat_inj.mp hzero
  have hend : ((memory.drop (64092 * id.toNat)).drop (firstSize header)).headD 0 = 0 := by
    rw [List.headD_eq_head?_getD, List.head?_drop, List.getElem?_drop, hfirst,
      h.getElem?_header (by decide), h.reserved 50 (by decide) (by decide)]
    rfl
  obtain rfl : d = 50 := by
    rw [← hfirst]
    apply hslot.unique (h.slotAt_firstSize hpage (by rw [List.length_drop]; omega)
      (by omega) (.inr hend))
    · change 64092 * id.toNat + d ≤ memory.length
      omega
    · change 64092 * id.toNat + firstSize header ≤ memory.length
      omega
  have hzero : Bytes.readLE ((memory.drop (64092 * id.toNat + 50)).drop 2) 4 = 0 := by
    apply Bytes.readLE_eq_zero
    intro i hi
    rw [List.drop_drop, List.getElem?_drop,
      show 64092 * id.toNat + 50 + 2 + i = 64092 * id.toNat + (52 + i) by omega,
      h.getElem?_header (by omega), h.reserved _ (by omega) (by omega)]
  have hwritten : Bytes.readLE (((Bytes.overwrite memory (64092 * id.toNat + 50)
      (Document.encode header.pageNextDocumentId content)).drop (64092 * id.toNat + 50)).drop 2) 4
        = content.length := by
    rw [Bytes.drop_overwrite (by omega), ← Span.readUInt32_toNat]
    change (Span.readUInt32 _ Document.DOCUMENT_LENGTH).toNat = _
    rw [h.free, PAGE_SIZE_toNat] at hlength
    rw [Document.readUInt32_encode, UInt32.toNat_ofNat', Nat.mod_eq_of_lt (by omega)]
  have hequal := Bytes.readLE_drop_congr (n := 4) (i := 64092 * id.toNat + 52)
    (fun j hj hj' => hsame j (by omega))
  rw [List.drop_drop] at hzero hwritten
  rw [show 64092 * id.toNat + 52 = 64092 * id.toNat + 50 + 2 by omega, hzero, hwritten]
    at hequal
  omega

/-- A content of the given length is added within the document area whatever its bytes are
only if it does not reach past the page. -/
theorem fits_of_addsWithin {length : Nat} (h : FreshSlot memory id header) (hne : id ≠ 0)
    (hpos : 0 < length) (hlength : length + 48 ≤ header.pageNumberOfFreeBytes.toNat)
    (hall : ∀ content : Bytes, content.length = length →
      AddsWithin memory id content header.pageTypeId) :
  firstSize header + 48 + length ≤ 64092
  := by
  obtain ⟨hid, d, hslot, hfits, -⟩ :=
    (h.addsWithin_iff (by rw [List.length_replicate]; exact hlength)).mp
      (hall (List.replicate length 0) List.length_replicate)
  rw [List.length_replicate] at hfits
  have hpage : header.pageId.toNat % 256 ≠ 0 := by
    rw [h.pageId, Nat.mod_eq_of_lt (by omega)]
    intro hzero
    apply hne
    exact UInt32.toNat_inj.mp hzero
  have hle := h.le_of_slotAt hpage hslot (by omega)
  by_contra hpast
  let last := 64092 * id.toNat + d + (48 + length - 1)
  let content : Bytes := List.replicate length (memory.getD last 0 + 1)
  have hcontent : content.length = length := List.length_replicate
  obtain ⟨-, d', hslot', hfits', hsame⟩ :=
    (h.addsWithin_iff (by rw [hcontent]; exact hlength)).mp (hall content hcontent)
  rw [hcontent] at hfits'
  obtain rfl : d = d' := by
    apply hslot.unique hslot'
    · change 64092 * id.toNat + d ≤ memory.length
      omega
    · change 64092 * id.toNat + d' ≤ memory.length
      omega
  have hlast := hsame last (by omega)
  have hencode : (Document.encode header.pageNextDocumentId content).length = 48 + length := by
    rw [Document.length_encode, hcontent]
  rw [Bytes.getElem?_overwrite_of_mem (by omega) (by omega), Document.encode,
    List.getElem?_append_right (by simp; omega), Document.DocumentHeader.length_toBytes,
    List.getElem?_replicate, if_pos (by omega)] at hlast
  have hbyte : memory.getD last 0 = memory.getD last 0 + 1 := by
    have hget := congrArg (fun b => b.getD 0) hlast
    rw [← List.getD_eq_getElem?_getD] at hget
    exact hget.symm
  simp at hbyte

end FreshSlot

/-! ### Writes of all pages of a block image -/

section Image

variable {memory : Bytes} {headers : List PageHeader}

/-- Where a page of a fresh block image is clear for contents of a given length, they are all
added within its document area; a nonempty length for which this holds is one the page is
clear for. -/
theorem addsWithin_iff_clear (himage : FreshImage memory headers) {id : UInt32}
    (hid : id.toNat < headers.length) {length : Nat}
    (hlength : length + 48 ≤ (headers[id.toNat]).pageNumberOfFreeBytes.toNat) :
  (Clear id headers[id.toNat] length → ∀ content : Bytes, content.length = length →
      AddsWithin memory id content (headers[id.toNat]).pageTypeId)
    ∧ (0 < length → (∀ content : Bytes, content.length = length →
        AddsWithin memory id content (headers[id.toNat]).pageTypeId) →
          Clear id headers[id.toNat] length)
  := by
  have hslot := himage id hid
  constructor
  · rintro hclear content rfl
    exact hslot.addsWithin_of_clear hlength hclear
  · intro hpos hall
    have hzeros := hall (List.replicate length 0) List.length_replicate
    have hzeros_length : (List.replicate length (0 : UInt8)).length = length :=
      List.length_replicate
    have hne := hslot.ne_zero_of_addsWithin (by rw [hzeros_length]; exact hlength) hzeros
    have hle := hslot.le_firstSize_of_addsWithin hne (by rw [hzeros_length]; exact hpos)
      (by rw [hzeros_length]; exact hlength) hzeros
    obtain ⟨hid, -⟩ := (hslot.addsWithin_iff (by rw [hzeros_length]; exact hlength)).mp hzeros
    exact ⟨hne, hid, hle, hslot.fits_of_addsWithin hne hpos hlength hall⟩

end Image

/-! ### Block images from headers -/

/-- The block image of fresh pages with the given headers. -/
def image (headers : List PageHeader) : Bytes :=
  headers.flatMap (fun header => header.bytes ++ List.replicate 64000 0)

/-- The image has a slot for every header. -/
theorem length_image :
  ∀ headers : List PageHeader, (image headers).length = 64092 * headers.length
  | [] => rfl
  | header :: headers => by
      have hrest := length_image headers
      rw [image, List.flatMap_cons, List.length_append, List.length_append, header.length_bytes,
        List.length_replicate, ← image, hrest, List.length_cons]
      omega

/-- The slots of the image from a page on. -/
theorem drop_image :
  ∀ (headers : List PageHeader) (p : Nat), (h : p < headers.length) →
    (image headers).drop (64092 * p)
      = (headers[p].bytes ++ List.replicate 64000 0) ++ image (headers.drop (p + 1))
  | [], _, h => by simp at h
  | _ :: _, 0, _ => rfl
  | header :: headers, p + 1, h => by
      have hfirst : (header.bytes ++ List.replicate 64000 (0 : UInt8)).length = 64092 := by
        rw [List.length_append, header.length_bytes, List.length_replicate]
      have hrest := drop_image headers p (by simpa using h)
      rw [image, List.flatMap_cons, show 64092 * (p + 1) = 64092 + 64092 * p by omega,
        ← hfirst, List.drop_length_add_append, hfirst]
      exact hrest

/-- An image of data pages with their numbers as ids and all bytes free is fresh. -/
theorem freshImage_image {headers : List PageHeader}
    (hpages : ∀ (p : Nat) (h : p < headers.length), headers[p].pageId.toNat = p
      ∧ headers[p].pageType = PageType.data.toByte
      ∧ headers[p].pageNumberOfFreeBytes = PAGE_SIZE
      ∧ ∀ i, 18 ≤ i → i < 92 → headers[p].bytes[i]? = some 0) :
  FreshImage (image headers) headers
  := by
  intro id h
  obtain ⟨hid, htype, hfree, hreserved⟩ := hpages id.toNat h
  have hdrop := drop_image headers id.toNat h
  have hsize := headers[id.toNat].length_bytes
  have hlength := congrArg List.length hdrop
  simp only [List.length_drop, List.length_append, hsize, List.length_replicate] at hlength
  refine ⟨⟨by omega, ?_, htype⟩, hid, hfree, hreserved, ?_⟩
  · rw [hdrop, List.append_assoc, ← hsize, List.take_left]
  · intro i hi hi'
    rw [← List.getElem?_drop, hdrop, List.append_assoc, List.getElem?_append_right (by omega),
      List.getElem?_append_left (by rw [List.length_replicate]; omega), List.getElem?_replicate,
      if_pos (by omega)]

/-- The header of a fresh page with the given neighbours. -/
def freshHeader (id prev next : UInt16) : PageHeader :=
  (((((PageHeader.zero.setPageId id).setPageType PageType.data.toByte).setPagePrevId
    prev).setPageNextId next).setPageNextDocumentId 1).setPageNumberOfFreeBytes PAGE_SIZE

/-- The bytes behind the fields of a fresh page are zero. -/
theorem freshHeader_reserved {id prev next : UInt16} {i : Nat} (h : 18 ≤ i) (h' : i < 92) :
  (freshHeader id prev next).bytes[i]? = some 0
  := by
  simp only [freshHeader, PageHeader.setPageId, PageHeader.setPageType,
    PageHeader.setPagePrevId, PageHeader.setPageNextId, PageHeader.setPageNextDocumentId,
    PageHeader.setPageNumberOfFreeBytes, PageHeader.PAGE_ID, PageHeader.PAGE_TYPE,
    PageHeader.PAGE_PREV_ID, PageHeader.PAGE_NEXT_ID, PageHeader.PAGE_NEXT_DOCUMENT_ID,
    PageHeader.PAGE_NUMBER_OF_FREE_BYTES]
  iterate 6 rw [PageHeader.getElem?_assign_of_le (by simp; omega)]
  rw [PageHeader.zero, List.getElem?_replicate, if_pos h']

/-- The image of the first two pages of a block, the second one with the page `1` before
it. -/
theorem freshImage_two :
  FreshImage (image [freshHeader 0 0 0, freshHeader 1 1 0])
    [freshHeader 0 0 0, freshHeader 1 1 0]
  := by
  have hfree : (freshHeader 0 0 0).pageNumberOfFreeBytes = PAGE_SIZE := by decide
  have hfree' : (freshHeader 1 1 0).pageNumberOfFreeBytes = PAGE_SIZE := by decide
  apply freshImage_image
  intro p h
  match p with
  | 0 => exact ⟨rfl, rfl, hfree, fun _ => freshHeader_reserved⟩
  | 1 => exact ⟨rfl, rfl, hfree', fun _ => freshHeader_reserved⟩

/-- Of these two pages the second one is clear for a content of one byte. -/
theorem addsWithin_two :
  AddsWithin (image [freshHeader 0 0 0, freshHeader 1 1 0]) 1 [7]
    (freshHeader 1 1 0).pageTypeId
  := (addsWithin_iff_clear freshImage_two (by decide : (1 : UInt32).toNat < 2) (by decide)).1
    (by decide) [7] rfl

/-- The pages of every fresh block image take contents within their document areas. -/
def WritesStay : Prop :=
  ∀ (memory : Bytes) (headers : List PageHeader), headers.length ≤ 100 →
    FreshImage memory headers → ∀ (id : UInt32) (h : id.toNat < headers.length)
      (content : Bytes),
      content.length + 48 ≤ headers[id.toNat].pageNumberOfFreeBytes.toNat →
        AddsWithin memory id content headers[id.toNat].pageTypeId

/-- Adding a content of one byte to the first page goes over the header of the page. -/
theorem not_writesStay :
  ¬ WritesStay
  := by
  intro h
  have hadds := h _ _ (by decide) freshImage_two 0 (by decide) [7] (by decide)
  exact (freshImage_two 0 (by decide)).ne_zero_of_addsWithin (by decide) hadds rfl

end Datatent.DataPageManager
