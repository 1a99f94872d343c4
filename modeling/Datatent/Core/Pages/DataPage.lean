import Datatent.Core.Document.Document
import Datatent.Core.Pages.BasePage

/-!
# Data pages

A data page keeps a header and a slice of the memory of its block that goes from `start` to
the end. The documents of the page are found by walking over this slice, so its operations
take the memory and give the memory back.
-/

namespace Datatent

open Constants

/-- A data page: its header and the position in the memory where its slice starts. -/
structure DataPage where
  header : PageHeader
  start : Nat
  isDirty : Bool

/-- What `TryAddContent` returns, with the page and the memory after the call. -/
structure AddResult where
  saved : Bool
  id : UInt16
  page : DataPage
  memory : Bytes

namespace DataPage

/-- `InitEmpty`: a page over the slice from `start` on, of which nothing is written yet. -/
def initEmpty (memory : Bytes) (start : Nat) (pageId : UInt16) (pageType : PageType) :
    Except Fault DataPage :=
  if (memory.drop start).length < PAGE_SIZE_INCL_HEADER.toNat then .error .argument
  else .ok
    { header := (((((((PageHeader.zero.setPageId pageId).setPageType
        pageType.toByte).setPageNextId 0xFFFF).setPagePrevId 0xFFFF).setPageNumberOfEntries
        0).setPageNextDocumentId 1).setPageNumberOfFreeBytes DATA_BLOCK_SIZE)
      start := start
      isDirty := false }

/-- `InitExisting`: a page with the header its slice begins with. -/
def initExisting (memory : Bytes) (start : Nat) : Except Fault DataPage :=
  if (memory.drop start).length < PAGE_SIZE_INCL_HEADER.toNat then .error .argument
  else do
    let header ← PageHeader.read (memory.drop start)
    return { header := header, start := start, isDirty := false }

/-- Move the iterator past the documents at its front. The loop is given more rounds than
the slice has bytes, so one that takes more comes back to a slice it has seen. -/
def findEmptySlot : Nat → Bytes → Except Fault Bytes
  | 0, _ => .error .endless
  | rounds + 1, sliceIterator => do
      let (documentSlice, _, sliceIterator) ←
        Document.getNextDocumentSliceAndAdjustOffset sliceIterator
      match documentSlice with
      | none => return sliceIterator
      | some _ => findEmptySlot rounds sliceIterator

/-- The content of the first document with the given id, as `FindById` finds it in
`IterateAllDocuments`; the documents after it are not read. -/
def findByIdFrom (id : UInt16) : Nat → Bytes → Except Fault (Option Bytes)
  | 0, _ => .error .endless
  | rounds + 1, sliceIterator => do
      let (documentSlice, _, sliceIterator) ←
        Document.getNextDocumentSliceAndAdjustOffset sliceIterator
      match documentSlice with
      | none => return none
      | some documentSlice =>
          let document ← Document.ofSlice documentSlice
          if document.header.documentId = id then
            return some (← document.getContent)
          else
            findByIdFrom id rounds sliceIterator

/-- The content of the document with the given id. -/
def findById (page : DataPage) (memory : Bytes) (id : UInt16) : Except Fault (Option Bytes) :=
  findByIdFrom id ((memory.drop page.start).length + 1) (memory.drop page.start)

/-- The header after a document with the given content length was added. -/
def addEntry (header : PageHeader) (contentLength : UInt32) : PageHeader :=
  let header := header.setPageNumberOfEntries (header.pageNumberOfEntries + 1)
  let header := header.setPageNextDocumentId (header.pageNextDocumentId + 1)
  header.setPageNumberOfFreeBytes
    (header.pageNumberOfFreeBytes - (contentLength + DOCUMENT_HEADER_SIZE))

/-- Add the content as a document behind the documents of the page. -/
def tryAddContent (page : DataPage) (memory : Bytes) (content : Bytes) (typeId : UInt32) :
    Except Fault AddResult :=
  if typeId ≠ page.header.pageTypeId then
    .ok { saved := false, id := 0, page := page, memory := memory }
  else if page.header.pageNumberOfFreeBytes.toNat < content.length then
    .ok { saved := false, id := 0, page := page, memory := memory }
  else do
    let pageMemorySlice := memory.drop page.start
    let sliceIterator ← findEmptySlot (pageMemorySlice.length + 1) pageMemorySlice
    let document ←
      (Document.create sliceIterator page.header.pageNextDocumentId).update content
    return {
      saved := true
      id := document.header.documentId
      page := { page with
        header := addEntry page.header document.header.contentLength
        isDirty := true }
      memory := memory.take (memory.length - sliceIterator.length) ++ document.slice }

/-- The first document of a page from `InitEmpty` gets the id one. -/
theorem initEmpty_pageNextDocumentId {memory : Bytes} {start : Nat} {id : UInt16}
    {type : PageType} {page : DataPage} (h : initEmpty memory start id type = .ok page) :
  page.header.pageNextDocumentId = 1
  := by
  rw [initEmpty] at h
  split at h
  · cases h
  · cases h
    simp only [PageHeader.pageNextDocumentId, PageHeader.setPageNumberOfFreeBytes,
      PageHeader.setPageNextDocumentId, PageHeader.PAGE_NEXT_DOCUMENT_ID]
    rw [PageHeader.readUInt16_assign_of_disjoint (.inl (by decide)),
      PageHeader.readUInt16_assign_same]

/-- The slice of a page from `InitEmpty` starts where it was told to. -/
theorem initEmpty_start {memory : Bytes} {start : Nat} {id : UInt16}
    {type : PageType} {page : DataPage} (h : initEmpty memory start id type = .ok page) :
  page.start = start
  := by
  rw [initEmpty] at h
  split at h
  · cases h
  · cases h
    rfl

/-! ### The header after a document was added -/

section AddEntry

variable (header : PageHeader) (contentLength : UInt32)

@[simp]
theorem addEntry_pageId :
  (addEntry header contentLength).pageId = header.pageId
  := by
  simp only [addEntry, PageHeader.pageId, PageHeader.setPageNumberOfFreeBytes,
    PageHeader.setPageNextDocumentId, PageHeader.setPageNumberOfEntries, PageHeader.PAGE_ID]
  rw [PageHeader.readUInt16_assign_of_disjoint (.inl (by decide)),
    PageHeader.readUInt16_assign_of_disjoint (.inl (by decide)),
    PageHeader.readUInt16_assign_of_disjoint (.inl (by decide))]

@[simp]
theorem addEntry_pageNextDocumentId :
  (addEntry header contentLength).pageNextDocumentId = header.pageNextDocumentId + 1
  := by
  simp only [addEntry, PageHeader.pageNextDocumentId, PageHeader.setPageNumberOfFreeBytes,
    PageHeader.setPageNextDocumentId, PageHeader.setPageNumberOfEntries,
    PageHeader.PAGE_NEXT_DOCUMENT_ID]
  rw [PageHeader.readUInt16_assign_of_disjoint (.inl (by decide)),
    PageHeader.readUInt16_assign_same,
    PageHeader.readUInt16_assign_of_disjoint (.inr (by simp [PageHeader.PAGE_NUMBER_OF_ENTRIES]))]

@[simp]
theorem addEntry_pageNumberOfEntries :
  (addEntry header contentLength).pageNumberOfEntries = header.pageNumberOfEntries + 1
  := by
  simp only [addEntry, PageHeader.pageNumberOfEntries, PageHeader.setPageNumberOfFreeBytes,
    PageHeader.setPageNextDocumentId, PageHeader.setPageNumberOfEntries,
    PageHeader.PAGE_NUMBER_OF_ENTRIES]
  rw [PageHeader.readUInt16_assign_of_disjoint (.inl (by decide)),
    PageHeader.readUInt16_assign_of_disjoint
      (.inl (by simp [PageHeader.PAGE_NEXT_DOCUMENT_ID])),
    PageHeader.readUInt16_assign_same]

/-- Counting a document leaves the `uint` fields, which lie behind the counters. -/
theorem readUInt32_count (entries next : UInt16) (i : Nat) (hi : 11 ≤ i) :
  Span.readUInt32 ((header.setPageNumberOfEntries entries).setPageNextDocumentId next).bytes i
    = Span.readUInt32 header.bytes i
  := by
  rw [PageHeader.setPageNextDocumentId, PageHeader.readUInt32_assign_of_disjoint,
    PageHeader.setPageNumberOfEntries, PageHeader.readUInt32_assign_of_disjoint]
  · simp [PageHeader.PAGE_NUMBER_OF_ENTRIES]
    omega
  · simp [PageHeader.PAGE_NEXT_DOCUMENT_ID]
    omega

@[simp]
theorem addEntry_pageNumberOfFreeBytes :
  (addEntry header contentLength).pageNumberOfFreeBytes
    = header.pageNumberOfFreeBytes - (contentLength + DOCUMENT_HEADER_SIZE)
  := by
  simp only [addEntry, PageHeader.setPageNumberOfFreeBytes_pageNumberOfFreeBytes]
  congr 1
  apply readUInt32_count _ _ _ _ (by decide)

/-- While the number of free bytes stays below `2 ^ 24`, so that the byte it shares with the
type id is zero, a further document keeps the type id. -/
theorem addEntry_pageTypeId (hfree : header.pageNumberOfFreeBytes.toNat < 2 ^ 24)
    (hcost : contentLength.toNat + 48 ≤ header.pageNumberOfFreeBytes.toNat) :
  (addEntry header contentLength).pageTypeId = header.pageTypeId
  := by
  have hcount := readUInt32_count header (header.pageNumberOfEntries + 1)
    ((header.setPageNumberOfEntries
      (header.pageNumberOfEntries + 1)).pageNextDocumentId + 1)
  have hvalue : (header.pageNumberOfFreeBytes
      - (contentLength + DOCUMENT_HEADER_SIZE)).toNat < 2 ^ 24 := by
    have hsum : (contentLength + DOCUMENT_HEADER_SIZE).toNat = contentLength.toNat + 48 := by
      rw [UInt32.toNat_add, DOCUMENT_HEADER_SIZE_toNat]
      omega
    rw [UInt32.toNat_sub_of_le _ _ (UInt32.le_iff_toNat_le.mpr (by omega))]
    omega
  apply Eq.trans (PageHeader.setPageNumberOfFreeBytes_pageTypeId _)
  · exact hcount _ (by decide)
  · rw [PageHeader.pageNumberOfFreeBytes, hcount _ (by decide)]
    change (header.pageNumberOfFreeBytes - _).toNat / _ = header.pageNumberOfFreeBytes.toNat / _
    rw [Nat.div_eq_of_lt hvalue, Nat.div_eq_of_lt hfree]

end AddEntry

/-! ### A call that gets past the checks -/

/-- Whether a call gets past the checks on the type and on the free bytes of the page. -/
def Accepts (header : PageHeader) (content : Bytes) (typeId : UInt32) : Prop :=
  typeId = header.pageTypeId ∧ content.length ≤ header.pageNumberOfFreeBytes.toNat

instance (header : PageHeader) (content : Bytes) (typeId : UInt32) :
    Decidable (Accepts header content typeId) :=
  inferInstanceAs (Decidable (_ ∧ _))

variable {page : DataPage} {memory content : Bytes} {typeId : UInt32}

/-- A call that fails a check reports that nothing is saved and changes nothing. -/
theorem tryAddContent_of_not_accepts (h : ¬ Accepts page.header content typeId) :
  page.tryAddContent memory content typeId
    = .ok { saved := false, id := 0, page := page, memory := memory }
  := by
  rw [tryAddContent]
  split
  · rfl
  · rw [if_pos]
    by_contra hfree
    apply h
    constructor
    · tauto
    · omega

/-- A call that gets past the checks ends as the search for an empty slot and the writing
of the document there end. -/
theorem tryAddContent_of_accepts (h : Accepts page.header content typeId) :
  page.tryAddContent memory content typeId = do
    let sliceIterator ← findEmptySlot ((memory.drop page.start).length + 1)
      (memory.drop page.start)
    let document ←
      (Document.create sliceIterator page.header.pageNextDocumentId).update content
    return {
      saved := true
      id := document.header.documentId
      page := { page with
        header := addEntry page.header document.header.contentLength
        isDirty := true }
      memory := memory.take (memory.length - sliceIterator.length) ++ document.slice }
  := by
  obtain ⟨htype, hfree⟩ := h
  rw [tryAddContent, if_neg (by simpa using htype), if_neg (by omega)]

/-- Where the document fits behind the documents of the page it is written there. -/
theorem tryAddContent_of_fits {pre slot : Bytes} (h : Accepts page.header content typeId)
    (hmemory : memory = pre ++ slot)
    (hslot : findEmptySlot ((memory.drop page.start).length + 1) (memory.drop page.start)
      = .ok slot)
    (hfits : 48 + content.length ≤ slot.length) :
  page.tryAddContent memory content typeId = .ok
    { saved := true
      id := page.header.pageNextDocumentId
      page := { page with
        header := addEntry page.header (UInt32.ofNat content.length)
        isDirty := true }
      memory := pre ++ Bytes.overwrite slot 0
        (Document.encode page.header.pageNextDocumentId content) }
  := by
  have hpre : memory.take (memory.length - slot.length) = pre := by
    rw [hmemory, List.length_append, Nat.add_sub_cancel, List.take_left]
  rw [tryAddContent_of_accepts h, hslot]
  simp only [bind, Except.bind, Document.update_create hfits, hpre]
  rfl

/-- Where no header with a first byte of the content fits behind the documents of the page the
call throws and writes nothing. -/
theorem tryAddContent_of_full {slot : Bytes} (h : Accepts page.header content typeId)
    (hslot : findEmptySlot ((memory.drop page.start).length + 1) (memory.drop page.start)
      = .ok slot)
    (hfull : slot.length < 48 + min content.length 1) :
  ∃ fault, page.tryAddContent memory content typeId = .error fault ∧ fault ≠ .outsideSlice
  := by
  obtain ⟨fault, hupdate, hfault⟩ := Document.update_create_of_short
    page.header.pageNextDocumentId hfull
  refine ⟨fault, ?_, hfault⟩
  rw [tryAddContent_of_accepts h, hslot]
  simp only [bind, Except.bind, hupdate]

/-- Where a part of the content fits behind the documents of the page the copy leaves the
slice. -/
theorem tryAddContent_of_overrun {slot : Bytes} (h : Accepts page.header content typeId)
    (hslot : findEmptySlot ((memory.drop page.start).length + 1) (memory.drop page.start)
      = .ok slot)
    (hheader : 48 < slot.length) (hcontent : slot.length < 48 + content.length) :
  page.tryAddContent memory content typeId = .error .outsideSlice
  := by
  rw [tryAddContent_of_accepts h, hslot]
  simp only [bind, Except.bind, Document.update_create_of_overrun hheader hcontent]

/-- Where the search for an empty slot fails the call fails with it. -/
theorem tryAddContent_of_error {fault : Fault} (h : Accepts page.header content typeId)
    (hslot : findEmptySlot ((memory.drop page.start).length + 1) (memory.drop page.start)
      = .error fault) :
  page.tryAddContent memory content typeId = .error fault
  := by
  rw [tryAddContent_of_accepts h, hslot]
  rfl

/-! ### Steps of the walk -/

/-- The search stops where the walk reads no document. -/
theorem findEmptySlot_of_end {slot : Bytes} (rounds : Nat)
    (h : slot.length < 48 ∨ slot.headD 0 = 0) :
  findEmptySlot (rounds + 1) slot = .ok slot
  := by
  simp only [findEmptySlot, Document.getNext_of_end h]
  rfl

/-- The search goes past a document the walk reads. -/
theorem findEmptySlot_of_next {slot documentSlice rest : Bytes} {id : UInt16} (rounds : Nat)
    (h : Document.getNextDocumentSliceAndAdjustOffset slot = .ok (some documentSlice, id, rest)) :
  findEmptySlot (rounds + 1) slot = findEmptySlot rounds rest
  := by
  simp only [findEmptySlot, h]
  rfl

/-- The search for an id looks at a document the walk reads and goes past it. -/
theorem findByIdFrom_of_next {slot documentSlice rest : Bytes} {id id' : UInt16}
    {document : Document} (rounds : Nat)
    (h : Document.getNextDocumentSliceAndAdjustOffset slot
      = .ok (some documentSlice, id', rest))
    (hdocument : Document.ofSlice documentSlice = .ok document) :
  findByIdFrom id (rounds + 1) slot
    = if document.header.documentId = id then some <$> document.getContent
      else findByIdFrom id rounds rest
  := by
  simp only [findByIdFrom, h, hdocument, Except.ok_bind]
  rfl

/-- The empty slot is a later part of the memory at which the walk reads no document. -/
theorem findEmptySlot_eq_ok :
  ∀ {rounds : Nat} {memory slot : Bytes}, findEmptySlot rounds memory = .ok slot →
    ∃ d ≤ memory.length, slot = memory.drop d ∧ (slot.length < 48 ∨ slot.headD 0 = 0)
  := by
  intro rounds
  induction rounds with
  | zero =>
      intro memory slot h
      cases h
  | succ rounds ih =>
      intro memory slot h
      obtain ⟨⟨documentSlice, id, rest⟩, hnext, hrest⟩ := Except.bind_eq_ok_iff.mp h
      cases documentSlice with
      | none =>
          cases hrest
          obtain ⟨rfl, hend⟩ := Document.getNext_eq_none hnext
          exact ⟨0, Nat.zero_le _, rfl, hend⟩
      | some documentSlice =>
          obtain ⟨-, size, hsize, -, -, rfl⟩ := Document.getNext_eq_some hnext
          obtain ⟨d, hd, rfl, hend⟩ := ih hrest
          rw [List.length_drop] at hd
          refine ⟨size + d, by omega, ?_, hend⟩
          rw [List.drop_drop]

/-- The search for an empty slot fails because a size does not lie in the slice or because
it does not end. -/
theorem findEmptySlot_eq_error {fault : Fault} :
  ∀ {rounds : Nat} {memory : Bytes}, findEmptySlot rounds memory = .error fault →
    fault = .argumentOutOfRange ∨ fault = .endless
  := by
  intro rounds
  induction rounds with
  | zero =>
      intro memory h
      cases h
      exact .inr rfl
  | succ rounds ih =>
      intro memory h
      cases hnext : Document.getNextDocumentSliceAndAdjustOffset memory with
      | error fault' =>
          simp only [findEmptySlot, hnext, Except.error_bind] at h
          cases h
          exact .inl (Document.getNext_eq_error hnext)
      | ok next =>
          obtain ⟨documentSlice, id, rest⟩ := next
          simp only [findEmptySlot, hnext, Except.ok_bind] at h
          cases documentSlice with
          | none => cases h
          | some documentSlice => exact ih h

/-! ### Where a document is written -/

/-- The result of a call that writes the document at `d` in the slice of the page. -/
def addedAt (page : DataPage) (memory : Bytes) (d : Nat) (content : Bytes) : AddResult where
  saved := true
  id := page.header.pageNextDocumentId
  page := { page with
    header := addEntry page.header (UInt32.ofNat content.length)
    isDirty := true }
  memory := Bytes.overwrite memory (page.start + d)
    (Document.encode page.header.pageNextDocumentId content)

/-- The search for an empty slot comes to an end at `d` in the slice of the page. -/
def SlotAt (page : DataPage) (memory : Bytes) (d : Nat) : Prop :=
  findEmptySlot ((memory.drop page.start).length + 1) (memory.drop page.start)
    = .ok ((memory.drop page.start).drop d)

/-- The search comes to an end at one place of the slice. -/
theorem SlotAt.unique {d d' : Nat} (h : page.SlotAt memory d) (h' : page.SlotAt memory d')
    (hd : page.start + d ≤ memory.length) (hd' : page.start + d' ≤ memory.length) :
  d = d'
  := by
  have hlength := congrArg List.length (Except.ok.inj (h.symm.trans h'))
  simp only [List.length_drop] at hlength
  omega

/-- An accepted call writes the document where the search comes to an end, if it fits there. -/
theorem tryAddContent_of_slotAt {d : Nat} (h : Accepts page.header content typeId)
    (hslot : page.SlotAt memory d)
    (hfits : page.start + d + 48 + content.length ≤ memory.length) :
  page.tryAddContent memory content typeId = .ok (page.addedAt memory d content)
  := by
  have htake : (memory.take (page.start + d)).length = page.start + d := by
    rw [List.length_take]
    omega
  have hmemory : memory = memory.take (page.start + d) ++ (memory.drop page.start).drop d := by
    rw [List.drop_drop, List.take_append_drop]
  rw [tryAddContent_of_fits h hmemory hslot, Bytes.append_overwrite_zero, ← hmemory, htake,
    addedAt]
  rw [List.length_drop, List.length_drop]
  omega

/-- What an accepted call with a result did: it wrote the document where the search came to
an end. -/
theorem tryAddContent_eq_ok {result : AddResult} (h : Accepts page.header content typeId)
    (hresult : page.tryAddContent memory content typeId = .ok result) :
  ∃ d, page.SlotAt memory d ∧ page.start + d + 48 + content.length ≤ memory.length
    ∧ result = page.addedAt memory d content
  := by
  cases hslot : findEmptySlot ((memory.drop page.start).length + 1)
      (memory.drop page.start) with
  | error fault =>
      rw [tryAddContent_of_error h hslot] at hresult
      cases hresult
  | ok slot =>
      obtain ⟨d, hd, rfl, -⟩ := findEmptySlot_eq_ok hslot
      by_cases hheader : ((memory.drop page.start).drop d).length < 48 + min content.length 1
      · obtain ⟨fault, hfull, -⟩ := tryAddContent_of_full h hslot hheader
        rw [hfull] at hresult
        cases hresult
      by_cases hcontent : ((memory.drop page.start).drop d).length < 48 + content.length
      · rw [tryAddContent_of_overrun h hslot (by omega) hcontent] at hresult
        cases hresult
      rw [List.length_drop, List.length_drop] at hheader hcontent
      have hfits : page.start + d + 48 + content.length ≤ memory.length := by omega
      rw [tryAddContent_of_slotAt h hslot hfits] at hresult
      cases hresult
      exact ⟨d, hslot, hfits, rfl⟩

/-- An accepted call that finds no room for a header and a first byte of its content throws
before it writes. -/
theorem tryAddContent_eq_error {fault : Fault} (h : Accepts page.header content typeId)
    (hfull : ∀ d, page.SlotAt memory d →
      memory.length < page.start + d + 48 + min content.length 1)
    (hfault : page.tryAddContent memory content typeId = .error fault) :
  fault ≠ .outsideSlice
  := by
  cases hslot : findEmptySlot ((memory.drop page.start).length + 1)
      (memory.drop page.start) with
  | error fault' =>
      rw [tryAddContent_of_error h hslot] at hfault
      cases hfault
      rcases findEmptySlot_eq_error hslot with rfl | rfl
      · decide
      · decide
  | ok slot =>
      obtain ⟨d, hd, rfl, -⟩ := findEmptySlot_eq_ok hslot
      have hlength := hfull d hslot
      obtain ⟨fault', hfull', hne⟩ := tryAddContent_of_full h hslot
        (by rw [List.length_drop, List.length_drop]; omega)
      rw [hfull'] at hfault
      cases hfault
      exact hne

/-- An accepted call that finds room for a header and a first byte of its content but not for
the content copies past the slice. -/
theorem tryAddContent_of_slotAt_overrun {d : Nat} (h : Accepts page.header content typeId)
    (hslot : page.SlotAt memory d)
    (hheader : page.start + d + 48 + min content.length 1 ≤ memory.length)
    (hcontent : memory.length < page.start + d + 48 + content.length) :
  page.tryAddContent memory content typeId = .error .outsideSlice
  := by
  apply tryAddContent_of_overrun h hslot
  · rw [List.length_drop, List.length_drop]
    omega
  · rw [List.length_drop, List.length_drop]
    omega

/-! ### Documents that are not found -/

/-- A document whose id has a zero low byte is never found, whatever the memory holds. -/
theorem findByIdFrom_ne_some {id : UInt16} (hid : id.toNat % 256 = 0) (content : Bytes) :
  ∀ (rounds : Nat) (slot : Bytes), findByIdFrom id rounds slot ≠ .ok (some content)
  := by
  intro rounds
  induction rounds with
  | zero =>
      intro slot h
      cases h
  | succ rounds ih =>
      intro slot h
      obtain ⟨⟨documentSlice, id', rest⟩, hnext, h⟩ := Except.bind_eq_ok_iff.mp h
      cases documentSlice with
      | none => cases h
      | some documentSlice =>
          obtain ⟨document, hdocument, h⟩ := Except.bind_eq_ok_iff.mp h
          split at h
          · rename_i hfound
            obtain ⟨hhead, size, -, -, rfl, rfl⟩ := Document.getNext_eq_some hnext
            obtain ⟨hsize, hread⟩ := Document.ofSlice_eq_ok hdocument
            have hfront : (slot.take size).headD 0 = slot.headD 0 := by
              rw [List.length_take] at hsize
              cases slot with
              | nil => simp
              | cons b slot =>
                  obtain ⟨n, rfl⟩ : ∃ n, size = n + 1 := ⟨size - 1, by omega⟩
                  rfl
            apply hhead
            apply UInt8.toNat_inj.mp
            rw [← hfront, ← Span.readUInt16_zero_mod, ← hread, hfound, hid]
            rfl
          · exact ih _ h

end DataPage

end Datatent
