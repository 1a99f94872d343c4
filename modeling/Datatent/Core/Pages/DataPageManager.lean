import Datatent.Core.Pages.DataPage

/-!
# The page manager

The pages of a block are the slots of its memory: the page with the number `id` has the slice
that starts at `id` times the size of a page with its header.
-/

namespace Datatent

open Constants

/-- A page as the manager returns it. -/
inductive BasePage where
  | data (page : DataPage)
  | null

namespace DataPageManager

/-- The page types that a byte may stand for. -/
def possiblePageTypesAsByte : List UInt8 := [0, 1, 2, 3, 9]

/-- Whether the slice begins with a page, and the byte of its type. -/
def hasNextPage (slice : Bytes) : Bool × UInt8 :=
  if slice.length < PAGE_SIZE_INCL_HEADER.toNat then (false, PageType.empty.toByte)
  else
    let pageTypeByte := slice.getD PageHeader.PAGE_TYPE 0
    if pageTypeByte = 0 then (false, PageType.empty.toByte)
    else if pageTypeByte ∉ possiblePageTypesAsByte then (false, PageType.empty.toByte)
    else (true, pageTypeByte)

/-- The page of the given type over the slice that starts at `start`. -/
def checkPageAndInit (memory : Bytes) (pageType : UInt8) (start : Nat) :
    Except Fault BasePage :=
  if pageType = PageType.data.toByte then do
    let page ← DataPage.initExisting memory start
    return .data page
  else .error .argument

/-- The position where the slice of the page with the given number starts. -/
def slotStart (id : UInt32) : UInt32 := PAGE_SIZE_INCL_HEADER * id

/-- The page with the given number. -/
def getPageById (memory : Bytes) (id : UInt32) : Except Fault BasePage :=
  if PAGES_PER_DATA_BLOCK < id then .ok .null
  else if memory.length < (slotStart id).toNat then .ok .null
  else do
    let slice ← Span.slice memory (toInt (slotStart id))
    let result := hasNextPage slice
    checkPageAndInit memory result.2 (slotStart id).toNat

/-- The next page of the given type, with the pointer moved on: the pointer goes past the page
that is found to have the type before the page is made over what comes then. -/
def getNextPageOfType (memory : Bytes) (pageType : UInt8) :
    Nat → Nat → Except Fault (BasePage × Nat)
  | 0, _ => .error .endless
  | rounds + 1, currentPointer =>
      let result := hasNextPage (memory.drop currentPointer)
      if result.1 then
        let currentPointer := currentPointer + PAGE_SIZE_INCL_HEADER.toNat
        if result.2 ≠ pageType then getNextPageOfType memory pageType rounds currentPointer
        else do
          let page ← checkPageAndInit memory result.2 currentPointer
          return (page, currentPointer)
      else .ok (.null, currentPointer)

/-- What `SaveContent` returns, with the memory after the call. -/
structure SaveResult where
  saved : Bool
  pageId : UInt16
  documentId : UInt16
  memory : Bytes

/-- The loop of `SaveContent`, which stays at its page. -/
def saveContentTo (memory content : Bytes) (typeId : UInt32) :
    Nat → BasePage → Except Fault SaveResult
  | 0, _ => .error .endless
  | _ + 1, .null => .ok { saved := false, pageId := 0, documentId := 0, memory := memory }
  | rounds + 1, .data dataPage =>
      if dataPage.header.pageType = PageType.data.toByte then do
        let result ← dataPage.tryAddContent memory content typeId
        if result.saved then
          return {
            saved := true
            pageId := result.page.header.pageId
            documentId := result.id
            memory := result.memory }
        else saveContentTo result.memory content typeId rounds (.data result.page)
      else .ok { saved := false, pageId := 0, documentId := 0, memory := memory }

/-- Save the content to a data page. A second round of the loop is at the page and the memory
of the first one, so there is an end in the first round or none. -/
def saveContent (memory content : Bytes) (typeId : UInt32) : Except Fault SaveResult := do
  let (basePage, _) ← getNextPageOfType memory PageType.data.toByte (memory.length + 1) 0
  saveContentTo memory content typeId 2 basePage

/-- The slots of the pages that a block may have start at multiples of the page size. -/
theorem slotStart_toNat {id : UInt32} (h : id.toNat ≤ 100) :
  (slotStart id).toNat = 64092 * id.toNat
  := by
  rw [slotStart, UInt32.toNat_mul, PAGE_SIZE_INCL_HEADER_toNat]
  omega

/-- The slot of a page begins with the header of a data page. -/
structure HasDataPage (memory : Bytes) (id : UInt32) (header : PageHeader) : Prop where
  room : 64092 * id.toNat + 64092 ≤ memory.length
  bytes : (memory.drop (64092 * id.toNat)).take 92 = header.bytes
  type : header.pageType = PageType.data.toByte

/-- The page with the given header over the slot with the given number. -/
def pageOver (id : UInt32) (header : PageHeader) : DataPage where
  header := header
  start := 64092 * id.toNat
  isDirty := false

section Slots

variable {memory : Bytes} {id : UInt32} {header : PageHeader}

/-- A byte of the header is a byte of the memory. -/
theorem HasDataPage.getElem?_header (h : HasDataPage memory id header) {i : Nat} (hi : i < 92) :
  memory[64092 * id.toNat + i]? = header.bytes[i]?
  := by
  rw [← h.bytes, List.getElem?_take_of_lt hi, List.getElem?_drop]

/-- There is one header at the front of a slot. -/
theorem HasDataPage.unique {header' : PageHeader} (h : HasDataPage memory id header)
    (h' : HasDataPage memory id header') :
  header = header'
  := by
  obtain ⟨bytes, size⟩ := header
  obtain ⟨bytes', size'⟩ := header'
  congr 1
  exact h.bytes.symm.trans h'.bytes

/-- A memory with the same bytes in the header of the slot has the same page there. -/
theorem HasDataPage.congr {memory' : Bytes} (h : HasDataPage memory id header)
    (hlength : memory'.length = memory.length)
    (hsame : ∀ i < 92, memory'[64092 * id.toNat + i]? = memory[64092 * id.toNat + i]?) :
  HasDataPage memory' id header
  := by
  constructor
  · rw [hlength]
    exact h.room
  · rw [← h.bytes]
    apply List.ext_getElem?
    intro i
    rw [List.getElem?_take, List.getElem?_take]
    split
    · rename_i hi
      rw [List.getElem?_drop, List.getElem?_drop, hsame i hi]
    · rfl
  · exact h.type

/-- The byte of the type is where `hasNextPage` looks for it. -/
theorem HasDataPage.hasNextPage (h : HasDataPage memory id header) :
  DataPageManager.hasNextPage (memory.drop (64092 * id.toNat)) = (true, PageType.data.toByte)
  := by
  have hroom := h.room
  have hbyte : (memory.drop (64092 * id.toNat)).getD PageHeader.PAGE_TYPE 0
      = PageType.data.toByte := by
    rw [← h.type, PageHeader.pageType, ← h.bytes, List.getD_eq_getElem?_getD,
      List.getD_eq_getElem?_getD, List.getElem?_take_of_lt (by decide)]
  rw [DataPageManager.hasNextPage, PAGE_SIZE_INCL_HEADER_toNat, if_neg, hbyte]
  · rfl
  · rw [List.length_drop]
    omega

/-- The page over a slot that begins with the header of a data page. -/
theorem HasDataPage.checkPageAndInit (h : HasDataPage memory id header) :
  DataPageManager.checkPageAndInit memory PageType.data.toByte (64092 * id.toNat)
    = .ok (.data (pageOver id header))
  := by
  have hroom := h.room
  have hlength : (memory.drop (64092 * id.toNat)).length
      = memory.length - 64092 * id.toNat := List.length_drop
  have hread : PageHeader.read (memory.drop (64092 * id.toNat)) = .ok header := by
    rw [PageHeader.read, dif_neg (by rw [PAGE_HEADER_SIZE_toNat]; omega)]
    congr 1
    obtain ⟨bytes, size⟩ := header
    congr 1
    exact h.bytes
  rw [DataPageManager.checkPageAndInit, if_pos rfl, DataPage.initExisting,
    PAGE_SIZE_INCL_HEADER_toNat, if_neg (by omega), hread]
  rfl

/-- The page with the number of such a slot. -/
theorem getPageById_eq_data (hid : id.toNat ≤ 100) (h : HasDataPage memory id header) :
  getPageById memory id = .ok (.data (pageOver id header))
  := by
  have hroom := h.room
  have hstart := slotStart_toNat hid
  have hslice := Span.slice_eq_ok_iff.mpr ⟨(slotStart id).toNat,
    toInt_of_lt (by omega), (by omega : _ ≤ memory.length), rfl⟩
  have hpages : ¬ PAGES_PER_DATA_BLOCK < id := by
    rw [UInt32.lt_iff_toNat_lt, PAGES_PER_DATA_BLOCK_toNat]
    omega
  rw [getPageById, if_neg hpages, if_neg (by omega), hslice, hstart]
  simp only [Except.ok_bind, h.hasNextPage, h.checkPageAndInit]

/-- A number with a data page is one of a slot that begins with the header of the page. -/
theorem getPageById_eq_ok {page : DataPage} (h : getPageById memory id = .ok (.data page)) :
  id.toNat ≤ 100 ∧ HasDataPage memory id page.header ∧ page = pageOver id page.header
  := by
  rw [getPageById] at h
  split at h
  · cases h
  rename_i hpages
  rw [UInt32.lt_iff_toNat_lt, PAGES_PER_DATA_BLOCK_toNat] at hpages
  split at h
  · cases h
  have hstart := slotStart_toNat (show id.toNat ≤ 100 by omega)
  obtain ⟨slice, hslice, h⟩ := Except.bind_eq_ok_iff.mp h
  obtain ⟨n, hn, hle, rfl⟩ := Span.slice_eq_ok_iff.mp hslice
  rw [toInt_of_lt (by omega), hstart] at hn
  obtain rfl : n = 64092 * id.toNat := by omega
  simp only [checkPageAndInit] at h
  split at h
  · rename_i htype
    obtain ⟨page', hpage', h⟩ := Except.bind_eq_ok_iff.mp h
    cases h
    rw [hstart, DataPage.initExisting, PAGE_SIZE_INCL_HEADER_toNat] at hpage'
    split at hpage'
    · cases hpage'
    rename_i hroom
    rw [List.length_drop] at hroom
    obtain ⟨header, hread, hpage'⟩ := Except.bind_eq_ok_iff.mp hpage'
    cases hpage'
    rw [PageHeader.read, dif_neg (by rw [List.length_drop, PAGE_HEADER_SIZE_toNat]; omega)]
      at hread
    cases hread
    refine ⟨by omega, ⟨by omega, rfl, ?_⟩, rfl⟩
    rw [DataPageManager.hasNextPage, PAGE_SIZE_INCL_HEADER_toNat,
      if_neg (by rw [List.length_drop]; omega)] at htype
    rw [PageHeader.pageType, List.getD_eq_getElem?_getD,
      List.getElem?_take_of_lt (by decide), ← List.getD_eq_getElem?_getD]
    dsimp only at htype
    split at htype
    · cases htype
    · split at htype
      · cases htype
      · exact htype
  · cases h

end Slots

end DataPageManager

end Datatent
