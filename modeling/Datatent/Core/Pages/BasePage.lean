import Datatent.Core.IO.SpanExtensions

/-!
# Page headers

A page header is a structure with explicit layout: its fields are ranges of its bytes, and
the range of `PageNumberOfFreeBytes` shares a byte with the range of `PageTypeId`. So a
`PageHeader` is the string of its bytes, and its fields are read from and assigned to it.
-/

namespace Datatent

open Constants

/-- The page types. -/
inductive PageType where
  | header
  | data
  | index
  | empty
  | null
deriving DecidableEq, Repr

/-- The byte a page type is stored as. -/
def PageType.toByte : PageType → UInt8
  | header => 1
  | data => 2
  | index => 3
  | empty => 0
  | null => 9

/-- The header of a page. -/
structure PageHeader where
  bytes : Bytes
  size : bytes.length = PAGE_HEADER_SIZE.toNat

namespace PageHeader

/-- The page id, bytes 0 and 1. -/
def PAGE_ID : Nat := 0

/-- The page type, byte 2. -/
def PAGE_TYPE : Nat := 2

/-- The id of the previous page, bytes 3 and 4. -/
def PAGE_PREV_ID : Nat := 3

/-- The id of the next page, bytes 5 and 6. -/
def PAGE_NEXT_ID : Nat := 5

/-- The number of entries, bytes 7 and 8. -/
def PAGE_NUMBER_OF_ENTRIES : Nat := 7

/-- The id of the next document, bytes 9 and 10. -/
def PAGE_NEXT_DOCUMENT_ID : Nat := 9

/-- The number of free bytes, bytes 11 to 14. -/
def PAGE_NUMBER_OF_FREE_BYTES : Nat := 11

/-- The id of the type of the documents, bytes 14 to 17. -/
def PAGE_TYPE_ID : Nat := 14

/-! ### Fields -/

def pageId (header : PageHeader) : UInt16 :=
  Span.readUInt16 header.bytes PAGE_ID

def pageType (header : PageHeader) : UInt8 :=
  header.bytes.getD PAGE_TYPE 0

def pagePrevId (header : PageHeader) : UInt16 :=
  Span.readUInt16 header.bytes PAGE_PREV_ID

def pageNextId (header : PageHeader) : UInt16 :=
  Span.readUInt16 header.bytes PAGE_NEXT_ID

def pageNumberOfEntries (header : PageHeader) : UInt16 :=
  Span.readUInt16 header.bytes PAGE_NUMBER_OF_ENTRIES

def pageNextDocumentId (header : PageHeader) : UInt16 :=
  Span.readUInt16 header.bytes PAGE_NEXT_DOCUMENT_ID

def pageNumberOfFreeBytes (header : PageHeader) : UInt32 :=
  Span.readUInt32 header.bytes PAGE_NUMBER_OF_FREE_BYTES

def pageTypeId (header : PageHeader) : UInt32 :=
  Span.readUInt32 header.bytes PAGE_TYPE_ID

/-- Two headers with the same value in every field. -/
def SameFields (header header' : PageHeader) : Prop :=
  header.pageId = header'.pageId ∧ header.pageType = header'.pageType
    ∧ header.pagePrevId = header'.pagePrevId ∧ header.pageNextId = header'.pageNextId
    ∧ header.pageNumberOfEntries = header'.pageNumberOfEntries
    ∧ header.pageNextDocumentId = header'.pageNextDocumentId
    ∧ header.pageNumberOfFreeBytes = header'.pageNumberOfFreeBytes
    ∧ header.pageTypeId = header'.pageTypeId

/-! ### Assignments -/

/-- The header with the bytes from `offset` on replaced by `s`. -/
def assign (header : PageHeader) (offset : Nat) (s : Bytes)
    (h : offset + s.length ≤ 92) : PageHeader where
  bytes := Bytes.overwrite header.bytes offset s
  size := by
    have hsize := header.size
    rw [PAGE_HEADER_SIZE_toNat] at hsize ⊢
    rw [Bytes.length_overwrite (by omega), hsize]

def setPageId (header : PageHeader) (value : UInt16) : PageHeader :=
  header.assign PAGE_ID (Bytes.toLE 2 value.toNat) (by simp [PAGE_ID])

def setPageType (header : PageHeader) (value : UInt8) : PageHeader :=
  header.assign PAGE_TYPE [value] (by simp [PAGE_TYPE])

def setPageNextId (header : PageHeader) (value : UInt16) : PageHeader :=
  header.assign PAGE_NEXT_ID (Bytes.toLE 2 value.toNat) (by simp [PAGE_NEXT_ID])

def setPagePrevId (header : PageHeader) (value : UInt16) : PageHeader :=
  header.assign PAGE_PREV_ID (Bytes.toLE 2 value.toNat) (by simp [PAGE_PREV_ID])

def setPageNumberOfEntries (header : PageHeader) (value : UInt16) : PageHeader :=
  header.assign PAGE_NUMBER_OF_ENTRIES (Bytes.toLE 2 value.toNat)
    (by simp [PAGE_NUMBER_OF_ENTRIES])

def setPageNextDocumentId (header : PageHeader) (value : UInt16) : PageHeader :=
  header.assign PAGE_NEXT_DOCUMENT_ID (Bytes.toLE 2 value.toNat)
    (by simp [PAGE_NEXT_DOCUMENT_ID])

def setPageNumberOfFreeBytes (header : PageHeader) (value : UInt32) : PageHeader :=
  header.assign PAGE_NUMBER_OF_FREE_BYTES (Bytes.toLE 4 value.toNat)
    (by simp [PAGE_NUMBER_OF_FREE_BYTES])

def setPageTypeId (header : PageHeader) (value : UInt32) : PageHeader :=
  header.assign PAGE_TYPE_ID (Bytes.toLE 4 value.toNat) (by simp [PAGE_TYPE_ID])

/-- The header of which every byte is zero. -/
def zero : PageHeader where
  bytes := List.replicate 92 0
  size := List.length_replicate

/-- The header at the front of a span. -/
def read (span : Bytes) : Except Fault PageHeader :=
  if h : span.length < PAGE_HEADER_SIZE.toNat then .error .argumentOutOfRange
  else .ok
    { bytes := span.take PAGE_HEADER_SIZE.toNat
      size := by
        rw [List.length_take]
        omega }

/-- The span with the header written to its front. -/
def write (header : PageHeader) (span : Bytes) : Except Fault Bytes :=
  Span.writeStruct span header.bytes

/-! ### Reading assigned headers -/

theorem length_bytes (header : PageHeader) :
  header.bytes.length = 92
  := header.size

/-- A `ushort` field outside the assigned range keeps its value. -/
theorem readUInt16_assign_of_disjoint {header : PageHeader} {offset i : Nat} {s : Bytes}
    {h : offset + s.length ≤ 92} (hi : i + 2 ≤ offset ∨ offset + s.length ≤ i) :
  Span.readUInt16 (header.assign offset s h).bytes i = Span.readUInt16 header.bytes i
  := by
  rw [Span.readUInt16, Span.readUInt16, assign]
  rw [Bytes.readLE_overwrite_of_disjoint (by rw [header.length_bytes]; exact h) hi]

/-- A `uint` field outside the assigned range keeps its value. -/
theorem readUInt32_assign_of_disjoint {header : PageHeader} {offset i : Nat} {s : Bytes}
    {h : offset + s.length ≤ 92} (hi : i + 4 ≤ offset ∨ offset + s.length ≤ i) :
  Span.readUInt32 (header.assign offset s h).bytes i = Span.readUInt32 header.bytes i
  := by
  rw [Span.readUInt32, Span.readUInt32, assign]
  rw [Bytes.readLE_overwrite_of_disjoint (by rw [header.length_bytes]; exact h) hi]

/-- A byte behind the assigned range is the old one. -/
theorem getElem?_assign_of_le {header : PageHeader} {offset i : Nat} {s : Bytes}
    {h : offset + s.length ≤ 92} (hi : offset + s.length ≤ i) :
  (header.assign offset s h).bytes[i]? = header.bytes[i]?
  := Bytes.getElem?_overwrite_of_le (by rw [header.length_bytes]; exact h) hi

/-- An assigned `ushort` field has the assigned value. -/
theorem readUInt16_assign_same {header : PageHeader} {offset : Nat} (value : UInt16)
    {h : offset + (Bytes.toLE 2 value.toNat).length ≤ 92} :
  Span.readUInt16 (header.assign offset (Bytes.toLE 2 value.toNat) h).bytes offset = value
  := by
  apply UInt16.toNat_inj.mp
  rw [Bytes.length_toLE] at h
  rw [Span.readUInt16_toNat, assign,
    Bytes.readLE_overwrite_same _ (by rw [header.length_bytes]; omega)]
  apply Nat.mod_eq_of_lt
  apply UInt16.toNat_lt

/-- An assigned `uint` field has the assigned value. -/
theorem readUInt32_assign_same {header : PageHeader} {offset : Nat} (value : UInt32)
    {h : offset + (Bytes.toLE 4 value.toNat).length ≤ 92} :
  Span.readUInt32 (header.assign offset (Bytes.toLE 4 value.toNat) h).bytes offset = value
  := by
  apply UInt32.toNat_inj.mp
  rw [Bytes.length_toLE] at h
  rw [Span.readUInt32_toNat, assign,
    Bytes.readLE_overwrite_same _ (by rw [header.length_bytes]; omega)]
  apply Nat.mod_eq_of_lt
  apply UInt32.toNat_lt

@[simp]
theorem setPageNumberOfFreeBytes_pageNumberOfFreeBytes (header : PageHeader) (value : UInt32) :
  (header.setPageNumberOfFreeBytes value).pageNumberOfFreeBytes = value
  := readUInt32_assign_same value

/-- The low byte of the type id is the high byte of the number of free bytes. -/
theorem pageTypeId_mod (header : PageHeader) :
  header.pageTypeId.toNat % 256 = header.pageNumberOfFreeBytes.toNat / 2 ^ 24
  := by
  rw [pageTypeId, pageNumberOfFreeBytes, Span.readUInt32_toNat, Span.readUInt32_toNat,
    PAGE_TYPE_ID, PAGE_NUMBER_OF_FREE_BYTES]
  have hdrop : header.bytes.drop 14 = (header.bytes.drop 11).tail.tail.tail := by
    simp only [List.tail_drop]
  rw [hdrop]
  simp only [Bytes.readLE]
  have h0 := UInt8.toNat_lt ((header.bytes.drop 11).headD 0)
  have h1 := UInt8.toNat_lt ((header.bytes.drop 11).tail.headD 0)
  have h2 := UInt8.toNat_lt ((header.bytes.drop 11).tail.tail.headD 0)
  have h3 := UInt8.toNat_lt ((header.bytes.drop 11).tail.tail.tail.headD 0)
  omega

/-- Assigning the number of free bytes keeps the type id but for its low byte. -/
theorem setPageNumberOfFreeBytes_pageTypeId_div (header : PageHeader) (value : UInt32) :
  (header.setPageNumberOfFreeBytes value).pageTypeId.toNat / 256
    = header.pageTypeId.toNat / 256
  := by
  have hread : ∀ h : PageHeader,
      h.pageTypeId.toNat / 256 = Bytes.readLE (h.bytes.drop 15) 3 := by
    intro h
    have hhead := UInt8.toNat_lt ((h.bytes.drop 14).headD 0)
    rw [pageTypeId, Span.readUInt32_toNat, PAGE_TYPE_ID, Bytes.readLE, List.tail_drop]
    change (((h.bytes.drop 14).headD 0).toNat + 256 * Bytes.readLE (h.bytes.drop 15) 3) / 256 = _
    omega
  rw [hread, hread]
  apply Bytes.readLE_overwrite_of_disjoint
  · simp [length_bytes, PAGE_NUMBER_OF_FREE_BYTES]
  · simp [PAGE_NUMBER_OF_FREE_BYTES]

/-- Assigning the number of free bytes keeps the type id when its high byte stays. -/
theorem setPageNumberOfFreeBytes_pageTypeId {header : PageHeader} {value : UInt32}
    (h : value.toNat / 2 ^ 24 = header.pageNumberOfFreeBytes.toNat / 2 ^ 24) :
  (header.setPageNumberOfFreeBytes value).pageTypeId = header.pageTypeId
  := by
  have hdiv := setPageNumberOfFreeBytes_pageTypeId_div header value
  have hmod := pageTypeId_mod (header.setPageNumberOfFreeBytes value)
  have hmod' := pageTypeId_mod header
  rw [setPageNumberOfFreeBytes_pageNumberOfFreeBytes] at hmod
  apply UInt32.toNat_inj.mp
  omega

end PageHeader

end Datatent
