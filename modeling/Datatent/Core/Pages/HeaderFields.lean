import Datatent.Core.Pages.ContentSaving
import Datatent.Library.Layout

/-!
# The fields of a page header

The eight fields of a page header lie at offsets given by hand, and the last byte of
`PageNumberOfFreeBytes` is the first one of `PageTypeId`. The values assigned to the fields are
read back when these two agree in that byte.
-/

namespace Datatent

open Constants

namespace PageHeader

/-- The fields of a page header. -/
inductive Field where
  | pageId
  | pageType
  | pageNextId
  | pagePrevId
  | pageNumberOfEntries
  | pageNextDocumentId
  | pageNumberOfFreeBytes
  | pageTypeId
deriving DecidableEq, Repr

/-- The fields as they are declared. -/
def Field.all : List Field :=
  [pageId, pageType, pageNextId, pagePrevId, pageNumberOfEntries, pageNextDocumentId,
    pageNumberOfFreeBytes, pageTypeId]

/-- A value for every field. -/
structure FieldValues where
  pageId : UInt16
  pageType : UInt8
  pageNextId : UInt16
  pagePrevId : UInt16
  pageNumberOfEntries : UInt16
  pageNextDocumentId : UInt16
  pageNumberOfFreeBytes : UInt32
  pageTypeId : UInt32
deriving DecidableEq, Repr

/-- What is read from the fields of a header. -/
def fields (header : PageHeader) : FieldValues where
  pageId := header.pageId
  pageType := header.pageType
  pageNextId := header.pageNextId
  pagePrevId := header.pagePrevId
  pageNumberOfEntries := header.pageNumberOfEntries
  pageNextDocumentId := header.pageNextDocumentId
  pageNumberOfFreeBytes := header.pageNumberOfFreeBytes
  pageTypeId := header.pageTypeId

/-- The assignment to one field. -/
def assignField (values : FieldValues) (header : PageHeader) : Field → PageHeader
  | .pageId => header.setPageId values.pageId
  | .pageType => header.setPageType values.pageType
  | .pageNextId => header.setPageNextId values.pageNextId
  | .pagePrevId => header.setPagePrevId values.pagePrevId
  | .pageNumberOfEntries => header.setPageNumberOfEntries values.pageNumberOfEntries
  | .pageNextDocumentId => header.setPageNextDocumentId values.pageNextDocumentId
  | .pageNumberOfFreeBytes => header.setPageNumberOfFreeBytes values.pageNumberOfFreeBytes
  | .pageTypeId => header.setPageTypeId values.pageTypeId

/-- Assignments to fields in the given order. -/
def assignFields (values : FieldValues) (header : PageHeader) (order : List Field) :
    PageHeader :=
  order.foldl (assignField values) header

/-! ### The layout of the fields -/

/-- The byte a field begins with. -/
def Field.offset : Field → Nat
  | pageId => PAGE_ID
  | pageType => PAGE_TYPE
  | pageNextId => PAGE_NEXT_ID
  | pagePrevId => PAGE_PREV_ID
  | pageNumberOfEntries => PAGE_NUMBER_OF_ENTRIES
  | pageNextDocumentId => PAGE_NEXT_DOCUMENT_ID
  | pageNumberOfFreeBytes => PAGE_NUMBER_OF_FREE_BYTES
  | pageTypeId => PAGE_TYPE_ID

/-- The number of bytes of a field. -/
def Field.size : Field → Nat
  | pageType => 1
  | pageNumberOfFreeBytes => 4
  | pageTypeId => 4
  | _ => 2

/-- The bytes of the value of a field. -/
def FieldValues.toBytes (values : FieldValues) : Field → Bytes
  | .pageId => Bytes.toLE 2 values.pageId.toNat
  | .pageType => [values.pageType]
  | .pageNextId => Bytes.toLE 2 values.pageNextId.toNat
  | .pagePrevId => Bytes.toLE 2 values.pagePrevId.toNat
  | .pageNumberOfEntries => Bytes.toLE 2 values.pageNumberOfEntries.toNat
  | .pageNextDocumentId => Bytes.toLE 2 values.pageNextDocumentId.toNat
  | .pageNumberOfFreeBytes => Bytes.toLE 4 values.pageNumberOfFreeBytes.toNat
  | .pageTypeId => Bytes.toLE 4 values.pageTypeId.toNat

/-- A field with its value as a field of the layout. -/
def FieldValues.layout (values : FieldValues) (f : Field) : Layout.Field where
  offset := f.offset
  value := values.toBytes f

/-- Two fields are the same, have no byte in common, or are the two that share one. -/
theorem Field.disjoint (f g : Field) :
  f = g ∨ f.offset + f.size ≤ g.offset ∨ g.offset + g.size ≤ f.offset
    ∨ f = pageNumberOfFreeBytes ∧ g = pageTypeId ∨ f = pageTypeId ∧ g = pageNumberOfFreeBytes
  := by
  cases f <;> cases g <;> decide

/-- A field lies in the header. -/
theorem Field.offset_add_size_le (f : Field) :
  f.offset + f.size ≤ 92
  := by
  cases f <;> decide

/-- A value has as many bytes as its field. -/
theorem FieldValues.length_layout (values : FieldValues) (f : Field) :
  (values.layout f).value.length = f.size
  := by
  cases f <;> rfl

/-- A field of the layout lies in the header. -/
theorem layout_le (values : FieldValues) (header : PageHeader) (f : Field) :
  (values.layout f).offset + (values.layout f).value.length ≤ header.bytes.length
  := by
  rw [values.length_layout, header.length_bytes]
  exact f.offset_add_size_le

/-- An assignment replaces the bytes of its field. -/
theorem bytes_assignField (values : FieldValues) (header : PageHeader) (f : Field) :
  (assignField values header f).bytes = Layout.assign header.bytes (values.layout f)
  := by
  cases f <;> rfl

/-- Assignments replace the bytes of one field after the other. -/
theorem bytes_assignFields (values : FieldValues) (header : PageHeader) (order : List Field) :
  (assignFields values header order).bytes
    = Layout.assignAll header.bytes (order.map values.layout)
  := by
  induction order generalizing header with
  | nil => rfl
  | cons f order ih =>
      apply Eq.trans (ih (assignField values header f))
      rw [bytes_assignField]
      rfl

/-- A `ushort` field has a value when its bytes are those of the value. -/
theorem readUInt16_eq_iff {m : Bytes} {offset : Nat} (h : offset + 2 ≤ m.length)
    (value : UInt16) :
  Span.readUInt16 m offset = value ↔ Layout.Holds m ⟨offset, Bytes.toLE 2 value.toNat⟩
  := by
  rw [Layout.holds_toLE_iff h value.toNat_lt, ← Span.readUInt16_toNat, UInt16.toNat_inj]

/-- A `uint` field has a value when its bytes are those of the value. -/
theorem readUInt32_eq_iff {m : Bytes} {offset : Nat} (h : offset + 4 ≤ m.length)
    (value : UInt32) :
  Span.readUInt32 m offset = value ↔ Layout.Holds m ⟨offset, Bytes.toLE 4 value.toNat⟩
  := by
  rw [Layout.holds_toLE_iff h value.toNat_lt, ← Span.readUInt32_toNat, UInt32.toNat_inj]

/-- The byte of the type is a value when it is the byte of the value. -/
theorem pageType_eq_iff (header : PageHeader) (value : UInt8) :
  header.pageType = value ↔ Layout.Holds header.bytes ⟨PAGE_TYPE, [value]⟩
  := by
  have hsize := header.length_bytes
  have hbyte : header.bytes[2]? = some header.pageType := by
    rw [pageType, PAGE_TYPE, List.getD_eq_getElem?_getD,
      List.getElem?_eq_getElem (by omega)]
    rfl
  rw [Layout.holds_iff]
  constructor
  · rintro rfl i hi
    obtain rfl : i = 0 := by simpa using hi
    exact hbyte
  · intro h
    have hzero := h 0 (Nat.zero_lt_one)
    rw [Nat.add_zero, PAGE_TYPE, hbyte] at hzero
    exact Option.some.inj hzero

/-- The fields of a header have given values when they hold the bytes of the values. -/
theorem fields_eq_iff (header : PageHeader) (values : FieldValues) :
  header.fields = values ↔ ∀ f, Layout.Holds header.bytes (values.layout f)
  := by
  have hsize := header.length_bytes
  have hshort : ∀ offset value, offset + 2 ≤ 92 →
      (Span.readUInt16 header.bytes offset = value
        ↔ Layout.Holds header.bytes ⟨offset, Bytes.toLE 2 value.toNat⟩) :=
    fun offset value h => readUInt16_eq_iff (by omega) value
  have hlong : ∀ offset value, offset + 4 ≤ 92 →
      (Span.readUInt32 header.bytes offset = value
        ↔ Layout.Holds header.bytes ⟨offset, Bytes.toLE 4 value.toNat⟩) :=
    fun offset value h => readUInt32_eq_iff (by omega) value
  constructor
  · rintro rfl f
    cases f with
    | pageId => exact (hshort _ _ (by decide)).mp rfl
    | pageType => exact (pageType_eq_iff _ _).mp rfl
    | pageNextId => exact (hshort _ _ (by decide)).mp rfl
    | pagePrevId => exact (hshort _ _ (by decide)).mp rfl
    | pageNumberOfEntries => exact (hshort _ _ (by decide)).mp rfl
    | pageNextDocumentId => exact (hshort _ _ (by decide)).mp rfl
    | pageNumberOfFreeBytes => exact (hlong _ _ (by decide)).mp rfl
    | pageTypeId => exact (hlong _ _ (by decide)).mp rfl
  · intro h
    cases values
    rw [fields, FieldValues.mk.injEq]
    refine ⟨?_, ?_, ?_, ?_, ?_, ?_, ?_, ?_⟩
    · exact (hshort _ _ (by decide)).mpr (h .pageId)
    · exact (pageType_eq_iff _ _).mpr (h .pageType)
    · exact (hshort _ _ (by decide)).mpr (h .pageNextId)
    · exact (hshort _ _ (by decide)).mpr (h .pagePrevId)
    · exact (hshort _ _ (by decide)).mpr (h .pageNumberOfEntries)
    · exact (hshort _ _ (by decide)).mpr (h .pageNextDocumentId)
    · exact (hlong _ _ (by decide)).mpr (h .pageNumberOfFreeBytes)
    · exact (hlong _ _ (by decide)).mpr (h .pageTypeId)

/-- The last byte of a number of free bytes is the first byte of a type id. -/
theorem sharedByte_eq_iff (free typeId : UInt32) :
  (Bytes.toLE 4 free.toNat)[3]? = (Bytes.toLE 4 typeId.toNat)[0]?
    ↔ typeId.toNat % 256 = free.toNat / 2 ^ 24
  := by
  change some (UInt8.ofNat (free.toNat / 256 / 256 / 256)) = some (UInt8.ofNat typeId.toNat) ↔ _
  have hfree := free.toNat_lt
  rw [Option.some.injEq, ← UInt8.toNat_inj, UInt8.toNat_ofNat', UInt8.toNat_ofNat']
  omega

/-- The values of the fields agree when those of the two that share a byte do. -/
theorem agree_iff (values : FieldValues) :
  (∀ f g, Layout.Agree (values.layout f) (values.layout g))
    ↔ values.pageTypeId.toNat % 256 = values.pageNumberOfFreeBytes.toNat / 2 ^ 24
  := by
  rw [← sharedByte_eq_iff]
  constructor
  · intro h
    exact h .pageNumberOfFreeBytes .pageTypeId 3 0 (Nat.lt_succ_self 3) (Nat.zero_lt_succ 3) rfl
  · intro h
    have hshared : Layout.Agree (values.layout .pageNumberOfFreeBytes)
        (values.layout .pageTypeId) := by
      intro i j hi hj hij
      rw [values.length_layout] at hi hj
      change i < 4 at hi
      change j < 4 at hj
      change 11 + i = 14 + j at hij
      obtain rfl : i = 3 := by omega
      obtain rfl : j = 0 := by omega
      exact h
    intro f g
    rcases f.disjoint g with rfl | hfg | hgf | ⟨rfl, rfl⟩ | ⟨rfl, rfl⟩
    · exact .refl _
    · apply Layout.agree_of_disjoint
      rw [values.length_layout]
      exact .inl hfg
    · apply Layout.agree_of_disjoint
      rw [values.length_layout, values.length_layout]
      exact .inr hgf
    · exact hshared
    · exact hshared.symm

/-- After an assignment to every field, in whatever order, all values are read back when the
two that share a byte agree in it, and only then. -/
theorem assignFields_fields_iff (header : PageHeader) (values : FieldValues)
    {order : List Field} (horder : order.Perm Field.all) :
  (assignFields values header order).fields = values
    ↔ values.pageTypeId.toNat % 256 = values.pageNumberOfFreeBytes.toNat / 2 ^ 24
  := by
  have hmem : ∀ f, f ∈ order := by
    intro f
    apply horder.mem_iff.mpr
    cases f <;> decide
  have hfits : ∀ f ∈ order.map values.layout,
      f.offset + f.value.length ≤ header.bytes.length := by
    intro f hf
    obtain ⟨f, -, rfl⟩ := List.mem_map.mp hf
    exact layout_le values header f
  have hall := Layout.forall_holds_iff_agree hfits
  rw [fields_eq_iff, bytes_assignFields, ← agree_iff]
  constructor
  · intro h f g
    apply hall.mp _ _ (List.mem_map_of_mem (hmem f)) _ (List.mem_map_of_mem (hmem g))
    intro f hf
    obtain ⟨f, -, rfl⟩ := List.mem_map.mp hf
    exact h f
  · intro h f
    apply hall.mpr _ _ (List.mem_map_of_mem (hmem f))
    intro f hf g hg
    obtain ⟨f, -, rfl⟩ := List.mem_map.mp hf
    obtain ⟨g, -, rfl⟩ := List.mem_map.mp hg
    exact h f g

/-- A header that is written to a slot is read back from there. -/
theorem read_write (header : PageHeader) {slot : Bytes} (h : 92 ≤ slot.length) :
  ∃ slot', header.write slot = .ok slot' ∧ read slot' = .ok header
  := by
  have hsize := header.length_bytes
  refine ⟨Bytes.overwrite slot 0 header.bytes, ?_, ?_⟩
  · rw [write, Span.writeStruct, if_neg (by omega)]
  · rw [read, dif_neg]
    · congr 1
      obtain ⟨bytes, size⟩ := header
      congr 1
      rw [PAGE_HEADER_SIZE_toNat]
      change bytes.length = 92 at hsize
      rw [Bytes.overwrite, List.take_zero, List.nil_append, ← hsize, List.take_left]
    · rw [Bytes.length_overwrite (by omega), PAGE_HEADER_SIZE_toNat]
      omega

end PageHeader

open PageHeader

/-- A document that is added leaves the type id of the page when the number of free bytes keeps
its last byte, and only then. -/
theorem DataPage.addEntry_pageTypeId_iff (header : PageHeader) (contentLength : UInt32) :
  (addEntry header contentLength).pageTypeId = header.pageTypeId
    ↔ (header.pageNumberOfFreeBytes - (contentLength + DOCUMENT_HEADER_SIZE)).toNat / 2 ^ 24
      = header.pageNumberOfFreeBytes.toNat / 2 ^ 24
  := by
  have hcount := readUInt32_count header (header.pageNumberOfEntries + 1)
    ((header.setPageNumberOfEntries (header.pageNumberOfEntries + 1)).pageNextDocumentId + 1)
  constructor
  · intro h
    rw [← addEntry_pageNumberOfFreeBytes, ← pageTypeId_mod, ← pageTypeId_mod, h]
  · intro h
    have hfree := hcount PAGE_NUMBER_OF_FREE_BYTES (by decide)
    apply Eq.trans (setPageNumberOfFreeBytes_pageTypeId _) (hcount PAGE_TYPE_ID (by decide))
    rw [pageNumberOfFreeBytes, hfree]
    exact h

namespace PageHeader

/-! ### Independence -/

/-- The fields of a header are independent for the given values and the order in which they are
assigned: all of them are read back, from the header and from a slot it is written to, and a
call of `TryAddContent` with the given content leaves the type id. -/
structure FieldsIndependent (header : PageHeader) (order : List Field) (values : FieldValues)
    (content : Bytes) (typeId : UInt32) : Prop where
  readsBack : (assignFields values header order).fields = values
  roundTrip : ∀ slot : Bytes, 92 ≤ slot.length →
    ∃ slot' header', (assignFields values header order).write slot = .ok slot'
      ∧ read slot' = .ok header' ∧ header'.fields = values
  tryAddContent : ∀ (page : DataPage) (memory : Bytes) (result : AddResult),
    page.header = assignFields values header order →
      page.tryAddContent memory content typeId = .ok result →
        result.page.header.pageTypeId = page.header.pageTypeId

/-- Every content that a page accepts by its header can be added to some memory. -/
theorem exists_tryAddContent {header : PageHeader} {content : Bytes} {typeId : UInt32}
    (h : DataPage.Accepts header content typeId) :
  ∃ (page : DataPage) (memory : Bytes), page.header = header
    ∧ page.tryAddContent memory content typeId = .ok (page.addedAt memory 0 content)
  := by
  let page : DataPage := { header := header, start := 0, isDirty := false }
  refine ⟨page, List.replicate (48 + content.length) 0, rfl, ?_⟩
  have haccepts : DataPage.Accepts page.header content typeId := h
  apply DataPage.tryAddContent_of_slotAt haccepts
  · apply (DataPage.slotAt_iff (Nat.zero_le _)).mpr
    refine ⟨.front, ?_⟩
    rintro ⟨-, hhead⟩
    apply hhead
    rw [List.drop_zero]
    change (List.replicate (48 + content.length) (0 : UInt8)).headD 0 = 0
    rw [Nat.add_comm, List.replicate_succ, List.headD_cons]
  · rw [List.length_replicate]

/-- The fields are independent when the last byte of the number of free bytes is the first one
of the type id, and a call that is accepted keeps this byte; and only then. -/
theorem fieldsIndependent_iff (header : PageHeader) {order : List Field}
    (horder : order.Perm Field.all) (values : FieldValues) (content : Bytes)
    (typeId : UInt32) :
  FieldsIndependent header order values content typeId
    ↔ values.pageTypeId.toNat % 256 = values.pageNumberOfFreeBytes.toNat / 2 ^ 24
      ∧ (typeId = values.pageTypeId →
        content.length ≤ values.pageNumberOfFreeBytes.toNat →
          (values.pageNumberOfFreeBytes
            - (UInt32.ofNat content.length + DOCUMENT_HEADER_SIZE)).toNat / 2 ^ 24
              = values.pageNumberOfFreeBytes.toNat / 2 ^ 24)
  := by
  rw [← assignFields_fields_iff header values horder]
  constructor
  · intro h
    have hread := h.readsBack
    have hfree := congrArg FieldValues.pageNumberOfFreeBytes hread
    have htype := congrArg FieldValues.pageTypeId hread
    refine ⟨hread, ?_⟩
    intro hid hlength
    have haccepts : DataPage.Accepts (assignFields values header order) content typeId := by
      refine ⟨hid.trans htype.symm, ?_⟩
      rw [← hfree] at hlength
      exact hlength
    obtain ⟨page, memory, hpage, hadded⟩ := exists_tryAddContent haccepts
    have hkept := h.tryAddContent page memory _ hpage hadded
    rw [← hfree]
    change (DataPage.addEntry page.header _).pageTypeId = page.header.pageTypeId at hkept
    rw [hpage] at hkept
    exact (DataPage.addEntry_pageTypeId_iff _ _).mp hkept
  · rintro ⟨hread, hkeeps⟩
    have hfree := congrArg FieldValues.pageNumberOfFreeBytes hread
    have htype := congrArg FieldValues.pageTypeId hread
    constructor
    · exact hread
    · intro slot hslot
      obtain ⟨slot', hwrite, hslot'⟩ := read_write (assignFields values header order) hslot
      exact ⟨slot', _, hwrite, hslot', hread⟩
    · intro page memory result hpage hresult
      by_cases haccepts : DataPage.Accepts page.header content typeId
      · obtain ⟨d, -, -, rfl⟩ := DataPage.tryAddContent_eq_ok haccepts hresult
        obtain ⟨hid, hlength⟩ := haccepts
        rw [hpage] at hid hlength
        apply (DataPage.addEntry_pageTypeId_iff page.header _).mpr
        rw [hpage]
        change (assignFields values header order).pageNumberOfFreeBytes = _ at hfree
        change (assignFields values header order).pageTypeId = _ at htype
        rw [hfree] at hlength ⊢
        exact hkeeps (hid.trans htype) hlength
      · rw [DataPage.tryAddContent_of_not_accepts haccepts] at hresult
        cases hresult
        rfl

/-- A type id of which the first byte is the last one of the number of free bytes. -/
theorem fieldsIndependent_seven :
  FieldsIndependent zero Field.all
    { pageId := 1, pageType := 2, pageNextId := 3, pagePrevId := 4, pageNumberOfEntries := 5,
      pageNextDocumentId := 6, pageNumberOfFreeBytes := 0x07000100, pageTypeId := 7 } [] 7
  := by
  apply (fieldsIndependent_iff zero (List.Perm.refl _) _ _ _).mpr
  decide

/-- A type id of one in a page without free bytes: the byte the fields share belongs to both. -/
theorem not_fieldsIndependent :
  ¬ FieldsIndependent zero Field.all
    { pageId := 0, pageType := 2, pageNextId := 0, pagePrevId := 0, pageNumberOfEntries := 0,
      pageNextDocumentId := 1, pageNumberOfFreeBytes := 0, pageTypeId := 1 } [] 1
  := by
  intro h
  have hbyte := (assignFields_fields_iff zero _ (List.Perm.refl _)).mp h.readsBack
  revert hbyte
  decide

end PageHeader

end Datatent
