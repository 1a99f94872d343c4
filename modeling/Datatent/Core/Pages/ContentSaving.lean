import Datatent.Core.Pages.DocumentWalk
import Datatent.Core.Pages.PageCursor

/-!
# Saving content to the pages of a block

`SaveContent` asks the cursor for one data page and never for another one: its loop goes on
only with the page and the memory it has. So the call is decided by the first slot that the
cursor does not pass and by the slot behind it.
-/

namespace Datatent

open Constants Document

namespace DataPage

/-! ### Where the search for an empty slot ends -/

/-- The walk over the memory comes to `d`, and there is no document there. -/
def FreeAt (memory : Bytes) (d : Nat) : Prop :=
  Boundary memory d ∧ ¬ HasHeader (memory.drop d)

/-- Where there is no header the walk reads no document. -/
theorem walkStep_of_not_hasHeader {memory : Bytes} (h : ¬ HasHeader memory) :
  walkStep memory = none
  := by
  cases hstep : walkStep memory with
  | none => rfl
  | some rest => exact absurd (walkStep_eq_some_iff.mp hstep).1 h

/-- An empty slot is found behind the documents that the walk goes past. -/
theorem findEmptySlot_of_reaches {memory slot : Bytes} (hreach : Loop.Reaches walkStep memory slot)
    (hslot : ¬ HasHeader slot) :
  ∀ {rounds : Nat}, memory.length < rounds → findEmptySlot rounds memory = .ok slot
  := by
  induction hreach using Relation.ReflTransGen.head_induction_on with
  | refl =>
      intro rounds hrounds
      obtain ⟨rounds, rfl⟩ := Nat.exists_eq_succ_of_ne_zero (Nat.ne_zero_of_lt hrounds)
      apply findEmptySlot_of_end
      by_cases hlength : slot.length < 48
      · exact .inl hlength
      · right
        by_contra hhead
        exact hslot ⟨by omega, hhead⟩
  | @head memory rest hstep hreach ih =>
      intro rounds hrounds
      obtain ⟨rounds, rfl⟩ := Nat.exists_eq_succ_of_ne_zero (Nat.ne_zero_of_lt hrounds)
      obtain ⟨documentSlice, id, hnext⟩ := walkStep_eq_some hstep
      rw [findEmptySlot_of_next rounds hnext]
      apply ih
      have hends := Loop.ends_iff_exists.mpr
        ⟨slot, .head hstep hreach, walkStep_of_not_hasHeader hslot⟩
      rcases walkStep_size hstep with rfl | hlt
      · exact absurd hstep hends.next_ne
      · omega

/-- An empty slot that is found is one that the walk comes to. -/
theorem reaches_of_findEmptySlot {rounds : Nat} {memory slot : Bytes}
    (h : findEmptySlot rounds memory = .ok slot) :
  Loop.Reaches walkStep memory slot ∧ ¬ HasHeader slot
  := by
  induction rounds generalizing memory with
  | zero => cases h
  | succ rounds ih =>
      obtain ⟨⟨documentSlice, id, rest⟩, hnext, hrest⟩ := Except.bind_eq_ok_iff.mp h
      cases documentSlice with
      | none =>
          cases hrest
          obtain ⟨rfl, hend⟩ := getNext_eq_none hnext
          refine ⟨.refl, ?_⟩
          rintro ⟨hlength, hhead⟩
          rcases hend with hlt | hzero
          · omega
          · exact hhead hzero
      | some documentSlice =>
          obtain ⟨hreach, hslot⟩ := ih hrest
          refine ⟨.head ?_ hreach, hslot⟩
          rw [walkStep, hnext]

/-- The search for an empty slot in the slice of a page comes to an end at the position where
the walk finds no document. -/
theorem slotAt_iff {page : DataPage} {memory : Bytes} {d : Nat}
    (hd : page.start + d ≤ memory.length) :
  page.SlotAt memory d ↔ FreeAt (memory.drop page.start) d
  := by
  constructor
  · intro h
    obtain ⟨hreach, hslot⟩ := reaches_of_findEmptySlot h
    obtain ⟨d', hd', heq⟩ := reaches_iff.mp hreach
    have hle := hd'.le
    have hlength := congrArg List.length heq
    simp only [List.length_drop] at hle hlength
    obtain rfl : d = d' := by omega
    exact ⟨hd', hslot⟩
  · rintro ⟨hd', hslot⟩
    exact findEmptySlot_of_reaches (reaches_iff.mpr ⟨d, hd', rfl⟩) hslot (Nat.lt_succ_self _)

/-- An accepted call has a result when the walk finds a place with room for the document. -/
theorem tryAddContent_ok_iff {page : DataPage} {memory content : Bytes} {typeId : UInt32}
    (h : Accepts page.header content typeId) :
  (∃ result, page.tryAddContent memory content typeId = .ok result)
    ↔ ∃ d, FreeAt (memory.drop page.start) d
      ∧ page.start + d + 48 + content.length ≤ memory.length
  := by
  constructor
  · rintro ⟨result, hresult⟩
    obtain ⟨d, hslot, hfits, -⟩ := tryAddContent_eq_ok h hresult
    exact ⟨d, (slotAt_iff (by omega)).mp hslot, hfits⟩
  · rintro ⟨d, hfree, hfits⟩
    exact ⟨_, tryAddContent_of_slotAt h ((slotAt_iff (by omega)).mpr hfree) hfits⟩

end DataPage

namespace DataPageManager

open DataPage

/-! ### The loop of `SaveContent` -/

/-- The loop ends at a page that is no data page. -/
theorem saveContentTo_of_type_ne {memory content : Bytes} {typeId : UInt32} {page : DataPage}
    (rounds : Nat) (h : page.header.pageType ≠ PageType.data.toByte) :
  saveContentTo memory content typeId (rounds + 1) (.data page)
    = .ok { saved := false, pageId := 0, documentId := 0, memory := memory }
  := by
  rw [saveContentTo, if_neg h]

/-- At a data page that refuses the content the loop has no end. -/
theorem saveContentTo_of_not_accepts {memory content : Bytes} {typeId : UInt32}
    {page : DataPage} (rounds : Nat) (htype : page.header.pageType = PageType.data.toByte)
    (h : ¬ Accepts page.header content typeId) :
  saveContentTo memory content typeId rounds (.data page) = .error .endless
  := by
  induction rounds with
  | zero => rfl
  | succ rounds ih =>
      rw [saveContentTo, if_pos htype, tryAddContent_of_not_accepts h]
      exact ih

/-- At a data page that takes the content the loop ends as `TryAddContent` does there. -/
theorem saveContentTo_of_accepts {memory content : Bytes} {typeId : UInt32} {page : DataPage}
    (rounds : Nat) (htype : page.header.pageType = PageType.data.toByte)
    (h : Accepts page.header content typeId) :
  saveContentTo memory content typeId (rounds + 1) (.data page)
    = (page.tryAddContent memory content typeId).map fun result =>
      { saved := true
        pageId := result.page.header.pageId
        documentId := result.id
        memory := result.memory }
  := by
  rw [saveContentTo, if_pos htype]
  cases hadded : page.tryAddContent memory content typeId with
  | error fault => rfl
  | ok result =>
      obtain ⟨d, -, -, rfl⟩ := tryAddContent_eq_ok h hadded
      rfl

/-! ### The call -/

/-- Some data page of the block has the type of the content and room for it as a document. -/
def HasRoom (memory content : Bytes) (typeId : UInt32) : Prop :=
  ∃ i header, IsData memory i ∧ PageHeader.read (memory.drop (64092 * i)) = .ok header
    ∧ header.pageTypeId = typeId ∧ content.length + 48 ≤ header.pageNumberOfFreeBytes.toNat

/-- What `SaveContent` returns when nothing is saved. -/
def notSaved (memory : Bytes) : SaveResult where
  saved := false
  pageId := 0
  documentId := 0
  memory := memory

/-- `SaveContent` has a result: the content is saved if some data page has room for it, and
nothing is saved and the memory is unchanged if no data page accepts it. -/
def SavesContent (memory content : Bytes) (typeId : UInt32) : Prop :=
  ∃ result, saveContent memory content typeId = .ok result
    ∧ (HasRoom memory content typeId → result.saved = true)
    ∧ ((∀ i header, IsData memory i → PageHeader.read (memory.drop (64092 * i)) = .ok header →
      ¬ Accepts header content typeId) → result = notSaved memory)

/-- The first slot that the cursor does not pass and the slot behind it hold data pages, and
the second one takes the content and has an empty slot with room for it; or they do not both
hold data pages, the slot behind a data page is there, and no data page has room for the
content. -/
def SavesAt (memory content : Bytes) (typeId : UInt32) (i : Nat) : Prop :=
  (IsData memory i ∧ IsData memory (i + 1)
      ∧ ∃ header, PageHeader.read (memory.drop (64092 * (i + 1))) = .ok header
        ∧ Accepts header content typeId
        ∧ ∃ d, FreeAt (memory.drop (64092 * (i + 1))) d
          ∧ 64092 * (i + 1) + d + 48 + content.length ≤ memory.length)
    ∨ ¬ (IsData memory i ∧ IsData memory (i + 1)) ∧ (IsData memory i → IsSlot memory (i + 1))
      ∧ ¬ HasRoom memory content typeId

section SaveContent

variable {memory content : Bytes} {typeId : UInt32} {i : Nat}

/-- Where the cursor stops at no data page nothing is saved. -/
theorem saveContent_of_end (hstop : Stop memory 0 i) (hdata : ¬ IsData memory i) :
  saveContent memory content typeId = .ok (notSaved memory)
  := by
  have hnext := getNextPageOfType_of_end hstop hdata
  rw [Nat.mul_zero] at hnext
  rw [saveContent, hnext]
  rfl

/-- Where the cursor stops at a data page the loop is at the page over the slot behind it. -/
theorem saveContent_of_data {header : PageHeader} (hstop : Stop memory 0 i)
    (hdata : IsData memory i) (hslot : IsSlot memory (i + 1))
    (hread : PageHeader.read (memory.drop (64092 * (i + 1))) = .ok header) :
  saveContent memory content typeId = saveContentTo memory content typeId 2
    (.data { header := header, start := 64092 * (i + 1), isDirty := false })
  := by
  have hnext := getNextPageOfType_of_data hstop hdata
  rw [checkPageAndInit_of_isSlot hslot hread, Nat.mul_zero] at hnext
  rw [saveContent, hnext]
  rfl

/-- Where the cursor stops at a data page with no slot behind it the call throws. -/
theorem saveContent_of_last (hstop : Stop memory 0 i) (hdata : IsData memory i)
    (hslot : ¬ IsSlot memory (i + 1)) :
  saveContent memory content typeId = .error .argument
  := by
  have hnext := getNextPageOfType_of_data hstop hdata
  rw [checkPageAndInit_of_not_isSlot hslot, Nat.mul_zero] at hnext
  rw [saveContent, hnext]
  rfl

/-- A call that saves nothing is right when no data page has room. -/
theorem savesContent_of_notSaved
    (h : saveContent memory content typeId = .ok (notSaved memory)) :
  SavesContent memory content typeId ↔ ¬ HasRoom memory content typeId
  := by
  constructor
  · rintro ⟨result, hresult, hsaved, -⟩ hroom
    rw [h] at hresult
    cases hresult
    cases hsaved hroom
  · intro hroom
    exact ⟨_, h, fun hroom' => absurd hroom' hroom, fun _ => rfl⟩

/-- A call that comes to a page that accepts the content is right when there is an empty slot
with room for it. -/
theorem savesContent_of_accepts {page : DataPage}
    (h : saveContent memory content typeId = saveContentTo memory content typeId 2 (.data page))
    (hdata : IsData memory i)
    (hread : PageHeader.read (memory.drop (64092 * i)) = .ok page.header)
    (htype : page.header.pageType = PageType.data.toByte)
    (haccepts : Accepts page.header content typeId) :
  SavesContent memory content typeId
    ↔ ∃ d, FreeAt (memory.drop page.start) d
      ∧ page.start + d + 48 + content.length ≤ memory.length
  := by
  rw [← tryAddContent_ok_iff haccepts, SavesContent, h,
    saveContentTo_of_accepts 1 htype haccepts]
  constructor
  · rintro ⟨result, hresult, -⟩
    cases hadded : page.tryAddContent memory content typeId with
    | error fault =>
        rw [hadded] at hresult
        cases hresult
    | ok added => exact ⟨added, rfl⟩
  · rintro ⟨added, hadded⟩
    rw [hadded]
    exact ⟨_, rfl, fun _ => rfl, fun hnone => absurd haccepts (hnone i _ hdata hread)⟩

/-- `SaveContent` does what it is for exactly when the first slot that the cursor does not pass
is as `SavesAt` says. -/
theorem savesContent_iff (memory content : Bytes) (typeId : UInt32) :
  SavesContent memory content typeId
    ↔ ∃ i, Stop memory 0 i ∧ SavesAt memory content typeId i
  := by
  obtain ⟨i, hstop⟩ := exists_stop memory 0
  have hat : (∃ i, Stop memory 0 i ∧ SavesAt memory content typeId i)
      ↔ SavesAt memory content typeId i := by
    constructor
    · rintro ⟨j, hj, h⟩
      rwa [hstop.unique hj]
    · exact fun h => ⟨i, hstop, h⟩
  rw [hat, SavesAt]
  by_cases hdata : IsData memory i
  · by_cases hslot : IsSlot memory (i + 1)
    · obtain ⟨header, hread, htype⟩ := hslot.read
      have hcall : saveContent memory content typeId = saveContentTo memory content typeId 2
          (.data { header := header, start := 64092 * (i + 1), isDirty := false }) :=
        saveContent_of_data hstop hdata hslot hread
      by_cases hnext : IsData memory (i + 1)
      · have hheader : header.pageType = PageType.data.toByte := htype.trans hnext.2
        by_cases haccepts : Accepts header content typeId
        · rw [savesContent_of_accepts hcall hnext hread hheader haccepts]
          constructor
          · intro hfree
            exact .inl ⟨hdata, hnext, header, hread, haccepts, hfree⟩
          · rintro (⟨-, -, -, -, -, hfree⟩ | ⟨hboth, -⟩)
            · exact hfree
            · exact absurd ⟨hdata, hnext⟩ hboth
        · have hendless : saveContentTo memory content typeId 2
              (.data { header := header, start := 64092 * (i + 1), isDirty := false })
                = .error .endless := saveContentTo_of_not_accepts 2 hheader haccepts
          rw [hendless] at hcall
          constructor
          · rintro ⟨result, hresult, -⟩
            rw [hcall] at hresult
            cases hresult
          · rintro (⟨-, -, header', hread', haccepts', -⟩ | ⟨hboth, -⟩)
            · rw [hread] at hread'
              cases hread'
              exact absurd haccepts' haccepts
            · exact absurd ⟨hdata, hnext⟩ hboth
      · have hheader : header.pageType ≠ PageType.data.toByte := by
          rw [htype]
          intro hsame
          exact hnext ⟨hslot, hsame⟩
        rw [saveContentTo_of_type_ne 1 hheader] at hcall
        rw [savesContent_of_notSaved hcall]
        tauto
    · constructor
      · rintro ⟨result, hresult, -⟩
        rw [saveContent_of_last hstop hdata hslot] at hresult
        cases hresult
      · rintro (⟨-, hnext, -⟩ | ⟨-, hnext, -⟩)
        · exact absurd hnext.1 hslot
        · exact absurd (hnext hdata) hslot
  · rw [savesContent_of_notSaved (saveContent_of_end hstop hdata)]
    tauto

/-- A block of one data page, to which nothing can be saved: the call throws. -/
theorem not_savesContent :
  ¬ SavesContent ([0, 0, 2] ++ List.replicate 64089 0) [] 0
  := by
  have hlength : ([0, 0, 2] ++ List.replicate 64089 0 : Bytes).length = 64092 := by
    rw [List.length_append, List.length_replicate]
    rfl
  have hdata : IsData ([0, 0, 2] ++ List.replicate 64089 0) 0 := by
    constructor
    · rw [IsSlot, hlength]
    · rfl
  have hslot : ¬ IsSlot ([0, 0, 2] ++ List.replicate 64089 0) 1 := by
    rw [IsSlot, hlength]
    decide
  rintro ⟨result, hresult, -⟩
  rw [saveContent_of_last hdata.stop hdata hslot] at hresult
  cases hresult

end SaveContent

end DataPageManager

end Datatent
