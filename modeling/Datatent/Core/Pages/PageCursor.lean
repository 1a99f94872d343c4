import Datatent.Core.Pages.DataPageManager

/-!
# The cursor over the pages of a block

The memory of a block is a row of slots, each with the header of a page at its front.
`GetNextPageOfType` passes the slots of other types and stops at the first slot it does not
pass. There it moves on once more before it makes the page, so that the page is made over the
slot behind the one that was found (`getNextPageOfType_of_data`).
-/

namespace Datatent

open Constants

namespace DataPageManager

/-- The slot with the given number lies in the memory. -/
def IsSlot (memory : Bytes) (i : Nat) : Prop :=
  64092 * i + 64092 ≤ memory.length

instance (memory : Bytes) (i : Nat) : Decidable (IsSlot memory i) :=
  inferInstanceAs (Decidable (_ ≤ _))

/-- The byte of the type in the header of a slot. -/
def slotType (memory : Bytes) (i : Nat) : UInt8 :=
  (memory.drop (64092 * i)).getD PageHeader.PAGE_TYPE 0

/-- The slot holds a data page. -/
def IsData (memory : Bytes) (i : Nat) : Prop :=
  IsSlot memory i ∧ slotType memory i = PageType.data.toByte

instance (memory : Bytes) (i : Nat) : Decidable (IsData memory i) :=
  inferInstanceAs (Decidable (_ ∧ _))

/-- The slot holds a page of another type, so that the cursor for data pages passes it. -/
def Passed (memory : Bytes) (i : Nat) : Prop :=
  IsSlot memory i ∧ (slotType memory i = PageType.header.toByte
    ∨ slotType memory i = PageType.index.toByte ∨ slotType memory i = PageType.null.toByte)

instance (memory : Bytes) (i : Nat) : Decidable (Passed memory i) :=
  inferInstanceAs (Decidable (_ ∧ _))

/-- The first slot from `i` on that the cursor does not pass. -/
def Stop (memory : Bytes) (i j : Nat) : Prop :=
  i ≤ j ∧ (∀ k, i ≤ k → k < j → Passed memory k) ∧ ¬ Passed memory j

/-! ### Slots -/

/-- A slot that holds a data page is not passed. -/
theorem IsData.not_passed {memory : Bytes} {i : Nat} (h : IsData memory i) :
  ¬ Passed memory i
  := by
  rintro ⟨-, htype⟩
  rw [h.2] at htype
  revert htype
  decide

/-- There is a slot at which the cursor stops. -/
theorem exists_stop (memory : Bytes) (i : Nat) :
  ∃ j, Stop memory i j
  := by
  induction hrest : memory.length - 64092 * i using Nat.strongRecOn generalizing i with
  | _ n ih =>
      by_cases hpassed : Passed memory i
      · have hslot := hpassed.1
        rw [IsSlot] at hslot
        obtain ⟨j, hij, hbetween, hstop⟩ := ih _ (by omega) (i + 1) rfl
        refine ⟨j, by omega, ?_, hstop⟩
        intro k hik hkj
        rcases Nat.eq_or_lt_of_le hik with rfl | hlt
        · exact hpassed
        · exact hbetween k hlt hkj
      · refine ⟨i, Nat.le_refl i, ?_, hpassed⟩
        intro k hik hki
        omega

/-- There is one such slot. -/
theorem Stop.unique {memory : Bytes} {i j j' : Nat} (h : Stop memory i j)
    (h' : Stop memory i j') :
  j = j'
  := by
  obtain ⟨hij, hbetween, hstop⟩ := h
  obtain ⟨hij', hbetween', hstop'⟩ := h'
  rcases Nat.lt_trichotomy j j' with hlt | rfl | hlt
  · exact absurd (hbetween' j hij hlt) hstop
  · rfl
  · exact absurd (hbetween j' hij' hlt) hstop'

/-- Where the cursor passes a slot it stops at the same slot from the next one on. -/
theorem Stop.succ {memory : Bytes} {i j : Nat} (h : Stop memory i j) (hi : Passed memory i) :
  Stop memory (i + 1) j
  := by
  obtain ⟨hij, hbetween, hstop⟩ := h
  refine ⟨?_, fun k hik hkj => hbetween k (by omega) hkj, hstop⟩
  rcases Nat.eq_or_lt_of_le hij with rfl | hlt
  · exact absurd hi hstop
  · exact hlt

/-- What is found at the front of a slot that is passed. -/
theorem Passed.hasNextPage {memory : Bytes} {i : Nat} (h : Passed memory i) :
  DataPageManager.hasNextPage (memory.drop (64092 * i)) = (true, slotType memory i)
    ∧ slotType memory i ≠ PageType.data.toByte
  := by
  obtain ⟨hslot, htype⟩ := h
  rw [IsSlot] at hslot
  rw [DataPageManager.hasNextPage, PAGE_SIZE_INCL_HEADER_toNat,
    if_neg (by rw [List.length_drop]; omega)]
  rw [slotType] at htype ⊢
  rcases htype with htype | htype | htype
  all_goals
    rw [htype]
    decide

/-- What is found at the front of a slot that holds a data page. -/
theorem IsData.hasNextPage {memory : Bytes} {i : Nat} (h : IsData memory i) :
  DataPageManager.hasNextPage (memory.drop (64092 * i)) = (true, PageType.data.toByte)
  := by
  obtain ⟨hslot, htype⟩ := h
  rw [IsSlot] at hslot
  rw [slotType] at htype
  rw [DataPageManager.hasNextPage, PAGE_SIZE_INCL_HEADER_toNat,
    if_neg (by rw [List.length_drop]; omega), htype]
  decide

/-- At the front of every other slot no page is found. -/
theorem hasNextPage_of_not {memory : Bytes} {i : Nat} (hpassed : ¬ Passed memory i)
    (hdata : ¬ IsData memory i) :
  hasNextPage (memory.drop (64092 * i)) = (false, PageType.empty.toByte)
  := by
  rw [hasNextPage, PAGE_SIZE_INCL_HEADER_toNat]
  split
  · rfl
  · rename_i hroom
    rw [List.length_drop] at hroom
    have hslot : IsSlot memory i := by
      rw [IsSlot]
      omega
    simp only
    split
    · rfl
    · rename_i hzero
      rw [if_pos]
      intro hmem
      simp only [possiblePageTypesAsByte, List.mem_cons, List.not_mem_nil, or_false] at hmem
      rcases hmem with htype | htype | htype | htype | htype
      · exact hzero htype
      · exact hpassed ⟨hslot, .inl htype⟩
      · exact hdata ⟨hslot, htype⟩
      · exact hpassed ⟨hslot, .inr (.inl htype)⟩
      · exact hpassed ⟨hslot, .inr (.inr htype)⟩

/-! ### Pages over slots -/

/-- The header at the front of a slot. -/
theorem IsSlot.read {memory : Bytes} {i : Nat} (h : IsSlot memory i) :
  ∃ header, PageHeader.read (memory.drop (64092 * i)) = .ok header
    ∧ header.pageType = slotType memory i
  := by
  rw [IsSlot] at h
  rw [PageHeader.read, dif_neg (by rw [List.length_drop, PAGE_HEADER_SIZE_toNat]; omega)]
  refine ⟨_, rfl, ?_⟩
  rw [PageHeader.pageType, slotType, List.getD_eq_getElem?_getD, List.getD_eq_getElem?_getD,
    List.getElem?_take_of_lt (by decide)]

/-- A page over a slot has the header at its front. -/
theorem checkPageAndInit_of_isSlot {memory : Bytes} {i : Nat} {header : PageHeader}
    (h : IsSlot memory i) (hread : PageHeader.read (memory.drop (64092 * i)) = .ok header) :
  checkPageAndInit memory PageType.data.toByte (64092 * i)
    = .ok (.data { header := header, start := 64092 * i, isDirty := false })
  := by
  rw [IsSlot] at h
  rw [checkPageAndInit, if_pos rfl, DataPage.initExisting, PAGE_SIZE_INCL_HEADER_toNat,
    if_neg (by rw [List.length_drop]; omega), hread]
  rfl

/-- There is no page over a part of a slot. -/
theorem checkPageAndInit_of_not_isSlot {memory : Bytes} {i : Nat} (h : ¬ IsSlot memory i) :
  checkPageAndInit memory PageType.data.toByte (64092 * i) = .error .argument
  := by
  rw [IsSlot] at h
  rw [checkPageAndInit, if_pos rfl, DataPage.initExisting, PAGE_SIZE_INCL_HEADER_toNat,
    if_pos (by rw [List.length_drop]; omega)]
  rfl

/-! ### The cursor -/

/-- The cursor goes from slot to slot until the one it does not pass. -/
theorem getNextPageOfType_of_stop {memory : Bytes} {i j : Nat} (h : Stop memory i j)
    (rounds : Nat) :
  getNextPageOfType memory PageType.data.toByte (rounds + (j - i)) (64092 * i)
    = getNextPageOfType memory PageType.data.toByte rounds (64092 * j)
  := by
  induction hsteps : j - i generalizing i with
  | zero =>
      have hij := h.1
      obtain rfl : i = j := by omega
      rfl
  | succ n ih =>
      have hpassed := h.2.1 i (Nat.le_refl i) (by omega)
      obtain ⟨hnext, htype⟩ := hpassed.hasNextPage
      rw [← ih (h.succ hpassed) (by omega), ← Nat.add_assoc, getNextPageOfType, hnext]
      simp only [if_true, if_pos htype, PAGE_SIZE_INCL_HEADER_toNat]
      congr 1

/-- The number of slots the cursor passes is at most the number of bytes. -/
theorem Stop.sub_le {memory : Bytes} {i j : Nat} (h : Stop memory i j) :
  j - i ≤ memory.length
  := by
  rcases Nat.eq_zero_or_pos (j - i) with hzero | hpos
  · omega
  · have hslot := (h.2.1 (j - 1) (by omega) (by omega)).1
    rw [IsSlot] at hslot
    omega

/-- Where the cursor stops at a data page it returns the page over the slot behind it. -/
theorem getNextPageOfType_of_data {memory : Bytes} {i j : Nat} (h : Stop memory i j)
    (hdata : IsData memory j) :
  getNextPageOfType memory PageType.data.toByte (memory.length + 1) (64092 * i)
    = (checkPageAndInit memory PageType.data.toByte (64092 * (j + 1))).map
      (fun page => (page, 64092 * (j + 1)))
  := by
  have hsteps := h.sub_le
  obtain ⟨rounds, hrounds⟩ : ∃ rounds, memory.length + 1 = rounds + 1 + (j - i) :=
    ⟨memory.length - (j - i), by omega⟩
  rw [hrounds, getNextPageOfType_of_stop h, getNextPageOfType, hdata.hasNextPage]
  simp only [if_true, ne_eq, not_true_eq_false, if_false, PAGE_SIZE_INCL_HEADER_toNat]
  rw [Nat.mul_add, Nat.mul_one]
  cases checkPageAndInit memory PageType.data.toByte (64092 * j + 64092) with
  | error fault => rfl
  | ok page => rfl

/-- Where the cursor stops at no data page it returns none. -/
theorem getNextPageOfType_of_end {memory : Bytes} {i j : Nat} (h : Stop memory i j)
    (hdata : ¬ IsData memory j) :
  getNextPageOfType memory PageType.data.toByte (memory.length + 1) (64092 * i)
    = .ok (.null, 64092 * j)
  := by
  have hsteps := h.sub_le
  obtain ⟨rounds, hrounds⟩ : ∃ rounds, memory.length + 1 = rounds + 1 + (j - i) :=
    ⟨memory.length - (j - i), by omega⟩
  rw [hrounds, getNextPageOfType_of_stop h, getNextPageOfType, hasNextPage_of_not h.2.2 hdata]
  rfl

/-! ### The data pages of a block -/

/-- The slots that hold data pages. -/
def dataSlots (memory : Bytes) : List Nat :=
  (List.range (memory.length / 64092)).filter (IsData memory ·)

/-- The pages that calls of `GetNextPageOfType(PageType.Data)` return one after the other, with
the pointer at the start, until one returns a null page. -/
inductive DataPagesFrom (memory : Bytes) : Nat → List DataPage → Prop where
  | null {pointer pointer' : Nat}
      (h : getNextPageOfType memory PageType.data.toByte (memory.length + 1) pointer
        = .ok (.null, pointer')) :
      DataPagesFrom memory pointer []
  | data {pointer pointer' : Nat} {page : DataPage} {pages : List DataPage}
      (h : getNextPageOfType memory PageType.data.toByte (memory.length + 1) pointer
        = .ok (.data page, pointer'))
      (hrest : DataPagesFrom memory pointer' pages) :
      DataPagesFrom memory pointer (page :: pages)

/-- The calls on a fresh manager return the pages of the data slots in their order, each with
the header of its own slot, and then a null page. -/
def EnumeratesDataPages (memory : Bytes) : Prop :=
  ∃ pages, DataPagesFrom memory 0 pages
    ∧ List.Forall₂
      (fun i page => PageHeader.read (memory.drop (64092 * i)) = .ok page.header)
      (dataSlots memory) pages

/-- The slots that hold data pages are listed. -/
theorem mem_dataSlots {memory : Bytes} {i : Nat} :
  i ∈ dataSlots memory ↔ IsData memory i
  := by
  rw [dataSlots, List.mem_filter, List.mem_range, decide_eq_true_iff]
  constructor
  · exact And.right
  · intro h
    have hslot := h.1
    rw [IsSlot] at hslot
    exact ⟨by omega, h⟩

/-- The cursor stops where it is at a slot that holds a data page. -/
theorem IsData.stop {memory : Bytes} {i : Nat} (h : IsData memory i) :
  Stop memory i i
  := by
  refine ⟨Nat.le_refl i, ?_, h.not_passed⟩
  intro k hik hki
  omega

/-- From a data page on the calls do not return headers of data pages only: the last page of a
row of data pages gives the header of the slot behind the row or throws. -/
theorem DataPagesFrom.exists_type_ne {memory : Bytes} {pointer : Nat} {pages : List DataPage}
    (h : DataPagesFrom memory pointer pages) {i j : Nat} (hi : pointer = 64092 * i)
    (hstop : Stop memory i j) (hdata : IsData memory j) :
  ∃ page ∈ pages, page.header.pageType ≠ PageType.data.toByte
  := by
  induction h generalizing i j with
  | null hnull =>
      subst hi
      rw [getNextPageOfType_of_data hstop hdata] at hnull
      by_cases hslot : IsSlot memory (j + 1)
      · obtain ⟨header, hread, -⟩ := hslot.read
        rw [checkPageAndInit_of_isSlot hslot hread] at hnull
        cases hnull
      · rw [checkPageAndInit_of_not_isSlot hslot] at hnull
        cases hnull
  | @data pointer pointer' page pages hpage _ ih =>
      subst hi
      rw [getNextPageOfType_of_data hstop hdata] at hpage
      by_cases hslot : IsSlot memory (j + 1)
      · obtain ⟨header, hread, htype⟩ := hslot.read
        rw [checkPageAndInit_of_isSlot hslot hread] at hpage
        cases hpage
        by_cases hnext : slotType memory (j + 1) = PageType.data.toByte
        · have hdata' : IsData memory (j + 1) := ⟨hslot, hnext⟩
          obtain ⟨page', hmem, hne⟩ := ih rfl hdata'.stop hdata'
          exact ⟨page', List.mem_cons_of_mem _ hmem, hne⟩
        · refine ⟨_, List.mem_cons_self, ?_⟩
          rwa [htype]
      · rw [checkPageAndInit_of_not_isSlot hslot] at hpage
        cases hpage

/-- Every header listed for a data slot is that of a data page. -/
theorem forall_type_eq {memory : Bytes} {slots : List Nat} {pages : List DataPage}
    (hslots : ∀ i ∈ slots, IsData memory i)
    (h : List.Forall₂
      (fun i page => PageHeader.read (memory.drop (64092 * i)) = .ok page.header) slots pages) :
  ∀ page ∈ pages, page.header.pageType = PageType.data.toByte
  := by
  induction h with
  | nil => simp
  | @cons i page slots pages hread _ ih =>
      intro page' hmem
      rcases List.mem_cons.mp hmem with rfl | hmem
      · obtain ⟨hslot, htype⟩ := hslots i List.mem_cons_self
        obtain ⟨header, hread', htype'⟩ := hslot.read
        rw [hread] at hread'
        cases hread'
        rw [htype', htype]
      · exact ih (fun i hi => hslots i (List.mem_cons_of_mem _ hi)) page' hmem

/-- The calls enumerate the data pages of a memory when there are none, and only then. -/
theorem enumeratesDataPages_iff (memory : Bytes) :
  EnumeratesDataPages memory ↔ ∀ i, ¬ IsData memory i
  := by
  obtain ⟨j, hstop⟩ := exists_stop memory 0
  constructor
  · rintro ⟨pages, hpages, hheaders⟩ i hi
    by_cases hdata : IsData memory j
    · obtain ⟨page, hmem, hne⟩ := hpages.exists_type_ne rfl hstop hdata
      exact hne (forall_type_eq (fun i => mem_dataSlots.mp) hheaders page hmem)
    · have hend := getNextPageOfType_of_end hstop hdata
      cases hpages with
      | null _ =>
          have hmem := mem_dataSlots.mpr hi
          rw [List.forall₂_nil_right_iff.mp hheaders] at hmem
          cases hmem
      | data hpage _ =>
          rw [Nat.mul_zero] at hend
          rw [hend] at hpage
          cases hpage
  · intro hnone
    have hslots : dataSlots memory = [] := by
      apply List.eq_nil_iff_forall_not_mem.mpr
      intro i hi
      exact hnone i (mem_dataSlots.mp hi)
    refine ⟨[], .null (getNextPageOfType_of_end hstop (hnone j)), ?_⟩
    rw [hslots]
    exact .nil

/-- The cursor throws at a block of one data page. -/
theorem not_enumeratesDataPages :
  ¬ EnumeratesDataPages ([0, 0, 2] ++ List.replicate 64089 0)
  := by
  have hdata : IsData ([0, 0, 2] ++ List.replicate 64089 0) 0 := by
    constructor
    · rw [IsSlot, List.length_append, List.length_replicate]
      decide
    · rfl
  rintro ⟨pages, hpages, hheaders⟩
  obtain ⟨page, hmem, hne⟩ := hpages.exists_type_ne rfl hdata.stop hdata
  exact hne (forall_type_eq (fun i => mem_dataSlots.mp) hheaders page hmem)

/-! ### A page with a given number -/

/-- The page that belongs to a number: the data page of its slot with the header that is stored
there, and a null page where the number or the slot has no data page. -/
def IsPageOf (memory : Bytes) (id : UInt32) : BasePage → Prop
  | .data page => id < PAGES_PER_DATA_BLOCK ∧ IsData memory id.toNat
      ∧ PageHeader.read (memory.drop (64092 * id.toNat)) = .ok page.header
  | .null => ¬ (id < PAGES_PER_DATA_BLOCK ∧ IsData memory id.toNat)

/-- A slot with a data page begins with its header. -/
theorem isData_iff {memory : Bytes} {id : UInt32} :
  IsData memory id.toNat ↔ ∃ header, HasDataPage memory id header
  := by
  constructor
  · rintro ⟨hslot, htype⟩
    obtain ⟨header, hread, htype'⟩ := hslot.read
    rw [IsSlot] at hslot
    rw [PageHeader.read,
      dif_neg (by rw [List.length_drop, PAGE_HEADER_SIZE_toNat]; omega)] at hread
    cases hread
    exact ⟨_, hslot, rfl, htype'.trans htype⟩
  · rintro ⟨header, h⟩
    refine ⟨h.room, ?_⟩
    rw [← h.type, slotType, PageHeader.pageType, ← h.bytes, List.getD_eq_getElem?_getD,
      List.getD_eq_getElem?_getD, List.getElem?_take_of_lt (by decide)]

/-- The header of a page is the one at the front of its slot. -/
theorem HasDataPage.read {memory : Bytes} {id : UInt32} {header : PageHeader}
    (h : HasDataPage memory id header) :
  PageHeader.read (memory.drop (64092 * id.toNat)) = .ok header
  := by
  have hroom := h.room
  rw [PageHeader.read, dif_neg (by rw [List.length_drop, PAGE_HEADER_SIZE_toNat]; omega)]
  congr 1
  obtain ⟨bytes, size⟩ := header
  congr 1
  exact h.bytes

/-- A null page is returned for a number past the limit or past the end of the memory. -/
theorem getPageById_eq_null_iff {memory : Bytes} {id : UInt32} :
  getPageById memory id = .ok .null
    ↔ PAGES_PER_DATA_BLOCK < id ∨ memory.length < 64092 * id.toNat
  := by
  rw [getPageById]
  split
  · rename_i hpages
    exact ⟨fun _ => .inl hpages, fun _ => rfl⟩
  · rename_i hpages
    have hlimit := hpages
    rw [UInt32.lt_iff_toNat_lt, PAGES_PER_DATA_BLOCK_toNat] at hlimit
    rw [slotStart_toNat (by omega)]
    split
    · rename_i hend
      exact ⟨fun _ => .inr hend, fun _ => rfl⟩
    · constructor
      · intro hnull
        obtain ⟨slice, -, hnull⟩ := Except.bind_eq_ok_iff.mp hnull
        rw [checkPageAndInit] at hnull
        split at hnull
        · obtain ⟨page, -, hnull⟩ := Except.bind_eq_ok_iff.mp hnull
          cases hnull
        · cases hnull
      · rintro (h | h)
        · contradiction
        · contradiction

/-- The page that belongs to a number is returned when the number is past the limit, when its
slot starts past the end of the memory, or when it is below the limit and its slot holds a data
page, and only then. -/
theorem getPageById_exact_iff (memory : Bytes) (id : UInt32) :
  (∃ page, getPageById memory id = .ok page ∧ IsPageOf memory id page)
    ↔ PAGES_PER_DATA_BLOCK < id ∨ memory.length < 64092 * id.toNat
      ∨ id < PAGES_PER_DATA_BLOCK ∧ IsData memory id.toNat
  := by
  rw [← or_assoc, ← getPageById_eq_null_iff]
  constructor
  · rintro ⟨page, hpage, hof⟩
    cases page with
    | null => exact .inl hpage
    | data page => exact .inr ⟨hof.1, hof.2.1⟩
  · rintro (hnull | ⟨hid, hdata⟩)
    · refine ⟨.null, hnull, ?_⟩
      rintro ⟨hid, hdata⟩
      have hslot := hdata.1
      rw [IsSlot] at hslot
      rw [UInt32.lt_iff_toNat_lt, PAGES_PER_DATA_BLOCK_toNat] at hid
      rcases getPageById_eq_null_iff.mp hnull with hlimit | hend
      · rw [UInt32.lt_iff_toNat_lt, PAGES_PER_DATA_BLOCK_toNat] at hlimit
        omega
      · omega
    · obtain ⟨header, hheader⟩ := isData_iff.mp hdata
      have hlimit := UInt32.lt_iff_toNat_lt.mp hid
      rw [PAGES_PER_DATA_BLOCK_toNat] at hlimit
      exact ⟨_, getPageById_eq_data (by omega) hheader, hid, hdata, hheader.read⟩

/-- At the end of the memory no page is found, and making one for its empty type throws. -/
theorem not_getPageById_exact :
  ¬ ∃ page, getPageById (List.replicate (5 * 64092) 0) 5 = .ok page
    ∧ IsPageOf (List.replicate (5 * 64092) 0) 5 page
  := by
  rintro ⟨page, hpage, hof⟩
  cases page with
  | data page =>
      have hslot := hof.2.1.1
      rw [IsSlot, List.length_replicate] at hslot
      revert hslot
      decide
  | null =>
      rcases getPageById_eq_null_iff.mp hpage with hlimit | hend
      · revert hlimit
        decide
      · rw [List.length_replicate] at hend
        revert hend
        decide

end DataPageManager

end Datatent
