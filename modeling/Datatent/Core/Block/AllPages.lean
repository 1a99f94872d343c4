import Datatent.Core.Block.DataBlock

/-!
# The pages of a block

`getAllPages` takes one round less than the block has pages. So it yields all pages but the last
one, and it fails for a block without pages.
-/

namespace Datatent

open Constants DataPageManager

namespace DataBlock

/-- The header of the block says that it has `n` pages, and they are in its first slots. -/
structure HoldsPages (block : DataBlock) (n : Nat) : Prop where
  limit : n ≤ PAGES_PER_DATA_BLOCK.toNat
  numberOfPages : block.header.numberOfPages.toNat = n
  page : ∀ i < n, ∃ header, HasDataPage block.memory (UInt32.ofNat i) header
    ∧ header.pageId.toNat = i

/-- Nothing is thrown, and the pages `0` to `n - 1` are yielded in this order. -/
def YieldsPages (block : DataBlock) (n : Nat) : Prop :=
  block.getAllPages.2 = none
    ∧ block.getAllPages.1.map (fun page => page.header.pageId.toNat) = List.range n

/-! ### The loop -/

/-- A loop that goes past the pages a block may have throws. -/
theorem getAllPagesFrom_throws {memory : Bytes} {rounds : Nat} :
  ∀ {i : Nat}, i ≤ 101 → 101 < i + rounds → (getAllPagesFrom memory rounds i).2 ≠ none
  := by
  induction rounds with
  | zero =>
      intro i hi hrounds
      omega
  | succ rounds ih =>
      intro i hi hrounds
      rw [getAllPagesFrom]
      split
      · exact Option.some_ne_none _
      · exact Option.some_ne_none _
      · rename_i page hpage
        obtain ⟨hle, -, -⟩ := getPageById_eq_ok hpage
        rw [UInt32.toNat_ofNat_of_lt' (by rw [UInt32.size]; omega)] at hle
        exact ih (by omega) (by omega)

/-- A loop over slots with data pages yields the pages of these slots. -/
theorem getAllPagesFrom_of_pages {memory : Bytes} {rounds : Nat} :
  ∀ {i : Nat}, i + rounds ≤ 100 →
    (∀ j < i + rounds, ∃ header, HasDataPage memory (UInt32.ofNat j) header
      ∧ header.pageId.toNat = j) →
    (getAllPagesFrom memory rounds i).2 = none
      ∧ (getAllPagesFrom memory rounds i).1.map (fun page => page.header.pageId.toNat)
        = List.range' i rounds
  := by
  induction rounds with
  | zero =>
      intro i _ _
      exact ⟨rfl, rfl⟩
  | succ rounds ih =>
      intro i hlimit hpages
      obtain ⟨header, hheader, hid⟩ := hpages i (by omega)
      have hnumber : (UInt32.ofNat i).toNat = i :=
        UInt32.toNat_ofNat_of_lt' (by rw [UInt32.size]; omega)
      have hpage := getPageById_eq_data (by omega) hheader
      obtain ⟨hthrown, hyielded⟩ := @ih (i + 1) (by omega) (fun j hj => hpages j (by omega))
      rw [getAllPagesFrom, hpage]
      constructor
      · exact hthrown
      · rw [List.range'_succ, ← hyielded, List.map_cons]
        exact congrArg (· :: _) hid

/-! ### What is enumerated -/

section

variable {block : DataBlock} {n : Nat}

/-- For a block that has pages, those before the last one are yielded. -/
theorem HoldsPages.getAllPages_of_pos (h : block.HoldsPages n) (hpos : 0 < n) :
  block.YieldsPages (n - 1)
  := by
  have hlimit := h.limit
  rw [PAGES_PER_DATA_BLOCK_toNat] at hlimit
  have hrounds : (block.header.numberOfPages - 1).toNat = n - 1 := by
    have hle : (1 : UInt32) ≤ block.header.numberOfPages := by
      rw [UInt32.le_iff_toNat_le, h.numberOfPages]
      exact hpos
    rw [UInt32.toNat_sub_of_le _ _ hle, h.numberOfPages]
    rfl
  rw [YieldsPages, getAllPages, hrounds, List.range_eq_range']
  apply getAllPagesFrom_of_pages
  · omega
  · intro i hi
    exact h.page i (by omega)

/-- For a block without pages the enumeration throws. -/
theorem HoldsPages.getAllPages_of_zero (h : block.HoldsPages 0) :
  block.getAllPages.2 ≠ none
  := by
  have hzero : block.header.numberOfPages = 0 := UInt32.toNat_inj.mp h.numberOfPages
  rw [getAllPages, hzero]
  apply getAllPagesFrom_throws
  · omega
  · decide

/-- For no block are all of its pages yielded. -/
theorem HoldsPages.not_yieldsPages (h : block.HoldsPages n) :
  ¬ block.YieldsPages n
  := by
  rintro ⟨hthrown, hyielded⟩
  cases n with
  | zero => exact h.getAllPages_of_zero hthrown
  | succ n =>
      obtain ⟨-, hbefore⟩ := h.getAllPages_of_pos (Nat.succ_pos n)
      have hlength := congrArg List.length (hbefore.symm.trans hyielded)
      rw [List.length_range, List.length_range] at hlength
      omega

/-- For every block its pages are yielded. -/
def YieldsAllPages : Prop :=
  ∀ (block : DataBlock) (n : Nat), block.HoldsPages n → block.YieldsPages n

/-- The header of a data page with the number zero. -/
def firstPageHeader : PageHeader :=
  PageHeader.zero.setPageType PageType.data.toByte

/-- A block with one page. -/
def blockOfOnePage : DataBlock where
  header := { marker := 1, id := 7, type := 1, numberOfPages := 1 }
  memory := firstPageHeader.bytes ++ List.replicate 64000 0

/-- The page of a block with one page is in its first slot. -/
theorem blockOfOnePage_holdsPages :
  blockOfOnePage.HoldsPages 1
  := by
  have hsize := firstPageHeader.size
  rw [PAGE_HEADER_SIZE_toNat] at hsize
  constructor
  · decide
  · rfl
  · intro i hi
    obtain rfl : i = 0 := by omega
    use firstPageHeader
    refine ⟨⟨?_, ?_, by decide⟩, by decide⟩
    · rw [blockOfOnePage, List.length_append, hsize, List.length_replicate]
      decide
    · rw [blockOfOnePage]
      exact List.take_left' hsize

/-- The page of a block with one page is not yielded. -/
theorem blockOfOnePage_not_yieldsPages :
  ¬ blockOfOnePage.YieldsPages 1
  := HoldsPages.not_yieldsPages blockOfOnePage_holdsPages

/-- For a block with one page no page is yielded. -/
theorem not_yieldsAllPages :
  ¬ YieldsAllPages
  := by
  intro h
  obtain ⟨-, hyielded⟩ := h _ _ blockOfOnePage_holdsPages
  obtain ⟨-, hbefore⟩ := blockOfOnePage_holdsPages.getAllPages_of_pos Nat.one_pos
  exact absurd (hbefore.symm.trans hyielded) (by decide)

end

end DataBlock

end Datatent
