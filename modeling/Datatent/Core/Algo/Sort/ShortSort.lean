import Datatent.Core.Algo.Sort.SortUtils
import Datatent.Library.Except
import Datatent.Library.LossySort

/-!
# Sorting a few keys

Groups of at most five keys are compared and swapped in pairs, all of them. The swap of a pair
overwrites the larger key and does not put it to the other place, so it only leaves what is in
order already; everything else becomes lighter.
-/

namespace Datatent.SortUtils

open LossySort

/-- Swap the keys at two places if they are not in order: the first one is assigned the second
one, and then the second one is assigned the first one. -/
def upSwap (keys : List UInt32) (a b : Nat) : Except SortFault (List UInt32) :=
  match keys[a]?, keys[b]? with
  | some x, some y => .ok (if x > y then (keys.set a y).set b y else keys)
  | _, _ => .error .indexOutOfRange

/-- Swap the pairs of places one after the other. -/
def upSwaps : List (Nat × Nat) → List UInt32 → Except SortFault (List UInt32)
  | [], keys => .ok keys
  | (a, b) :: places, keys => do
      let keys ← upSwap keys a b
      upSwaps places keys

def upSwap3 (keys : List UInt32) (a b c : Nat) : Except SortFault (List UInt32) :=
  upSwaps [(a, b), (a, c), (b, c)] keys

def upSwap4 (keys : List UInt32) (a b c d : Nat) : Except SortFault (List UInt32) :=
  upSwaps [(a, b), (a, c), (a, d), (b, c), (b, d), (c, d)] keys

def upSwap5 (keys : List UInt32) (a b c d e : Nat) : Except SortFault (List UInt32) :=
  upSwaps [(a, b), (a, c), (a, d), (a, e), (b, c), (b, d), (b, e), (c, d), (c, e), (d, e)] keys

/-- Sort up to five keys; whether there are more, which are left to the caller. -/
def shortSortAscending (keys : List UInt32) (offset count : Nat) :
    Except SortFault (List UInt32 × Bool) :=
  match count with
  | 0 | 1 => .ok (keys, false)
  | 2 => do
      let keys ← upSwap keys offset (offset + 1)
      .ok (keys, false)
  | 3 => do
      let keys ← upSwap3 keys offset (offset + 1) (offset + 2)
      .ok (keys, false)
  | 4 => do
      let keys ← upSwap4 keys offset (offset + 1) (offset + 2) (offset + 3)
      .ok (keys, false)
  | 5 => do
      let keys ← upSwap5 keys offset (offset + 1) (offset + 2) (offset + 3) (offset + 4)
      .ok (keys, false)
  | _ => .ok (keys, true)

/-! ### What a swap does -/

/-- A list whose element at one place is lowered to that at another place. -/
def lower (xs : List UInt32) (i j : Nat) : List UInt32 :=
  match xs[i]?, xs[j]? with
  | some x, some y => if x > y then xs.set i y else xs
  | _, _ => xs

section

variable {xs : List UInt32} {i j : Nat}

theorem lower_of_lt (hi : i < xs.length) (hj : j < xs.length) :
  lower xs i j = if xs[i] > xs[j] then xs.set i xs[j] else xs
  := by
  rw [lower, List.getElem?_eq_getElem hi, List.getElem?_eq_getElem hj]

/-- A swap lowers the first of the two elements. -/
theorem upSwap_eq (hi : i < xs.length) (hj : j < xs.length) :
  upSwap xs i j = .ok (lower xs i j)
  := by
  rw [upSwap, lower_of_lt hi hj, List.getElem?_eq_getElem hi, List.getElem?_eq_getElem hj]
  dsimp only
  congr 1
  split
  · apply List.ext_getElem?
    intro k
    rw [List.getElem?_set, List.length_set]
    split
    · rename_i hjk
      rw [← hjk, List.getElem?_set]
      split
      · rfl
      · rw [List.getElem?_eq_getElem hj]
    · rfl
  · rfl

theorem length_lower (xs : List UInt32) (i j : Nat) :
  (lower xs i j).length = xs.length
  := by
  rw [lower]
  split
  · split
    · exact List.length_set
    · rfl
  · rfl

/-- The elements of a part of a list are lowered in the part. -/
theorem lower_append (front back : List UInt32) (hi : i < xs.length) (hj : j < xs.length) :
  lower (front ++ (xs ++ back)) (front.length + i) (front.length + j)
    = front ++ (lower xs i j ++ back)
  := by
  have hentry : ∀ k, k < xs.length → (front ++ (xs ++ back))[front.length + k]? = xs[k]? := by
    intro k hk
    rw [List.getElem?_append_right (Nat.le_add_right _ _), Nat.add_sub_cancel_left,
      List.getElem?_append_left hk]
  rw [lower, lower, hentry i hi, hentry j hj, List.getElem?_eq_getElem hi,
    List.getElem?_eq_getElem hj]
  dsimp only
  split
  · rw [List.set_append_right _ _ (Nat.le_add_right _ _), Nat.add_sub_cancel_left,
      List.set_append_left _ _ hi]
  · rfl

/-- Where elements are in order nothing is lowered. -/
theorem lower_eq_self (hi : i < xs.length) (hj : j < xs.length) (h : xs[i] ≤ xs[j]) :
  lower xs i j = xs
  := by
  rw [lower_of_lt hi hj, if_neg (UInt32.not_lt.mpr h)]

/-- An element that is lowered makes the list lighter. -/
theorem total_lower (hi : i < xs.length) (hj : j < xs.length) :
  total UInt32.toNat (lower xs i j) ≤ total UInt32.toNat xs
    ∧ (total UInt32.toNat (lower xs i j) = total UInt32.toNat xs → xs[i] ≤ xs[j])
  := by
  rw [lower_of_lt hi hj]
  split
  · rename_i hlt
    have hsplit : xs = xs.take i ++ xs[i] :: xs.drop (i + 1) := by
      rw [List.getElem_cons_drop, List.take_append_drop]
    have hweight : total UInt32.toNat (xs.set i xs[j]) + xs[i].toNat
        = total UInt32.toNat xs + xs[j].toNat := by
      have hset : xs.set i xs[j] = xs.take i ++ xs[j] :: xs.drop (i + 1) := by
        rw [List.set_eq_take_append_cons_drop, if_pos hi]
      have htotal := congrArg (total UInt32.toNat) hsplit
      rw [total_append, total_cons] at htotal
      rw [hset, total_append, total_cons, htotal]
      omega
    have hlt' := UInt32.lt_iff_toNat_lt.mp hlt
    omega
  · rename_i hle
    exact ⟨Nat.le_refl _, fun _ => UInt32.not_lt.mp hle⟩

end

/-! ### What the networks do -/

section

variable {pairs : List (Nat × Nat)} {xs : List UInt32}

/-- The elements at pairs of places are lowered one after the other. -/
def lowers (pairs : List (Nat × Nat)) (xs : List UInt32) : List UInt32 :=
  pairs.foldl (fun xs pair => lower xs pair.1 pair.2) xs

theorem length_lowers (pairs : List (Nat × Nat)) (xs : List UInt32) :
  (lowers pairs xs).length = xs.length
  := by
  induction pairs generalizing xs with
  | nil => rfl
  | cons pair pairs ih =>
      rw [lowers, List.foldl_cons, ← lowers, ih, length_lower]

/-- Swapping pairs of places in a part of the keys lowers elements of the part. -/
theorem upSwaps_eq (front back : List UInt32)
    (h : ∀ pair ∈ pairs, pair.1 < xs.length ∧ pair.2 < xs.length) :
  upSwaps (pairs.map (fun pair => (front.length + pair.1, front.length + pair.2)))
      (front ++ (xs ++ back)) = .ok (front ++ (lowers pairs xs ++ back))
  := by
  induction pairs generalizing xs with
  | nil => rfl
  | cons pair pairs ih =>
      obtain ⟨hi, hj⟩ := h pair List.mem_cons_self
      have hbound : ∀ k, k < xs.length → front.length + k < (front ++ (xs ++ back)).length := by
        intro k hk
        rw [List.length_append, List.length_append]
        omega
      rw [List.map_cons, upSwaps, upSwap_eq (hbound _ hi) (hbound _ hj), Except.ok_bind,
        lower_append front back hi hj, ih, lowers, lowers, List.foldl_cons]
      intro pair' hpair'
      rw [length_lower]
      exact h pair' (List.mem_cons_of_mem pair hpair')

/-- Where all pairs are in order nothing is lowered. -/
theorem lowers_eq_self
    (h : ∀ pair ∈ pairs, ∃ (hi : pair.1 < xs.length) (hj : pair.2 < xs.length),
      xs[pair.1] ≤ xs[pair.2]) :
  lowers pairs xs = xs
  := by
  induction pairs with
  | nil => rfl
  | cons pair pairs ih =>
      obtain ⟨hi, hj, hle⟩ := h pair List.mem_cons_self
      rw [lowers, List.foldl_cons, lower_eq_self hi hj hle]
      exact ih (fun pair' hpair' => h pair' (List.mem_cons_of_mem pair hpair'))

/-- Where a pair is not in order the list becomes lighter. -/
theorem total_lowers (h : ∀ pair ∈ pairs, pair.1 < xs.length ∧ pair.2 < xs.length) :
  total UInt32.toNat (lowers pairs xs) ≤ total UInt32.toNat xs
    ∧ (total UInt32.toNat (lowers pairs xs) = total UInt32.toNat xs →
      ∀ pair ∈ pairs, ∃ (hi : pair.1 < xs.length) (hj : pair.2 < xs.length),
        xs[pair.1] ≤ xs[pair.2])
  := by
  induction pairs generalizing xs with
  | nil =>
      refine ⟨Nat.le_refl _, ?_⟩
      intro _ pair hpair
      cases hpair
  | cons pair pairs ih =>
      obtain ⟨hi, hj⟩ := h pair List.mem_cons_self
      obtain ⟨hle, heq⟩ := total_lower hi hj
      have hrest : ∀ pair' ∈ pairs, pair'.1 < (lower xs pair.1 pair.2).length
          ∧ pair'.2 < (lower xs pair.1 pair.2).length := by
        intro pair' hpair'
        rw [length_lower]
        exact h pair' (List.mem_cons_of_mem pair hpair')
      obtain ⟨hle', heq'⟩ := ih hrest
      rw [lowers, List.foldl_cons, ← lowers]
      refine ⟨Nat.le_trans hle' hle, ?_⟩
      intro htotal pair' hpair'
      have hsame := lower_eq_self hi hj (heq (by omega))
      rcases List.mem_cons.mp hpair' with rfl | hpair'
      · exact ⟨hi, hj, heq (by omega)⟩
      · have hpairs := heq' (by omega)
        rw [hsame] at hpairs
        exact hpairs pair' hpair'

/-- Lowering elements at all pairs of places sorts what is in order already. -/
theorem outcome_lowers (h : ∀ pair ∈ pairs, pair.1 < pair.2 ∧ pair.2 < xs.length)
    (hall : ∀ i j, i < j → j < xs.length → (i, j) ∈ pairs) :
  Outcome UInt32.toNat (· ≤ ·) (xs.Pairwise (· ≤ ·)) xs (lowers pairs xs)
  := by
  have hbounds : ∀ pair ∈ pairs, pair.1 < xs.length ∧ pair.2 < xs.length := by
    intro pair hpair
    obtain ⟨hlt, hj⟩ := h pair hpair
    exact ⟨Nat.lt_trans hlt hj, hj⟩
  obtain ⟨hle, heq⟩ := total_lowers hbounds
  constructor
  · exact length_lowers pairs xs
  · exact hle
  · intro htotal
    apply List.pairwise_iff_getElem.mpr
    intro i j _ hj hij
    obtain ⟨_, _, hxs⟩ := heq htotal (i, j) (hall i j hij hj)
    exact hxs
  · intro hsorted
    have hself : lowers pairs xs = xs := by
      apply lowers_eq_self
      intro pair hpair
      obtain ⟨hi, hj⟩ := hbounds pair hpair
      exact ⟨hi, hj, List.pairwise_iff_getElem.mp hsorted _ _ hi hj (h pair hpair).1⟩
    rw [hself]
    exact ⟨List.Perm.refl xs, hsorted⟩

end

/-- The pairs of places of a few keys. -/
def network : Nat → List (Nat × Nat)
  | 2 => [(0, 1)]
  | 3 => [(0, 1), (0, 2), (1, 2)]
  | 4 => [(0, 1), (0, 2), (0, 3), (1, 2), (1, 3), (2, 3)]
  | 5 => [(0, 1), (0, 2), (0, 3), (0, 4), (1, 2), (1, 3), (1, 4), (2, 3), (2, 4), (3, 4)]
  | _ => []

/-- The networks compare pairs of places in their order. -/
theorem lt_of_mem_network :
  ∀ count < 6, ∀ pair ∈ network count, pair.1 < pair.2 ∧ pair.2 < count
  := by decide

/-- The networks compare all pairs of places. -/
theorem mem_network :
  ∀ count < 6, ∀ j ∈ List.range count, ∀ i ∈ List.range j, (i, j) ∈ network count
  := by decide

/-- Sorting up to five keys swaps the pairs of places of a network. -/
theorem shortSortAscending_eq (keys : List UInt32) (offset : Nat) {count : Nat} (h : count ≤ 5) :
  shortSortAscending keys offset count = (do
    let keys ← upSwaps ((network count).map (fun pair => (offset + pair.1, offset + pair.2))) keys
    .ok (keys, false))
  := by
  have hcases : count = 0 ∨ count = 1 ∨ count = 2 ∨ count = 3 ∨ count = 4 ∨ count = 5 := by omega
  rcases hcases with rfl | rfl | rfl | rfl | rfl | rfl
  · rfl
  · rfl
  · rw [shortSortAscending, network, List.map_cons, upSwaps, Nat.add_zero]
    cases upSwap keys offset (offset + 1) with
    | error _ => rfl
    | ok _ => rfl
  · rfl
  · rfl
  · rfl

/-- More than five keys are left as they are. -/
theorem shortSortAscending_long (keys : List UInt32) (offset : Nat) {count : Nat}
    (h : 5 < count) :
  shortSortAscending keys offset count = .ok (keys, true)
  := by
  rw [shortSortAscending]
  all_goals omega

/-- A part of at most five keys is sorted if and only if it is in order already. -/
theorem shortSortAscending_outcome {xs : List UInt32} (h : xs.length ≤ 5)
    (front back : List UInt32) :
  ∃ ys, shortSortAscending (front ++ (xs ++ back)) front.length xs.length
      = .ok (front ++ (ys ++ back), false)
    ∧ Outcome UInt32.toNat (· ≤ ·) (xs.Pairwise (· ≤ ·)) xs ys
  := by
  have hpairs := lt_of_mem_network xs.length (Nat.lt_succ_of_le h)
  use lowers (network xs.length) xs
  constructor
  · rw [shortSortAscending_eq _ _ h, upSwaps_eq, Except.ok_bind]
    intro pair hpair
    obtain ⟨hlt, hj⟩ := hpairs pair hpair
    exact ⟨Nat.lt_trans hlt hj, hj⟩
  · apply outcome_lowers hpairs
    intro i j hij hj
    exact mem_network xs.length (Nat.lt_succ_of_le h) j (List.mem_range.mpr hj) i
      (List.mem_range.mpr hij)

end Datatent.SortUtils
