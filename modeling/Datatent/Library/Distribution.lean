import Datatent.Library.StableSort
import Mathlib.Algebra.GroupWithZero.Nat
import Mathlib.Data.List.Nodup

/-!
# Distribution into buckets

The pass of a radix or counting sort: the elements of a list are counted by a digit, the counts
are added up to the positions where the buckets start, and the elements are put one after the
other to the next position of their bucket. The result is the list of the buckets
(`distribute`), in which the elements of a bucket keep their order; so a pass sorts by the
digit and by any key the list was sorted by before (`sorts_distribute`).
-/

namespace Distribution

variable {α : Type}

/-- The elements of the buckets, one bucket after the other. -/
def distribute (digit : α → Nat) (order : List Nat) (xs : List α) : List α :=
  order.flatMap (fun d => xs.filter (digit · = d))

/-- The number of elements of a bucket. -/
def size (digit : α → Nat) (xs : List α) (d : Nat) : Nat :=
  (xs.filter (digit · = d)).length

variable {digit : α → Nat} {order : List Nat} {xs : List α}

/-- A further element is counted in the bucket of its digit. -/
theorem size_cons (digit : α → Nat) (a : α) (xs : List α) (d : Nat) :
  size digit (a :: xs) d = size digit xs d + if digit a = d then 1 else 0
  := by
  rw [size, size, List.filter_cons]
  by_cases hd : digit a = d
  · rw [if_pos (decide_eq_true hd), if_pos hd, List.length_cons]
  · rw [if_neg (by simpa using hd), if_neg hd, Nat.add_zero]

/-- A bucket with as many elements as there are has them all. -/
theorem digit_eq_of_size {d : Nat} (h : size digit xs d = xs.length) :
  ∀ a ∈ xs, digit a = d
  := by
  intro a ha
  exact of_decide_eq_true (List.length_filter_eq_length_iff.mp h a ha)

/-- The elements of two lists are counted together. -/
theorem size_append (digit : α → Nat) (xs ys : List α) (d : Nat) :
  size digit (xs ++ ys) d = size digit xs d + size digit ys d
  := by
  rw [size, List.filter_append, List.length_append]
  rfl

/-- Elements are in the buckets of their digits. -/
theorem mem_distribute {a : α} :
  a ∈ distribute digit order xs ↔ a ∈ xs ∧ digit a ∈ order
  := by
  simp only [distribute, List.mem_flatMap, List.mem_filter, decide_eq_true_iff]
  constructor
  · rintro ⟨d, hd, ha, rfl⟩
    exact ⟨ha, hd⟩
  · rintro ⟨ha, hd⟩
    exact ⟨digit a, hd, ha, rfl⟩

/-- Elements that are all in one bucket keep their order. -/
theorem filter_distribute {p : α → Bool} {d : Nat} (horder : order.Nodup) (hd : d ∈ order)
    (hp : ∀ a ∈ xs, p a = true → digit a = d) :
  (distribute digit order xs).filter p = xs.filter p
  := by
  induction order with
  | nil => cases hd
  | cons e order ih =>
      obtain ⟨he, horder⟩ := List.nodup_cons.mp horder
      have hsplit : (distribute digit (e :: order) xs).filter p
          = (xs.filter (digit · = e)).filter p ++ (distribute digit order xs).filter p := by
        rw [distribute, List.flatMap_cons, List.filter_append]
        rfl
      rw [hsplit]
      rcases List.mem_cons.mp hd with rfl | hd
      · have hrest : (distribute digit order xs).filter p = [] := by
          apply List.filter_eq_nil_iff.mpr
          intro a ha hpa
          obtain ⟨ha, hda⟩ := mem_distribute.mp ha
          rw [hp a ha hpa] at hda
          exact he hda
        rw [hrest, List.append_nil, List.filter_filter]
        apply List.filter_congr
        intro a ha
        cases hpa : p a with
        | false => rfl
        | true => rw [Bool.true_and, decide_eq_true (hp a ha hpa)]
      · have hfirst : (xs.filter (digit · = e)).filter p = [] := by
          apply List.filter_eq_nil_iff.mpr
          intro a ha hpa
          rw [List.mem_filter, decide_eq_true_iff] at ha
          rw [← ha.2, hp a ha.1 hpa] at he
          exact he hd
        rw [hfirst, List.nil_append, ih horder hd]

/-- Distributing a list whose elements are all in one bucket changes nothing. -/
theorem distribute_eq_self {d : Nat} (horder : order.Nodup) (hd : d ∈ order)
    (h : ∀ a ∈ xs, digit a = d) :
  distribute digit order xs = xs
  := by
  have hfilter := filter_distribute (p := fun _ => true) horder hd (fun a ha _ => h a ha)
  rwa [List.filter_true, List.filter_true] at hfilter

/-- Distributing a list into the buckets of all its elements gives a permutation. -/
theorem distribute_perm (horder : order.Nodup) (hmem : ∀ a ∈ xs, digit a ∈ order) :
  (distribute digit order xs).Perm xs
  := by
  classical
  apply List.perm_iff_count.mpr
  intro a
  by_cases ha : a ∈ xs
  · rw [List.count_eq_length_filter, List.count_eq_length_filter,
      filter_distribute horder (hmem a ha)]
    intro b _ hb
    rw [eq_of_beq hb]
  · rw [List.count_eq_zero_of_not_mem ha, List.count_eq_zero_of_not_mem]
    intro hdistribute
    exact ha (mem_distribute.mp hdistribute).1

/-- The buckets of all elements hold as many elements as there are. -/
theorem sum_size (horder : order.Nodup) (hmem : ∀ a ∈ xs, digit a ∈ order) :
  (order.map (size digit xs)).sum = xs.length
  := by
  rw [← (distribute_perm horder hmem).length_eq, distribute, List.length_flatMap]
  rfl

/-- Buckets in order, with the order of the list in each of them. -/
theorem pairwise_distribute {R : α → α → Prop} {S : Nat → Nat → Prop} (hxs : xs.Pairwise R)
    (horder : order.Pairwise S) :
  (distribute digit order xs).Pairwise
    (fun a b => digit a = digit b ∧ R a b ∨ S (digit a) (digit b))
  := by
  rw [distribute, List.pairwise_flatMap]
  constructor
  · intro d _
    apply (hxs.filter (digit · = d)).imp_of_mem
    intro a b ha hb hab
    rw [List.mem_filter, decide_eq_true_iff] at ha hb
    exact .inl ⟨ha.2.trans hb.2.symm, hab⟩
  · apply horder.imp
    intro d e hde a ha b hb
    rw [List.mem_filter, decide_eq_true_iff] at ha hb
    rw [ha.2, hb.2]
    exact .inr hde

/-- A pass sorts by the digit in front of a key by which the list was sorted before. -/
theorem sorts_distribute {key : α → Nat} {ys : List α} {bound : Nat} {rank : Nat → Nat}
    (h : StableSort.Sorts key xs ys) (hkey : ∀ a ∈ xs, key a < bound)
    (horder : order.Pairwise (fun d e => rank d < rank e)) (hmem : ∀ a ∈ xs, digit a ∈ order) :
  StableSort.Sorts (fun a => key a + bound * rank (digit a)) xs (distribute digit order ys)
  := by
  have hranks : (order.map rank).Nodup := by
    apply List.Pairwise.map rank _ horder
    intro d e hlt
    omega
  have hnodup : order.Nodup := List.Nodup.of_map rank hranks
  have hys : ∀ a ∈ ys, key a < bound ∧ digit a ∈ order := by
    intro a ha
    have hxs := (h.mem_iff a).mp ha
    exact ⟨hkey a hxs, hmem a hxs⟩
  constructor
  · apply (pairwise_distribute h.ordered horder).imp_of_mem
    intro a b ha hb hab
    obtain ⟨hlt, -⟩ := hys a (mem_distribute.mp ha).1
    rcases hab with ⟨hdigit, hle⟩ | hrank
    · rw [hdigit]
      omega
    · have hmul : bound * (rank (digit a) + 1) ≤ bound * rank (digit b) :=
        Nat.mul_le_mul_left bound hrank
      rw [Nat.mul_add, Nat.mul_one] at hmul
      omega
  · intro k
    have hsplit : ∀ a, key a < bound → key a + bound * rank (digit a) = k →
        key a = k % bound ∧ rank (digit a) = k / bound := by
      rintro a hlt rfl
      rw [Nat.add_mul_mod_self_left, Nat.mod_eq_of_lt hlt, Nat.add_mul_div_left _ _ (by omega),
        Nat.div_eq_of_lt hlt, Nat.zero_add]
      exact ⟨rfl, rfl⟩
    have hold : ys.filter (fun a => key a + bound * rank (digit a) = k)
        = xs.filter (fun a => key a + bound * rank (digit a) = k) := by
      have hfilter : ∀ zs : List α, (∀ a ∈ zs, key a < bound) →
          (zs.filter (key · = k % bound)).filter (fun a => key a + bound * rank (digit a) = k)
            = zs.filter (fun a => key a + bound * rank (digit a) = k) := by
        intro zs hzs
        rw [List.filter_filter]
        apply List.filter_congr
        intro a ha
        by_cases hk : key a + bound * rank (digit a) = k
        · rw [decide_eq_true hk, decide_eq_true (hsplit a (hzs a ha) hk).1, Bool.true_and]
        · rw [decide_eq_false hk, Bool.false_and]
      rw [← hfilter ys (fun a ha => (hys a ha).1), h.stable, hfilter xs hkey]
    rw [← hold]
    by_cases hk : ∃ a ∈ ys, key a + bound * rank (digit a) = k
    · obtain ⟨a, ha, hka⟩ := hk
      apply filter_distribute hnodup (hys a ha).2
      intro b hb hkb
      have hka := hsplit a (hys a ha).1 hka
      have hkb := hsplit b (hys b hb).1 (of_decide_eq_true hkb)
      exact List.inj_on_of_nodup_map hranks (hys b hb).2 (hys a ha).2 (hkb.2.trans hka.2.symm)
    · have hnone : ∀ zs : List α, (∀ a ∈ zs, a ∈ ys) →
          zs.filter (fun a => key a + bound * rank (digit a) = k) = [] := by
        intro zs hzs
        apply List.filter_eq_nil_iff.mpr
        intro a ha hka
        exact hk ⟨a, hzs a ha, of_decide_eq_true hka⟩
      rw [hnone _ (fun a ha => (mem_distribute.mp ha).1), hnone ys (fun a ha => ha)]

/-- A pass by the next digit to a list sorted by the lower ones. -/
theorem sorts_distribute_digit {value : α → Nat} {ys : List α} {s r : Nat}
    (h : StableSort.Sorts (fun a => value a % 2 ^ s) xs ys)
    (hdigit : ∀ a ∈ xs, digit a = value a / 2 ^ s % 2 ^ r) :
  StableSort.Sorts (fun a => value a % 2 ^ (s + r)) xs
    (distribute digit (List.range (2 ^ r)) ys)
  := by
  have hpass : StableSort.Sorts (fun a => value a % 2 ^ s + 2 ^ s * id (digit a)) xs
      (distribute digit (List.range (2 ^ r)) ys) := by
    apply sorts_distribute h
    · intro a _
      exact Nat.mod_lt _ (Nat.two_pow_pos s)
    · exact List.pairwise_lt_range
    · intro a ha
      rw [List.mem_range, hdigit a ha]
      exact Nat.mod_lt _ (Nat.two_pow_pos r)
  apply hpass.congr
  have hkey : ∀ a ∈ xs, value a % 2 ^ s + 2 ^ s * id (digit a) = value a % 2 ^ (s + r) := by
    intro a ha
    rw [id, hdigit a ha, Nat.pow_add, Nat.mod_mul]
  intro a ha b hb
  rw [hkey a ha, hkey b hb]

/-- A pass by a digit that is the same for all elements changes nothing. -/
theorem sorts_of_digit_const {key : α → Nat} {ys : List α} {d : Nat} (bound : Nat)
    (rank : Nat → Nat) (h : StableSort.Sorts key xs ys) (hdigit : ∀ a ∈ xs, digit a = d) :
  StableSort.Sorts (fun a => key a + bound * rank (digit a)) xs ys
  := by
  apply h.congr
  intro a ha b hb
  rw [hdigit a ha, hdigit b hb]
  omega

/-! ### Buckets from one on -/

/-- The buckets from one on, and then those before it. -/
def rotated (b start : Nat) : List Nat :=
  List.range' start (b - start) ++ List.range' 0 start

/-- The place of a bucket among the buckets from one on. -/
def rankFrom (b start d : Nat) : Nat :=
  if start ≤ d then d - start else d + (b - start)

/-- Beginning with the first bucket the buckets are in their usual order. -/
theorem rotated_zero (b : Nat) :
  rotated b 0 = List.range b
  := by
  rw [rotated, List.range'_zero, List.append_nil, Nat.sub_zero, List.range_eq_range']

theorem rankFrom_zero (b d : Nat) :
  rankFrom b 0 d = d
  := by
  rw [rankFrom, if_pos (Nat.zero_le d), Nat.sub_zero]

/-- All buckets are among those from one on. -/
theorem mem_rotated {b start d : Nat} (h : start ≤ b) :
  d ∈ rotated b start ↔ d < b
  := by
  rw [rotated, List.mem_append, List.mem_range'_1, List.mem_range'_1]
  omega

/-- The buckets from one on are in the order of their places. -/
theorem pairwise_rotated (b start : Nat) :
  (rotated b start).Pairwise (fun d e => rankFrom b start d < rankFrom b start e)
  := by
  rw [rotated, List.pairwise_append]
  refine ⟨?_, ?_, ?_⟩
  · apply (List.pairwise_lt_range' 1).imp_of_mem
    intro d e hd he hlt
    rw [List.mem_range'_1] at hd he
    rw [rankFrom, rankFrom, if_pos hd.1, if_pos he.1]
    omega
  · apply (List.pairwise_lt_range' 1).imp_of_mem
    intro d e hd he hlt
    rw [List.mem_range'_1] at hd he
    rw [rankFrom, rankFrom, if_neg (by omega), if_neg (by omega)]
    omega
  · intro d hd e he
    rw [List.mem_range'_1] at hd he
    rw [rankFrom, rankFrom, if_pos hd.1, if_neg (by omega)]
    omega

/-- No bucket is twice among those from one on. -/
theorem nodup_rotated (b start : Nat) :
  (rotated b start).Nodup
  := by
  apply (pairwise_rotated b start).imp
  rintro d _ hlt rfl
  exact Nat.lt_irrefl _ hlt

end Distribution
