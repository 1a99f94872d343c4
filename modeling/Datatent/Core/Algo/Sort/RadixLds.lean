import Datatent.Core.Algo.Sort.SortUtils
import Datatent.Library.Except

/-!
# Radix sort on arrays

`RadixLds` sorts keys by groups of their bits, from the lowest group to the highest one. The
last group is narrower than the others when the number of bits in a group does not divide 32;
it is read with the same mask. There is an overload for spans and one for arrays, and they
differ in how the helper array is copied back.
-/

namespace Datatent.RadixLds

open Distribution StableSort

/-- The number of bits of a key. -/
def BitsPerInt : Nat := 32

/-- The number of groups. -/
def groups (r : Nat) : Nat := (BitsPerInt + r - 1) / r

/-- The group of a key that starts at the given bit. -/
def group (r shift : Nat) (key : UInt32) : Nat :=
  (key >>> UInt32.ofNat shift).toNat &&& (2 ^ r - 1)

/-- The loop that calculates prefixes, from the index `i` on. -/
def prefixesFrom (count : List Nat) : Nat → Nat → List Nat → Except SortFault (List Nat)
  | 0, _, pref => .ok pref
  | n + 1, i, pref =>
      match pref[i - 1]?, count[i - 1]? with
      | some p, some k =>
          if i < pref.length then prefixesFrom count n (i + 1) (pref.set i (p + k))
          else .error .indexOutOfRange
      | _, _ => .error .indexOutOfRange

/-- Calculate prefixes: where the groups start in the order of their values. -/
def prefixes (count pref : List Nat) : Except SortFault (List Nat) :=
  if 0 < pref.length then prefixesFrom count (count.length - 1) 1 (pref.set 0 0)
  else .error .indexOutOfRange

/-- `SpanExtensions.Write`: the values put to the span from an index on. -/
def write (span : List UInt32) : Nat → List UInt32 → Except SortFault (List UInt32)
  | _, [] => .ok span
  | i, b :: values =>
      if i < span.length then write (span.set i b) (i + 1) values else .error .indexOutOfRange

/-- The copy of the helper array to a span: the front of it, as long as the span. -/
def copyToSpan (a t : List UInt32) : Except SortFault (List UInt32) :=
  if t.length < a.length then .error .argumentOutOfRange else write a 0 (t.take a.length)

/-- The copy of the helper array to an array. -/
def copyToArray (a t : List UInt32) : Except SortFault (List UInt32) :=
  if t.length < a.length then .error .argument
  else .ok (t.take a.length ++ a.drop a.length)

/-- The loop over the groups: `a` is sorted by a group into `t` and copied back. -/
def sortGroups (copy : List UInt32 → List UInt32 → Except SortFault (List UInt32)) (r : Nat) :
    Nat → Nat → List Nat → List UInt32 → List UInt32 → Except SortFault (List UInt32)
  | 0, _, _, a, _ => .ok a
  | n + 1, shift, pref, a, t => do
      let count ← count .indexOutOfRange (group r shift) (List.replicate (2 ^ r) 0) a
      let pref ← prefixes count pref
      let (pref, t) ← scatter .indexOutOfRange (group r shift) pref t a
      let a ← copy a t
      sortGroups copy r n (shift + r) pref a t

/-- What the overloads do. The helper array comes from the pool, which hands out an array for a
length, or it is a new one. -/
def sortWith (copy : List UInt32 → List UInt32 → Except SortFault (List UInt32))
    (rent : Nat → List UInt32) (a : List UInt32) (usePool : Bool) (groupingBits : Nat) :
    Except SortFault (List UInt32) :=
  let t := if usePool then rent a.length else List.replicate a.length 0
  sortGroups copy groupingBits (groups groupingBits) 0 (List.replicate (2 ^ groupingBits) 0) a t

/-- `Sort(Span<uint>)`. -/
def sortSpan (rent : Nat → List UInt32) (a : List UInt32) (usePool : Bool)
    (groupingBits : Nat) : Except SortFault (List UInt32) :=
  sortWith copyToSpan rent a usePool groupingBits

/-- `Sort(uint[])`. -/
def sortArray (rent : Nat → List UInt32) (a : List UInt32) (usePool : Bool)
    (groupingBits : Nat) : Except SortFault (List UInt32) :=
  sortWith copyToArray rent a usePool groupingBits

/-! ### Copying back -/

/-- Values that are put to a span from an index on replace what is there. -/
theorem write_eq (span values : List UInt32) {i : Nat} (h : i + values.length ≤ span.length) :
  write span i values = .ok (span.take i ++ values ++ span.drop (i + values.length))
  := by
  induction values generalizing span i with
  | nil => simp [write]
  | cons b values ih =>
      rw [List.length_cons] at h
      rw [write, if_pos (by omega), ih _ (by rw [List.length_set]; omega)]
      congr 1
      rw [List.take_add_one, List.length_cons, List.getElem?_set_self (by omega),
        List.drop_set_of_lt (by omega)]
      rw [List.take_set_of_le (Nat.le_refl i)]
      simp [Nat.add_assoc, Nat.add_comm 1]

/-- Both copies put the front of the helper array in the place of the array. -/
theorem copyToSpan_eq {a t : List UInt32} (h : a.length ≤ t.length) :
  copyToSpan a t = .ok (t.take a.length)
  := by
  have hlength : (t.take a.length).length = a.length := by
    rw [List.length_take]
    omega
  rw [copyToSpan, if_neg (by omega), write_eq _ _ (by omega), List.take_zero, List.nil_append,
    List.drop_of_length_le (by omega), List.append_nil]

theorem copyToArray_eq {a t : List UInt32} (h : a.length ≤ t.length) :
  copyToArray a t = .ok (t.take a.length)
  := by
  rw [copyToArray, if_neg (by omega), List.drop_length, List.append_nil]

/-! ### Prefixes -/

/-- The next group starts where the one before it ends. -/
theorem startOf_range_succ (f : Nat → Nat) {b i : Nat} (hi : i + 1 < b) :
  startOf f 0 (List.range b) (i + 1) = startOf f 0 (List.range b) i + f i
  := by
  have hstart : ∀ j < b, startOf f 0 (List.range b) j = ((List.range' 0 j).map f).sum := by
    intro j hj
    have hrange := startOf_range' f 0 0 hj
    rwa [Nat.zero_add, Nat.zero_add, ← List.range_eq_range'] at hrange
  rw [hstart _ hi, hstart i (by omega), List.range'_1_concat, List.map_append, List.sum_append]
  simp

/-- The loop keeps the prefixes it has found. -/
theorem prefixesFrom_eq {f : Nat → Nat} {b : Nat} :
  ∀ {n i : Nat} {pref : List Nat}, 0 < i → i + n = b → pref.length = b →
    (∀ j < i, pref[j]? = some (startOf f 0 (List.range b) j)) →
      prefixesFrom ((List.range b).map f) n i pref
        = .ok ((List.range b).map (startOf f 0 (List.range b)))
  := by
  intro n
  induction n with
  | zero =>
      intro i pref _ hi hlength hpref
      rw [prefixesFrom]
      congr 1
      apply List.ext_getElem?
      intro j
      by_cases hj : j < b
      · rw [hpref j (by omega), List.getElem?_map, List.getElem?_range hj]
        rfl
      · rw [List.getElem?_eq_none (by omega),
          List.getElem?_eq_none (by rw [List.length_map, List.length_range]; omega)]
  | succ n ih =>
      intro i pref hpos hi hlength hpref
      obtain ⟨i, rfl⟩ := Nat.exists_eq_succ_of_ne_zero (Nat.ne_zero_of_lt hpos)
      have hcount : ((List.range b).map f)[i]? = some (f i) := by
        rw [List.getElem?_map, List.getElem?_range (by omega)]
        rfl
      rw [prefixesFrom, Nat.succ_sub_one, hpref i (Nat.lt_succ_self i), hcount]
      dsimp only
      rw [if_pos (by omega)]
      apply ih (Nat.succ_pos _) (by omega)
      · rw [List.length_set, hlength]
      · intro j hj
        rw [List.getElem?_set]
        split
        · rename_i hij
          rw [if_pos (by omega), ← hij, startOf_range_succ f (by omega)]
        · exact hpref j (by omega)

/-- The prefixes are the positions where the groups start, whatever the table held before. -/
theorem prefixes_eq {f : Nat → Nat} {b : Nat} {pref : List Nat} (hb : 0 < b)
    (hlength : pref.length = b) :
  prefixes ((List.range b).map f) pref
    = .ok ((List.range b).map (startOf f 0 (List.range b)))
  := by
  rw [prefixes, if_pos (by omega), List.length_map, List.length_range]
  apply prefixesFrom_eq Nat.zero_lt_one (by omega)
  · rw [List.length_set, hlength]
  · intro j hj
    obtain rfl : j = 0 := by omega
    obtain ⟨b, rfl⟩ := Nat.exists_eq_succ_of_ne_zero (Nat.ne_zero_of_lt hb)
    rw [List.getElem?_set_self (by omega), List.range_succ_eq_map, startOf, if_pos rfl]

/-! ### Sorting -/

/-- The group of a key is a digit of it. -/
theorem group_eq (r : Nat) {shift : Nat} (h : shift < 32) (key : UInt32) :
  group r shift key = key.toNat / 2 ^ shift % 2 ^ r
  := by
  rw [group, SortUtils.toNat_shiftRight key h, Nat.and_two_pow_sub_one_eq_mod]

/-- A pass leaves the array distributed by a group, and goes on with the next one. -/
theorem sortGroups_succ
    {copy : List UInt32 → List UInt32 → Except SortFault (List UInt32)}
    (hcopy : ∀ a t : List UInt32, a.length ≤ t.length → copy a t = .ok (t.take a.length))
    {r : Nat} (n : Nat) {shift : Nat} {pref : List Nat} {a t : List UInt32} (hshift : shift < 32)
    (hpref : pref.length = 2 ^ r) (hroom : a.length ≤ t.length) :
  ∃ pref' t', pref'.length = 2 ^ r ∧ t'.length = t.length
    ∧ sortGroups copy r (n + 1) shift pref a t
      = sortGroups copy r n (shift + r) pref'
        (distribute (group r shift) (List.range (2 ^ r)) a) t'
  := by
  have hlt : ∀ key ∈ a, group r shift key < 2 ^ r := by
    intro key _
    rw [group_eq r hshift]
    exact Nat.mod_lt _ (Nat.two_pow_pos r)
  have hmem : ∀ key ∈ a, group r shift key ∈ List.range (2 ^ r) :=
    fun key hkey => List.mem_range.mpr (hlt key hkey)
  have hlength : (distribute (group r shift) (List.range (2 ^ r)) a).length = a.length :=
    (distribute_perm List.nodup_range hmem).length_eq
  have hoffsets : ∀ d ∈ List.range (2 ^ r), ((List.range (2 ^ r)).map
      (startOf (size (group r shift) a) 0 (List.range (2 ^ r))))[d]?
        = some (startOf (size (group r shift) a) 0 (List.range (2 ^ r)) d) := by
    intro d hd
    rw [List.getElem?_map, List.getElem?_range (List.mem_range.mp hd)]
    rfl
  have hroom' : 0 + a.length ≤ t.length := by omega
  obtain ⟨pref', hscatter, hpref'⟩ :=
    scatter_eq SortFault.indexOutOfRange List.nodup_range hmem hroom' hoffsets
  rw [List.take_zero, List.nil_append, Nat.zero_add] at hscatter
  rw [List.length_map, List.length_range] at hpref'
  have hback : copy a (distribute (group r shift) (List.range (2 ^ r)) a ++ t.drop a.length)
      = .ok (distribute (group r shift) (List.range (2 ^ r)) a) := by
    rw [hcopy _ _ (by rw [List.length_append]; omega), ← hlength, List.take_left]
  refine ⟨pref', distribute (group r shift) (List.range (2 ^ r)) a ++ t.drop a.length, hpref',
    ?_, ?_⟩
  · rw [List.length_append, List.length_drop]
    omega
  · rw [sortGroups, count_replicate _ hlt, Except.ok_bind, prefixes_eq (Nat.two_pow_pos r) hpref,
      Except.ok_bind, hscatter, Except.ok_bind]
    dsimp only
    rw [hback, Except.ok_bind]

/-- The passes from a group on sort an array that is sorted by the groups before it. -/
theorem sortGroups_eq {copy : List UInt32 → List UInt32 → Except SortFault (List UInt32)}
    (hcopy : ∀ a t : List UInt32, a.length ≤ t.length → copy a t = .ok (t.take a.length))
    {r : Nat} {keys : List UInt32} (n : Nat) {shift : Nat} {pref : List Nat}
    {a t : List UInt32} (hshift : shift + n * r < 32 + r) (hpref : pref.length = 2 ^ r)
    (hroom : a.length ≤ t.length) (ha : Sorts (fun key => key.toNat % 2 ^ shift) keys a) :
  ∃ ys, sortGroups copy r n shift pref a t = .ok ys
    ∧ Sorts (fun key => key.toNat % 2 ^ (shift + n * r)) keys ys
  := by
  induction n generalizing shift pref a t with
  | zero =>
      rw [Nat.zero_mul, Nat.add_zero]
      exact ⟨a, rfl, ha⟩
  | succ n ih =>
      rw [Nat.add_mul, Nat.one_mul] at hshift
      have hbit : shift < 32 := by omega
      obtain ⟨pref', t', hpref', ht', hnext⟩ := sortGroups_succ hcopy n hbit hpref hroom
      have hpass := sorts_distribute_digit ha (fun key _ => group_eq r hbit key)
      have hroom' : (distribute (group r shift) (List.range (2 ^ r)) a).length ≤ t'.length := by
        rw [hpass.perm.length_eq, ht', ← ha.perm.length_eq]
        exact hroom
      obtain ⟨ys, hys, hsorted⟩ := ih (by omega) hpref' hroom' hpass
      refine ⟨ys, hnext.trans hys, ?_⟩
      have hsum : shift + (n + 1) * r = shift + r + n * r := by
        rw [Nat.add_mul, Nat.one_mul]
        omega
      rwa [hsum]

/-- The groups cover all bits of a key, and the last one begins within them. -/
theorem groups_bounds {r : Nat} (h : 1 ≤ r) :
  32 ≤ groups r * r ∧ groups r * r < 32 + r
  := by
  have hdiv := Nat.div_add_mod (BitsPerInt + r - 1) r
  have hmod := Nat.mod_lt (BitsPerInt + r - 1) (show 0 < r by omega)
  rw [groups, Nat.mul_comm]
  rw [BitsPerInt] at hdiv hmod ⊢
  omega

/-- Sorting with either copy gives the keys in their order. -/
theorem sortWith_eq {copy : List UInt32 → List UInt32 → Except SortFault (List UInt32)}
    (hcopy : ∀ a t : List UInt32, a.length ≤ t.length → copy a t = .ok (t.take a.length))
    {rent : Nat → List UInt32} (hrent : ∀ n, n ≤ (rent n).length) (a : List UInt32)
    (usePool : Bool) {r : Nat} (hr : 1 ≤ r) :
  sortWith copy rent a usePool r = .ok (a.mergeSort (fun x y => x.toNat ≤ y.toNat))
  := by
  obtain ⟨hcover, hlast⟩ := groups_bounds hr
  have hroom : a.length
      ≤ (if usePool then rent a.length else List.replicate a.length 0).length := by
    split
    · exact hrent a.length
    · rw [List.length_replicate]
  have hstart : Sorts (fun key : UInt32 => key.toNat % 2 ^ 0) a a :=
    sorts_of_const (fun key _ => Nat.mod_one _)
  have hbound : 0 + groups r * r < 32 + r := by omega
  have hpref : (List.replicate (2 ^ r) 0).length = 2 ^ r := List.length_replicate
  obtain ⟨ys, hys, hsorted⟩ := sortGroups_eq hcopy (groups r) hbound hpref hroom hstart
  rw [sortWith, hys]
  congr 1
  apply Sorts.eq_mergeSort
  apply hsorted.congr
  intro x _ y _
  have hpow : 2 ^ 32 ≤ 2 ^ (0 + groups r * r) := Nat.pow_le_pow_right (by decide) (by omega)
  have hx := x.toNat_lt
  have hy := y.toNat_lt
  rw [Nat.mod_eq_of_lt (by omega), Nat.mod_eq_of_lt (by omega)]

/-- With a pool that hands out arrays that are long enough, whatever they hold, both overloads
give the keys in their order, without an index out of range. -/
theorem sort_sorts {rent : Nat → List UInt32} (hrent : ∀ n, n ≤ (rent n).length)
    (a : List UInt32) (usePool : Bool) {groupingBits : Nat}
    (h : 1 ≤ groupingBits ∧ groupingBits ≤ 30) :
  ∃ ys, sortSpan rent a usePool groupingBits = .ok ys
    ∧ sortArray rent a usePool groupingBits = .ok ys
    ∧ ys.Perm a ∧ ys.Pairwise (· ≤ ·)
  := by
  refine ⟨_, sortWith_eq (fun _ _ => copyToSpan_eq) hrent a usePool h.1,
    sortWith_eq (fun _ _ => copyToArray_eq) hrent a usePool h.1, List.mergeSort_perm _ _, ?_⟩
  apply (sorts_mergeSort UInt32.toNat a).ordered.imp
  intro x y hxy
  exact UInt32.le_iff_toNat_le.mpr hxy

/-- Three keys with a pool that hands out longer arrays of old values, in groups of five bits. -/
theorem sort_sorts_three :
  ∃ ys, sortSpan (fun n => List.replicate (n + 2) 7) [3, 0xFFFFFFFF, 1] true 5 = .ok ys
    ∧ sortArray (fun n => List.replicate (n + 2) 7) [3, 0xFFFFFFFF, 1] true 5 = .ok ys
    ∧ ys.Perm [3, 0xFFFFFFFF, 1] ∧ ys.Pairwise (· ≤ ·)
  := by
  apply sort_sorts
  · intro n
    rw [List.length_replicate]
    omega
  · decide

end Datatent.RadixLds
