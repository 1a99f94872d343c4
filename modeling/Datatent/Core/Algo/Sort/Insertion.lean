import Datatent.Core.Algo.Sort.SortUtils
import Datatent.Library.Except

/-!
# Insertion sort

`Insertion.Sort` moves every element of an array to the left over the elements that are greater.
Whether an element is greater is told by `CompareTo`, of whose results only the sign has a
meaning: the sort takes an element for greater when the result is greater than 1. It sorts
exactly the arrays in which no element is followed by one for which the result is 1.
-/

namespace Datatent.Insertion

variable {T : Type}

/-- Swap an element with the one before it when that is greater. -/
def swapWithPrevious (compareTo : T → T → Int) (array : List T) (j : Nat) :
    Except SortFault (List T) :=
  match array[j - 1]?, array[j]? with
  | some previous, some current =>
      if compareTo previous current > 1 then .ok ((array.set (j - 1) current).set j previous)
      else .ok array
  | _, _ => .error .indexOutOfRange

/-- The inner loop, from the index `j` down. -/
def sink (compareTo : T → T → Int) : Nat → List T → Except SortFault (List T)
  | 0, array => .ok array
  | j + 1, array => do
      let array ← swapWithPrevious compareTo array (j + 1)
      sink compareTo j array

/-- The outer loop, a number of times from the index `i` on. -/
def sortFrom (compareTo : T → T → Int) : Nat → Nat → List T → Except SortFault (List T)
  | 0, _, array => .ok array
  | n + 1, i, array => do
      let array ← sink compareTo (i + 1) array
      sortFrom compareTo n (i + 1) array

/-- Sort the array. -/
def sort (compareTo : T → T → Int) (array : List T) : Except SortFault (List T) :=
  sortFrom compareTo (array.length - 1) 0 array

/-- What `IComparable` asks of `CompareTo`: the signs of its results are those of a total
preorder. -/
structure LawfulCompareTo (compareTo : T → T → Int) : Prop where
  sign : ∀ x y, 0 < compareTo x y ↔ compareTo y x < 0
  trans : ∀ x y z, compareTo x y ≤ 0 → compareTo y z ≤ 0 → compareTo x z ≤ 0

/-- The array is non-decreasing. -/
def Sorted (compareTo : T → T → Int) (array : List T) : Prop :=
  array.Pairwise (fun x y => compareTo x y ≤ 0)

/-- The sort leaves the array a permutation of what it was, and non-decreasing. -/
def SortsArray (compareTo : T → T → Int) (array : List T) : Prop :=
  ∃ result, sort compareTo array = .ok result ∧ result.Perm array ∧ Sorted compareTo result

/-- No element is followed, anywhere, by one to which it compares as 1. -/
def NoneByOne (compareTo : T → T → Int) (array : List T) : Prop :=
  array.Pairwise (fun x y => compareTo x y ≠ 1)

variable {compareTo : T → T → Int} {x y : T} {front back : List T}

/-! ### One comparison -/

/-- Elements compare to each other with opposite signs. -/
theorem LawfulCompareTo.le_of_lt (h : LawfulCompareTo compareTo) (hxy : 0 < compareTo x y) :
  compareTo y x < 0
  := (h.sign x y).mp hxy

/-- A comparison of two neighbours in the array. -/
theorem swapWithPrevious_append (compareTo : T → T → Int) (front : List T) (x y : T)
    (back : List T) :
  swapWithPrevious compareTo (front ++ x :: y :: back) (front.length + 1)
    = .ok (if compareTo x y > 1 then front ++ y :: x :: back else front ++ x :: y :: back)
  := by
  have hprevious : (front ++ x :: y :: back)[front.length]? = some x := by
    rw [List.getElem?_append_right (le_refl _), Nat.sub_self, List.getElem?_cons_zero]
  have hcurrent : (front ++ x :: y :: back)[front.length + 1]? = some y := by
    rw [List.getElem?_append_right (Nat.le_add_right _ 1), Nat.add_sub_cancel_left]
    rfl
  rw [swapWithPrevious, Nat.add_sub_cancel, hprevious, hcurrent]
  dsimp only
  by_cases hgreater : compareTo x y > 1
  · rw [if_pos hgreater, if_pos hgreater, List.set_append_right _ _ (le_refl _), Nat.sub_self,
      List.set_append_right _ _ (Nat.le_add_right _ 1), Nat.add_sub_cancel_left]
    rfl
  · rw [if_neg hgreater, if_neg hgreater]

/-- Swapping two neighbours, the first of which is greater by more than 1, changes nothing about
the elements that compare as 1. -/
theorem noneByOne_swap (h : LawfulCompareTo compareTo) (hxy : compareTo x y > 1) :
  NoneByOne compareTo (front ++ y :: x :: back) ↔ NoneByOne compareTo (front ++ x :: y :: back)
  := by
  have hyx : compareTo y x ≠ 1 := by
    have hlt := h.le_of_lt (by omega : 0 < compareTo x y)
    omega
  have hne : compareTo x y ≠ 1 := by omega
  rw [NoneByOne, NoneByOne, List.pairwise_append, List.pairwise_append, List.pairwise_cons,
    List.pairwise_cons, List.pairwise_cons, List.pairwise_cons]
  simp only [List.mem_cons, forall_eq_or_imp]
  constructor
  · rintro ⟨hfront, ⟨⟨-, hy⟩, hx, hback⟩, hcross⟩
    exact ⟨hfront, ⟨⟨hne, hx⟩, hy, hback⟩, fun a ha =>
      ⟨(hcross a ha).2.1, (hcross a ha).1, (hcross a ha).2.2⟩⟩
  · rintro ⟨hfront, ⟨⟨-, hx⟩, hy, hback⟩, hcross⟩
    exact ⟨hfront, ⟨⟨hyx, hy⟩, hx, hback⟩, fun a ha =>
      ⟨(hcross a ha).2.1, (hcross a ha).1, (hcross a ha).2.2⟩⟩

/-! ### The inner loop -/

/-- The inner loop permutes the array and changes nothing about the elements that compare
as 1. -/
theorem sink_keeps (h : LawfulCompareTo compareTo) :
  ∀ (n : Nat) (front : List T) (y : T) (back : List T), front.length = n →
    ∃ result, sink compareTo n (front ++ y :: back) = .ok result
      ∧ result.Perm (front ++ y :: back)
      ∧ (NoneByOne compareTo result ↔ NoneByOne compareTo (front ++ y :: back))
  := by
  intro n
  induction n with
  | zero =>
      intro front y back hlength
      exact ⟨_, rfl, List.Perm.refl _, Iff.rfl⟩
  | succ n ih =>
      intro front y back hlength
      obtain rfl | ⟨front, x, rfl⟩ := List.eq_nil_or_concat front
      · cases hlength
      · rw [List.concat_eq_append, List.length_append, List.length_singleton] at hlength
        obtain rfl := Nat.succ.inj hlength
        rw [List.concat_eq_append, List.append_assoc, List.singleton_append, sink,
          swapWithPrevious_append, Except.ok_bind]
        by_cases hgreater : compareTo x y > 1
        · rw [if_pos hgreater]
          obtain ⟨result, hok, hperm, hiff⟩ := ih front y (x :: back) rfl
          refine ⟨result, hok, hperm.trans ?_, hiff.trans (noneByOne_swap h hgreater)⟩
          exact (List.Perm.swap x y back).append_left front
        · rw [if_neg hgreater]
          exact ih front x (y :: back) rfl

/-- An element that goes down to its place in a sorted part of the array. -/
theorem sink_sorted (h : LawfulCompareTo compareTo) :
  ∀ (n : Nat) (front : List T) (y : T) (done rest : List T), front.length = n →
    NoneByOne compareTo (front ++ y :: (done ++ rest)) → Sorted compareTo (front ++ done) →
    (∀ d ∈ done, compareTo y d ≤ 0) →
    ∃ part, sink compareTo n (front ++ y :: (done ++ rest)) = .ok (part ++ rest)
      ∧ Sorted compareTo part ∧ part.length = front.length + 1 + done.length
  := by
  intro n
  induction n with
  | zero =>
      intro front y done rest hlength _ hsorted hle
      obtain rfl := List.eq_nil_of_length_eq_zero hlength
      refine ⟨y :: done, rfl, List.pairwise_cons.mpr ⟨hle, hsorted⟩, ?_⟩
      rw [List.length_cons, List.length_nil]
      omega
  | succ n ih =>
      intro front y done rest hlength hnone hsorted hle
      obtain rfl | ⟨front, x, rfl⟩ := List.eq_nil_or_concat front
      · cases hlength
      · rw [List.concat_eq_append, List.length_append, List.length_singleton] at hlength
        obtain rfl := Nat.succ.inj hlength
        rw [List.concat_eq_append, List.append_assoc, List.singleton_append] at hnone hsorted ⊢
        have hxy : compareTo x y ≠ 1 := by
          have hpair := (List.pairwise_append.mp hnone).2.1
          exact (List.pairwise_cons.mp hpair).1 y List.mem_cons_self
        have hxdone : ∀ d ∈ done, compareTo x d ≤ 0 :=
          (List.pairwise_cons.mp (List.pairwise_append.mp hsorted).2.1).1
        have hlen : (front ++ [x]).length + 1 + done.length
            = front.length + 1 + (y :: done).length := by
          rw [List.length_append, List.length_singleton, List.length_cons]
          omega
        rw [sink, swapWithPrevious_append, Except.ok_bind, hlen]
        by_cases hgreater : compareTo x y > 1
        · rw [if_pos hgreater]
          have hyx := h.le_of_lt (by omega : 0 < compareTo x y)
          apply ih front y (x :: done) rest rfl ((noneByOne_swap h hgreater).mpr hnone) hsorted
          intro d hd
          rcases List.mem_cons.mp hd with rfl | hd
          · exact hyx.le
          · exact h.trans y x d hyx.le (hxdone d hd)
        · have hle' : compareTo x y ≤ 0 := by omega
          rw [if_neg hgreater]
          apply ih front x (y :: done) rest rfl hnone
          · obtain ⟨hfront, hdone, hcross⟩ := List.pairwise_append.mp hsorted
            have hdone' := List.pairwise_cons.mpr ⟨hle, (List.pairwise_cons.mp hdone).2⟩
            apply List.pairwise_append.mpr ⟨hfront, hdone', _⟩
            intro a ha d hd
            rcases List.mem_cons.mp hd with rfl | hd
            · exact h.trans a x d (hcross a ha x List.mem_cons_self) hle'
            · exact hcross a ha d (List.mem_cons_of_mem _ hd)
          · intro d hd
            rcases List.mem_cons.mp hd with rfl | hd
            · exact hle'
            · exact hxdone d hd

/-! ### The outer loop -/

/-- The outer loop permutes the array and changes nothing about the elements that compare
as 1. -/
theorem sortFrom_keeps (h : LawfulCompareTo compareTo) :
  ∀ (n i : Nat) (array : List T), i + n < array.length ∨ n = 0 →
    ∃ result, sortFrom compareTo n i array = .ok result ∧ result.Perm array
      ∧ (NoneByOne compareTo result ↔ NoneByOne compareTo array)
  := by
  intro n
  induction n with
  | zero =>
      intro i array _
      exact ⟨array, rfl, List.Perm.refl _, Iff.rfl⟩
  | succ n ih =>
      intro i array hlength
      have hlt : i + 1 < array.length := by omega
      have hsplit : array = array.take (i + 1) ++ array[i + 1] :: array.drop (i + 2) := by
        rw [← List.drop_eq_getElem_cons hlt, List.take_append_drop]
      obtain ⟨array', hsink, hperm, hiff⟩ := sink_keeps h (i + 1) (array.take (i + 1))
        array[i + 1] (array.drop (i + 2)) (by rw [List.length_take]; omega)
      rw [← hsplit] at hsink hperm hiff
      have hlength' := hperm.length_eq
      obtain ⟨result, hok, hperm', hiff'⟩ := ih (i + 1) array' (by omega)
      rw [sortFrom, hsink, Except.ok_bind]
      exact ⟨result, hok, hperm'.trans hperm, hiff'.trans hiff⟩

/-- The outer loop goes on with a sorted part of the array to a sorted array. -/
theorem sortFrom_sorted (h : LawfulCompareTo compareTo) :
  ∀ (n i : Nat) (array : List T), i + n + 1 = array.length → NoneByOne compareTo array →
    Sorted compareTo (array.take (i + 1)) →
    ∃ result, sortFrom compareTo n i array = .ok result ∧ Sorted compareTo result
  := by
  intro n
  induction n with
  | zero =>
      intro i array hlength _ hsorted
      rw [List.take_of_length_le (by omega)] at hsorted
      exact ⟨array, rfl, hsorted⟩
  | succ n ih =>
      intro i array hlength hnone hsorted
      have hlt : i + 1 < array.length := by omega
      have htake : (array.take (i + 1)).length = i + 1 := by
        rw [List.length_take]
        omega
      have hsplit : array = array.take (i + 1) ++ array[i + 1] :: array.drop (i + 2) := by
        rw [← List.drop_eq_getElem_cons hlt, List.take_append_drop]
      have hnone' := hnone
      rw [hsplit] at hnone'
      obtain ⟨part, hsink, hpart, hpartLength⟩ := sink_sorted h (i + 1) (array.take (i + 1))
        array[i + 1] [] (array.drop (i + 2)) htake hnone' (by rwa [List.append_nil])
        (fun _ hd => absurd hd List.not_mem_nil)
      obtain ⟨array', hsink', hperm, hiff⟩ := sink_keeps h (i + 1) (array.take (i + 1))
        array[i + 1] (array.drop (i + 2)) htake
      rw [List.nil_append] at hsink
      obtain rfl := Except.ok.inj (hsink'.symm.trans hsink)
      rw [← hsplit] at hsink hperm hiff
      have hlength' := hperm.length_eq
      rw [htake, List.length_nil] at hpartLength
      rw [sortFrom, hsink, Except.ok_bind]
      apply ih (i + 1) (part ++ array.drop (i + 2)) (by omega) (hiff.mpr hnone)
      rw [← hpartLength, List.take_left]
      exact hpart

/-- Insertion sort sorts exactly the arrays in which no element is followed by one to which it
compares as 1. -/
theorem sortsArray_iff (h : LawfulCompareTo compareTo) (array : List T) :
  SortsArray compareTo array ↔ NoneByOne compareTo array
  := by
  obtain ⟨result, hok, hperm, hiff⟩ := sortFrom_keeps h (array.length - 1) 0 array (by omega)
  constructor
  · rintro ⟨result', hok', -, hsorted⟩
    obtain rfl := Except.ok.inj (hok.symm.trans hok')
    apply hiff.mp
    apply List.Pairwise.imp _ hsorted
    intro x y hle heq
    omega
  · intro hnone
    cases array with
    | nil => exact ⟨[], rfl, List.Perm.nil, List.Pairwise.nil⟩
    | cons x xs =>
        obtain ⟨result', hok', hsorted⟩ :=
          sortFrom_sorted h (xs.length) 0 (x :: xs) (by rw [List.length_cons]; omega) hnone
            (List.pairwise_singleton _ x)
        obtain rfl := Except.ok.inj (hok.symm.trans hok')
        exact ⟨result, hok, hperm, hsorted⟩

/-- The difference of two numbers tells their order. -/
theorem lawful_sub :
  LawfulCompareTo (fun x y : Int => x - y)
  := by
  constructor
  · intro x y
    constructor <;> intro hlt <;> omega
  · intro x y z hxy hyz
    omega

/-- An array sorted by the difference of its elements, none of which is followed by the number
before it. -/
theorem sortsArray_three :
  SortsArray (fun x y : Int => x - y) [5, 1, 3]
  := (sortsArray_iff lawful_sub [5, 1, 3]).mpr (by unfold NoneByOne; decide)

/-- The result of `CompareTo` on numbers: -1, 0 or 1. -/
def compareInt (x y : Int) : Int :=
  if x < y then -1 else if x = y then 0 else 1

/-- The result is positive when the first number is greater. -/
theorem compareInt_pos (x y : Int) :
  0 < compareInt x y ↔ y < x
  := by
  rw [compareInt]
  split
  · omega
  · split <;> omega

/-- The result is negative when the first number is less. -/
theorem compareInt_neg (x y : Int) :
  compareInt x y < 0 ↔ x < y
  := by
  rw [compareInt]
  split
  · omega
  · split <;> omega

/-- The numbers are compared as `IComparable` asks. -/
theorem lawful_compareInt :
  LawfulCompareTo compareInt
  := by
  constructor
  · intro x y
    rw [compareInt_pos, compareInt_neg]
  · intro x y z hxy hyz
    rw [← not_lt, compareInt_pos] at hxy hyz ⊢
    omega

/-- The sort sorts every array under every lawful `CompareTo`. -/
def SortsUnderContract : Prop :=
  ∀ (T : Type) (compareTo : T → T → Int), LawfulCompareTo compareTo →
    ∀ array : List T, SortsArray compareTo array

/-- Two numbers in the wrong order stay as they are. -/
theorem not_sortsUnderContract :
  ¬ SortsUnderContract
  := by
  intro h
  obtain ⟨result, hok, -, hsorted⟩ := h Int compareInt lawful_compareInt [2, 1]
  have hstays : sort compareInt [2, 1] = .ok [2, 1] := by rfl
  obtain rfl := Except.ok.inj (hstays.symm.trans hok)
  have hle := (List.pairwise_cons.mp hsorted).1 1 (List.mem_singleton_self _)
  exact absurd hle (by decide)

end Datatent.Insertion
