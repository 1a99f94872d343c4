import Datatent.Library.CountingPass
import Mathlib.Data.UInt

/-!
# Sorting utilities

What the radix sorts share: how they fail, the number of bits of a digit, and the digits of a
key as parts of its binary representation.
-/

namespace Datatent

/-- What ends a sort other than a result: an index outside an array or a span, a length that is
too large for one, an access outside the memory that a pointer was taken from, a loop that
never ends, a key type that has no number system or is not supported, or something that is not
implemented. -/
inductive SortFault where
  | indexOutOfRange
  | argumentOutOfRange
  | argument
  | outsideMemory
  | endless
  | invalidOperation
  | notSupported
  | notImplemented
deriving DecidableEq, Repr

namespace SortUtils

/-- The number of bits of a digit for keys of 32 bits: the given number where it is one from 1
to 16, and 16 where it is larger; else the number chosen for the default, and 8 where that is no
such number either. -/
def chooseBitCount (r default : Int) : Int :=
  let bits := if r > 32 then 32 else r
  if bits < 1 then chooseBitCount default 8
  else if bits > 16 then 16
  else bits
termination_by if r < 1 then (if default < 1 then 2 else 1) else 0
decreasing_by
  have hr : r < 1 := by
    by_contra hge
    apply absurd ‹bits < 1›
    dsimp only [bits]
    split
    · decide
    · exact hge
  rw [if_pos hr]
  split
  · decide
  · decide

/-- A digit has 1 to 16 bits. -/
theorem chooseBitCount_bounds (r default : Int) :
  1 ≤ chooseBitCount r default ∧ chooseBitCount r default ≤ 16
  := by
  induction r, default using chooseBitCount.induct with
  | case1 r default bits hlt ih =>
      have hbits : (if r > 32 then 32 else r) < 1 := hlt
      rw [chooseBitCount, if_pos hbits]
      exact ih
  | case2 r default bits hge hlarge =>
      have hbits : ¬ (if r > 32 then 32 else r) < 1 := hge
      have hbits' : (if r > 32 then 32 else r) > 16 := hlarge
      rw [chooseBitCount, if_neg hbits, if_pos hbits']
      decide
  | case3 r default bits hge hsmall =>
      have hbits : ¬ (if r > 32 then 32 else r) < 1 := hge
      have hbits' : ¬ (if r > 32 then 32 else r) > 16 := hsmall
      rw [chooseBitCount, if_neg hbits, if_neg hbits']
      constructor
      · exact Int.not_lt.mp hge
      · exact Int.not_lt.mp hsmall

/-! ### Digits -/

/-- A key without its low bits. -/
theorem toNat_shiftRight (key : UInt32) {s : Nat} (h : s < 32) :
  (key >>> UInt32.ofNat s).toNat = key.toNat / 2 ^ s
  := by
  rw [UInt32.toNat_shiftRight, UInt32.toNat_ofNat', Nat.mod_eq_of_lt (by omega : s < 2 ^ 32),
    Nat.mod_eq_of_lt h, Nat.shiftRight_eq_div_pow]

/-- The mask of a group has its bits. -/
theorem testBit_mask {r : Nat} (h : r < 32) (i : Nat) :
  (UInt32.ofNat (1 <<< r - 1)).toNat.testBit i = decide (i < r)
  := by
  have hlt : 2 ^ r < 2 ^ 32 := Nat.pow_lt_pow_right (by decide) h
  rw [Nat.one_shiftLeft, UInt32.toNat_ofNat', Nat.mod_eq_of_lt (by omega),
    Nat.testBit_two_pow_sub_one]

/-- A mask without the bits of a group. -/
theorem testBit_remove {r shift : Nat} (mask : UInt32) (hr : r < 32) (hshift : shift < 32)
    (i : Nat) :
  (mask &&& ~~~(UInt32.ofNat (1 <<< r - 1) <<< UInt32.ofNat shift)).toNat.testBit i
    = (mask.toNat.testBit i && !(decide (shift ≤ i) && decide (i < shift + r)))
  := by
  have hshift' : (UInt32.ofNat shift).toNat % 32 = shift := by
    rw [UInt32.toNat_ofNat', Nat.mod_eq_of_lt (show shift < 2 ^ 32 by omega),
      Nat.mod_eq_of_lt hshift]
  rw [UInt32.toNat_and, Nat.testBit_and]
  by_cases hi : i < 32
  · have hgroup : (decide (i ≥ shift) && decide (i - shift < r))
        = (decide (shift ≤ i) && decide (i < shift + r)) := by
      rw [Bool.eq_iff_iff]
      simp only [Bool.and_eq_true, decide_eq_true_iff]
      omega
    rw [UInt32.toNat_not, UInt32.size, Nat.sub_sub, Nat.add_comm 1,
      Nat.testBit_two_pow_sub_succ (UInt32.toNat_lt _), UInt32.toNat_shiftLeft, hshift',
      Nat.testBit_mod_two_pow, Nat.testBit_shiftLeft, testBit_mask hr, decide_eq_true hi,
      Bool.true_and, Bool.true_and, hgroup]
  · have hhigh : mask.toNat.testBit i = false := by
      apply Nat.testBit_lt_two_pow
      apply Nat.lt_of_lt_of_le mask.toNat_lt
      exact Nat.pow_le_pow_right (by decide) (by omega)
    rw [hhigh, Bool.false_and, Bool.false_and]

/-! ### Where groups start -/

open Distribution

/-- Add the counts up until one is the given number: whether none was, the table and the last
sum. -/
def addUp (length : Nat) : Nat → List Nat → Bool × List Nat × Nat
  | offset, [] => (true, [], offset)
  | offset, grpCount :: table =>
      if grpCount = length then (false, grpCount :: table, offset)
      else
        let (complete, table, last) := addUp length (offset + grpCount) table
        (complete, offset :: table, last)

/-- Add the counts up, those from the bucket offset on first: whether the table has the positions
of at least two groups then, and the table. -/
def computeOffsets (countsOffsets : List Nat) (length bucketOffset offset : Nat) :
    Bool × List Nat :=
  let (complete, high, offset) := addUp length offset (countsOffsets.drop bucketOffset)
  if complete then
    let (complete, low, _) := addUp length offset (countsOffsets.take bucketOffset)
    (complete && length > 1, low ++ high)
  else (false, countsOffsets.take bucketOffset ++ high)

/-- Adding up to the end. -/
theorem addUp_eq {length offset last : Nat} {table offsets : List Nat}
    (h : offsetsFrom length offset table = some (offsets, last)) :
  addUp length offset table = (true, offsets, last)
  := by
  induction table generalizing offset offsets with
  | nil =>
      cases h
      rfl
  | cons grpCount table ih =>
      rw [offsetsFrom] at h
      rw [addUp]
      split at h
      · cases h
      · rename_i hne
        obtain ⟨⟨offsets', last'⟩, hrest, heq⟩ := Option.map_eq_some_iff.mp h
        cases heq
        rw [if_neg hne, ih hrest]

/-- Adding up to a group with all keys. -/
theorem addUp_of_none {length offset : Nat} {table : List Nat}
    (h : offsetsFrom length offset table = none) :
  ∃ offsets last, addUp length offset table = (false, offsets, last)
    ∧ offsets.length = table.length
  := by
  induction table generalizing offset with
  | nil => cases h
  | cons grpCount table ih =>
      rw [offsetsFrom] at h
      rw [addUp]
      split
      · exact ⟨_, _, rfl, rfl⟩
      · rename_i hne
        rw [if_neg hne] at h
        obtain ⟨offsets, last, hrest, hlength⟩ := ih (Option.map_eq_none_iff.mp h)
        rw [hrest]
        exact ⟨_, _, rfl, congrArg (· + 1) hlength⟩

section

variable {length base start : Nat} {countsOffsets : List Nat}

/-- The table of the positions of the groups. -/
theorem computeOffsets_of_some {offsets : List Nat} (hlength : 1 < length)
    (h : offsetsRotated length base start countsOffsets = some offsets) :
  computeOffsets countsOffsets length start base = (true, offsets)
  := by
  obtain ⟨⟨high, offset⟩, hhigh, hrest⟩ := Option.bind_eq_some_iff.mp h
  obtain ⟨⟨low, last⟩, hlow, heq⟩ := Option.bind_eq_some_iff.mp hrest
  cases heq
  rw [computeOffsets, addUp_eq hhigh]
  dsimp only
  rw [if_pos rfl, addUp_eq hlow]
  dsimp only
  rw [decide_eq_true hlength, Bool.and_self]

/-- All keys are in one group. -/
theorem computeOffsets_of_none
    (h : offsetsRotated length base start countsOffsets = none) :
  ∃ offsets, computeOffsets countsOffsets length start base = (false, offsets)
    ∧ offsets.length = countsOffsets.length
  := by
  have hsplit := congrArg List.length (List.take_append_drop start countsOffsets)
  rw [List.length_append] at hsplit
  rw [computeOffsets]
  cases hhigh : offsetsFrom length base (countsOffsets.drop start) with
  | none =>
      obtain ⟨high, last, haddUp, hlength⟩ := addUp_of_none hhigh
      rw [haddUp]
      refine ⟨_, rfl, ?_⟩
      rw [List.length_append, hlength, hsplit]
  | some high =>
      have hlow : offsetsFrom length high.2 (countsOffsets.take start) = none := by
        rw [offsetsRotated, hhigh, Option.bind_eq_bind, Option.bind_some] at h
        cases hlow : offsetsFrom length high.2 (countsOffsets.take start) with
        | none => rfl
        | some low =>
            dsimp only at h
            rw [hlow] at h
            cases h
      obtain ⟨low, last, haddUp, hlength⟩ := addUp_of_none hlow
      have hhigh' := addUp_eq hhigh
      rw [hhigh']
      dsimp only
      rw [if_pos rfl, haddUp]
      refine ⟨_, rfl, ?_⟩
      rw [List.length_append, hlength, offsetsFrom_length hhigh, hsplit]

end

end SortUtils

end Datatent
