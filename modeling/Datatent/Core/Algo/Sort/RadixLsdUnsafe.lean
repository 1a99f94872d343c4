import Datatent.Core.Algo.Sort.NumberSystem
import Datatent.Core.Algo.Sort.SortUtils
import Datatent.Library.Except

/-!
# Radix sort on memory

`RadixLsdUnsafe` sorts keys by groups of their bits, from the lowest group to the highest one.
A key mask tells which bits count: a group without such bits is skipped, and so is one that is
the same for all keys. A pass moves the keys to a workspace, and the next one moves them back;
after an odd number of passes they are copied back. Keys with a sign are sorted by their bits
as well, only that the last pass begins with the groups that have the sign bit.

The memory behind a pointer is the list of its values. Table entries and indices are natural
numbers: they are bounded by the number of keys.
-/

namespace Datatent.RadixLsdUnsafe

open Distribution StableSort

/-- The group of a key in ascending order. -/
def groupAscending (shift : Nat) (groupMask key : UInt32) : Nat :=
  (key >>> UInt32.ofNat shift &&& groupMask).toNat

/-- The group of a key in descending order. -/
def groupDescending (shift : Nat) (groupMask key : UInt32) : Nat :=
  (~~~key >>> UInt32.ofNat shift &&& groupMask).toNat

/-- Move the keys to the places of their groups in the workspace. -/
def applyAscending (offsets : List Nat) (keys workspace : List UInt32) (shift : Nat)
    (groupMask : UInt32) : Except SortFault (List Nat × List UInt32) :=
  scatter .outsideMemory (groupAscending shift groupMask) offsets workspace keys

def applyDescending (offsets : List Nat) (keys workspace : List UInt32) (shift : Nat)
    (groupMask : UInt32) : Except SortFault (List Nat × List UInt32) :=
  scatter .outsideMemory (groupDescending shift groupMask) offsets workspace keys

/-- Count the keys of the groups. The buckets are those of the local table, which begins with
zeros. -/
def bucketCountAscending (keys : List UInt32) (shift : Nat) (groupMask : UInt32)
    (bucketCount : Nat) : Except SortFault (List Nat) :=
  count .outsideMemory (groupAscending shift groupMask) (List.replicate bucketCount 0) keys

def bucketCountDescending (keys : List UInt32) (shift : Nat) (groupMask : UInt32)
    (bucketCount : Nat) : Except SortFault (List Nat) :=
  count .outsideMemory (groupDescending shift groupMask) (List.replicate bucketCount 0) keys

/-- Add the counts up, those from the bucket offset on first. Nothing where a group holds all
keys; what the table holds then is never read. -/
def computeOffsets (countsOffsets : List Nat) (length bucketOffset : Nat) : Option (List Nat) :=
  if bucketOffset ≠ 0 then offsetsRotated length 0 bucketOffset countsOffsets
  else (offsetsFrom length 0 countsOffsets).map Prod.fst

/-- The group with the sign bit and no other bit in the last pass. -/
def getInvertStartIndex (width r : Nat) : Nat :=
  let mod := width % r
  if mod = 0 then 1 <<< (r - 1) else 1 <<< (mod - 1)

/-- The number of groups of a key of 32 bits. -/
def groupCount (r : Nat) : Nat := (32 - 1) / r + 1

/-- The loop of the passes from pass `c` on: whether the keys are in the other memory at its
end, the memory that the pointer to the keys shows to then, and that of the workspace. -/
def sortPasses (r countLength len : Nat) (mask : UInt32) (ascending : Bool)
    (invertC : Option Nat) : Nat → Nat → Nat → UInt32 → Bool → List UInt32 → List UInt32 →
    Except SortFault (Bool × List UInt32 × List UInt32)
  | 0, _, _, _, reversed, keys, workspace => .ok (reversed, keys, workspace)
  | n + 1, c, shift, keyMask, reversed, keys, workspace =>
      let groupMask := keyMask >>> UInt32.ofNat shift &&& mask
      let keyMask := keyMask &&& ~~~(mask <<< UInt32.ofNat shift)
      if groupMask = 0 then
        if keyMask = 0 then .ok (reversed, keys, workspace)
        else sortPasses r countLength len mask ascending invertC n (c + 1) (shift + r) keyMask
          reversed keys workspace
      else do
        let counts ←
          (if ascending then bucketCountAscending keys shift groupMask countLength
          else bucketCountDescending keys shift groupMask countLength)
        let bucketOffset := if some c = invertC then getInvertStartIndex 32 r else 0
        match computeOffsets counts len bucketOffset with
        | none =>
            sortPasses r countLength len mask ascending invertC n (c + 1) (shift + r) keyMask
              reversed keys workspace
        | some offsets => do
            let (_, workspace) ←
              (if ascending then applyAscending offsets keys workspace shift groupMask
              else applyDescending offsets keys workspace shift groupMask)
            sortPasses r countLength len mask ascending invertC n (c + 1) (shift + r) keyMask
              (!reversed) workspace keys

def sortCore32 (keys workspace : List UInt32) (r : Nat) (keyMask : UInt32)
    (countLength len groups : Nat) (mask : UInt32) (ascending isSigned : Bool) :
    Except SortFault (Bool × List UInt32 × List UInt32) :=
  let invertC := if isSigned then some (groups - 1) else none
  sortPasses r countLength len mask ascending invertC groups 0 0 keyMask false keys workspace

/-- Copy a number of bytes from the source to the destination. -/
def copyBlock (destination source : List UInt32) (byteCount : UInt32) : List UInt32 :=
  source.take (byteCount.toNat / 4) ++ destination.drop (byteCount.toNat / 4)

/-- What the sorts share. The result is the memory of the keys and that of the workspace. -/
def sort32 (keys workspace : List UInt32) (len : Nat) (r defaultR : Int) (keyMask : UInt32)
    (ascending : Bool) (numberSystem : NumberSystem) :
    Except SortFault (List UInt32 × List UInt32) :=
  if len ≤ 1 ∨ keyMask = 0 then .ok (keys, workspace)
  else do
    let r := (SortUtils.chooseBitCount r defaultR).toNat
    let countLength := 1 <<< r
    let (reversed, keys', workspace') ← sortCore32 keys workspace r keyMask countLength len
      (groupCount r) (UInt32.ofNat (countLength - 1)) ascending (numberSystem ≠ .unsigned)
    if reversed then .ok (copyBlock workspace' keys' (UInt32.ofNat len <<< 2), keys')
    else .ok (keys', workspace')

/-- `Sort(Span<uint>, Span<uint>)`. The keys that the spans hold afterwards. -/
def sort (keys workspace : List UInt32) (r defaultR : Int) (descending : Bool) (mask : UInt32) :
    Except SortFault (List UInt32 × List UInt32) :=
  if keys.length ≤ 1 then .ok (keys, workspace)
  else if workspace.length < keys.length then .error .argumentOutOfRange
  else do
    let (keys', workspace') ← sort32 keys (workspace.take keys.length) keys.length r defaultR mask
      (!descending) .unsigned
    .ok (keys', workspace' ++ workspace.drop keys.length)

/-- `Sort<T>`, with the number system of the type, if it has one. The keys of a type of four bytes
are read by their bits. -/
def sortOf (type : ValueType) (numberSystem : Option NumberSystem) (keys workspace : List UInt32)
    (r defaultR : Int) (descending : Bool) : Except SortFault (List UInt32 × List UInt32) :=
  if keys.length ≤ 1 then .ok (keys, workspace)
  else if workspace.length < keys.length then .error .argumentOutOfRange
  else if type.size = 4 then
    match numberSystem with
    | none => .error .invalidOperation
    | some numberSystem => do
        let (keys', workspace') ← sort32 keys (workspace.take keys.length) keys.length r defaultR
          0xFFFFFFFF (!descending) numberSystem
        .ok (keys', workspace' ++ workspace.drop keys.length)
  else .error .notSupported

/-! ### Bits that count -/

/-- The bits of a key that count, as a number that is larger for keys that come later. -/
def value (ascending : Bool) (keyMask key : UInt32) : Nat :=
  ((if ascending then key else ~~~key) &&& keyMask).toNat

/-- What is left of the key mask in the passes from a bit on. -/
def RestOf (keyMask : UInt32) (shift : Nat) (rest : UInt32) : Prop :=
  ∀ i, rest.toNat.testBit i = (decide (shift ≤ i) && keyMask.toNat.testBit i)

/-- The group of a key in one of the two orders. -/
def group (ascending : Bool) (shift : Nat) (groupMask key : UInt32) : Nat :=
  if ascending then groupAscending shift groupMask key else groupDescending shift groupMask key

/-- All of the mask is left in the first pass. -/
theorem restOf_zero (keyMask : UInt32) :
  RestOf keyMask 0 keyMask
  := by
  intro i
  rw [decide_eq_true (Nat.zero_le i), Bool.true_and]

section

variable {keyMask rest : UInt32} {shift r : Nat}

/-- The bits of a pass are removed from the mask. -/
theorem RestOf.step (h : RestOf keyMask shift rest) (hr : r < 32) (hshift : shift < 32) :
  RestOf keyMask (shift + r) (rest &&& ~~~(UInt32.ofNat (1 <<< r - 1) <<< UInt32.ofNat shift))
  := by
  intro i
  rw [SortUtils.testBit_remove rest hr hshift, h i]
  cases keyMask.toNat.testBit i with
  | false => rw [Bool.and_false, Bool.false_and, Bool.and_false]
  | true =>
      rw [Bool.and_true, Bool.and_true, Bool.eq_iff_iff]
      simp only [Bool.and_eq_true, Bool.not_eq_true', Bool.and_eq_false_iff, decide_eq_true_iff,
        decide_eq_false_iff_not]
      omega

/-- A key shifted and masked in a pass: the digit of the bits that count. -/
theorem RestOf.digit (h : RestOf keyMask shift rest) (hr : r < 32) (hshift : shift < 32)
    (key : UInt32) :
  (key >>> UInt32.ofNat shift
      &&& (rest >>> UInt32.ofNat shift &&& UInt32.ofNat (1 <<< r - 1))).toNat
    = (key &&& keyMask).toNat / 2 ^ shift % 2 ^ r
  := by
  rw [UInt32.toNat_and, UInt32.toNat_and, SortUtils.toNat_shiftRight _ hshift,
    SortUtils.toNat_shiftRight _ hshift, UInt32.toNat_and]
  apply Nat.eq_of_testBit_eq
  intro i
  rw [Nat.testBit_and, Nat.testBit_and, Nat.testBit_mod_two_pow, Nat.testBit_div_two_pow,
    Nat.testBit_div_two_pow, Nat.testBit_div_two_pow, Nat.testBit_and, SortUtils.testBit_mask hr, h,
    decide_eq_true (Nat.le_add_left shift i), Bool.true_and]
  cases decide (i < r) with
  | false => rw [Bool.and_false, Bool.and_false, Bool.false_and]
  | true => rw [Bool.and_true, Bool.true_and]

/-- The group of a key is a digit of the bits that count. -/
theorem RestOf.group_eq (h : RestOf keyMask shift rest) (hr : r < 32) (hshift : shift < 32)
    (ascending : Bool) (key : UInt32) :
  group ascending shift (rest >>> UInt32.ofNat shift &&& UInt32.ofNat (1 <<< r - 1)) key
    = value ascending keyMask key / 2 ^ shift % 2 ^ r
  := by
  cases ascending with
  | true => exact h.digit hr hshift key
  | false => exact h.digit hr hshift (~~~key)

/-- Nothing of a mask is left: all that counts is below. -/
theorem RestOf.value_lt (h : RestOf keyMask shift 0) (ascending : Bool) (key : UInt32) :
  value ascending keyMask key < 2 ^ shift
  := by
  apply Nat.lt_pow_two_of_testBit
  intro i hi
  have hbit := h i
  rw [UInt32.toNat_zero, Nat.zero_testBit, decide_eq_true hi, Bool.true_and] at hbit
  rw [value, UInt32.toNat_and, Nat.testBit_and, ← hbit, Bool.and_false]

end

/-! ### Passes -/

/-- Both ways of adding the counts up are the general one. -/
theorem computeOffsets_eq (countsOffsets : List Nat) (length bucketOffset : Nat) :
  computeOffsets countsOffsets length bucketOffset
    = offsetsRotated length 0 bucketOffset countsOffsets
  := by
  rw [computeOffsets]
  split
  · rfl
  · rename_i hzero
    obtain rfl : bucketOffset = 0 := by omega
    rw [offsetsRotated_zero]

section Passes

variable {keyMask rest : UInt32} {shift r start : Nat} {ascending : Bool}
  {keys keys' workspace : List UInt32}

/-- Counting in either order gives the sizes of the groups. -/
theorem bucketCount_eq {groupMask : UInt32} {b : Nat}
    (h : ∀ key ∈ keys, group ascending shift groupMask key < b) :
  (if ascending then bucketCountAscending keys shift groupMask b
      else bucketCountDescending keys shift groupMask b)
    = .ok ((List.range b).map (size (group ascending shift groupMask) keys))
  := by
  cases ascending with
  | true => exact count_replicate _ h
  | false => exact count_replicate _ h

/-- Moving the keys in either order puts the groups one after the other. -/
theorem apply_eq {groupMask : UInt32} {b : Nat} {offsets : List Nat} (hstart : start ≤ b)
    (h : ∀ key ∈ keys, group ascending shift groupMask key < b)
    (hoffsets : ∀ d < b, offsets[d]?
      = some (startOf (size (group ascending shift groupMask) keys) 0 (rotated b start) d))
    (hroom : workspace.length = keys.length) :
  ∃ offsets', (if ascending then applyAscending offsets keys workspace shift groupMask
      else applyDescending offsets keys workspace shift groupMask)
    = .ok (offsets', distribute (group ascending shift groupMask) (rotated b start) keys)
  := by
  have hmem : ∀ key ∈ keys, group ascending shift groupMask key ∈ rotated b start :=
    fun key hkey => (mem_rotated hstart).mpr (h key hkey)
  have hroom' : 0 + keys.length ≤ workspace.length := by omega
  obtain ⟨offsets', hscatter, -⟩ := scatter_eq SortFault.outsideMemory (nodup_rotated b start) hmem
    hroom' (fun d hd => hoffsets d ((mem_rotated hstart).mp hd))
  rw [List.take_zero, List.nil_append, Nat.zero_add, ← hroom, List.drop_length,
    List.append_nil] at hscatter
  use offsets'
  cases ascending with
  | true => exact hscatter
  | false => exact hscatter

/-- One pass: either nothing of the mask is left and the loop ends, or it goes on with the keys
sorted by the group in front of the bits below, where the group that the order begins with is the
first one, or that with the sign bit. -/
theorem sortPasses_succ (invertC : Option Nat) (n c : Nat) (reversed : Bool) (hr : r < 32)
    (hshift : shift < 32) (hrest : RestOf keyMask shift rest)
    (hstart : (if some c = invertC then getInvertStartIndex 32 r else 0) = start)
    (hle : start ≤ 2 ^ r) (hroom : workspace.length = keys.length)
    (hkeys : Sorts (fun key => value ascending keyMask key % 2 ^ shift) keys keys') :
  (sortPasses r (1 <<< r) keys.length (UInt32.ofNat (1 <<< r - 1)) ascending invertC (n + 1) c
        shift rest reversed keys' workspace = .ok (reversed, keys', workspace)
      ∧ ∀ key, value ascending keyMask key < 2 ^ shift)
    ∨ ∃ rest' reversed' keys'' workspace', RestOf keyMask (shift + r) rest'
      ∧ workspace'.length = keys.length
      ∧ sortPasses r (1 <<< r) keys.length (UInt32.ofNat (1 <<< r - 1)) ascending invertC (n + 1)
          c shift rest reversed keys' workspace
        = sortPasses r (1 <<< r) keys.length (UInt32.ofNat (1 <<< r - 1)) ascending invertC n
          (c + 1) (shift + r) rest' reversed' keys'' workspace'
      ∧ Sorts (fun key => value ascending keyMask key % 2 ^ shift
          + 2 ^ shift * rankFrom (2 ^ r) start (value ascending keyMask key / 2 ^ shift % 2 ^ r))
        keys keys''
  := by
  have hnext := hrest.step hr hshift
  have hgroup := hrest.group_eq hr hshift ascending
  have hlength : keys'.length = keys.length := hkeys.perm.length_eq
  rw [sortPasses]
  dsimp only
  rw [hstart]
  generalize hmask : rest >>> UInt32.ofNat shift &&& UInt32.ofNat (1 <<< r - 1) = groupMask
    at hgroup ⊢
  generalize rest &&& ~~~(UInt32.ofNat (1 <<< r - 1) <<< UInt32.ofNat shift) = rest' at hnext ⊢
  have hlt : ∀ key ∈ keys', group ascending shift groupMask key < 2 ^ r := by
    intro key _
    rw [hgroup]
    exact Nat.mod_lt _ (Nat.two_pow_pos r)
  -- the keys stay where they are when the pass is skipped
  have hskip : ∀ d, (∀ key ∈ keys, group ascending shift groupMask key = d) →
      Sorts (fun key => value ascending keyMask key % 2 ^ shift
          + 2 ^ shift * rankFrom (2 ^ r) start (value ascending keyMask key / 2 ^ shift % 2 ^ r))
        keys keys' := by
    intro d hd
    apply sorts_of_digit_const _ _ hkeys (d := d)
    intro key hkey
    rw [← hgroup, hd key hkey]
  by_cases hzero : groupMask = 0
  · have hnone : ∀ key, group ascending shift groupMask key = 0 := by
      intro key
      rw [hzero, group, groupAscending, groupDescending, UInt32.and_zero, UInt32.and_zero, ite_self]
      rfl
    rw [if_pos hzero]
    by_cases hend : rest' = 0
    · left
      rw [if_pos hend]
      refine ⟨rfl, ?_⟩
      intro key
      rw [hend] at hnext
      have hbelow := hnext.value_lt ascending key
      have hdigit := hgroup key
      rw [hnone, Nat.mod_eq_of_lt] at hdigit
      · exact (Nat.div_eq_zero_iff_lt (Nat.two_pow_pos shift)).mp hdigit.symm
      · rwa [Nat.div_lt_iff_lt_mul (Nat.two_pow_pos shift), ← Nat.pow_add, Nat.add_comm]
    · right
      rw [if_neg hend]
      exact ⟨rest', reversed, keys', workspace, hnext, hroom, rfl, hskip 0 (fun key _ => hnone key)⟩
  · right
    rw [if_neg hzero, Nat.one_shiftLeft, bucketCount_eq hlt, Except.ok_bind, ← hlength]
    rcases offsetsRotated_cases (group ascending shift groupMask) keys' 0 hle
      with ⟨hall, d, hd⟩ | ⟨offsets, hoffsets, -, hentry⟩
    · rw [computeOffsets_eq, hall]
      refine ⟨rest', reversed, keys', workspace, hnext, hroom.trans hlength.symm, rfl, ?_⟩
      apply hskip d
      intro key hkey
      exact hd key ((hkeys.mem_iff key).mpr hkey)
    · obtain ⟨offsets', happly⟩ := apply_eq hle hlt hentry (hroom.trans hlength.symm)
      rw [computeOffsets_eq, hoffsets]
      dsimp only
      rw [happly, Except.ok_bind]
      refine ⟨rest', !reversed, _, keys', hnext, rfl, rfl, ?_⟩
      have hpass : Sorts (fun key => value ascending keyMask key % 2 ^ shift
            + 2 ^ shift * rankFrom (2 ^ r) start (group ascending shift groupMask key)) keys
          (distribute (group ascending shift groupMask) (rotated (2 ^ r) start) keys') := by
        apply sorts_distribute hkeys
        · intro key _
          exact Nat.mod_lt _ (Nat.two_pow_pos shift)
        · exact pairwise_rotated (2 ^ r) start
        · intro key hkey
          apply (mem_rotated hle).mpr
          exact hlt key ((hkeys.mem_iff key).mpr hkey)
      simp only [hgroup] at hpass
      exact hpass

/-- The passes without a sign from a bit on sort keys that are sorted by the bits below. -/
theorem sortPasses_eq (n c : Nat) (reversed : Bool) (hr : r < 32)
    (hshift : shift + n * r < 32 + r)
    (hrest : RestOf keyMask shift rest) (hroom : workspace.length = keys.length)
    (hkeys : Sorts (fun key => value ascending keyMask key % 2 ^ shift) keys keys') :
  ∃ reversed' keys'' workspace',
    sortPasses r (1 <<< r) keys.length (UInt32.ofNat (1 <<< r - 1)) ascending none n c shift rest
        reversed keys' workspace = .ok (reversed', keys'', workspace')
    ∧ workspace'.length = keys.length
    ∧ Sorts (fun key => value ascending keyMask key % 2 ^ (shift + n * r)) keys keys''
  := by
  induction n generalizing c shift rest reversed keys' workspace with
  | zero =>
      rw [Nat.zero_mul, Nat.add_zero]
      exact ⟨reversed, keys', workspace, rfl, hroom, hkeys⟩
  | succ n ih =>
      have hsum : shift + (n + 1) * r = shift + r + n * r := by
        rw [Nat.add_mul, Nat.one_mul]
        omega
      have hstart : (if some c = none then getInvertStartIndex 32 r else 0) = 0 := rfl
      rcases sortPasses_succ none n c reversed hr (by omega) hrest hstart (Nat.zero_le _) hroom
        hkeys with ⟨hend, hbelow⟩ | hnext
      · refine ⟨reversed, keys', workspace, hend, hroom, ?_⟩
        apply hkeys.congr
        have hkeep : ∀ key, value ascending keyMask key % 2 ^ (shift + (n + 1) * r)
            = value ascending keyMask key % 2 ^ shift := by
          intro key
          have hpow : 2 ^ shift ≤ 2 ^ (shift + (n + 1) * r) :=
            Nat.pow_le_pow_right (by decide) (Nat.le_add_right _ _)
          rw [Nat.mod_eq_of_lt (hbelow key),
            Nat.mod_eq_of_lt (Nat.lt_of_lt_of_le (hbelow key) hpow)]
        intro a _ b _
        rw [hkeep, hkeep]
      · obtain ⟨rest', reversed', keys'', workspace', hrest', hroom', hpass, hsorted⟩ := hnext
        simp only [rankFrom_zero, ← Nat.mod_mul, ← Nat.pow_add] at hsorted
        rw [hpass, hsum]
        exact ih _ _ (by omega) hrest' hroom' hsorted

/-- All bits of a key count with the whole mask. -/
theorem value_all (ascending : Bool) (key : UInt32) :
  value ascending 0xFFFFFFFF key = (if ascending then key else ~~~key).toNat
  := by
  have hall : (0xFFFFFFFF : UInt32) = -1 := rfl
  rw [value, hall, UInt32.and_neg_one]

/-- With the whole mask there is always a bit left. -/
theorem not_value_lt (ascending : Bool) (h : shift < 32) :
  ¬ ∀ key, value ascending 0xFFFFFFFF key < 2 ^ shift
  := by
  intro hbelow
  have hpow : 2 ^ shift ≤ 2 ^ 31 := Nat.pow_le_pow_right (by decide) (by omega)
  cases ascending with
  | true =>
      have hlast := hbelow 0xFFFFFFFF
      have hvalue : value true 0xFFFFFFFF 0xFFFFFFFF = 2 ^ 32 - 1 := rfl
      omega
  | false =>
      have hlast := hbelow 0
      have hvalue : value false 0xFFFFFFFF 0 = 2 ^ 32 - 1 := rfl
      omega

/-- The passes with a sign sort keys that are sorted by the bits below, where those with the sign
bit come first. -/
theorem sortPasses_signed (n c : Nat) (reversed : Bool) (hr : r < 32)
    (hshift : shift + n * r < 32)
    (hle : getInvertStartIndex 32 r ≤ 2 ^ r)
    (hrest : RestOf 0xFFFFFFFF shift rest) (hroom : workspace.length = keys.length)
    (hkeys : Sorts (fun key => value ascending 0xFFFFFFFF key % 2 ^ shift) keys keys') :
  ∃ reversed' keys'' workspace',
    sortPasses r (1 <<< r) keys.length (UInt32.ofNat (1 <<< r - 1)) ascending (some (c + n)) (n + 1)
        c shift rest reversed keys' workspace = .ok (reversed', keys'', workspace')
    ∧ workspace'.length = keys.length
    ∧ Sorts (fun key => value ascending 0xFFFFFFFF key % 2 ^ (shift + n * r)
        + 2 ^ (shift + n * r) * rankFrom (2 ^ r) (getInvertStartIndex 32 r)
          (value ascending 0xFFFFFFFF key / 2 ^ (shift + n * r) % 2 ^ r)) keys keys''
  := by
  induction n generalizing c shift rest reversed keys' workspace with
  | zero =>
      rw [Nat.zero_mul, Nat.add_zero] at *
      rcases sortPasses_succ (some c) 0 c reversed hr hshift hrest (if_pos rfl) hle hroom hkeys
        with ⟨-, hbelow⟩ | hnext
      · exact absurd hbelow (not_value_lt ascending hshift)
      · obtain ⟨rest', reversed', keys'', workspace', -, hroom', hpass, hsorted⟩ := hnext
        rw [hpass]
        exact ⟨reversed', keys'', workspace', rfl, hroom', hsorted⟩
  | succ n ih =>
      have hsum : shift + (n + 1) * r = shift + r + n * r := by
        rw [Nat.add_mul, Nat.one_mul]
        omega
      have hc : c + (n + 1) = c + 1 + n := by omega
      have hstart : (if some c = some (c + (n + 1)) then getInvertStartIndex 32 r else 0) = 0 :=
        if_neg (by simp)
      rcases sortPasses_succ (some (c + (n + 1))) (n + 1) c reversed hr (by omega) hrest hstart
        (Nat.zero_le _) hroom hkeys with ⟨-, hbelow⟩ | hnext
      · exact absurd hbelow (not_value_lt ascending (by omega))
      · obtain ⟨rest', reversed', keys'', workspace', hrest', hroom', hpass, hsorted⟩ := hnext
        simp only [rankFrom_zero, ← Nat.mod_mul, ← Nat.pow_add] at hsorted
        rw [hpass, hsum, hc]
        exact ih _ _ (by omega) hrest' hroom' hsorted

end Passes

/-! ### Sorting -/

/-- The groups cover all bits of a key, and the last one begins within them. -/
theorem groupCount_bounds {r : Nat} (h : 1 ≤ r) :
  32 ≤ groupCount r * r ∧ groupCount r * r < 32 + r
  := by
  have hdiv := Nat.div_add_mod (32 - 1) r
  have hmod := Nat.mod_lt (32 - 1) (show 0 < r by omega)
  rw [groupCount, Nat.add_mul, Nat.one_mul, Nat.mul_comm]
  omega

/-- A number of bits that is chosen. -/
theorem toNat_chooseBitCount (r defaultR : Int) :
  1 ≤ (SortUtils.chooseBitCount r defaultR).toNat
    ∧ (SortUtils.chooseBitCount r defaultR).toNat < 32
  := by
  obtain ⟨hpos, hle⟩ := SortUtils.chooseBitCount_bounds r defaultR
  omega

/-- Fewer than `2 ^ 30` keys are copied back as a whole. -/
theorem copyBlock_eq {destination source : List UInt32} {len : Nat} (h : len < 2 ^ 30)
    (hdestination : destination.length = len) (hsource : source.length = len) :
  copyBlock destination source (UInt32.ofNat len <<< 2) = source
  := by
  have hbytes : (UInt32.ofNat len <<< 2).toNat / 4 = len := by
    have htwo : (2 : UInt32).toNat % 32 = 2 := rfl
    rw [UInt32.toNat_shiftLeft, htwo, UInt32.toNat_ofNat', Nat.mod_eq_of_lt (by omega),
      Nat.shiftLeft_eq, Nat.mod_eq_of_lt (by omega)]
    omega
  rw [copyBlock, hbytes, ← hdestination, List.drop_length, List.append_nil, hdestination, ← hsource,
    List.take_length]

section

variable {keys workspace : List UInt32} {r defaultR : Int} {keyMask : UInt32} {ascending : Bool}
  {bits : Nat}

/-- What the passes leave behind the pointer to the keys is in the memory of the keys at the
end. -/
theorem sort32_of_core (numberSystem : NumberSystem) {reversed : Bool}
    {keys' workspace' : List UInt32}
    (hbits : (SortUtils.chooseBitCount r defaultR).toNat = bits) (hlen : keys.length < 2 ^ 30)
    (hsort : ¬ (keys.length ≤ 1 ∨ keyMask = 0))
    (hcore : sortCore32 keys workspace bits keyMask (1 <<< bits) keys.length (groupCount bits)
      (UInt32.ofNat (1 <<< bits - 1)) ascending (numberSystem ≠ .unsigned)
        = .ok (reversed, keys', workspace'))
    (hkeys : keys'.length = keys.length) (hworkspace : workspace'.length = keys.length) :
  ∃ workspace'', sort32 keys workspace keys.length r defaultR keyMask ascending numberSystem
    = .ok (keys', workspace'')
  := by
  rw [sort32, if_neg hsort, hbits]
  dsimp only
  rw [hcore, Except.ok_bind]
  cases reversed with
  | true =>
      use keys'
      dsimp only
      rw [if_pos rfl, copyBlock_eq hlen hworkspace hkeys]
  | false => exact ⟨workspace', rfl⟩

/-- Keys without a sign are sorted by the bits that count. -/
theorem sort32_unsigned (hlen : keys.length < 2 ^ 30) (hlen' : ¬ keys.length ≤ 1)
    (hroom : workspace.length = keys.length) :
  ∃ ys workspace', sort32 keys workspace keys.length r defaultR keyMask ascending .unsigned
      = .ok (ys, workspace')
    ∧ Sorts (value ascending keyMask) keys ys
  := by
  by_cases hmask : keyMask = 0
  · refine ⟨keys, workspace, ?_, ?_⟩
    · rw [sort32, if_pos (.inr hmask)]
    · have hnone : ∀ key ∈ keys, value ascending keyMask key = 0 := by
        intro key _
        rw [value, hmask, UInt32.and_zero]
        rfl
      exact sorts_of_const hnone
  · obtain ⟨hpos, hlt⟩ := toNat_chooseBitCount r defaultR
    generalize hbits : (SortUtils.chooseBitCount r defaultR).toNat = bits at hpos hlt
    obtain ⟨hcover, hlast⟩ := groupCount_bounds hpos
    have hstart : Sorts (fun key => value ascending keyMask key % 2 ^ 0) keys keys :=
      sorts_of_const (fun key _ => Nat.mod_one _)
    obtain ⟨reversed, ys, workspace', hcore, hworkspace', hsorted⟩ :=
      sortPasses_eq (groupCount bits) 0 false hlt (by omega)
        (restOf_zero keyMask) hroom hstart
    obtain ⟨workspace'', hsort⟩ := sort32_of_core .unsigned hbits hlen
      (not_or.mpr ⟨hlen', hmask⟩) hcore hsorted.perm.length_eq hworkspace'
    refine ⟨ys, workspace'', hsort, ?_⟩
    apply hsorted.congr
    have hkeep : ∀ key, value ascending keyMask key % 2 ^ (0 + groupCount bits * bits)
        = value ascending keyMask key := by
      intro key
      apply Nat.mod_eq_of_lt
      apply Nat.lt_of_lt_of_le (UInt32.toNat_lt _)
      exact Nat.pow_le_pow_right (by decide) (by omega)
    intro a _ b _
    rw [hkeep, hkeep]

/-- Spans of keys are sorted by the bits that count. -/
theorem sort_by_value (hlen : keys.length < 2 ^ 30) (hroom : keys.length ≤ workspace.length)
    (r defaultR : Int) (descending : Bool) (mask : UInt32) :
  ∃ ys workspace', sort keys workspace r defaultR descending mask = .ok (ys, workspace')
    ∧ Sorts (value (!descending) mask) keys ys
  := by
  rw [sort]
  by_cases hshort : keys.length ≤ 1
  · rw [if_pos hshort]
    exact ⟨keys, workspace, rfl, sorts_of_length_le_one _ hshort⟩
  · have hfront : (workspace.take keys.length).length = keys.length := by
      rw [List.length_take]
      omega
    obtain ⟨ys, workspace', hsort, hsorted⟩ := sort32_unsigned hlen hshort hfront
    rw [if_neg hshort, if_neg (by omega), hsort, Except.ok_bind]
    exact ⟨ys, _, rfl, hsorted⟩

end

/-- In descending order the bits that count are those that are missing. -/
theorem value_false (keyMask key : UInt32) :
  value false keyMask key + (key &&& keyMask).toNat = keyMask.toNat
  := by
  have hdisjoint : (~~~key &&& keyMask).toBitVec &&& (key &&& keyMask).toBitVec = 0#32 := by
    ext i hi
    simp
    cases key.toBitVec[i] <;> simp
  have hsum : (~~~key &&& keyMask).toBitVec + (key &&& keyMask).toBitVec = keyMask.toBitVec := by
    rw [BitVec.add_eq_or_of_and_eq_zero _ _ hdisjoint]
    ext i hi
    simp
    cases key.toBitVec[i] <;> simp
  have htotal := BitVec.toNat_add_of_and_eq_zero hdisjoint
  rw [hsum] at htotal
  exact htotal.symm

/-- The order of the bits that count is the order of the masked keys, in one direction or the
other. -/
theorem value_le_iff (descending : Bool) (mask a b : UInt32) :
  value (!descending) mask a ≤ value (!descending) mask b
    ↔ if descending then b &&& mask ≤ a &&& mask else a &&& mask ≤ b &&& mask
  := by
  cases descending with
  | false => exact UInt32.le_iff_toNat_le.symm
  | true =>
      have ha := value_false mask a
      have hb := value_false mask b
      rw [if_pos rfl, UInt32.le_iff_toNat_le]
      rw [Bool.not_true]
      omega

/-- Fewer than `2 ^ 30` keys with a workspace that is long enough, whatever it holds, become the
stable sort of the keys by their masked bits, in the given direction, for any number of bits in a
group; and the empty mask leaves everything as it is. -/
theorem sort_eq_mergeSort {keys workspace : List UInt32} (hlen : keys.length < 2 ^ 30)
    (hroom : keys.length ≤ workspace.length) (r defaultR : Int) (descending : Bool)
    (mask : UInt32) :
  (∃ workspace', sort keys workspace r defaultR descending mask
      = .ok (keys.mergeSort (fun a b =>
          if descending then b &&& mask ≤ a &&& mask else a &&& mask ≤ b &&& mask), workspace'))
    ∧ (mask = 0 → ∃ workspace', sort keys workspace r defaultR descending mask
      = .ok (keys, workspace'))
  := by
  obtain ⟨ys, workspace', hsort, hsorted⟩ := sort_by_value hlen hroom r defaultR descending mask
  constructor
  · use workspace'
    have horder : ∀ a b, decide (value (!descending) mask a ≤ value (!descending) mask b)
        = if descending then decide (b &&& mask ≤ a &&& mask)
          else decide (a &&& mask ≤ b &&& mask) := by
      intro a b
      rw [decide_eq_decide.mpr (value_le_iff descending mask a b)]
      cases descending with
      | true => rfl
      | false => rfl
    rw [hsort, hsorted.eq_mergeSort]
    simp only [horder]
  · intro hmask
    have hnone : ∀ key ∈ keys, value (!descending) mask key = 0 := by
      intro key _
      rw [value, hmask, UInt32.and_zero]
      rfl
    use workspace'
    rw [hsort, hsorted.unique (sorts_of_const hnone)]

/-- Three keys in descending order of their low byte; the workspace holds old values, and the
digits have three bits. -/
theorem sort_eq_mergeSort_three :
  (∃ workspace', sort [0x101, 0x202, 0x001] [7, 7, 7, 7] 3 0 true 0xFF
      = .ok ([0x101, 0x202, 0x001].mergeSort (fun a b =>
          if true then b &&& 0xFF ≤ a &&& 0xFF else a &&& 0xFF ≤ b &&& 0xFF), workspace'))
    ∧ ((0xFF : UInt32) = 0 → ∃ workspace', sort [0x101, 0x202, 0x001] [7, 7, 7, 7] 3 0 true 0xFF
      = .ok ([0x101, 0x202, 0x001], workspace'))
  := sort_eq_mergeSort (by decide) (by decide) 3 0 true 0xFF

/-! ### Numbers -/

/-- The order of the numbers that keys stand for, in the given direction. -/
def Ordered (numberSystem : NumberSystem) (descending : Bool) (a b : UInt32) : Prop :=
  if descending then numberSystem.number b ≤ numberSystem.number a
  else numberSystem.number a ≤ numberSystem.number b

/-- A sort of keys of a number system gives a permutation that is ordered by the numbers. -/
def SortsNumbers (type : ValueType) (numberSystem : NumberSystem) (keys workspace : List UInt32)
    (r defaultR : Int) (descending : Bool) : Prop :=
  ∃ ys workspace',
    sortOf type (some numberSystem) keys workspace r defaultR descending = .ok (ys, workspace')
    ∧ ys.Perm keys ∧ ys.Pairwise (Ordered numberSystem descending)

/-- The bits that count of a key with a sign: those with the sign bit come first. -/
def signedValue (ascending : Bool) (key : UInt32) : Nat :=
  (value ascending 0xFFFFFFFF key + 2 ^ 31) % 2 ^ 32

/-- The last pass begins with the group that has the sign bit and no other bit. -/
theorem getInvertStartIndex_eq {r : Nat} (h : 1 ≤ r) :
  ∃ w, 1 ≤ w ∧ w ≤ r ∧ (groupCount r - 1) * r + w = 32 ∧ getInvertStartIndex 32 r = 2 ^ (w - 1)
  := by
  have hdiv := Nat.div_add_mod (32 - 1) r
  have hlt := Nat.mod_lt (32 - 1) (show 0 < r by omega)
  have hgroups : groupCount r - 1 = (32 - 1) / r := rfl
  refine ⟨(32 - 1) % r + 1, by omega, by omega, ?_, ?_⟩
  · rw [hgroups, Nat.mul_comm]
    omega
  · have hmod : 32 % r = ((32 - 1) % r + 1) % r := by
      have hsum : 32 = r * ((32 - 1) / r) + ((32 - 1) % r + 1) := by omega
      rw [hsum, Nat.mul_add_mod, ← hsum]
    rw [getInvertStartIndex]
    by_cases hfull : (32 - 1) % r + 1 = r
    · rw [hmod, hfull, Nat.mod_self, if_pos rfl, Nat.one_shiftLeft]
    · rw [hmod, Nat.mod_eq_of_lt (by omega), if_neg (by omega), Nat.one_shiftLeft]

section Rank

variable {S w r : Nat}

/-- Where the last pass puts a key: the sign bit moves it in front of all keys without one. -/
theorem rank_eq (hw : 1 ≤ w) (hwr : w ≤ r) (hS : S + w = 32) {v : Nat} (hv : v < 2 ^ 32) :
  v % 2 ^ S + 2 ^ S * rankFrom (2 ^ r) (2 ^ (w - 1)) (v / 2 ^ S % 2 ^ r)
    = if 2 ^ 31 ≤ v then v - 2 ^ 31 else v + 2 ^ S * (2 ^ r - 2 ^ (w - 1))
  := by
  have hparts := Nat.mod_add_div v (2 ^ S)
  have hhalf : 2 ^ S * 2 ^ (w - 1) = 2 ^ 31 := by
    rw [← Nat.pow_add]
    congr 1
    omega
  have hdigit : v / 2 ^ S < 2 ^ r := by
    rw [Nat.div_lt_iff_lt_mul (Nat.two_pow_pos S), ← Nat.pow_add]
    apply Nat.lt_of_lt_of_le hv
    exact Nat.pow_le_pow_right (by decide) (by omega)
  have hsign : 2 ^ (w - 1) ≤ v / 2 ^ S ↔ 2 ^ 31 ≤ v := by
    rw [Nat.le_div_iff_mul_le (Nat.two_pow_pos S), Nat.mul_comm, hhalf]
  rw [Nat.mod_eq_of_lt hdigit, rankFrom]
  by_cases hv' : 2 ^ 31 ≤ v
  · have hmul := Nat.mul_le_mul_left (2 ^ S) (hsign.mpr hv')
    rw [if_pos (hsign.mpr hv'), if_pos hv', Nat.mul_sub]
    omega
  · rw [if_neg (fun h => hv' (hsign.mp h)), if_neg hv', Nat.mul_add]
    omega

/-- The order in which the last pass puts keys with a sign. -/
theorem rank_le_iff (hw : 1 ≤ w) (hwr : w ≤ r) (hS : S + w = 32) {v v' : Nat}
    (hv : v < 2 ^ 32) (hv' : v' < 2 ^ 32) :
  v % 2 ^ S + 2 ^ S * rankFrom (2 ^ r) (2 ^ (w - 1)) (v / 2 ^ S % 2 ^ r)
      ≤ v' % 2 ^ S + 2 ^ S * rankFrom (2 ^ r) (2 ^ (w - 1)) (v' / 2 ^ S % 2 ^ r)
    ↔ (v + 2 ^ 31) % 2 ^ 32 ≤ (v' + 2 ^ 31) % 2 ^ 32
  := by
  have hhalf : 2 ^ S * 2 ^ (w - 1) = 2 ^ 31 := by
    rw [← Nat.pow_add]
    congr 1
    omega
  have hbuckets : 2 * 2 ^ (w - 1) ≤ 2 ^ r := by
    rw [← Nat.pow_succ']
    exact Nat.pow_le_pow_right (by decide) (by omega)
  have hlater : 2 ^ S * 2 ^ (w - 1) ≤ 2 ^ S * (2 ^ r - 2 ^ (w - 1)) :=
    Nat.mul_le_mul_left _ (by omega)
  rw [hhalf] at hlater
  rw [rank_eq hw hwr hS hv, rank_eq hw hwr hS hv']
  split
  · split
    · omega
    · omega
  · split
    · omega
    · omega

end Rank

section

variable {keys workspace : List UInt32} {r defaultR : Int} {ascending : Bool}

/-- Keys with a sign are sorted by the bits that count, those with the sign bit first. -/
theorem sort32_signed {numberSystem : NumberSystem} (hsigned : numberSystem ≠ .unsigned)
    (hlen : keys.length < 2 ^ 30) (hlen' : ¬ keys.length ≤ 1)
    (hroom : workspace.length = keys.length) :
  ∃ ys workspace', sort32 keys workspace keys.length r defaultR 0xFFFFFFFF ascending numberSystem
      = .ok (ys, workspace')
    ∧ Sorts (signedValue ascending) keys ys
  := by
  obtain ⟨hpos, hlt⟩ := toNat_chooseBitCount r defaultR
  generalize hbits : (SortUtils.chooseBitCount r defaultR).toNat = bits at hpos hlt
  obtain ⟨w, hw, hwr, hlast, hinvert⟩ := getInvertStartIndex_eq hpos
  have hgroups : groupCount bits = groupCount bits - 1 + 1 := rfl
  have hstart : Sorts (fun key => value ascending 0xFFFFFFFF key % 2 ^ 0) keys keys :=
    sorts_of_const (fun key _ => Nat.mod_one _)
  have hle : getInvertStartIndex 32 bits ≤ 2 ^ bits := by
    rw [hinvert]
    exact Nat.pow_le_pow_right (by decide) (by omega)
  obtain ⟨reversed, ys, workspace', hcore, hworkspace', hsorted⟩ :=
    sortPasses_signed (groupCount bits - 1) 0 false hlt (by omega) hle (restOf_zero 0xFFFFFFFF)
      hroom hstart
  have hsortCore : sortCore32 keys workspace bits 0xFFFFFFFF (1 <<< bits) keys.length
      (groupCount bits) (UInt32.ofNat (1 <<< bits - 1)) ascending
      (decide (numberSystem ≠ .unsigned)) = .ok (reversed, ys, workspace') := by
    rw [sortCore32, decide_eq_true hsigned, if_pos rfl, ← hcore, Nat.zero_add, ← hgroups]
  have hsort : ¬ (keys.length ≤ 1 ∨ (0xFFFFFFFF : UInt32) = 0) :=
    not_or.mpr ⟨hlen', by decide⟩
  obtain ⟨workspace'', hsort32⟩ :=
    sort32_of_core numberSystem hbits hlen hsort hsortCore hsorted.perm.length_eq hworkspace'
  refine ⟨ys, workspace'', hsort32, ?_⟩
  rw [Nat.zero_add, hinvert] at hsorted
  apply hsorted.congr
  intro a _ b _
  exact rank_le_iff hw hwr hlast (UInt32.toNat_lt _) (UInt32.toNat_lt _)

/-- The bits that count of a key of a number system. -/
def systemValue (numberSystem : NumberSystem) (descending : Bool) (key : UInt32) : Nat :=
  if numberSystem = .unsigned then value (!descending) 0xFFFFFFFF key
  else signedValue (!descending) key

/-- Spans of keys of four bytes are sorted by the bits that count. -/
theorem sortOf_sorts {type : ValueType} (htype : type.size = 4) (hlen : keys.length < 2 ^ 30)
    (hroom : keys.length ≤ workspace.length) (numberSystem : NumberSystem) (r defaultR : Int)
    (descending : Bool) :
  ∃ ys workspace',
    sortOf type (some numberSystem) keys workspace r defaultR descending = .ok (ys, workspace')
    ∧ Sorts (systemValue numberSystem descending) keys ys
  := by
  rw [sortOf]
  by_cases hshort : keys.length ≤ 1
  · rw [if_pos hshort]
    exact ⟨keys, workspace, rfl, sorts_of_length_le_one _ hshort⟩
  · have hfront : (workspace.take keys.length).length = keys.length := by
      rw [List.length_take]
      omega
    rw [if_neg hshort, if_neg (by omega), if_pos htype]
    by_cases hsigned : numberSystem = .unsigned
    · rw [hsigned]
      obtain ⟨ys, workspace', hsort, hsorted⟩ := sort32_unsigned hlen hshort hfront
      rw [hsort, Except.ok_bind]
      exact ⟨ys, _, rfl, hsorted⟩
    · obtain ⟨ys, workspace', hsort, hsorted⟩ := sort32_signed hsigned hlen hshort hfront
      rw [hsort, Except.ok_bind]
      refine ⟨ys, _, rfl, hsorted.congr ?_⟩
      intro a _ b _
      rw [systemValue, systemValue, if_neg hsigned, if_neg hsigned]

/-- The order of keys with a sign by their bits. -/
def SignedLe (a b : UInt32) : Prop :=
  (2 ^ 31 ≤ a.toNat ∧ b.toNat < 2 ^ 31)
    ∨ ((2 ^ 31 ≤ a.toNat ↔ 2 ^ 31 ≤ b.toNat) ∧ a.toNat ≤ b.toNat)

/-- Keys without a sign are put into the order of their bits. -/
theorem systemValue_unsigned_le {descending : Bool} {a b : UInt32}
    (h : systemValue .unsigned descending a ≤ systemValue .unsigned descending b) :
  if descending then b.toNat ≤ a.toNat else a.toNat ≤ b.toNat
  := by
  have ha := a.toNat_lt
  have hb := b.toNat_lt
  rw [systemValue, systemValue, if_pos rfl, if_pos rfl, value_all, value_all] at h
  cases descending with
  | true =>
      rw [Bool.not_true, if_neg Bool.false_ne_true, if_neg Bool.false_ne_true, UInt32.toNat_not,
        UInt32.toNat_not, UInt32.size] at h
      rw [if_pos rfl]
      omega
  | false => exact h

/-- Keys with a sign are put into the order of keys with a sign. -/
theorem systemValue_signed_le {numberSystem : NumberSystem} (hsigned : numberSystem ≠ .unsigned)
    {descending : Bool} {a b : UInt32}
    (h : systemValue numberSystem descending a ≤ systemValue numberSystem descending b) :
  if descending then SignedLe b a else SignedLe a b
  := by
  have ha := a.toNat_lt
  have hb := b.toNat_lt
  rw [systemValue, systemValue, if_neg hsigned, if_neg hsigned, signedValue, signedValue, value_all,
    value_all] at h
  cases descending with
  | true =>
      rw [Bool.not_true, if_neg Bool.false_ne_true, if_neg Bool.false_ne_true, UInt32.toNat_not,
        UInt32.toNat_not, UInt32.size] at h
      rw [if_pos rfl, SignedLe]
      omega
  | false =>
      rw [Bool.not_false, if_pos rfl, if_pos rfl] at h
      rw [if_neg Bool.false_ne_true, SignedLe]
      omega

/-- The order of keys with a sign is that of their numbers; for two keys with the sign bit of a
floating point type only when they are the same. -/
theorem number_le_of_signedLe {numberSystem : NumberSystem} (hsigned : numberSystem ≠ .unsigned)
    {a b : UInt32} (hsame : numberSystem = .signBit → 2 ^ 31 ≤ a.toNat → 2 ^ 31 ≤ b.toNat → a = b)
    (h : SignedLe a b) :
  numberSystem.number a ≤ numberSystem.number b
  := by
  have ha := a.toNat_lt
  have hb := b.toNat_lt
  rw [SignedLe] at h
  cases numberSystem with
  | unsigned => exact absurd rfl hsigned
  | onesComplement =>
      rw [NumberSystem.number, NumberSystem.number]
      split
      · split
        · omega
        · omega
      · split
        · omega
        · omega
  | twosComplement =>
      rw [NumberSystem.number, NumberSystem.number]
      split
      · split
        · omega
        · omega
      · split
        · omega
        · omega
  | signBit =>
      rw [NumberSystem.number, NumberSystem.number]
      split
      · split
        · omega
        · omega
      · rename_i hsigna
        split
        · omega
        · rename_i hsignb
          rw [hsame rfl (Nat.le_of_not_lt hsigna) (Nat.le_of_not_lt hsignb)]

/-- Keys in the order of the bits that count are in the order of their numbers; for two keys with
the sign bit of a floating point type only when they are the same. -/
theorem ordered_of_le {numberSystem : NumberSystem} {descending : Bool} {a b : UInt32}
    (hsame : numberSystem = .signBit → 2 ^ 31 ≤ a.toNat → 2 ^ 31 ≤ b.toNat → a = b)
    (hle : systemValue numberSystem descending a ≤ systemValue numberSystem descending b) :
  Ordered numberSystem descending a b
  := by
  have hnumber : ∀ x y : UInt32, x.toNat ≤ y.toNat →
      NumberSystem.unsigned.number x ≤ NumberSystem.unsigned.number y := by
    intro x y hxy
    exact Int.ofNat_le.mpr hxy
  by_cases hsigned : numberSystem = .unsigned
  · rw [hsigned] at hle ⊢
    have hbits := systemValue_unsigned_le hle
    cases descending with
    | true => exact hnumber b a hbits
    | false => exact hnumber a b hbits
  · have hbits := systemValue_signed_le hsigned hle
    cases descending with
    | true =>
        apply number_le_of_signedLe hsigned _ hbits
        intro hsystem hsignb hsigna
        exact (hsame hsystem hsigna hsignb).symm
    | false => exact number_le_of_signedLe hsigned hsame hbits

/-- Of two keys with the sign bit of a floating point type the order of the bits is that of the
numbers only when they are the same. -/
theorem eq_of_signedLe {a b : UInt32} (ha : 2 ^ 31 ≤ a.toNat) (hb : 2 ^ 31 ≤ b.toNat)
    (hle : SignedLe a b) (h : NumberSystem.signBit.number a ≤ NumberSystem.signBit.number b) :
  a = b
  := by
  apply UInt32.toNat_inj.mp
  rw [SignedLe] at hle
  rw [NumberSystem.number, NumberSystem.number, if_neg (Nat.not_lt.mpr ha),
    if_neg (Nat.not_lt.mpr hb)] at h
  omega

/-- Where keys of a floating point type are sorted by their numbers, there are no two different
ones with a sign bit. -/
theorem eq_of_sortsNumbers {type : ValueType} (htype : type.size = 4)
    (hlen : keys.length < 2 ^ 30) (hroom : keys.length ≤ workspace.length) {descending : Bool}
    (h : SortsNumbers type .signBit keys workspace r defaultR descending) :
  ∀ a ∈ keys, ∀ b ∈ keys, 2 ^ 31 ≤ a.toNat → 2 ^ 31 ≤ b.toNat → a = b
  := by
  obtain ⟨ys, workspace', hsort, hperm, hordered⟩ := h
  obtain ⟨ys', workspace'', hsort', hsorted⟩ :=
    sortOf_sorts htype hlen hroom .signBit r defaultR descending
  rw [hsort] at hsort'
  obtain ⟨rfl, rfl⟩ := Prod.mk.inj (Except.ok.inj hsort')
  intro a ha b hb hsigna hsignb
  by_contra hne
  have hpairs : ys.Pairwise (fun a b => 2 ^ 31 ≤ a.toNat → 2 ^ 31 ≤ b.toNat → a = b) := by
    apply (hsorted.ordered.and hordered).imp
    rintro a b ⟨hle, hab⟩ hsigna hsignb
    have hsigned : NumberSystem.signBit ≠ .unsigned := by decide
    have hbits := systemValue_signed_le hsigned hle
    cases descending with
    | true => exact (eq_of_signedLe hsignb hsigna hbits hab).symm
    | false => exact eq_of_signedLe hsigna hsignb hbits hab
  have hsymm : Std.Symm
      (fun a b : UInt32 => 2 ^ 31 ≤ a.toNat → 2 ^ 31 ≤ b.toNat → a = b) := by
    constructor
    intro a b hab hsignb hsigna
    exact (hab hsigna hsignb).symm
  exact hne (hpairs.forall (hperm.mem_iff.mpr ha) (hperm.mem_iff.mpr hb) hne hsigna hsignb)

/-- Keys of a type of four bytes are sorted by their numbers, in either direction and for any
number of bits in a group, if and only if there are no two different keys with a sign bit in a
floating point type: the passes put keys with the sign bit first, but in the order of their bits,
which is the reverse of that of their numbers there. -/
theorem sortsNumbers_iff {type : ValueType} (htype : type.size = 4)
    (hlen : keys.length < 2 ^ 30) (hroom : keys.length ≤ workspace.length)
    (numberSystem : NumberSystem) (r defaultR : Int) (descending : Bool) :
  SortsNumbers type numberSystem keys workspace r defaultR descending
    ↔ (numberSystem = .signBit →
      ∀ a ∈ keys, ∀ b ∈ keys, 2 ^ 31 ≤ a.toNat → 2 ^ 31 ≤ b.toNat → a = b)
  := by
  constructor
  · rintro h rfl
    exact eq_of_sortsNumbers htype hlen hroom h
  · intro h
    obtain ⟨ys, workspace', hsort, hsorted⟩ :=
      sortOf_sorts htype hlen hroom numberSystem r defaultR descending
    refine ⟨ys, workspace', hsort, hsorted.perm, ?_⟩
    apply hsorted.ordered.imp_of_mem
    intro a b ha hb hle
    apply ordered_of_le _ hle
    intro hsystem
    exact h hsystem a ((hsorted.mem_iff a).mp ha) b ((hsorted.mem_iff b).mp hb)

/-- Three keys of type `int` in groups of five bits. -/
theorem sortsNumbers_three :
  SortsNumbers .int .twosComplement [1, 0xFFFFFFFF, 0x80000000] [7, 7, 7, 7] 5 0 false
    ↔ (NumberSystem.twosComplement = .signBit →
      ∀ a ∈ [1, 0xFFFFFFFF, 0x80000000], ∀ b ∈ [1, 0xFFFFFFFF, 0x80000000],
        2 ^ 31 ≤ UInt32.toNat a → 2 ^ 31 ≤ UInt32.toNat b → a = b)
  := sortsNumbers_iff rfl (by decide) (by decide) .twosComplement 5 0 false

/-- The numbers -1 and -2 of type `float` stay as they are. -/
theorem not_sortsNumbers :
  ValueType.float.numberSystem = some .signBit
    ∧ ¬ SortsNumbers .float .signBit [0xBF800000, 0xC0000000] [0, 0] 8 0 false
  := by
  constructor
  · rfl
  · intro h
    have heq := eq_of_sortsNumbers rfl (by decide) (by decide) h 0xBF800000 (by simp) 0xC0000000
      (by simp) (by decide) (by decide)
    revert heq
    decide

end

end Datatent.RadixLsdUnsafe
