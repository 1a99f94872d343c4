import Datatent.Core.Algo.Sort.RadixLsdUnsafe
import Datatent.Core.Algo.Sort.ShortSort

/-!
# Radix sort from the highest group

`RadixMsd` sorts keys by the highest group of their bits, and then the keys of every group by
the groups below. A group of at most five keys is not sorted by its bits but by comparing and
swapping, which only leaves it as it is when it is in order already; so the keys are sorted if
and only if all such groups are.

The shift goes down by the width of a group below zero, where a shift by a number of bits is one
by that number modulo 32; so the bits that are left over are found at a later turn.
-/

namespace Datatent.RadixMsd

open Distribution LossySort SortUtils

/-- The number of bits of a shift. -/
def shiftCount (shift : Int) : UInt32 := UInt32.ofNat (shift % 32).toNat

/-- The group of a key. -/
def group (shift : Int) (groupMask key : UInt32) : Nat :=
  (key >>> shiftCount shift &&& groupMask).toNat

/-- The keys that a loop from one index to another one reads. -/
def readKeys (keys : List UInt32) (start stop : Nat) : Except SortFault (List UInt32) :=
  if start < stop ∧ keys.length < stop then .error .indexOutOfRange
  else .ok ((keys.drop start).take (stop - start))

/-- Count the keys of the groups in a table that is cleared first. -/
def bucketCountAscending32 (buckets : List Nat) (keys : List UInt32) (start stop : Nat)
    (shift : Int) (groupMask : UInt32) : Except SortFault (List Nat) := do
  let range ← readKeys keys start stop
  count .indexOutOfRange (group shift groupMask) (List.replicate buckets.length 0) range

/-- Move the keys to the places of their groups in the workspace. -/
def applyAscending32 (offsets : List Nat) (keys workspace : List UInt32) (start stop : Nat)
    (shift : Int) (groupMask : UInt32) : Except SortFault (List Nat × List UInt32) := do
  let range ← readKeys keys start stop
  scatter .indexOutOfRange (group shift groupMask) offsets workspace range

/-- Copy a table to the front of another one. -/
def copyTo (buckets offsets : List Nat) : Except SortFault (List Nat) :=
  if offsets.length < buckets.length then .error .argument
  else .ok (buckets ++ offsets.drop buckets.length)

/-- Copy a range of the workspace to the same range of the keys. -/
def copyRange (workspace keys : List UInt32) (start stop : Nat) :
    Except SortFault (List UInt32) :=
  if stop < start ∨ workspace.length < stop ∨ keys.length < stop then .error .argumentOutOfRange
  else .ok (keys.take start ++ ((workspace.drop start).take (stop - start) ++ keys.drop stop))

/-- The loop to the next group whose bits count, from a shift and what is left of the key mask:
the shift and the mask of the group, and what is left of the key mask then. The loop ends where
the condition holds. After as many turns as there are bits it is at the same bit again with the
same mask, and goes on forever. -/
def nextGroup (r : Nat) (mask : UInt32) (ends : UInt32 → UInt32 → Bool) :
    Nat → Int → UInt32 → Except SortFault (Int × UInt32 × UInt32)
  | 0, _, _ => .error .endless
  | n + 1, shift, keyMask =>
      let shift := shift - r
      let groupMask := keyMask >>> shiftCount shift &&& mask
      let keyMask := keyMask &&& ~~~(mask <<< shiftCount shift)
      if ends groupMask keyMask then .ok (shift, groupMask, keyMask)
      else nextGroup r mask ends n shift keyMask

/-- What the sort works on: the keys, the workspace and the table of offsets, which all ranges
share. -/
structure Memory where
  keys : List UInt32
  workspace : List UInt32
  offsets : List Nat
deriving DecidableEq, Repr

/-- Sort a range by the groups that were counted. -/
def sortByGroup (buckets : List Nat) (shift : Int) (groupMask : UInt32) (start stop : Nat)
    (memory : Memory) : Except SortFault Memory := do
  let offsets ← copyTo buckets memory.offsets
  match computeOffsets offsets (stop - start) 0 start with
  | (false, offsets) => .ok { memory with offsets := offsets }
  | (true, offsets) => do
      let (offsets, workspace) ←
        applyAscending32 offsets memory.keys memory.workspace start stop shift groupMask
      let keys ← copyRange workspace memory.keys start stop
      .ok { keys := keys, workspace := workspace, offsets := offsets }

/-- Sort a group from an offset on: no more than one key is in order, a short group is sorted by
swapping, and a longer one by the groups below. -/
def sortBucket (sortRange : Nat → Nat → Memory → Except SortFault Memory) (grp offset : Nat)
    (memory : Memory) : Except SortFault Memory :=
  match grp with
  | 0 | 1 => .ok memory
  | grp => do
      let next := offset + grp
      let (keys, long) ← shortSortAscending memory.keys offset grp
      let memory := { memory with keys := keys }
      if long then sortRange offset next memory else .ok memory

/-- Cascade to the groups, from an offset on. -/
def sortBuckets (sortRange : Nat → Nat → Memory → Except SortFault Memory) :
    List Nat → Nat → Memory → Except SortFault Memory
  | [], _, memory => .ok memory
  | grp :: buckets, offset, memory => do
      let memory ← sortBucket sortRange grp offset memory
      sortBuckets sortRange buckets (offset + grp) memory

/-- Sort a range by a group of bits and then by the groups below it. The recursion is at most as
deep as there are bits, since the key mask loses one at least at every level. -/
def sortRange (r : Nat) (mask : UInt32) :
    Nat → UInt32 → UInt32 → Int → Nat → Nat → Memory → Except SortFault Memory
  | 0, _, _, _, _, _, _ => .error .endless
  | depth + 1, keyMask, groupMask, shift, start, stop, memory => do
      let buckets ← bucketCountAscending32 (List.replicate (1 <<< r) 0) memory.keys start stop
        shift groupMask
      let memory ← sortByGroup buckets shift groupMask start stop memory
      let (shift, groupMask, keyMask) ←
        nextGroup r mask (fun groupMask keyMask => !(groupMask = 0 && keyMask ≠ 0)) 32 shift keyMask
      if groupMask ≠ 0 then
        sortBuckets (sortRange r mask depth keyMask groupMask shift) buckets start memory
      else .ok memory

/-- What the sorts share. Nothing but the ascending order of keys without a sign is
implemented. -/
def sort32 (keys workspace : List UInt32) (r defaultR : Int) (keyMask : UInt32)
    (ascending : Bool) (numberSystem : NumberSystem) :
    Except SortFault (List UInt32 × List UInt32) :=
  let numberSystem := if keyMask &&& 0x80000000 = 0 then .unsigned else numberSystem
  if !ascending || numberSystem ≠ .unsigned then .error .notImplemented
  else do
    let (keys, long) ← shortSortAscending keys 0 keys.length
    if long then
      let r := (chooseBitCount r defaultR).toNat
      if workspace.length < keys.length then .error .argumentOutOfRange
      else if keyMask = 0 then .ok (keys, workspace)
      else do
        let bucketCount := 1 <<< r
        let mask := UInt32.ofNat (bucketCount - 1)
        let (shift, groupMask, keyMask) ←
          nextGroup r mask (fun groupMask _ => groupMask ≠ 0) 32 32 keyMask
        let memory ← sortRange r mask 32 keyMask groupMask shift 0 keys.length
          { keys := keys, workspace := workspace.take keys.length,
            offsets := List.replicate bucketCount 0 }
        .ok (memory.keys, memory.workspace ++ workspace.drop keys.length)
    else .ok (keys, workspace)

/-- `Sort(Span<uint>, Span<uint>)`. The keys that the spans hold afterwards. -/
def sort (keys workspace : List UInt32) (r defaultR : Int) (descending : Bool)
    (keyMask : UInt32) : Except SortFault (List UInt32 × List UInt32) :=
  sort32 keys workspace r defaultR keyMask (!descending) .unsigned

/-! ### The bits of the groups -/

/-- The bit where the next group begins that has bits below the bit `m`: the first one that the
shift comes by on its way down from the bit `s`, by `r` bits at every turn. -/
def nextBit (r m : Nat) : Nat → Nat → Nat
  | 0, s => s
  | n + 1, s =>
      if (s + (32 - r)) % 32 < m then (s + (32 - r)) % 32
      else nextBit r m n ((s + (32 - r)) % 32)

/-- The bits from `m` down where a group ends and another one begins. -/
def groupBits (r : Nat) : Nat → Nat → List Nat
  | 0, _ => []
  | n + 1, m => if m = 0 then [] else m :: groupBits r n (nextBit r m 32 m)

/-- Going down by the width of a group comes by a lower bit again. -/
theorem nextBit_lt_of_mem :
  ∀ r ∈ List.range' 1 16, ∀ m ∈ List.range' 1 32, r.gcd 32 ∣ m →
    nextBit r m 32 m < m ∧ r.gcd 32 ∣ nextBit r m 32 m
  := by decide +kernel

section Bits

variable {r m : Nat}

theorem nextBit_lt (hpos : 1 ≤ r) (hr : r ≤ 16) (hm : 0 < m) (hm' : m ≤ 32)
    (hdvd : r.gcd 32 ∣ m) :
  nextBit r m 32 m < m ∧ r.gcd 32 ∣ nextBit r m 32 m
  := by
  apply nextBit_lt_of_mem r _ m _ hdvd
  · rw [List.mem_range'_1]
    omega
  · rw [List.mem_range'_1]
    omega

/-- The bits go down. -/
theorem le_of_mem_groupBits (hpos : 1 ≤ r) (hr : r ≤ 16) {n : Nat} (hm : m ≤ 32)
    (hdvd : r.gcd 32 ∣ m) {b : Nat} (hb : b ∈ groupBits r n m) :
  b ≤ m
  := by
  induction n generalizing m with
  | zero => cases hb
  | succ n ih =>
      rw [groupBits] at hb
      split at hb
      · cases hb
      · rename_i hne
        obtain ⟨hlt, hdvd'⟩ := nextBit_lt hpos hr (Nat.pos_of_ne_zero hne) hm hdvd
        rcases List.mem_cons.mp hb with rfl | hb
        · exact Nat.le_refl b
        · have hle := ih (by omega) hdvd' hb
          omega

/-- A digit of a narrow group is one of a wide group. -/
theorem digit_lt {w : Nat} (h : w ≤ r) (n : Nat) :
  n % 2 ^ w < 2 ^ r
  := by
  apply Nat.lt_of_lt_of_le (Nat.mod_lt n (Nat.two_pow_pos w))
  exact Nat.pow_le_pow_right (by decide) h

/-- A shift at some bit. -/
theorem shiftCount_eq {shift : Int} {s : Nat} (h : shift % 32 = s) :
  shiftCount shift = UInt32.ofNat s
  := by
  rw [shiftCount, h, Int.toNat_natCast]

/-- The group of a key is a digit of it. -/
theorem group_eq {shift : Int} {groupMask : UInt32} {s w : Nat} (hs : s < 32)
    (hshift : shift % 32 = s) (hmask : groupMask.toNat = 2 ^ w - 1) (key : UInt32) :
  group shift groupMask key = key.toNat / 2 ^ s % 2 ^ w
  := by
  rw [group, shiftCount_eq hshift, UInt32.toNat_and, toNat_shiftRight key hs, hmask,
    Nat.and_two_pow_sub_one_eq_mod]

/-- The group at a bit of the bits that are left. -/
theorem toNat_groupMask {keyMask : UInt32} {s : Nat} (hr : r < 32) (hs : s < 32)
    (hm : m ≤ s + r) (hmask : keyMask.toNat = 2 ^ m - 1) :
  (keyMask >>> UInt32.ofNat s &&& UInt32.ofNat (1 <<< r - 1)).toNat = 2 ^ (m - s) - 1
  := by
  apply Nat.eq_of_testBit_eq
  intro i
  rw [UInt32.toNat_and, Nat.testBit_and, toNat_shiftRight _ hs, hmask, Nat.testBit_div_two_pow,
    testBit_mask hr, Nat.testBit_two_pow_sub_one, Nat.testBit_two_pow_sub_one, Bool.eq_iff_iff]
  simp only [Bool.and_eq_true, decide_eq_true_iff]
  omega

/-- What is left of the bits below the group. -/
theorem toNat_keyMask {keyMask : UInt32} {s : Nat} (hr : r < 32) (hs : s < 32)
    (hm : m ≤ s + r) (hmask : keyMask.toNat = 2 ^ m - 1) :
  (keyMask &&& ~~~(UInt32.ofNat (1 <<< r - 1) <<< UInt32.ofNat s)).toNat = 2 ^ min m s - 1
  := by
  apply Nat.eq_of_testBit_eq
  intro i
  rw [testBit_remove _ hr hs, hmask, Nat.testBit_two_pow_sub_one, Nat.testBit_two_pow_sub_one,
    Bool.eq_iff_iff]
  simp only [Bool.and_eq_true, Bool.not_eq_true', Bool.and_eq_false_iff, decide_eq_true_iff,
    decide_eq_false_iff_not]
  omega

/-- The loop finds the next group with bits that are left. It goes by at most one group that has
none of them, so the group has no more bits than its mask. -/
theorem nextGroup_eq {ends : UInt32 → UInt32 → Bool}
    (hends : ∀ groupMask keyMask, groupMask ≠ 0 → ends groupMask keyMask = true)
    (hgoes : ∀ keyMask, keyMask ≠ 0 → ends 0 keyMask = false) (hpos : 1 ≤ r) (hr : r ≤ 16)
    (hm : 0 < m) (hm' : m ≤ 32) {n s : Nat} {shift : Int} {keyMask : UInt32}
    (hstart : m < r ∨ s = m) (hshift : shift % 32 = (s : Int) % 32)
    (hmask : keyMask.toNat = 2 ^ m - 1) (hnext : nextBit r m n s < m) (hn : n ≠ 0) :
  ∃ shift' groupMask keyMask',
    nextGroup r (UInt32.ofNat (1 <<< r - 1)) ends n shift keyMask
      = .ok (shift', groupMask, keyMask')
    ∧ shift' % 32 = (nextBit r m n s : Int)
    ∧ m - nextBit r m n s ≤ r
    ∧ groupMask.toNat = 2 ^ (m - nextBit r m n s) - 1
    ∧ keyMask'.toNat = 2 ^ nextBit r m n s - 1
  := by
  induction n generalizing s shift keyMask with
  | zero => exact absurd rfl hn
  | succ n ih =>
      have hlt : (s + (32 - r)) % 32 < 32 := Nat.mod_lt _ (by decide)
      have hbit : (shift - r) % 32 = (((s + (32 - r)) % 32 : Nat) : Int) := by omega
      have hle : m ≤ (s + (32 - r)) % 32 + r := by omega
      have hgroupMask := toNat_groupMask (show r < 32 by omega) hlt hle hmask
      have hkeyMask := toNat_keyMask (show r < 32 by omega) hlt hle hmask
      rw [nextBit] at hnext ⊢
      rw [nextGroup, shiftCount_eq hbit]
      generalize (s + (32 - r)) % 32 = s' at *
      generalize keyMask >>> UInt32.ofNat s' &&& UInt32.ofNat (1 <<< r - 1) = groupMask at *
      generalize keyMask &&& ~~~(UInt32.ofNat (1 <<< r - 1) <<< UInt32.ofNat s') = keyMask' at *
      by_cases hbelow : s' < m
      · have hne : groupMask ≠ 0 := by
          rintro rfl
          have hpow : 2 ^ 1 ≤ 2 ^ (m - s') := Nat.pow_le_pow_right (by decide) (by omega)
          rw [UInt32.toNat_zero] at hgroupMask
          omega
        rw [if_pos (hends groupMask keyMask' hne), if_pos hbelow]
        refine ⟨_, _, _, rfl, hbit, by omega, hgroupMask, ?_⟩
        rw [hkeyMask, Nat.min_eq_right (by omega)]
      · have hzero : groupMask = 0 := by
          apply UInt32.toNat_inj.mp
          rw [hgroupMask, Nat.sub_eq_zero_of_le (Nat.le_of_not_lt hbelow)]
          rfl
        have hkeyMask' : keyMask'.toNat = 2 ^ m - 1 := by
          rw [hkeyMask, Nat.min_eq_left (by omega)]
        have hne : keyMask' ≠ 0 := by
          rintro rfl
          have hpow : 2 ^ 1 ≤ 2 ^ m := Nat.pow_le_pow_right (by decide) (by omega)
          rw [UInt32.toNat_zero] at hkeyMask'
          omega
        rw [if_neg hbelow] at hnext ⊢
        rw [hzero, hgoes keyMask' hne, if_neg Bool.false_ne_true]
        apply ih
        · left
          omega
        · omega
        · exact hkeyMask'
        · exact hnext
        · rintro rfl
          exact hbelow hnext

/-- From a group to the next one. -/
theorem nextGroup_next {ends : UInt32 → UInt32 → Bool}
    (hends : ∀ groupMask keyMask, groupMask ≠ 0 → ends groupMask keyMask = true)
    (hgoes : ∀ keyMask, keyMask ≠ 0 → ends 0 keyMask = false) (hpos : 1 ≤ r) (hr : r ≤ 16)
    (hm : 0 < m) (hm' : m ≤ 32) (hdvd : r.gcd 32 ∣ m) (shift : Int) (keyMask : UInt32)
    (hshift : shift % 32 = (m : Int) % 32) (hmask : keyMask.toNat = 2 ^ m - 1) :
  ∃ m' shift' groupMask keyMask',
    nextGroup r (UInt32.ofNat (1 <<< r - 1)) ends 32 shift keyMask
      = .ok (shift', groupMask, keyMask')
    ∧ nextBit r m 32 m = m' ∧ m' < m ∧ r.gcd 32 ∣ m' ∧ m - m' ≤ r
    ∧ shift' % 32 = (m' : Int) ∧ groupMask.toNat = 2 ^ (m - m') - 1
    ∧ keyMask'.toNat = 2 ^ m' - 1
  := by
  obtain ⟨hlt, hdvd'⟩ := nextBit_lt hpos hr hm hm' hdvd
  obtain ⟨shift', groupMask, keyMask', hnext, hshift', hle, hgroupMask, hkeyMask⟩ :=
    nextGroup_eq hends hgoes hpos hr hm hm' (.inr rfl) hshift hmask hlt (Nat.succ_ne_zero 31)
  exact ⟨_, shift', groupMask, keyMask', hnext, rfl, hlt, hdvd', hle, hshift', hgroupMask,
    hkeyMask⟩

end Bits

/-! ### Groups in order -/

/-- All groups of at most five keys, by the bits from one of the given bits on, are in order. -/
def ShortGroupsSorted (bits : List Nat) (keys : List UInt32) : Prop :=
  ∀ m ∈ bits, ∀ p, (keys.filter (fun key => key.toNat / 2 ^ m = p)).length ≤ 5 →
    (keys.filter (fun key => key.toNat / 2 ^ m = p)).Pairwise (· ≤ ·)

/-- A group is in order if it has at most five keys, and else all such groups in it are. -/
def GroupSorted (bits : List Nat) (keys : List UInt32) : Prop :=
  if keys.length ≤ 5 then keys.Pairwise (· ≤ ·) else ShortGroupsSorted bits keys

theorem groupSorted_nil (bits : List Nat) :
  GroupSorted bits []
  := by
  rw [GroupSorted, if_pos (by decide)]
  exact List.Pairwise.nil

section Groups

variable {keys : List UInt32} {bits : List Nat} {m m' w r c : Nat}

/-- A group lies in the group by the bits from a higher bit on. -/
theorem filter_group (keys : List UInt32) (h : m' ≤ m) (p q : Nat) :
  (keys.filter (fun key => key.toNat / 2 ^ m = p)).filter (fun key => key.toNat / 2 ^ m' = q)
    = if q / 2 ^ (m - m') = p then keys.filter (fun key => key.toNat / 2 ^ m' = q) else []
  := by
  have hdiv : ∀ key : UInt32, key.toNat / 2 ^ m = key.toNat / 2 ^ m' / 2 ^ (m - m') := by
    intro key
    rw [Nat.div_div_eq_div_mul, ← Nat.pow_add, Nat.add_sub_cancel' h]
  rw [List.filter_filter]
  split
  · rename_i hp
    apply List.filter_congr
    intro key _
    by_cases hq : key.toNat / 2 ^ m' = q
    · rw [hdiv, hq, decide_eq_true hp, Bool.and_true]
    · rw [decide_eq_false hq, Bool.false_and]
  · rename_i hp
    apply List.filter_eq_nil_iff.mpr
    intro key _ hkey
    rw [Bool.and_eq_true, decide_eq_true_iff, decide_eq_true_iff, hdiv] at hkey
    apply hp
    rw [← hkey.1]
    exact hkey.2

/-- All short groups are in order if those by a highest bit and all below it are. -/
theorem shortGroupsSorted_cons (h : ∀ m' ∈ bits, m' ≤ m) :
  ShortGroupsSorted (m :: bits) keys
    ↔ ∀ p, GroupSorted bits (keys.filter (fun key => key.toNat / 2 ^ m = p))
  := by
  constructor
  · intro hsorted p
    rw [GroupSorted]
    split
    · rename_i hlength
      exact hsorted m List.mem_cons_self p hlength
    · intro m' hm' q
      rw [filter_group keys (h m' hm') p q]
      split
      · exact hsorted m' (List.mem_cons_of_mem m hm') q
      · intro _
        exact List.Pairwise.nil
  · intro hgroups m' hm' q hlength
    rcases List.mem_cons.mp hm' with rfl | hm'
    · have hgroup := hgroups q
      rwa [GroupSorted, if_pos hlength] at hgroup
    · have hgroup := hgroups (q / 2 ^ (m - m'))
      have hfilter := filter_group keys (h m' hm') (q / 2 ^ (m - m')) q
      rw [if_pos rfl] at hfilter
      rw [← hfilter] at hlength ⊢
      rw [GroupSorted] at hgroup
      split at hgroup
      · exact hgroup.filter _
      · exact hgroup m' hm' q hlength

/-- A key of a group by the higher bits is in the group that its digit tells. -/
theorem group_div (hclass : ∀ key ∈ keys, key.toNat / 2 ^ (m + w) = c) :
  ∀ key ∈ keys, key.toNat / 2 ^ m = c * 2 ^ w + key.toNat / 2 ^ m % 2 ^ w
  := by
  intro key hkey
  rw [← hclass key hkey, Nat.pow_add, ← Nat.div_div_eq_div_mul, Nat.mul_comm, Nat.div_add_mod]

/-- The groups of keys with the same higher bits are the buckets of their digits. -/
theorem forall_groups (hw : w ≤ r) (hclass : ∀ key ∈ keys, key.toNat / 2 ^ (m + w) = c)
    {digit : UInt32 → Nat} (hdigit : ∀ key, digit key = key.toNat / 2 ^ m % 2 ^ w) :
  (∀ p, GroupSorted bits (keys.filter (fun key => key.toNat / 2 ^ m = p)))
    ↔ ∀ xs ∈ (List.range (2 ^ r)).map (fun d => keys.filter (digit · = d)), GroupSorted bits xs
  := by
  have hgroup : ∀ key ∈ keys, key.toNat / 2 ^ m = c * 2 ^ w + digit key := by
    intro key hkey
    rw [hdigit]
    exact group_div hclass key hkey
  have hfilter : ∀ d, keys.filter (fun key => key.toNat / 2 ^ m = c * 2 ^ w + d)
      = keys.filter (digit · = d) := by
    intro d
    apply List.filter_congr
    intro key hkey
    rw [hgroup key hkey]
    apply decide_eq_decide.mpr
    omega
  constructor
  · intro h xs hxs
    obtain ⟨d, -, rfl⟩ := List.mem_map.mp hxs
    rw [← hfilter]
    exact h _
  · intro h p
    cases hkeys : keys.filter (fun key => key.toNat / 2 ^ m = p) with
    | nil => exact groupSorted_nil bits
    | cons key _ =>
        have hkey : key ∈ keys.filter (fun key => key.toNat / 2 ^ m = p) := by
          rw [hkeys]
          exact List.mem_cons_self
        rw [List.mem_filter, decide_eq_true_iff] at hkey
        rw [← hkeys, ← hkey.2, hgroup key hkey.1, hfilter]
        apply h
        apply List.mem_map.mpr
        refine ⟨digit key, List.mem_range.mpr ?_, rfl⟩
        rw [hdigit]
        exact digit_lt hw _

/-- The buckets of keys with the same higher bits are in order one after the other. -/
theorem pairwise_groups (r : Nat) (hclass : ∀ key ∈ keys, key.toNat / 2 ^ (m + w) = c)
    {digit : UInt32 → Nat} (hdigit : ∀ key, digit key = key.toNat / 2 ^ m % 2 ^ w) :
  ((List.range (2 ^ r)).map (fun d => keys.filter (digit · = d))).Pairwise
    (fun xs ys => ∀ a ∈ xs, ∀ b ∈ ys, a ≤ b)
  := by
  rw [List.pairwise_map]
  apply List.pairwise_lt_range.imp
  intro d e hde a ha b hb
  rw [List.mem_filter, decide_eq_true_iff, hdigit] at ha hb
  have hlt : a.toNat / 2 ^ m < b.toNat / 2 ^ m := by
    rw [group_div hclass a ha.1, group_div hclass b hb.1, ha.2, hb.2]
    omega
  apply UInt32.le_iff_toNat_le.mpr
  apply Nat.le_of_lt
  exact Nat.lt_of_div_lt_div hlt

end Groups

/-! ### Sorting a range -/

/-- The memory holds keys between others, and it has room to sort them. -/
structure Holds (r : Nat) (front xs back : List UInt32) (memory : Memory) : Prop where
  keys : memory.keys = front ++ (xs ++ back)
  workspace : memory.workspace.length = memory.keys.length
  offsets : memory.offsets.length = 2 ^ r

/-- What sorting a range in the memory gives. -/
def Sorted (r : Nat) (good : Prop) (front xs back : List UInt32) (memory : Memory) : Prop :=
  ∃ ys, Holds r front ys back memory ∧ Outcome UInt32.toNat (· ≤ ·) good xs ys

section Ranges

variable {r : Nat} {front xs back : List UInt32} {memory : Memory}

theorem Holds.length (h : Holds r front xs back memory) :
  memory.keys.length = front.length + (xs.length + back.length)
  := by
  rw [h.keys, List.length_append, List.length_append]

/-- The keys of the range are read. -/
theorem Holds.readKeys_eq (h : Holds r front xs back memory) :
  readKeys memory.keys front.length (front.length + xs.length) = .ok xs
  := by
  have hlength := h.length
  rw [readKeys, if_neg (by omega), h.keys, List.drop_left, Nat.add_sub_cancel_left, List.take_left]

/-- The keys of the range are sorted by a group. -/
theorem sortByGroup_eq {shift : Int} {groupMask : UInt32} (h : Holds r front xs back memory)
    (hlong : 1 < xs.length) (hgroup : ∀ key ∈ xs, group shift groupMask key < 2 ^ r) :
  ∃ memory', sortByGroup ((List.range (2 ^ r)).map (size (group shift groupMask) xs)) shift
      groupMask front.length (front.length + xs.length) memory = .ok memory'
    ∧ Holds r front (distribute (group shift groupMask) (List.range (2 ^ r)) xs) back memory'
  := by
  have hlength := h.length
  have hworkspace := h.workspace
  have hmem : ∀ key ∈ xs, group shift groupMask key ∈ List.range (2 ^ r) :=
    fun key hkey => List.mem_range.mpr (hgroup key hkey)
  have hperm := distribute_perm List.nodup_range hmem
  have hcopy : copyTo ((List.range (2 ^ r)).map (size (group shift groupMask) xs)) memory.offsets
      = .ok ((List.range (2 ^ r)).map (size (group shift groupMask) xs)) := by
    rw [copyTo, List.length_map, List.length_range, h.offsets, if_neg (Nat.lt_irrefl _),
      ← h.offsets, List.drop_length, List.append_nil]
  rw [sortByGroup, hcopy, Except.ok_bind, Nat.add_sub_cancel_left]
  rcases offsetsRotated_cases (group shift groupMask) xs front.length (Nat.zero_le (2 ^ r))
    with ⟨hnone, d, hd⟩ | ⟨offsets, hsome, hoffsets, hentry⟩
  · obtain ⟨offsets, hcompute, hoffsets⟩ := computeOffsets_of_none hnone
    rw [hcompute]
    refine ⟨_, rfl, ?_, hworkspace, ?_⟩
    · obtain ⟨key, hkey⟩ := List.exists_mem_of_length_pos (Nat.lt_trans Nat.zero_lt_one hlong)
      rw [distribute_eq_self List.nodup_range (hmem key hkey)
        (fun a ha => (hd a ha).trans (hd key hkey).symm)]
      exact h.keys
    · rw [hoffsets, List.length_map, List.length_range]
  · rw [computeOffsets_of_some hlong hsome]
    have hroom : front.length + xs.length ≤ memory.workspace.length := by omega
    have hentry' : ∀ d ∈ List.range (2 ^ r), offsets[d]?
        = some (startOf (size (group shift groupMask) xs) front.length (List.range (2 ^ r)) d) := by
      intro d hd
      rw [← rotated_zero]
      exact hentry d (List.mem_range.mp hd)
    obtain ⟨offsets', hscatter, hoffsets'⟩ :=
      scatter_eq SortFault.indexOutOfRange List.nodup_range hmem hroom hentry'
    have hfront : (memory.workspace.take front.length).length = front.length := by
      rw [List.length_take]
      omega
    have hrange : copyRange (memory.workspace.take front.length
        ++ (distribute (group shift groupMask) (List.range (2 ^ r)) xs
          ++ memory.workspace.drop (front.length + xs.length))) memory.keys front.length
        (front.length + xs.length)
        = .ok (front ++ (distribute (group shift groupMask) (List.range (2 ^ r)) xs ++ back)) := by
      have hkeys : memory.keys.take front.length = front := by
        rw [h.keys, List.take_left]
      have hrest : memory.keys.drop (front.length + xs.length) = back := by
        rw [h.keys, ← List.append_assoc, ← List.length_append, List.drop_left]
      rw [copyRange, if_neg, hkeys, hrest, List.drop_left' hfront, Nat.add_sub_cancel_left,
        List.take_left' hperm.length_eq]
      rw [List.length_append, List.length_append, hfront, hperm.length_eq, List.length_drop]
      omega
    dsimp only
    rw [applyAscending32, h.readKeys_eq, Except.ok_bind, hscatter, Except.ok_bind]
    dsimp only
    rw [hrange, Except.ok_bind]
    refine ⟨_, rfl, rfl, ?_, ?_⟩
    · dsimp only
      simp only [List.length_append, List.length_drop, hfront, hperm.length_eq]
      omega
    · exact hoffsets'.trans hoffsets

/-- A list that is split between the range and what is behind it. -/
theorem holds_append {ys : List UInt32} :
  Holds r front (xs ++ ys) back memory ↔ Holds r front xs (ys ++ back) memory
  := by
  constructor
  · intro h
    refine ⟨?_, h.workspace, h.offsets⟩
    rw [h.keys, List.append_assoc]
  · intro h
    refine ⟨?_, h.workspace, h.offsets⟩
    rw [h.keys, List.append_assoc]

/-- A list that is split between what is in front of the range and the range. -/
theorem holds_front {ys : List UInt32} :
  Holds r (front ++ xs) ys back memory ↔ Holds r front (xs ++ ys) back memory
  := by
  constructor
  · intro h
    refine ⟨?_, h.workspace, h.offsets⟩
    rw [h.keys, List.append_assoc, List.append_assoc]
  · intro h
    refine ⟨?_, h.workspace, h.offsets⟩
    rw [h.keys, List.append_assoc, List.append_assoc]

variable {sortRange : Nat → Nat → Memory → Except SortFault Memory} {bits : List Nat}

/-- A group is sorted when it is long and the groups below sort it, and else if and only if it is
in order. -/
theorem sortBucket_outcome
    (hlong : 5 < xs.length → ∀ memory, Holds r front xs back memory →
      ∃ memory', sortRange front.length (front.length + xs.length) memory = .ok memory'
        ∧ Sorted r (ShortGroupsSorted bits xs) front xs back memory')
    (h : Holds r front xs back memory) :
  ∃ memory', sortBucket sortRange xs.length front.length memory = .ok memory'
    ∧ Sorted r (GroupSorted bits xs) front xs back memory'
  := by
  by_cases hshort : xs.length ≤ 1
  · have hsorted : xs.Pairwise (· ≤ ·) := StableSort.pairwise_of_length_le_one hshort
    refine ⟨memory, ?_, xs, h, ?_⟩
    · rcases Nat.le_one_iff_eq_zero_or_eq_one.mp hshort with hzero | hone
      · rw [hzero, sortBucket]
      · rw [hone, sortBucket]
    · apply outcome_self (fun _ => hsorted)
      rwa [GroupSorted, if_pos (by omega)]
  · have hbucket : sortBucket sortRange xs.length front.length memory = (do
        let (keys, long) ← shortSortAscending memory.keys front.length xs.length
        let memory := { memory with keys := keys }
        if long then sortRange front.length (front.length + xs.length) memory
        else .ok memory) := by
      rw [sortBucket]
      · omega
      · omega
    rw [hbucket]
    by_cases hfew : xs.length ≤ 5
    · obtain ⟨ys, hsort, houtcome⟩ := shortSortAscending_outcome hfew front back
      rw [h.keys, hsort, Except.ok_bind]
      refine ⟨_, rfl, ys, ⟨rfl, ?_, h.offsets⟩, ?_⟩
      · dsimp only
        rw [h.workspace, h.length, List.length_append, List.length_append, houtcome.length]
      · apply houtcome.congr
        rw [GroupSorted, if_pos hfew]
    · rw [shortSortAscending_long _ _ (by omega), Except.ok_bind]
      obtain ⟨memory', hsort, ys, hys, houtcome⟩ := hlong (by omega) memory h
      refine ⟨memory', hsort, ys, hys, ?_⟩
      apply houtcome.congr
      rw [GroupSorted, if_neg hfew]

/-- The groups of a range are sorted one after the other. -/
theorem sortBuckets_outcome {groups : List (List UInt32)}
    (hlong : ∀ xs ∈ groups, 5 < xs.length → ∀ front back memory, Holds r front xs back memory →
      ∃ memory', sortRange front.length (front.length + xs.length) memory = .ok memory'
        ∧ Sorted r (ShortGroupsSorted bits xs) front xs back memory')
    (h : Holds r front groups.flatten back memory) :
  ∃ memory' results,
    sortBuckets sortRange (groups.map List.length) front.length memory = .ok memory'
    ∧ Holds r front results.flatten back memory'
    ∧ List.Forall₂ (fun xs ys => Outcome UInt32.toNat (· ≤ ·) (GroupSorted bits xs) xs ys) groups
      results
  := by
  induction groups generalizing front memory with
  | nil => exact ⟨memory, [], rfl, h, List.Forall₂.nil⟩
  | cons xs groups ih =>
      rw [List.flatten_cons, holds_append] at h
      obtain ⟨memory₁, hbucket, ys, hys, houtcome⟩ := sortBucket_outcome
        (fun hxs memory hmemory => hlong xs List.mem_cons_self hxs _ _ memory hmemory) h
      rw [← holds_append, ← holds_front] at hys
      obtain ⟨memory', results, hbuckets, hresults, houtcomes⟩ :=
        ih (fun xs' hxs' => hlong xs' (List.mem_cons_of_mem xs hxs')) hys
      refine ⟨memory', ys :: results, ?_, ?_, List.Forall₂.cons houtcome houtcomes⟩
      · rw [List.map_cons, sortBuckets, hbucket, Except.ok_bind, ← houtcome.length,
          ← List.length_append, hbuckets]
      · rw [List.flatten_cons, ← holds_front]
        exact hresults

end Ranges

section Recursion

variable {r : Nat} {front xs back : List UInt32} {memory : Memory}

/-- Where nothing is left of the key mask there is no further group. -/
theorem nextGroup_zero {ends : UInt32 → UInt32 → Bool} (hends : ends 0 0 = true) (mask : UInt32)
    (n : Nat) (shift : Int) :
  nextGroup r mask ends (n + 1) shift 0 = .ok (shift - r, 0, 0)
  := by
  rw [nextGroup, UInt32.zero_shiftRight, UInt32.zero_and, UInt32.zero_and, if_pos hends]

/-- Keys with the same higher bits are sorted by the digit of all other bits. -/
theorem outcome_distribute {digit : UInt32 → Nat} {w c : Nat} (hw : w ≤ r)
    (hclass : ∀ key ∈ xs, key.toNat / 2 ^ w = c) (hdigit : ∀ key, digit key = key.toNat % 2 ^ w) :
  Outcome UInt32.toNat (· ≤ ·) True xs (distribute digit (List.range (2 ^ r)) xs)
  := by
  have hmem : ∀ key ∈ xs, digit key ∈ List.range (2 ^ r) := by
    intro key _
    rw [List.mem_range, hdigit]
    exact digit_lt hw _
  have hperm := distribute_perm List.nodup_range hmem
  apply Outcome.of_perm _ hperm
  apply outcome_self _ trivial
  intro _
  have hanything : xs.Pairwise (fun _ _ => True) := List.pairwise_of_forall (fun _ _ => trivial)
  apply (pairwise_distribute hanything List.pairwise_lt_range).imp_of_mem
  intro a b ha hb hab
  have hparts : ∀ key ∈ distribute digit (List.range (2 ^ r)) xs,
      key.toNat = 2 ^ w * c + digit key := by
    intro key hkey
    rw [hdigit, ← hclass key (hperm.mem_iff.mp hkey), Nat.div_add_mod]
  apply UInt32.le_iff_toNat_le.mpr
  rw [hparts a ha, hparts b hb]
  omega

/-- Counting the keys of the range gives the sizes of the groups. -/
theorem Holds.bucketCount_eq {shift : Int} {groupMask : UInt32}
    (h : Holds r front xs back memory) (hgroup : ∀ key ∈ xs, group shift groupMask key < 2 ^ r) :
  bucketCountAscending32 (List.replicate (1 <<< r) 0) memory.keys front.length
      (front.length + xs.length) shift groupMask
    = .ok ((List.range (2 ^ r)).map (size (group shift groupMask) xs))
  := by
  rw [bucketCountAscending32, h.readKeys_eq, Except.ok_bind, List.length_replicate,
    Nat.one_shiftLeft, count_replicate _ hgroup]

/-- Sorting a range of more than five keys with the same higher bits by a group of bits and all
below it. -/
theorem sortRange_outcome (hpos : 1 ≤ r) (hr : r ≤ 16) {depth m w c : Nat} {shift : Int}
    {groupMask keyMask : UInt32} (hdepth : m < depth) (hw : w ≤ r) (hm : m < 32)
    (hdvd : r.gcd 32 ∣ m) (hshift : shift % 32 = m) (hgroupMask : groupMask.toNat = 2 ^ w - 1)
    (hkeyMask : keyMask.toNat = 2 ^ m - 1) (hlong : 5 < xs.length)
    (hclass : ∀ key ∈ xs, key.toNat / 2 ^ (m + w) = c) (h : Holds r front xs back memory) :
  ∃ memory', sortRange r (UInt32.ofNat (1 <<< r - 1)) depth keyMask groupMask shift front.length
      (front.length + xs.length) memory = .ok memory'
    ∧ Sorted r (ShortGroupsSorted (groupBits r depth m) xs) front xs back memory'
  := by
  induction depth generalizing m w c shift groupMask keyMask front xs back memory with
  | zero => omega
  | succ depth ih =>
      have hdigit := group_eq hm hshift hgroupMask
      have hgroup : ∀ key ∈ xs, group shift groupMask key < 2 ^ r := by
        intro key _
        rw [hdigit]
        exact digit_lt hw _
      have hmem : ∀ key ∈ xs, group shift groupMask key ∈ List.range (2 ^ r) :=
        fun key hkey => List.mem_range.mpr (hgroup key hkey)
      obtain ⟨memory₁, hsort, hmemory₁⟩ := sortByGroup_eq h (by omega) hgroup
      rw [sortRange, h.bucketCount_eq hgroup, Except.ok_bind, hsort, Except.ok_bind]
      by_cases hzero : m = 0
      · subst hzero
        obtain rfl : keyMask = 0 := UInt32.toNat_inj.mp hkeyMask
        rw [nextGroup_zero rfl, Except.ok_bind]
        refine ⟨memory₁, rfl, _, hmemory₁, ?_⟩
        rw [Nat.zero_add] at hclass
        have hdigit' : ∀ key, group shift groupMask key = key.toNat % 2 ^ w := by
          intro key
          rw [hdigit, Nat.pow_zero, Nat.div_one]
        apply (outcome_distribute hw hclass hdigit').congr
        rw [groupBits, if_pos rfl]
        constructor
        · intro _ m' hm'
          cases hm'
        · intro _
          trivial
      · have hends : ∀ groupMask keyMask : UInt32, groupMask ≠ 0 →
            (!(groupMask = 0 && keyMask ≠ 0)) = true := by
          intro groupMask keyMask hne
          rw [decide_eq_false hne, Bool.false_and, Bool.not_false]
        have hgoes : ∀ keyMask : UInt32, keyMask ≠ 0 →
            (!((0 : UInt32) = 0 && keyMask ≠ 0)) = false := by
          intro keyMask hne
          rw [decide_eq_true rfl, decide_eq_true hne, Bool.and_self, Bool.not_true]
        have hshift' : shift % 32 = (m : Int) % 32 := by omega
        obtain ⟨m', shift', groupMask', keyMask', hnext, hbit, hlt, hdvd', hw', hshift',
          hgroupMask', hkeyMask'⟩ := nextGroup_next hends hgoes hpos hr (Nat.pos_of_ne_zero hzero)
            (Nat.le_of_lt hm) hdvd shift keyMask hshift' hkeyMask
        have hne : groupMask' ≠ 0 := by
          rintro rfl
          have hpow : 2 ^ 1 ≤ 2 ^ (m - m') := Nat.pow_le_pow_right (by decide) (by omega)
          rw [UInt32.toNat_zero] at hgroupMask'
          omega
        have hlong' : ∀ group' ∈ (List.range (2 ^ r)).map
            (fun d => xs.filter (group shift groupMask · = d)), 5 < group'.length →
            ∀ front back memory, Holds r front group' back memory →
              ∃ memory', sortRange r (UInt32.ofNat (1 <<< r - 1)) depth keyMask' groupMask' shift'
                  front.length (front.length + group'.length) memory = .ok memory'
                ∧ Sorted r (ShortGroupsSorted (groupBits r depth m') group') front group' back
                  memory' := by
          intro group' hgroup' hlength front back memory hmemory
          obtain ⟨d, -, rfl⟩ := List.mem_map.mp hgroup'
          have hclass' : ∀ key ∈ xs.filter (group shift groupMask · = d),
              key.toNat / 2 ^ (m' + (m - m')) = c * 2 ^ w + d := by
            intro key hkey
            rw [List.mem_filter, decide_eq_true_iff, hdigit] at hkey
            rw [Nat.add_sub_cancel' (Nat.le_of_lt hlt), group_div hclass key hkey.1, hkey.2]
          exact ih (by omega) hw' (by omega) hdvd' hshift' hgroupMask' hkeyMask' hlength hclass'
            hmemory
        have hflatten : distribute (group shift groupMask) (List.range (2 ^ r)) xs
            = ((List.range (2 ^ r)).map
              (fun d => xs.filter (group shift groupMask · = d))).flatten := List.flatMap_def
        rw [hflatten] at hmemory₁
        obtain ⟨memory', results, hbuckets, hresults, houtcomes⟩ :=
          sortBuckets_outcome hlong' hmemory₁
        have hsizes : (List.range (2 ^ r)).map (size (group shift groupMask) xs)
            = ((List.range (2 ^ r)).map (fun d => xs.filter (group shift groupMask · = d))).map
              List.length := by
          rw [List.map_map]
          rfl
        rw [hnext, Except.ok_bind]
        dsimp only
        rw [if_pos hne, hsizes]
        refine ⟨memory', hbuckets, _, hresults, ?_⟩
        have houtcome := Outcome.flatten houtcomes (pairwise_groups r hclass hdigit)
        rw [← hflatten] at houtcome
        apply (houtcome.of_perm (distribute_perm List.nodup_range hmem)).congr
        rw [groupBits, if_neg hzero, hbit, shortGroupsSorted_cons, forall_groups hw hclass hdigit]
        intro b hb
        exact Nat.le_trans (le_of_mem_groupBits hpos hr (by omega) hdvd' hb) (Nat.le_of_lt hlt)

end Recursion

/-! ### Sorting -/

section

variable {keys workspace : List UInt32}

/-- All keys are one group by the bits from the last one on. -/
theorem forall_groups_all (bits : List Nat) (keys : List UInt32) :
  (∀ p, GroupSorted bits (keys.filter (fun key => key.toNat / 2 ^ 32 = p)))
    ↔ GroupSorted bits keys
  := by
  have hzero : ∀ key : UInt32, key.toNat / 2 ^ 32 = 0 :=
    fun key => Nat.div_eq_of_lt key.toNat_lt
  have hall : keys.filter (fun key => key.toNat / 2 ^ 32 = 0) = keys :=
    List.filter_eq_self.mpr (fun key _ => decide_eq_true (hzero key))
  constructor
  · intro h
    have hkeys := h 0
    rwa [hall] at hkeys
  · intro h p
    by_cases hp : p = 0
    · rw [hp, hall]
      exact h
    · have hnone : keys.filter (fun key => key.toNat / 2 ^ 32 = p) = [] := by
        apply List.filter_eq_nil_iff.mpr
        intro key _ hkey
        rw [decide_eq_true_iff, hzero] at hkey
        exact hp hkey.symm
      rw [hnone]
      exact groupSorted_nil bits

/-- All short groups of keys are in order. -/
theorem shortGroupsSorted_iff {r : Nat} (hpos : 1 ≤ r) (hr : r ≤ 16) (keys : List UInt32) :
  ShortGroupsSorted (groupBits r 33 32) keys
    ↔ GroupSorted (groupBits r 32 (nextBit r 32 32 32)) keys
  := by
  have hdvd : r.gcd 32 ∣ 32 := Nat.gcd_dvd_right r 32
  obtain ⟨hlt, hdvd'⟩ := nextBit_lt hpos hr (by decide) (Nat.le_refl 32) hdvd
  rw [groupBits, if_neg (by decide), shortGroupsSorted_cons, forall_groups_all]
  intro b hb
  exact Nat.le_trans (le_of_mem_groupBits hpos hr (by omega) hdvd' hb) (Nat.le_of_lt hlt)

/-- More than five keys are sorted from the highest group on. -/
theorem sortRange_top {r : Nat} (hpos : 1 ≤ r) (hr : r ≤ 16) (hlong : 5 < keys.length)
    (hroom : workspace.length = keys.length) :
  ∃ shift groupMask keyMask memory,
    nextGroup r (UInt32.ofNat (1 <<< r - 1)) (fun groupMask _ => groupMask ≠ 0) 32 32 0xFFFFFFFF
      = .ok (shift, groupMask, keyMask)
    ∧ sortRange r (UInt32.ofNat (1 <<< r - 1)) 32 keyMask groupMask shift 0 keys.length
        ⟨keys, workspace, List.replicate (1 <<< r) 0⟩ = .ok memory
    ∧ Outcome UInt32.toNat (· ≤ ·)
      (ShortGroupsSorted (groupBits r 32 (nextBit r 32 32 32)) keys) keys memory.keys
  := by
  have hends : ∀ groupMask _keyMask : UInt32, groupMask ≠ 0 → decide (groupMask ≠ 0) = true :=
    fun _ _ hne => decide_eq_true hne
  have hgoes : ∀ keyMask : UInt32, keyMask ≠ 0 → decide ((0 : UInt32) ≠ 0) = false :=
    fun _ _ => rfl
  obtain ⟨m, shift, groupMask, keyMask, hnext, hbit, hlt, hdvd, hw, hshift, hgroupMask, hkeyMask⟩ :=
    nextGroup_next hends hgoes hpos hr (by decide) (Nat.le_refl 32) (Nat.gcd_dvd_right r 32) 32
      0xFFFFFFFF rfl rfl
  have hclass : ∀ key ∈ keys, key.toNat / 2 ^ (m + (32 - m)) = 0 := by
    intro key _
    rw [Nat.add_sub_cancel' (Nat.le_of_lt hlt)]
    exact Nat.div_eq_of_lt key.toNat_lt
  have hmemory : Holds r [] keys [] ⟨keys, workspace, List.replicate (1 <<< r) 0⟩ := by
    constructor
    · rw [List.nil_append, List.append_nil]
    · exact hroom
    · rw [List.length_replicate, Nat.one_shiftLeft]
  obtain ⟨memory, hsort, ys, hys, houtcome⟩ := sortRange_outcome hpos hr hlt hw hlt hdvd hshift
    hgroupMask hkeyMask hlong hclass hmemory
  rw [List.length_nil, Nat.zero_add] at hsort
  refine ⟨shift, groupMask, keyMask, memory, hnext, hsort, ?_⟩
  rw [hbit, hys.keys, List.nil_append, List.append_nil]
  exact houtcome

/-- The keys are sorted if and only if all short groups are in order. -/
theorem sort_outcome (hroom : keys.length ≤ workspace.length) (r defaultR : Int) :
  ∃ ys workspace', sort keys workspace r defaultR false 0xFFFFFFFF = .ok (ys, workspace')
    ∧ Outcome UInt32.toNat (· ≤ ·)
      (ShortGroupsSorted (groupBits (chooseBitCount r defaultR).toNat 33 32) keys) keys ys
  := by
  obtain ⟨hpos, hr⟩ := chooseBitCount_bounds r defaultR
  rw [sort, sort32, ite_self]
  dsimp only
  rw [if_neg (by decide)]
  generalize hbitCount : (chooseBitCount r defaultR).toNat = bitCount
  have hpos' : 1 ≤ bitCount := by omega
  have hr' : bitCount ≤ 16 := by omega
  have hbits := shortGroupsSorted_iff hpos' hr' keys
  by_cases hfew : keys.length ≤ 5
  · obtain ⟨ys, hsort, houtcome⟩ := shortSortAscending_outcome hfew [] []
    rw [List.nil_append, List.append_nil, List.length_nil, List.nil_append,
      List.append_nil] at hsort
    rw [hsort, Except.ok_bind]
    refine ⟨ys, workspace, rfl, houtcome.congr ?_⟩
    rw [hbits, GroupSorted, if_pos hfew]
  · have hfront : (workspace.take keys.length).length = keys.length := by
      rw [List.length_take]
      omega
    obtain ⟨shift, groupMask, keyMask, memory, hnext, hsort, houtcome⟩ :=
      sortRange_top hpos' hr' (Nat.lt_of_not_le hfew) hfront
    rw [shortSortAscending_long _ _ (Nat.lt_of_not_le hfew), Except.ok_bind]
    dsimp only
    rw [if_pos rfl, if_neg (by omega), if_neg (by decide), hnext, Except.ok_bind]
    dsimp only
    rw [hsort, Except.ok_bind]
    refine ⟨memory.keys, _, rfl, houtcome.congr ?_⟩
    rw [hbits, GroupSorted, if_neg hfew]

/-- The sort ends with the keys in order, as the sort from the lowest group on leaves them where
they are not too many for it to copy. The two sorts have defaults of their own. -/
def SortsAsLsd (keys workspace : List UInt32) (r defaultR lsdDefaultR : Int) : Prop :=
  ∃ ys workspace', sort keys workspace r defaultR false 0xFFFFFFFF = .ok (ys, workspace')
    ∧ ys.Perm keys ∧ ys.Pairwise (· ≤ ·)
    ∧ (keys.length < 2 ^ 30 → ∃ workspace'',
      RadixLsdUnsafe.sort keys workspace r lsdDefaultR false 0xFFFFFFFF = .ok (ys, workspace''))

/-- Keys in order are what the sort from the lowest group on gives. -/
theorem lsd_sort_eq {ys : List UInt32} (hlen : keys.length < 2 ^ 30)
    (hroom : keys.length ≤ workspace.length) (r defaultR : Int) (hperm : ys.Perm keys)
    (hordered : ys.Pairwise (· ≤ ·)) :
  ∃ workspace', RadixLsdUnsafe.sort keys workspace r defaultR false 0xFFFFFFFF
    = .ok (ys, workspace')
  := by
  obtain ⟨ys', workspace', hsort, hsorted⟩ :=
    RadixLsdUnsafe.sort_by_value hlen hroom r defaultR false 0xFFFFFFFF
  have hordered' : ys'.Pairwise (· ≤ ·) := by
    apply hsorted.ordered.imp
    intro a b hab
    rw [Bool.not_false, RadixLsdUnsafe.value_all, RadixLsdUnsafe.value_all] at hab
    exact UInt32.le_iff_toNat_le.mpr hab
  have hsame : ys = ys' := by
    apply (hperm.trans hsorted.perm.symm).eq_of_pairwise _ hordered hordered'
    intro a b _ _ hab hba
    exact UInt32.le_antisymm hab hba
  rw [hsame]
  exact ⟨workspace', hsort⟩

/-- With a workspace that is long enough the sort gives the keys in order, as the sort from the
lowest group on, if and only if all groups of at most five keys are in order already, where a
group has the same bits from one of the bits on where groups end. -/
theorem sortsAsLsd_iff (hroom : keys.length ≤ workspace.length) (r defaultR lsdDefaultR : Int) :
  SortsAsLsd keys workspace r defaultR lsdDefaultR
    ↔ ShortGroupsSorted (groupBits (chooseBitCount r defaultR).toNat 33 32) keys
  := by
  obtain ⟨ys, workspace', hsort, houtcome⟩ := sort_outcome hroom r defaultR
  rw [← houtcome.sorts_iff]
  constructor
  · rintro ⟨ys', workspace'', hsort', hperm, hordered, -⟩
    rw [hsort] at hsort'
    obtain ⟨rfl, rfl⟩ := Prod.mk.inj (Except.ok.inj hsort')
    exact ⟨hperm, hordered⟩
  · rintro ⟨hperm, hordered⟩
    exact ⟨ys, workspace', hsort, hperm, hordered,
      fun hlen => lsd_sort_eq hlen hroom r lsdDefaultR hperm hordered⟩

/-- More than five keys that are in one group by every one of the bits have no short groups. -/
theorem shortGroupsSorted_of_lt {bits : List Nat} {keys : List UInt32}
    (hlength : 5 < keys.length)
    (hlt : ∀ m ∈ bits, keys.all (fun key => key.toNat < 2 ^ m) = true) :
  ShortGroupsSorted bits keys
  := by
  intro m hm p hshort
  have hzero : ∀ key ∈ keys, key.toNat / 2 ^ m = 0 :=
    fun key hkey => Nat.div_eq_of_lt (of_decide_eq_true (List.all_eq_true.mp (hlt m hm) key hkey))
  by_cases hp : p = 0
  · rw [List.filter_eq_self.mpr (fun key hkey => by rw [hzero key hkey, hp]; rfl)] at hshort
    omega
  · rw [List.filter_eq_nil_iff.mpr (fun key hkey => by
      rw [hzero key hkey, decide_eq_true_eq]
      exact Ne.symm hp)]
    exact List.Pairwise.nil

/-- Six keys in falling order with a workspace of seven, in groups of eight bits. -/
theorem sortsAsLsd_six :
  SortsAsLsd [60, 50, 40, 30, 20, 10] [7, 7, 7, 7, 7, 7, 7] 8 0 0
  := by
  apply (sortsAsLsd_iff (by decide) 8 0 0).mpr
  exact shortGroupsSorted_of_lt (by decide) (by decide +kernel)

/-- Two keys that are not in order: the larger one is lost. -/
theorem not_sortsAsLsd :
  sort [2, 1] [0, 0] 8 0 false 0xFFFFFFFF = .ok ([1, 1], [0, 0])
    ∧ ¬ SortsAsLsd [2, 1] [0, 0] 8 0 0
  := by
  have hsort : sort [2, 1] [0, 0] 8 0 false 0xFFFFFFFF = .ok ([1, 1], [0, 0]) := rfl
  constructor
  · exact hsort
  · rintro ⟨ys, workspace', hsort', hperm, -⟩
    rw [hsort] at hsort'
    obtain ⟨rfl, -⟩ := Prod.mk.inj (Except.ok.inj hsort')
    revert hperm
    decide

end

end Datatent.RadixMsd
