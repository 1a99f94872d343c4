import Datatent.CoreOld.Records.RecordStorage
import Datatent.Library.Segment
import Mathlib.Data.List.Perm.Basic

/-!
# Space tracking

The numbers of the free blocks are a stack that is spread over the blocks of record 0: every
block but the last one is full. A `Tracker` is that stack in its blocks, and `Tracks` says that
the record storage keeps it and that each block of the array either keeps it, is free or is
used. `markAsFree` pushes a number of a used block, and `allocateBlock` pops one or, when there
is none, creates a block.
-/

namespace Datatent.Records

variable {blockContentSize : Nat}

/-! ### Blocks and their content -/

/-- The block is not deleted and holds a content. -/
structure Block.Holds (block : Block blockContentSize) (bytes : Bytes) : Prop where
  isDeleted : block.isDeleted = 0
  length : block.blockContentLength = bytes.length
  content : block.content.take bytes.length = bytes

/-- All header fields of the block are cleared. -/
structure Block.IsClear (block : Block blockContentSize) : Prop where
  nextBlockId : block.nextBlockId = 0
  recordLength : block.recordLength = 0
  blockContentLength : block.blockContentLength = 0
  previousBlockId : block.previousBlockId = 0
  isDeleted : block.isDeleted = 0

section

variable {block block' : Block blockContentSize} {bytes more : Bytes}

/-- A block holds no more than its content. -/
theorem Block.Holds.length_le (h : block.Holds bytes) :
  bytes.length ≤ blockContentSize
  := by
  have hlen := congrArg List.length h.content
  rw [List.length_take, block.length_content] at hlen
  omega

/-- Bytes written behind the content of a block. -/
theorem Block.Holds.append (h : block.Holds bytes) (hdeleted : block'.isDeleted = 0)
    (hlength : block'.blockContentLength = bytes.length + more.length)
    (hcontent : block'.content = Bytes.overwrite block.content bytes.length more) :
  block'.Holds (bytes ++ more)
  := by
  constructor
  · exact hdeleted
  · rw [hlength, List.length_append]
  · rw [hcontent, Bytes.overwrite, h.content, ← List.append_assoc, List.take_left]

/-- Bytes written from the start of the content of a block. -/
theorem Block.Holds.of_write (hdeleted : block'.isDeleted = 0)
    (hlength : block'.blockContentLength = bytes.length)
    (hcontent : block'.content = Bytes.overwrite block.content 0 bytes) :
  block'.Holds bytes
  := by
  constructor
  · exact hdeleted
  · exact hlength
  · rw [hcontent, Bytes.overwrite, List.take_zero, List.nil_append, List.take_left]

/-- The content of a block cut off. -/
theorem Block.Holds.shrink (h : block.Holds (bytes ++ more)) (hdeleted : block'.isDeleted = 0)
    (hlength : block'.blockContentLength = bytes.length)
    (hcontent : block'.content = block.content) :
  block'.Holds bytes
  := by
  constructor
  · exact hdeleted
  · exact hlength
  · have htake := congrArg (List.take bytes.length) h.content
    rw [List.take_take, List.length_append, Nat.min_eq_left (Nat.le_add_right _ _),
      List.take_left] at htake
    rw [hcontent, htake]

/-- A cleared block holds nothing. -/
theorem Block.IsClear.holds (h : block.IsClear) :
  block.Holds []
  := ⟨h.isDeleted, h.blockContentLength, rfl⟩

/-- Clearing a block. -/
theorem Block.isClear_clear (block : Block blockContentSize) :
  block.clear.IsClear
  := ⟨rfl, rfl, rfl, rfl, rfl⟩

/-- A new block is clear. -/
theorem Block.isClear_new (blockContentSize : Nat) :
  (Block.new blockContentSize).IsClear
  := ⟨rfl, rfl, rfl, rfl, rfl⟩

end

/-! ### Numbers as bytes -/

/-- The numbers of blocks as they stand in the space tracking record. -/
def encode (ids : List Nat) : Bytes :=
  ids.flatMap (Bytes.toLE 4)

@[simp]
theorem length_encode (ids : List Nat) :
  (encode ids).length = 4 * ids.length
  := by
  induction ids with
  | nil => rfl
  | cons id ids ih =>
      rw [encode, List.flatMap_cons, List.length_append, Bytes.length_toLE, ← encode, ih,
        List.length_cons]
      omega

/-- A number behind others. -/
theorem encode_concat (ids : List Nat) (id : Nat) :
  encode (ids ++ [id]) = encode ids ++ Bytes.toLE 4 id
  := by
  rw [encode, List.flatMap_append, ← encode, List.flatMap_cons, List.flatMap_nil, List.append_nil]

section

variable {s : List (Block blockContentSize)} {id value : Nat} {ids : List Nat}
  {block : Block blockContentSize}

/-- Reading the last number of a block. -/
theorem readUInt32FromTrailingContent_apply (hblock : s[id]? = some block)
    (hholds : block.Holds (encode (ids ++ [value]))) (hlt : value < 2 ^ 32) :
  readUInt32FromTrailingContent id s = .ok value s
  := by
  have hlength : block.blockContentLength = 4 * ids.length + 4 := by
    rw [hholds.length, length_encode, List.length_append, List.length_singleton]
    omega
  have hle := hholds.length_le
  rw [← hholds.length, hlength] at hle
  have hread : (block.content.drop (4 * ids.length)).take 4 = Bytes.toLE 4 value := by
    have hcontent := hholds.content
    rw [← hholds.length, hlength, encode_concat] at hcontent
    rw [List.take_drop, hcontent, ← length_encode, List.drop_left]
  rw [readUInt32FromTrailingContent, EStateM.bind_apply_of_ok (getBlock_apply hblock),
    if_neg (by omega), if_neg (by omega), hlength, Nat.add_sub_cancel,
    EStateM.bind_apply_of_ok (readContent_apply hblock hle), hread]
  have hvalue := Bytes.readLE_toLE_append 4 value []
  rw [List.append_nil, Nat.mod_eq_of_lt (by exact hlt)] at hvalue
  rw [hvalue]
  rfl

/-- Writing a number behind the content of a block. -/
theorem appendUInt32ToContent_apply (hblock : s[id]? = some block)
    (hlength : block.blockContentLength = 4 * ids.length)
    (hle : 4 * ids.length + (Bytes.toLE 4 value).length ≤ blockContentSize) :
  appendUInt32ToContent id value s
    = .ok ⟨⟩ (s.modify id (fun block => block.write (4 * ids.length) (Bytes.toLE 4 value) hle))
  := by
  rw [appendUInt32ToContent, EStateM.bind_apply_of_ok (getBlock_apply hblock),
    if_neg (by omega), hlength, writeContent_apply hle]

/-- No number is written to a block that none fits into. -/
theorem appendUInt32ToContent_small (hblock : s[id]? = some block)
    (hlength : block.blockContentLength = 0) (hsize : blockContentSize < 4) :
  appendUInt32ToContent id value s = .error .argumentOutOfRange s
  := by
  have hmany : ¬ 0 + (Bytes.toLE 4 value).length ≤ blockContentSize := by
    rw [Bytes.length_toLE]
    omega
  rw [appendUInt32ToContent, EStateM.bind_apply_of_ok (getBlock_apply hblock),
    if_neg (by omega), hlength, writeContent, dif_neg hmany]
  rfl

end

/-! ### Chains of blocks -/

/-- The number of the block that a block leads to, as the methods read it. -/
def link (s : List (Block blockContentSize)) (id : Nat) : Option Nat :=
  s[id]?.map (fun block => block.nextBlockId % 2 ^ 32)

/-- A block holds a content. -/
def HoldsAt (s : List (Block blockContentSize)) (cell : Nat × Bytes) : Prop :=
  ∃ block, s[cell.1]? = some block ∧ block.Holds cell.2

section

variable {s s' : List (Block blockContentSize)} {id : Nat} {ids : List Nat}

/-- The link of an unchanged block. -/
theorem link_congr (h : s'[id]? = s[id]?) :
  link s' id = link s id
  := by
  rw [link, link, h]

/-- The content of an unchanged block. -/
theorem HoldsAt.congr {cell : Nat × Bytes} (hcell : HoldsAt s cell)
    (h : s'[cell.1]? = s[cell.1]?) :
  HoldsAt s' cell
  := by
  rw [HoldsAt, h]
  exact hcell

/-- The blocks of a chain, found from its first one. -/
theorem findBlocksFrom_apply {a fuel : Nat} (h : Segment (link s) a ids 0) (hne : ids ≠ [])
    (hend : 0 ∉ ids.tail) (hfuel : ids.length ≤ fuel)
    (hblocks : ∀ id ∈ ids, ∃ block, s[id]? = some block ∧ block.isDeleted = 0) :
  findBlocksFrom fuel a s = .ok ids s
  := by
  generalize hzero : 0 = b at h hend
  induction h generalizing fuel with
  | nil a => exact absurd rfl hne
  | @cons a b next ids hlink hrest ih =>
      subst hzero
      obtain ⟨block, hblock, hdeleted⟩ := hblocks a List.mem_cons_self
      have hnext : block.nextBlockId % 2 ^ 32 = next := by
        rw [link, hblock] at hlink
        exact Option.some.inj hlink
      have hfind : findOrCreate a s = .ok block s := by
        rw [findOrCreate, EStateM.bind_apply_of_ok (hasBlock_apply hblock)]
        exact getBlock_apply hblock
      cases fuel with
      | zero => exact absurd hfuel (Nat.not_succ_le_zero _)
      | succ fuel =>
          rw [findBlocksFrom, EStateM.bind_apply_of_ok hfind, if_neg (by omega), hnext]
          cases ids with
          | nil =>
              rw [Segment.nil_iff] at hrest
              rw [if_pos hrest]
              rfl
          | cons id ids =>
              have hnext : next ≠ 0 := by
                rintro rfl
                obtain ⟨rfl, -⟩ := Segment.cons_iff.mp hrest
                exact hend List.mem_cons_self
              have hfound := ih (List.cons_ne_nil _ _) (Nat.le_of_succ_le_succ hfuel)
                (fun id hid => hblocks id (List.mem_cons_of_mem _ hid)) rfl
                (fun hmem => hend (List.mem_cons_of_mem _ hmem))
              rw [if_neg hnext, EStateM.bind_apply_of_ok hfound]
              rfl

end

/-! ### The stack of free numbers -/

/-- The numbers of the free blocks in the blocks that keep them: the full blocks with their
numbers, and the last block with its numbers. -/
structure Tracker where
  full : List (Nat × List Nat)
  last : Nat
  entries : List Nat

namespace Tracker

/-- The blocks that keep the numbers. -/
def ids (t : Tracker) : List Nat :=
  t.full.map Prod.fst ++ [t.last]

/-- The numbers of the free blocks. -/
def free (t : Tracker) : List Nat :=
  t.full.flatMap Prod.snd ++ t.entries

/-- A number pushed, with the number of a new block for the case that the last one is full. -/
def push (t : Tracker) (capacity fresh id : Nat) : Tracker :=
  if t.entries.length < capacity then { t with entries := t.entries ++ [id] }
  else ⟨t.full ++ [(t.last, t.entries)], fresh, [id]⟩

/-- The last block is one of those that keep the numbers. -/
theorem last_mem (t : Tracker) :
  t.last ∈ t.ids
  := List.mem_append_right _ (List.mem_singleton_self _)

/-- How many blocks can be allocated for an array of a length: the free ones, those that keep the
numbers except for the first, and new ones. Where no number fits into a block, there are none once
a second block is to keep the numbers. -/
def available (t : Tracker) (blockContentSize length : Nat) : Nat :=
  if 4 ≤ blockContentSize then t.free.length + t.full.length + (2 ^ 32 - length)
  else if t.full = [] then 2 ^ 32 - length
  else 0

/-- Only new blocks can be allocated where there are no free ones. -/
theorem available_empty (last blockContentSize length : Nat) :
  available ⟨[], last, []⟩ blockContentSize length = 2 ^ 32 - length
  := by
  rw [available]
  split
  · exact Nat.zero_add _
  · exact if_pos rfl

/-- How many new blocks it takes to keep further numbers. -/
def growth (t : Tracker) (capacity count : Nat) : Nat :=
  (t.entries.length + count - 1) / capacity

/-- Further numbers take no more blocks than there are numbers. -/
theorem growth_le {t : Tracker} {capacity : Nat} (hle : t.entries.length ≤ capacity)
    (hpos : 0 < capacity) (count : Nat) :
  t.growth capacity count ≤ count
  := by
  cases count with
  | zero =>
      rw [growth, Nat.div_eq_of_lt (by omega)]
  | succ count =>
      have hmore : t.entries.length + (count + 1) - 1 ≤ (count + 1) * capacity := by
        have hmul := Nat.le_mul_of_pos_right count hpos
        rw [Nat.succ_mul]
        omega
      exact Nat.div_le_of_le_mul ((Nat.mul_comm _ _).trans_ge hmore)

/-- More numbers take no fewer blocks. -/
theorem growth_mono (t : Tracker) (capacity : Nat) {count more : Nat} (hle : count ≤ more) :
  t.growth capacity count ≤ t.growth capacity more
  := Nat.div_le_div_right (by omega)

/-- New blocks can be allocated as far as there is room for them. -/
theorem le_available (t : Tracker) {blockContentSize : Nat} (hsize : 4 ≤ blockContentSize)
    (length : Nat) :
  2 ^ 32 - length ≤ t.available blockContentSize length
  := by
  rw [available, if_pos hsize]
  exact Nat.le_add_left _ _

/-- Pushing a number takes a new block where the last one is full. -/
theorem growth_push {t : Tracker} {capacity : Nat} (hle : t.entries.length ≤ capacity)
    (hpos : 0 < capacity) (fresh id count : Nat) :
  t.growth capacity (count + 1)
    = (if t.entries.length < capacity then 0 else 1)
      + (t.push capacity fresh id).growth capacity count
  := by
  rw [push]
  split
  · rw [Nat.zero_add, growth, growth, List.length_append, List.length_singleton]
    congr 1
    omega
  · have hfull : t.entries.length + (count + 1) - 1 = count + capacity := by omega
    rw [growth, growth, hfull, Nat.add_div_right _ hpos, List.length_singleton,
      Nat.add_sub_cancel_left, Nat.add_comm]

/-- A number pushed comes last. -/
theorem free_push (t : Tracker) (capacity fresh id : Nat) :
  (t.push capacity fresh id).free = t.free ++ [id]
  := by
  rw [push]
  split
  · rw [free, free, List.append_assoc]
  · rw [free, free, List.flatMap_append, List.flatMap_cons, List.flatMap_nil, List.append_nil]

/-- The blocks after a number was pushed. -/
theorem mem_ids_push {t : Tracker} {capacity fresh id j : Nat}
    (h : j ∈ (t.push capacity fresh id).ids) :
  j ∈ t.ids ∨ j = fresh
  := by
  rw [push] at h
  split at h
  · exact .inl h
  · rw [ids, List.map_append, List.mem_append, List.mem_singleton] at h
    exact h

/-- A number popped: the last one of the last block, or of the block before it, which then
keeps the number of the empty last block in its place. -/
inductive Pops : Tracker → Nat → Tracker → Prop
  | entry (full : List (Nat × List Nat)) (last : Nat) (entries : List Nat) (id : Nat) :
      Pops ⟨full, last, entries ++ [id]⟩ id ⟨full, last, entries⟩
  | retire (full : List (Nat × List Nat)) (secondLast : Nat) (entries : List Nat) (id last : Nat) :
      Pops ⟨full ++ [(secondLast, entries ++ [id])], last, []⟩ id
        ⟨full, secondLast, entries ++ [last]⟩

variable {t t' : Tracker} {id j : Nat}

/-- Popping a number takes one of the free blocks and of those that keep the numbers. -/
theorem Pops.length_eq (h : Pops t id t') :
  t.free.length + t.full.length = t'.free.length + t'.full.length + 1
  := by
  cases h with
  | entry full last entries id =>
      simp only [free, List.length_append, List.length_singleton]
      omega
  | retire full secondLast entries id last =>
      simp only [free, List.flatMap_append, List.flatMap_singleton, List.length_append,
        List.length_singleton, List.append_nil]
      omega

/-- A number popped was the one of a free block. -/
theorem Pops.mem_free (h : Pops t id t') :
  id ∈ t.free
  := by
  cases h with
  | entry full last entries id => simp [free]
  | retire full secondLast entries id last => simp [free]

/-- The blocks that keep the numbers after one was popped did so before. -/
theorem Pops.mem_ids (h : Pops t id t') (hj : j ∈ t'.ids) :
  j ∈ t.ids
  := by
  cases h with
  | entry full last entries id => exact hj
  | retire full secondLast entries id last =>
      rw [ids, List.map_append]
      exact List.mem_append_left _ hj

/-- The numbers after one was popped, but for that of a block that kept numbers. -/
theorem Pops.mem_free_of (h : Pops t id t') (hj : j ∈ t'.free) :
  j ∈ t.free ∨ j ∈ t.ids
  := by
  cases h with
  | entry full last entries id =>
      left
      rw [free, ← List.append_assoc]
      exact List.mem_append_left _ hj
  | retire full secondLast entries id last =>
      simp only [free, ids, List.mem_append, List.flatMap_append, List.flatMap_singleton,
        List.mem_singleton] at hj ⊢
      tauto

end Tracker

/-- The storage keeps the stack in record 0, and each block keeps a part of it, is free or is
used. -/
structure Tracks (s : List (Block blockContentSize)) (t : Tracker) (used : List Nat) : Prop where
  linked : Segment (link s) 0 (t.full.map Prod.fst) t.last
  ends : link s t.last = some 0
  holdsFull : ∀ cell ∈ t.full, HoldsAt s (cell.1, encode cell.2)
  holdsLast : HoldsAt s (t.last, encode t.entries)
  full : ∀ cell ∈ t.full, cell.2.length = blockContentSize / 4
  ids : (t.ids ++ t.free ++ used).Perm (List.range s.length)
  length_le : s.length ≤ 2 ^ 32

namespace Tracks

variable {s s' : List (Block blockContentSize)} {t : Tracker} {used used' : List Nat} {id : Nat}

/-- Every block has one part. -/
theorem nodup (h : Tracks s t used) :
  (t.ids ++ t.free ++ used).Nodup
  := h.ids.nodup_iff.mpr List.nodup_range

/-- The numbers are those of blocks of the array. -/
theorem lt_length (h : Tracks s t used) (hid : id ∈ t.ids ++ t.free ++ used) :
  id < s.length
  := List.mem_range.mp (h.ids.mem_iff.mp hid)

/-- A block that keeps free numbers is not used. -/
theorem notMem_used (h : Tracks s t used) (hid : id ∈ t.ids) :
  id ∉ used
  := by
  have hdisjoint := (List.nodup_append.mp h.nodup).2.2
  intro hmem
  exact hdisjoint id (List.mem_append_left _ hid) id hmem rfl

/-- A used block does not keep free numbers. -/
theorem notMem_ids (h : Tracks s t used) (hid : id ∈ used) :
  id ∉ t.ids
  := fun hmem => h.notMem_used hmem hid

/-- A used block is not free. -/
theorem notMem_free (h : Tracks s t used) (hid : id ∈ used) :
  id ∉ t.free
  := by
  have hdisjoint := (List.nodup_append.mp h.nodup).2.2
  intro hmem
  exact hdisjoint id (List.mem_append_right _ hmem) id hid rfl

/-- The order of the used blocks does not matter. -/
theorem perm (h : Tracks s t used) (hperm : used.Perm used') :
  Tracks s t used'
  := { h with ids := (List.Perm.append_left _ hperm.symm).trans h.ids }

/-- Only the blocks that keep the numbers matter. -/
theorem congr (h : Tracks s t used) (hsame : ∀ id ∈ t.ids, s'[id]? = s[id]?)
    (hlength : s'.length = s.length) :
  Tracks s' t used
  := by
  have hfull : ∀ id ∈ t.full.map Prod.fst, s'[id]? = s[id]? := by
    intro id hid
    exact hsame id (List.mem_append_left _ hid)
  have hlast : s'[t.last]? = s[t.last]? := by
    apply hsame
    rw [Tracker.ids]
    exact List.mem_append_right _ (List.mem_singleton_self _)
  constructor
  · apply h.linked.congr
    intro id hid
    exact link_congr (hfull id hid)
  · rw [link_congr hlast, h.ends]
  · intro cell hcell
    apply (h.holdsFull cell hcell).congr
    exact hfull cell.1 (List.mem_map_of_mem hcell)
  · exact h.holdsLast.congr hlast
  · exact h.full
  · rw [hlength]
    exact h.ids
  · rw [hlength]
    exact h.length_le

/-- A block that does not keep the numbers may change. -/
theorem modify (h : Tracks s t used) (f : Block blockContentSize → Block blockContentSize)
    (hid : id ∉ t.ids) :
  Tracks (s.modify id f) t used
  := by
  apply h.congr
  · intro j hj
    apply modify_other
    rintro rfl
    exact hid hj
  · rw [List.length_modify]

/-- The blocks that keep the numbers, from block 0 on. -/
theorem segment (h : Tracks s t used) :
  Segment (link s) 0 t.ids 0
  := Segment.concat_iff.mpr ⟨h.linked, h.ends⟩

/-- There are blocks that keep the numbers, and only the first of them is block 0. -/
theorem ids_eq (h : Tracks s t used) :
  ∃ ids, t.ids = 0 :: ids ∧ 0 ∉ ids
  := by
  have hsegment := h.segment
  have hnodup := (List.nodup_append.mp (List.nodup_append.mp h.nodup).1).1
  cases hids : t.ids with
  | nil => exact absurd hids (List.append_ne_nil_of_right_ne_nil _ (List.cons_ne_nil _ _))
  | cons id ids =>
      rw [hids] at hsegment hnodup
      obtain ⟨rfl, -⟩ := Segment.cons_iff.mp hsegment
      exact ⟨ids, rfl, (List.nodup_cons.mp hnodup).1⟩

/-- Block 0 is not a used one. -/
theorem ne_zero (h : Tracks s t used) (hid : id ∈ used) :
  id ≠ 0
  := by
  rintro rfl
  obtain ⟨ids, hids, -⟩ := h.ids_eq
  apply h.notMem_used _ hid
  rw [hids]
  exact List.mem_cons_self

/-- There are no more blocks that keep numbers than blocks. -/
theorem length_ids_le (h : Tracks s t used) :
  t.ids.length ≤ s.length
  := by
  have hlength := h.ids.length_eq
  rw [List.length_range, List.length_append, List.length_append] at hlength
  omega

/-- There are no more used blocks than blocks. -/
theorem length_used_le (h : Tracks s t (used ++ used')) :
  used.length ≤ s.length
  := by
  have hlength := h.ids.length_eq
  rw [List.length_range, ← List.append_assoc, List.length_append, List.length_append] at hlength
  omega

/-- The blocks that keep the numbers are not deleted. -/
theorem exists_block (h : Tracks s t used) (hid : id ∈ t.ids) :
  ∃ block, s[id]? = some block ∧ block.isDeleted = 0
  := by
  rw [Tracker.ids, List.mem_append, List.mem_singleton] at hid
  obtain hfull | rfl := hid
  · obtain ⟨cell, hcell, rfl⟩ := List.mem_map.mp hfull
    obtain ⟨block, hblock, hholds⟩ := h.holdsFull cell hcell
    exact ⟨block, hblock, hholds.isDeleted⟩
  · obtain ⟨block, hblock, hholds⟩ := h.holdsLast
    exact ⟨block, hblock, hholds.isDeleted⟩

/-- The blocks of record 0. -/
theorem findBlocks_apply (h : Tracks s t used) :
  findBlocks 0 s = .ok t.ids s
  := by
  obtain ⟨ids, hids, hzero⟩ := h.ids_eq
  have htail : 0 ∉ t.ids.tail := by
    rw [hids]
    exact hzero
  have hne : t.ids ≠ [] := by
    rw [hids]
    exact List.cons_ne_nil _ _
  rw [findBlocks, EStateM.get_bind_apply]
  apply findBlocksFrom_apply h.segment hne htail
  · exact Nat.le_succ_of_le h.length_ids_le
  · intro id hid
    exact h.exists_block hid

/-- The last two blocks of record 0. -/
theorem getSpaceTrackingBlock_apply (h : Tracks s t used) :
  getSpaceTrackingBlock s = .ok (t.last, (t.full.map Prod.fst).getLast?) s
  := by
  rw [getSpaceTrackingBlock, EStateM.bind_apply_of_ok h.findBlocks_apply, Tracker.ids,
    List.reverse_append, List.reverse_singleton, List.singleton_append]
  dsimp only
  rw [List.head?_reverse]
  rfl

/-- The last block is not among the full ones. -/
theorem last_notMem (h : Tracks s t used) :
  t.last ∉ t.full.map Prod.fst
  := by
  have hnodup := (List.nodup_append.mp (List.nodup_append.mp h.nodup).1).1
  intro hmem
  exact (List.nodup_append.mp hnodup).2.2 t.last hmem t.last (List.mem_singleton_self _) rfl

section

variable {full : List (Nat × List Nat)} {last fresh : Nat} {entries entries' : List Nat}
  {block block' : Block blockContentSize}

/-- The last block keeps no more numbers than fit into a block. -/
theorem length_entries_le (h : Tracks s t used) :
  t.entries.length ≤ blockContentSize / 4
  := by
  obtain ⟨block, -, hholds⟩ : ∃ block, s[t.last]? = some block ∧ block.Holds (encode t.entries) :=
    h.holdsLast
  have hle := hholds.length_le
  rw [length_encode] at hle
  omega

/-- The numbers of used blocks take no more blocks than there are blocks. -/
theorem growth_le_length (h : Tracks s t (used ++ used')) (hsize : 4 ≤ blockContentSize) :
  t.growth (blockContentSize / 4) used.length ≤ s.length
  := (Tracker.growth_le h.length_entries_le (by omega) _).trans h.length_used_le

/-- Other numbers in the last block. -/
theorem setEntries (h : Tracks s ⟨full, last, entries⟩ used)
    (hblock : s[last]? = some block) (hblock' : s'[last]? = some block')
    (hnext : block'.nextBlockId = block.nextBlockId) (hholds : block'.Holds (encode entries'))
    (hother : ∀ id, id ≠ last → s'[id]? = s[id]?) (hlength : s'.length = s.length)
    (hperm : (entries' ++ used').Perm (entries ++ used)) :
  Tracks s' ⟨full, last, entries'⟩ used'
  := by
  have hfull : ∀ id ∈ full.map Prod.fst, s'[id]? = s[id]? := by
    intro id hid
    apply hother
    rintro rfl
    exact h.last_notMem hid
  constructor
  · apply h.linked.congr
    intro id hid
    exact link_congr (hfull id hid)
  · have hends := h.ends
    rw [link, hblock, Option.map_some] at hends
    rw [link, hblock', Option.map_some, hnext, hends]
  · intro cell hcell
    apply (h.holdsFull cell hcell).congr
    exact hfull cell.1 (List.mem_map_of_mem hcell)
  · exact ⟨block', hblock', hholds⟩
  · exact h.full
  · rw [hlength]
    apply List.Perm.trans _ h.ids
    rw [Tracker.free, Tracker.free, ← List.append_assoc, ← List.append_assoc,
      List.append_assoc _ entries', List.append_assoc _ entries]
    exact List.Perm.append_left _ hperm
  · rw [hlength]
    exact h.length_le

/-- A new last block, to which the full one before it leads. -/
theorem extend (h : Tracks s ⟨full, last, entries⟩ used) (hroom : s.length < 2 ^ 32)
    (hfull : entries.length = blockContentSize / 4) (hblock : s[last]? = some block)
    (hblock' : s'[last]? = some { block with nextBlockId := s.length })
    (hnew : s'[s.length]? = some block') (hnext : block'.nextBlockId = 0)
    (hholds : block'.Holds (encode entries'))
    (hother : ∀ id, id ≠ last → id ≠ s.length → s'[id]? = s[id]?)
    (hlength : s'.length = s.length + 1) (hperm : (entries' ++ used').Perm used) :
  Tracks s' ⟨full ++ [(last, entries)], s.length, entries'⟩ used'
  := by
  have hlt : ∀ id ∈ full.map Prod.fst ++ [last], id ≠ s.length := by
    intro id hid
    have hid := h.lt_length (List.mem_append_left _ (List.mem_append_left _ hid))
    omega
  have hsame : ∀ id ∈ full.map Prod.fst, s'[id]? = s[id]? := by
    intro id hid
    apply hother
    · rintro rfl
      exact h.last_notMem hid
    · exact hlt id (List.mem_append_left _ hid)
  constructor
  · rw [List.map_append, List.map_singleton, Segment.concat_iff]
    constructor
    · apply h.linked.congr
      intro id hid
      exact link_congr (hsame id hid)
    · rw [link, hblock', Option.map_some, Nat.mod_eq_of_lt hroom]
  · rw [link, hnew, Option.map_some, hnext, Nat.zero_mod]
  · intro cell hcell
    rw [List.mem_append, List.mem_singleton] at hcell
    obtain hcell | rfl := hcell
    · apply (h.holdsFull cell hcell).congr
      exact hsame cell.1 (List.mem_map_of_mem hcell)
    · obtain ⟨block₀, hblock₀, hholds₀⟩ := h.holdsLast
      obtain rfl := Option.some.inj (hblock.symm.trans hblock₀)
      exact ⟨_, hblock', hholds₀.isDeleted, hholds₀.length, hholds₀.content⟩
  · exact ⟨block', hnew, hholds⟩
  · intro cell hcell
    rw [List.mem_append, List.mem_singleton] at hcell
    obtain hcell | rfl := hcell
    · exact h.full cell hcell
    · exact hfull
  · have hids := h.ids
    rw [hlength, List.range_succ, List.perm_iff_count]
    intro j
    have hcount := hids.count_eq j
    have hused := hperm.count_eq j
    simp only [Tracker.ids, Tracker.free, List.map_append, List.map_singleton,
      List.flatMap_append, List.flatMap_singleton, List.count_append, List.count_cons,
      List.count_nil] at hcount hused ⊢
    omega
  · omega

/-- The empty last block given up, with its number in the place of the one that was popped. -/
theorem retire {secondLast : Nat}
    (h : Tracks s ⟨full ++ [(secondLast, entries ++ [id])], last, []⟩ used)
    (hblock : s'[secondLast]? = some block) (hnext : block.nextBlockId = 0)
    (hholds : block.Holds (encode (entries ++ [last])))
    (hother : ∀ id, id ≠ secondLast → id ≠ last → s'[id]? = s[id]?)
    (hlength : s'.length = s.length) :
  Tracks s' ⟨full, secondLast, entries ++ [last]⟩ (id :: used)
  := by
  have hnodup := (List.nodup_append.mp (List.nodup_append.mp h.nodup).1).1
  have hlinked := h.linked
  rw [Tracker.ids, List.map_append, List.map_singleton] at hnodup
  rw [List.map_append, List.map_singleton, Segment.concat_iff] at hlinked
  have hsame : ∀ id ∈ full.map Prod.fst, s'[id]? = s[id]? := by
    intro id hid
    apply hother
    · rintro rfl
      have hdisjoint := (List.nodup_append.mp (List.nodup_append.mp hnodup).1).2.2
      exact hdisjoint id hid id (List.mem_singleton_self _) rfl
    · rintro rfl
      have hdisjoint := (List.nodup_append.mp hnodup).2.2
      exact hdisjoint id (List.mem_append_left _ hid) id (List.mem_singleton_self _) rfl
  constructor
  · apply hlinked.1.congr
    intro id hid
    exact link_congr (hsame id hid)
  · rw [link, hblock, Option.map_some, hnext, Nat.zero_mod]
  · intro cell hcell
    apply (h.holdsFull cell (List.mem_append_left _ hcell)).congr
    exact hsame cell.1 (List.mem_map_of_mem hcell)
  · exact ⟨block, hblock, hholds⟩
  · intro cell hcell
    exact h.full cell (List.mem_append_left _ hcell)
  · rw [hlength, List.perm_iff_count]
    intro j
    have hcount := h.ids.count_eq j
    simp only [Tracker.ids, Tracker.free, List.map_append, List.map_singleton,
      List.flatMap_append, List.flatMap_singleton, List.count_append, List.count_cons,
      List.count_nil] at hcount ⊢
    omega
  · rw [hlength]
    exact h.length_le

end

/-- A number written behind the others of the last block. -/
theorem markAsFree_within {full : List (Nat × List Nat)} {last : Nat} {entries : List Nat}
    (h : Tracks s ⟨full, last, entries⟩ (id :: used))
    (hroom : 4 * entries.length + 4 ≤ blockContentSize) :
  ∃ s', markAsFree id s = .ok () s' ∧ Tracks s' ⟨full, last, entries ++ [id]⟩ used
    ∧ (∀ j ∉ Tracker.ids ⟨full, last, entries⟩, s'[j]? = s[j]?) ∧ s'.length = s.length
  := by
  obtain ⟨block, hblock, hholds⟩ :
    ∃ block, s[last]? = some block ∧ block.Holds (encode entries) := h.holdsLast
  have hlength : block.blockContentLength = 4 * entries.length := by
    rw [hholds.length, length_encode]
  have hle : 4 * entries.length + (Bytes.toLE 4 id).length ≤ blockContentSize := by
    rw [Bytes.length_toLE]
    exact hroom
  rw [markAsFree, EStateM.bind_apply_of_ok h.getSpaceTrackingBlock_apply]
  dsimp only
  rw [EStateM.bind_apply_of_ok (getBlock_apply hblock), hlength, if_pos hroom,
    EStateM.bind_apply_of_ok (appendUInt32ToContent_apply hblock hlength hle)]
  refine ⟨_, setBlock_apply _, ?_, ?_, ?_⟩
  · apply h.setEntries hblock (modify_same _ (modify_same _ hblock)) rfl
    · rw [encode_concat]
      apply hholds.append
      · exact hholds.isDeleted
      · rw [length_encode, Bytes.length_toLE]
      · rw [length_encode]
        rfl
    · intro j hj
      rw [modify_other _ hj, modify_other _ hj]
    · rw [List.length_modify, List.length_modify]
    · rw [List.append_assoc]
      rfl
  · intro j hj
    have hne : j ≠ last := by
      rintro rfl
      exact hj (List.mem_append_right _ (List.mem_singleton_self _))
    rw [modify_other _ hne, modify_other _ hne]
  · rw [List.length_modify, List.length_modify]

/-- A number written to a new block behind a full last one. -/
theorem markAsFree_extends {full : List (Nat × List Nat)} {last : Nat} {entries : List Nat}
    (h : Tracks s ⟨full, last, entries⟩ (id :: used)) (hsize : 4 ≤ blockContentSize)
    (hroom : ¬ 4 * entries.length + 4 ≤ blockContentSize)
    (hfull : entries.length = blockContentSize / 4) (hspace : s.length < 2 ^ 32) :
  ∃ s', markAsFree id s = .ok () s'
    ∧ Tracks s' ⟨full ++ [(last, entries)], s.length, [id]⟩ used
    ∧ (∀ j ∉ Tracker.ids ⟨full, last, entries⟩, j ≠ s.length → s'[j]? = s[j]?)
    ∧ s'.length = s.length + 1
  := by
  obtain ⟨block, hblock, hholds⟩ :
    ∃ block, s[last]? = some block ∧ block.Holds (encode entries) := h.holdsLast
  have hlength : block.blockContentLength = 4 * entries.length := by
    rw [hholds.length, length_encode]
  have hmem : last ∈ Tracker.ids ⟨full, last, entries⟩ :=
    List.mem_append_right _ (List.mem_singleton_self _)
  have hlast := h.lt_length (List.mem_append_left _ (List.mem_append_left _ hmem))
  have hne : last ≠ s.length := Nat.ne_of_lt hlast
  have hnew : (s ++ [Block.new blockContentSize])[s.length]?
      = some (Block.new blockContentSize) := List.getElem?_concat_length
  have hold : (s ++ [Block.new blockContentSize])[last]? = some block := by
    rw [List.getElem?_append_left hlast, hblock]
  have hle : 4 * ([] : List Nat).length + (Bytes.toLE 4 id).length ≤ blockContentSize := by
    rw [Bytes.length_toLE]
    exact hsize
  rw [markAsFree, EStateM.bind_apply_of_ok h.getSpaceTrackingBlock_apply]
  dsimp only
  rw [EStateM.bind_apply_of_ok (getBlock_apply hblock), hlength, if_neg hroom,
    EStateM.bind_apply_of_ok (createNew_apply hspace),
    EStateM.bind_apply_of_ok (setBlock_apply _), EStateM.bind_apply_of_ok (setBlock_apply _),
    EStateM.bind_apply_of_ok (@appendUInt32ToContent_apply _ _ _ id [] _
      ((modify_other _ hne.symm).trans (modify_same _ hnew)) rfl hle)]
  refine ⟨_, setBlock_apply _, ?_, ?_, ?_⟩
  · apply h.extend hspace hfull hblock
    · rw [modify_other _ hne, modify_other _ hne]
      apply modify_same
      rw [modify_other _ hne, hold]
    · apply modify_same
      apply modify_same
      rw [modify_other _ hne.symm]
      exact modify_same _ hnew
    · rfl
    · apply (Block.isClear_new blockContentSize).holds.append
      · rfl
      · rfl
      · rfl
    · intro j hj hfresh
      rw [modify_other _ hfresh, modify_other _ hfresh, modify_other _ hj,
        modify_other _ hfresh, getElem?_concat_other _ hfresh]
    · simp only [List.length_modify, List.length_append, List.length_singleton]
    · exact List.Perm.refl _
  · intro j hj hfresh
    have hother : j ≠ last := fun heq => hj (heq ▸ hmem)
    rw [modify_other _ hfresh, modify_other _ hfresh, modify_other _ hother,
      modify_other _ hfresh, getElem?_concat_other _ hfresh]
  · simp only [List.length_modify, List.length_append, List.length_singleton]

/-- Marking a used block as free pushes its number. It fails only where a new block is needed
and the array is full, and then changes nothing. -/
theorem markAsFree_spec (h : Tracks s t (id :: used)) (hsize : 4 ≤ blockContentSize) :
  Finishes (markAsFree id) s
    (fun _ s' => Tracks s' (t.push (blockContentSize / 4) s.length id) used
      ∧ (∀ j ∉ t.ids, j ≠ s.length → s'[j]? = s[j]?)
      ∧ s.length ≤ s'.length ∧ s'.length ≤ s.length + 1
      ∧ ∀ count, s'.length
          + (t.push (blockContentSize / 4) s.length id).growth (blockContentSize / 4) count
        = s.length + t.growth (blockContentSize / 4) (count + 1))
    (fun e s' => e = .storageFull ∧ s' = s ∧ s.length = 2 ^ 32
      ∧ 0 < t.growth (blockContentSize / 4) 1)
  := by
  have hpos : 0 < blockContentSize / 4 := by omega
  have hgrowth := t.growth_push h.length_entries_le hpos s.length id
  obtain ⟨full, last, entries⟩ := t
  obtain ⟨block, hblock, hholds⟩ :
    ∃ block, s[last]? = some block ∧ block.Holds (encode entries) := h.holdsLast
  have hlength : block.blockContentLength = 4 * entries.length := by
    rw [hholds.length, length_encode]
  by_cases hroom : 4 * entries.length + 4 ≤ blockContentSize
  · obtain ⟨s', hmark, htracks, hsame, hsize'⟩ := h.markAsFree_within hroom
    have hpush : entries.length < blockContentSize / 4 := by omega
    apply Finishes.of_ok hmark
    refine ⟨?_, fun j hj _ => hsame j hj, by omega, by omega, ?_⟩
    · rw [Tracker.push, if_pos hpush]
      exact htracks
    · intro count
      rw [hgrowth, if_pos hpush, hsize', Nat.zero_add]
  · have hfull : entries.length = blockContentSize / 4 := by
      have hle := hholds.length_le
      rw [length_encode] at hle
      omega
    by_cases hspace : s.length < 2 ^ 32
    · obtain ⟨s', hmark, htracks, hsame, hsize'⟩ :=
        h.markAsFree_extends hsize hroom hfull hspace
      have hpush : ¬ entries.length < blockContentSize / 4 := by omega
      apply Finishes.of_ok hmark
      refine ⟨?_, hsame, by omega, by omega, ?_⟩
      · rw [Tracker.push, if_neg hpush]
        exact htracks
      · intro count
        rw [hgrowth, if_neg hpush, hsize', Nat.add_assoc]
    · have hlimit := h.length_le
      apply Finishes.bind_of_ok h.getSpaceTrackingBlock_apply
      apply Finishes.bind_of_ok (getBlock_apply hblock)
      rw [hlength, if_neg hroom]
      apply Finishes.of_error
        (EStateM.bind_apply_of_error (createNew_full (Nat.le_of_not_lt hspace)) _)
      refine ⟨rfl, rfl, by omega, ?_⟩
      rw [Tracker.growth, Nat.add_sub_cancel, hfull, Nat.div_self hpos]
      exact Nat.one_pos

/-- Where no number fits into a block, marking a used block as free fails, and at most puts an
empty block behind those that are to keep the numbers. -/
theorem markAsFree_small (h : Tracks s t (id :: used)) (hsize : blockContentSize < 4) :
  Finishes (markAsFree id) s (fun _ _ => False)
    (fun _ s' => (∃ t', Tracks s' t' (id :: used))
      ∧ ∀ j ∉ t.ids, j ≠ s.length → s'[j]? = s[j]?)
  := by
  have hentries := h.length_entries_le
  rw [Nat.div_eq_of_lt hsize, Nat.le_zero, List.length_eq_zero_iff] at hentries
  obtain ⟨full, last, entries⟩ := t
  subst hentries
  obtain ⟨block, hblock, hholds⟩ :
    ∃ block, s[last]? = some block ∧ block.Holds (encode []) := h.holdsLast
  have hlength : block.blockContentLength = 0 := hholds.length
  apply Finishes.bind_of_ok h.getSpaceTrackingBlock_apply
  apply Finishes.bind_of_ok (getBlock_apply hblock)
  rw [hlength, if_neg (by omega)]
  by_cases hspace : s.length < 2 ^ 32
  · have hlast := h.lt_length (List.mem_append_left _ (List.mem_append_left _ (Tracker.last_mem _)))
    have hne : last ≠ s.length := Nat.ne_of_lt hlast
    have hnew : (s ++ [Block.new blockContentSize])[s.length]?
        = some (Block.new blockContentSize) := List.getElem?_concat_length
    have hold : (s ++ [Block.new blockContentSize])[last]? = some block := by
      rw [List.getElem?_append_left hlast, hblock]
    apply Finishes.bind_of_ok (createNew_apply hspace)
    have htarget := (modify_other (fun block => { block with nextBlockId := s.length })
      hne.symm).trans (modify_same (fun block => { block with previousBlockId := last }) hnew)
    apply Finishes.bind_of_ok (setBlock_apply _)
    apply Finishes.bind_of_ok (setBlock_apply _)
    have happend := @appendUInt32ToContent_small _ _ _ id _ htarget rfl hsize
    apply Finishes.of_error (EStateM.bind_apply_of_error happend _)
    constructor
    · refine ⟨⟨full ++ [(last, [])], s.length, []⟩, ?_⟩
      have hempty : { Block.new blockContentSize with previousBlockId := last }.Holds
          (encode []) := ⟨rfl, rfl, rfl⟩
      apply h.extend hspace (Nat.div_eq_of_lt hsize).symm hblock _ htarget rfl hempty
      · intro j hj hfresh
        rw [modify_other _ hj, modify_other _ hfresh, getElem?_concat_other _ hfresh]
      · simp only [List.length_modify, List.length_append, List.length_singleton]
      · exact List.Perm.refl _
      · apply modify_same
        rw [modify_other _ hne, hold]
    · intro j hj hfresh
      have hother : j ≠ last := by
        rintro rfl
        exact hj (Tracker.last_mem _)
      rw [modify_other _ hother, modify_other _ hfresh, getElem?_concat_other _ hfresh]
  · apply Finishes.of_error
      (EStateM.bind_apply_of_error (createNew_full (Nat.le_of_not_lt hspace)) _)
    exact ⟨⟨_, h⟩, fun _ _ _ => rfl⟩

/-- There is a number to be popped unless the last block that keeps numbers is empty and is the
only one or, where no number fits into a block, comes behind another empty one. -/
theorem pops_or (h : Tracks s t used) :
  (4 ≤ blockContentSize ∧ ∃ id t', t.Pops id t') ∨ (t.full = [] ∧ t.entries = [])
    ∨ (blockContentSize < 4 ∧ t.entries = []
      ∧ ∃ full secondLast, t.full = full ++ [(secondLast, [])])
  := by
  have hentries := h.length_entries_le
  obtain ⟨full, last, entries⟩ := t
  obtain rfl | ⟨entries, id, rfl⟩ := List.eq_nil_or_concat entries
  · obtain rfl | ⟨full, ⟨secondLast, entries⟩, rfl⟩ := List.eq_nil_or_concat full
    · right
      left
      exact ⟨rfl, rfl⟩
    · have hlength : entries.length = blockContentSize / 4 :=
        h.full (secondLast, entries) (by simp)
      rw [List.concat_eq_append]
      obtain rfl | ⟨entries, id, rfl⟩ := List.eq_nil_or_concat entries
      · right
        right
        rw [List.length_nil] at hlength
        exact ⟨by omega, rfl, full, secondLast, rfl⟩
      · left
        rw [List.concat_eq_append] at hlength ⊢
        rw [List.length_append, List.length_singleton] at hlength
        exact ⟨by omega, id, _, .retire full secondLast entries id last⟩
  · left
    rw [List.concat_eq_append] at hentries ⊢
    rw [List.length_append, List.length_singleton] at hentries
    exact ⟨by omega, id, _, .entry full last entries id⟩

/-- Taking the last number of the last block. -/
theorem tryFindFreeBlock_entry {full : List (Nat × List Nat)} {last : Nat} {entries : List Nat}
    (h : Tracks s ⟨full, last, entries ++ [id]⟩ used) (hlt : id < 2 ^ 32) :
  ∃ s', tryFindFreeBlock s = .ok (some id) s' ∧ Tracks s' ⟨full, last, entries⟩ (id :: used)
    ∧ (∀ j ∉ Tracker.ids ⟨full, last, entries ++ [id]⟩, s'[j]? = s[j]?) ∧ s'.length = s.length
  := by
  obtain ⟨block, hblock, hholds⟩ :
    ∃ block, s[last]? = some block ∧ block.Holds (encode (entries ++ [id])) := h.holdsLast
  have hlength : block.blockContentLength = 4 * entries.length + 4 := by
    rw [hholds.length, length_encode, List.length_append, List.length_singleton]
    omega
  rw [tryFindFreeBlock, EStateM.bind_apply_of_ok h.getSpaceTrackingBlock_apply]
  dsimp only
  rw [EStateM.bind_apply_of_ok (getBlock_apply hblock), if_neg (by omega),
    EStateM.bind_apply_of_ok (readUInt32FromTrailingContent_apply hblock hholds hlt),
    EStateM.bind_apply_of_ok (setBlock_apply _)]
  refine ⟨_, rfl, ?_, ?_, ?_⟩
  · apply h.setEntries hblock (modify_same _ hblock) rfl
    · rw [encode_concat] at hholds
      apply hholds.shrink
      · exact hholds.isDeleted
      · rw [length_encode, hlength]
        rfl
      · rfl
    · intro j hj
      exact modify_other _ hj
    · rw [List.length_modify]
    · rw [List.append_assoc]
      rfl
  · intro j hj
    apply modify_other
    rintro rfl
    exact hj (List.mem_append_right _ (List.mem_singleton_self _))
  · rw [List.length_modify]

/-- Taking the last number of the block before an empty last block, and keeping the number of
the last block in its place. -/
theorem tryFindFreeBlock_retire {full : List (Nat × List Nat)} {secondLast last : Nat}
    {entries : List Nat} (h : Tracks s ⟨full ++ [(secondLast, entries ++ [id])], last, []⟩ used)
    (hlt : id < 2 ^ 32) :
  ∃ s', tryFindFreeBlock s = .ok (some id) s'
    ∧ Tracks s' ⟨full, secondLast, entries ++ [last]⟩ (id :: used)
    ∧ (∀ j ∉ Tracker.ids ⟨full ++ [(secondLast, entries ++ [id])], last, []⟩, s'[j]? = s[j]?)
    ∧ s'.length = s.length
  := by
  obtain ⟨block, hblock, hholds⟩ :
    ∃ block, s[secondLast]? = some block ∧ block.Holds (encode (entries ++ [id])) :=
      h.holdsFull (secondLast, entries ++ [id]) (by simp)
  obtain ⟨lastBlock, hlastBlock, hempty⟩ :
    ∃ block, s[last]? = some block ∧ block.Holds (encode []) := h.holdsLast
  have hzero : lastBlock.blockContentLength = 0 := hempty.length
  have hne : secondLast ≠ last := by
    intro heq
    apply h.last_notMem
    rw [List.map_append, List.mem_append]
    right
    exact List.mem_singleton.mpr heq.symm
  have hlength : block.blockContentLength = 4 * entries.length + 4 := by
    rw [hholds.length, length_encode, List.length_append, List.length_singleton]
    omega
  have hle : 4 * entries.length + (Bytes.toLE 4 last).length ≤ blockContentSize := by
    have hle := hholds.length_le
    rwa [← hholds.length, hlength] at hle
  have hless : block.blockContentLength - 4 = 4 * entries.length := by omega
  have hlast : (List.map Prod.fst (full ++ [(secondLast, entries ++ [id])])).getLast?
      = some secondLast := by
    rw [List.map_append, List.map_singleton, List.getLast?_concat]
  rw [tryFindFreeBlock, EStateM.bind_apply_of_ok h.getSpaceTrackingBlock_apply]
  dsimp only
  rw [EStateM.bind_apply_of_ok (getBlock_apply hlastBlock), if_pos hzero, hlast]
  dsimp only
  rw [EStateM.bind_apply_of_ok (readUInt32FromTrailingContent_apply hblock hholds hlt),
    EStateM.bind_apply_of_ok (setBlock_apply _),
    EStateM.bind_apply_of_ok
      (appendUInt32ToContent_apply (modify_same _ hblock) hless hle),
    EStateM.bind_apply_of_ok (setBlock_apply _),
    EStateM.bind_apply_of_ok (setBlock_apply _),
    EStateM.bind_apply_of_ok (setBlock_apply _)]
  refine ⟨_, rfl, ?_, ?_, ?_⟩
  · apply h.retire
    · rw [modify_other _ hne]
      exact modify_same _ (modify_same _ (modify_same _ (modify_same _ hblock)))
    · rfl
    · rw [encode_concat] at hholds ⊢
      have hshrunk : Block.Holds
          { block with blockContentLength := block.blockContentLength - 4 }
          (encode entries) := by
        apply hholds.shrink
        · exact hholds.isDeleted
        · rw [length_encode]
          exact hless
        · rfl
      apply hshrunk.append
      · exact hholds.isDeleted
      · change block.blockContentLength - 4 + 4 = (encode entries).length + 4
        rw [length_encode, hless]
      · rw [length_encode]
        rfl
    · intro j hj hjlast
      rw [modify_other _ hjlast, modify_other _ hj, modify_other _ hj, modify_other _ hj,
        modify_other _ hj]
    · simp only [List.length_modify]
  · intro j hj
    rw [Tracker.ids, List.map_append, List.map_singleton, List.mem_append, List.mem_append,
      List.mem_singleton, List.mem_singleton, not_or, not_or] at hj
    obtain ⟨⟨-, hj⟩, hjlast⟩ := hj
    rw [modify_other _ hjlast, modify_other _ hj, modify_other _ hj, modify_other _ hj,
      modify_other _ hj]
  · simp only [List.length_modify]

/-- Dequeuing a number pops it. -/
theorem tryFindFreeBlock_pops {t' : Tracker} (h : Tracks s t used) (hpops : t.Pops id t') :
  ∃ s', tryFindFreeBlock s = .ok (some id) s' ∧ Tracks s' t' (id :: used)
    ∧ (∀ j ∉ t.ids, s'[j]? = s[j]?) ∧ s'.length = s.length
  := by
  have hlt : id < 2 ^ 32 := by
    have hlt := h.lt_length (List.mem_append_left _ (List.mem_append_right _ hpops.mem_free))
    have hle := h.length_le
    omega
  cases hpops with
  | entry full last entries id => exact h.tryFindFreeBlock_entry hlt
  | retire full secondLast entries id last => exact h.tryFindFreeBlock_retire hlt

/-- Dequeuing fails where the last two blocks that keep numbers are empty. -/
theorem tryFindFreeBlock_invalid {full : List (Nat × List Nat)} {secondLast last : Nat}
    (h : Tracks s ⟨full ++ [(secondLast, [])], last, []⟩ used) :
  tryFindFreeBlock s = .error .invalidData s
  := by
  obtain ⟨block, hblock, hholds⟩ :
    ∃ block, s[secondLast]? = some block ∧ block.Holds (encode []) :=
      h.holdsFull (secondLast, []) (by simp)
  obtain ⟨lastBlock, hlastBlock, hempty⟩ :
    ∃ block, s[last]? = some block ∧ block.Holds (encode []) := h.holdsLast
  have hzero : lastBlock.blockContentLength = 0 := hempty.length
  have hnone : block.blockContentLength = 0 := hholds.length
  have hlast : (List.map Prod.fst (full ++ [(secondLast, ([] : List Nat))])).getLast?
      = some secondLast := by
    rw [List.map_append, List.map_singleton, List.getLast?_concat]
  have hread : readUInt32FromTrailingContent secondLast s = .error .invalidData s := by
    rw [readUInt32FromTrailingContent, EStateM.bind_apply_of_ok (getBlock_apply hblock),
      if_neg (by omega), if_pos hnone]
    rfl
  rw [tryFindFreeBlock, EStateM.bind_apply_of_ok h.getSpaceTrackingBlock_apply]
  dsimp only
  rw [EStateM.bind_apply_of_ok (getBlock_apply hlastBlock), if_pos hzero, hlast]
  exact EStateM.bind_apply_of_error hread _

/-- There is nothing to dequeue from an empty stack. -/
theorem tryFindFreeBlock_empty (h : Tracks s ⟨[], id, []⟩ used) :
  tryFindFreeBlock s = .ok none s
  := by
  obtain ⟨block, hblock, hholds⟩ :
    ∃ block, s[id]? = some block ∧ block.Holds (encode []) := h.holdsLast
  have hzero : block.blockContentLength = 0 := hholds.length
  rw [tryFindFreeBlock, EStateM.bind_apply_of_ok h.getSpaceTrackingBlock_apply]
  dsimp only
  rw [EStateM.bind_apply_of_ok (getBlock_apply hblock), if_pos hzero]
  rfl

/-- A new block at the end of the array is a used one. -/
theorem grow (h : Tracks s t used) (block : Block blockContentSize)
    (hroom : s.length < 2 ^ 32) :
  Tracks (s ++ [block]) t (s.length :: used)
  := by
  have hsame : ∀ id ∈ t.ids, (s ++ [block])[id]? = s[id]? := by
    intro id hid
    apply List.getElem?_append_left
    exact h.lt_length (List.mem_append_left _ (List.mem_append_left _ hid))
  have hlast : t.last ∈ t.ids := List.mem_append_right _ (List.mem_singleton_self _)
  constructor
  · apply h.linked.congr
    intro id hid
    exact link_congr (hsame id (List.mem_append_left _ hid))
  · rw [link_congr (hsame _ hlast), h.ends]
  · intro cell hcell
    apply (h.holdsFull cell hcell).congr
    exact hsame _ (List.mem_append_left _ (List.mem_map_of_mem hcell))
  · exact h.holdsLast.congr (hsame _ hlast)
  · exact h.full
  · rw [List.length_append, List.length_singleton, List.range_succ, List.perm_iff_count]
    intro j
    have hcount := h.ids.count_eq j
    simp only [List.count_append, List.count_cons, List.count_nil] at hcount ⊢
    omega
  · rw [List.length_append, List.length_singleton]
    exact hroom

end Tracks

/-- What is known after a block was allocated: it is one of the used blocks now and its header
is cleared, and it was free or, when no block was, is a new one. -/
structure Allocated (s : List (Block blockContentSize)) (t : Tracker) (used : List Nat) (id : Nat)
    (s' : List (Block blockContentSize)) (t' : Tracker) : Prop where
  tracks : Tracks s' t' (id :: used)
  cleared : ∃ block, s'[id]? = some block ∧ block.IsClear
  other : ∀ j ∉ t.ids, j ≠ id → s'[j]? = s[j]?
  length_ge : s.length ≤ s'.length
  length_le : s'.length ≤ s.length + 1
  ids : ∀ j ∈ t'.ids, j ∈ t.ids
  free : ∀ j ∈ t'.free, j ∈ t.free ∨ j ∈ t.ids
  origin : id ∈ t.free ∨ (t.free = [] ∧ id = s.length)
  available : t.available blockContentSize s.length
    = t'.available blockContentSize s'.length + 1

/-- Where no block can be allocated no block is free and the array is full. -/
theorem Tracks.full_of_available {s : List (Block blockContentSize)} {t : Tracker}
    {used : List Nat} (h : Tracks s t used) (hsize : 4 ≤ blockContentSize)
    (hnone : t.available blockContentSize s.length = 0) :
  s.length = 2 ^ 32 ∧ t.free = []
  := by
  have hlimit := h.length_le
  rw [Tracker.available, if_pos hsize] at hnone
  constructor
  · omega
  · apply List.eq_nil_of_length_eq_zero
    omega

/-- Allocating a block pops the number of a free one or creates one. It fails only where no
block can be allocated, and then changes nothing. -/
theorem Tracks.allocateBlock_spec {s : List (Block blockContentSize)} {t : Tracker}
    {used : List Nat} (h : Tracks s t used) :
  Finishes allocateBlock s (fun id s' => ∃ t', Allocated s t used id s' t')
    (fun e s' => s' = s ∧ t.available blockContentSize s.length = 0
      ∧ (4 ≤ blockContentSize → e = .storageFull))
  := by
  obtain ⟨hsize, id, t', hpops⟩ | ⟨hfull, hentries⟩ | ⟨hsize, hentries, full', secondLast, hfull⟩ :=
    h.pops_or
  · obtain ⟨s', hfind, htracks, hother, hlength⟩ := h.tryFindFreeBlock_pops hpops
    have hlt : id < s'.length := htracks.lt_length (List.mem_append_right _ List.mem_cons_self)
    obtain ⟨block, hblock⟩ : ∃ block, s'[id]? = some block :=
      ⟨_, List.getElem?_eq_getElem hlt⟩
    apply Finishes.bind_of_ok hfind
    apply Finishes.bind_of_ok (hasBlock_apply hblock)
    apply Finishes.bind_of_ok (setBlock_apply _)
    apply Finishes.of_ok rfl
    refine ⟨t', ?_, ⟨_, modify_same _ hblock, block.isClear_clear⟩, ?_, ?_, ?_, ?_, ?_, ?_, ?_⟩
    · apply htracks.congr
      · intro j hj
        apply modify_other
        rintro rfl
        exact htracks.notMem_used hj List.mem_cons_self
      · rw [List.length_modify]
    · intro j hj hne
      rw [modify_other _ hne, hother j hj]
    · rw [List.length_modify, hlength]
    · rw [List.length_modify, hlength]
      exact Nat.le_succ _
    · exact fun j => hpops.mem_ids
    · exact fun j => hpops.mem_free_of
    · exact .inl hpops.mem_free
    · have hcount := hpops.length_eq
      rw [Tracker.available, if_pos hsize, Tracker.available, if_pos hsize, List.length_modify,
        hlength]
      omega
  · obtain ⟨full, last, entries⟩ := t
    subst hfull hentries
    apply Finishes.bind_of_ok h.tryFindFreeBlock_empty
    by_cases hroom : s.length < 2 ^ 32
    · apply Finishes.of_ok (createNew_apply hroom)
      refine ⟨_, h.grow _ hroom, ?_, ?_, ?_, ?_, ?_, ?_, ?_, ?_⟩
      · exact ⟨_, List.getElem?_concat_length, Block.isClear_new blockContentSize⟩
      · intro j _ hne
        exact getElem?_concat_other _ hne
      · rw [List.length_append]
        exact Nat.le_add_right _ _
      · rw [List.length_append, List.length_singleton]
      · exact fun j => id
      · exact fun j => .inl
      · exact .inr ⟨rfl, rfl⟩
      · rw [Tracker.available_empty, Tracker.available_empty, List.length_append,
          List.length_singleton]
        omega
    · apply Finishes.of_error (createNew_full (Nat.le_of_not_lt hroom))
      refine ⟨rfl, ?_, fun _ => rfl⟩
      rw [Tracker.available_empty]
      omega
  · obtain ⟨full, last, entries⟩ := t
    subst hfull hentries
    apply Finishes.of_error (EStateM.bind_apply_of_error h.tryFindFreeBlock_invalid _)
    refine ⟨rfl, ?_, fun hle => absurd hle (Nat.not_le_of_lt hsize)⟩
    rw [Tracker.available, if_neg (Nat.not_le_of_lt hsize), if_neg]
    exact List.append_ne_nil_of_right_ne_nil _ (List.cons_ne_nil _ _)

/-! ### The empty storage -/

/-- Looking for record 0 in an empty storage creates its block. -/
theorem findBlocks_nil :
  findBlocks 0 ([] : List (Block blockContentSize)) = findBlocks 0 [Block.new blockContentSize]
  := rfl

/-- Block 0 alone keeps no free numbers, and no block is used. -/
theorem tracks_new (blockContentSize : Nat) :
  Tracks [Block.new blockContentSize] ⟨[], 0, []⟩ []
  := by
  constructor
  · exact .nil 0
  · rfl
  · intro cell hcell
    cases hcell
  · exact ⟨_, rfl, (Block.isClear_new blockContentSize).holds⟩
  · intro cell hcell
    cases hcell
  · exact List.Perm.refl _
  · exact Nat.one_le_two_pow

/-- Allocating a block from an empty storage is allocating one behind block 0. -/
theorem allocateBlock_nil :
  allocateBlock ([] : List (Block blockContentSize)) = allocateBlock [Block.new blockContentSize]
  := by
  apply EStateM.bind_congr_state
  apply EStateM.bind_congr_state
  apply EStateM.bind_congr_state
  exact findBlocks_nil

end Datatent.Records
