import Datatent.CoreOld.Records.SpaceTracking

/-!
# Records and their chains

`RecordAt` says that the storage keeps a record in a chain of blocks: the first block has no
block before it and knows the length of the record, and the contents of the blocks make up the
data. `find` reads such a record, and finds nothing in a block that is deleted or has a block
before it.
-/

namespace Datatent.Records

variable {blockContentSize : Nat}

/-- The header of a block in the chain of a record: the first block knows the length of the
record, and the others have a block before them. -/
structure Block.PlacedIn (block : Block blockContentSize) (recordId total id : Nat) : Prop where
  first : id = recordId → block.previousBlockId = 0 ∧ block.recordLength = total
  other : id ≠ recordId → block.previousBlockId ≠ 0

/-- The storage keeps a record in a chain of blocks. -/
structure RecordAt (s : List (Block blockContentSize)) (recordId total : Nat)
    (cells : List (Nat × Bytes)) : Prop where
  linked : Segment (link s) recordId (cells.map Prod.fst) 0
  nonempty : cells ≠ []
  holds : ∀ cell ∈ cells, HoldsAt s cell
  placed : ∀ cell ∈ cells, ∃ block, s[cell.1]? = some block ∧ block.PlacedIn recordId total cell.1

/-- A block that `find` takes for no record: it is deleted or has a block before it. -/
def Hidden (s : List (Block blockContentSize)) (id : Nat) : Prop :=
  ∃ block, s[id]? = some block ∧ (block.isDeleted = 1 ∨ block.previousBlockId ≠ 0)

section

variable {s s' : List (Block blockContentSize)} {id recordId total : Nat}
  {cells : List (Nat × Bytes)}

/-- An unchanged block stays hidden. -/
theorem Hidden.congr (h : Hidden s id) (hsame : s'[id]? = s[id]?) :
  Hidden s' id
  := by
  rw [Hidden, hsame]
  exact h

namespace RecordAt

/-- The number of a record is that of its first block. -/
theorem ids_eq (h : RecordAt s recordId total cells) :
  ∃ ids, cells.map Prod.fst = recordId :: ids
  := by
  obtain ⟨cell, cells, rfl⟩ := List.exists_cons_of_ne_nil h.nonempty
  obtain ⟨rfl, -⟩ := Segment.cons_iff.mp h.linked
  exact ⟨cells.map Prod.fst, rfl⟩

/-- The first block is one of the blocks of the record. -/
theorem mem_ids (h : RecordAt s recordId total cells) :
  recordId ∈ cells.map Prod.fst
  := by
  obtain ⟨ids, hids⟩ := h.ids_eq
  rw [hids]
  exact List.mem_cons_self

/-- A record depends only on its blocks. -/
theorem congr (h : RecordAt s recordId total cells)
    (hsame : ∀ id ∈ cells.map Prod.fst, s'[id]? = s[id]?) :
  RecordAt s' recordId total cells
  := by
  constructor
  · apply h.linked.congr
    intro id hid
    exact link_congr (hsame id hid)
  · exact h.nonempty
  · intro cell hcell
    exact (h.holds cell hcell).congr (hsame cell.1 (List.mem_map_of_mem hcell))
  · intro cell hcell
    rw [hsame cell.1 (List.mem_map_of_mem hcell)]
    exact h.placed cell hcell

/-- The first block of a record. -/
theorem exists_first (h : RecordAt s recordId total cells) :
  ∃ block, s[recordId]? = some block ∧ block.previousBlockId = 0 ∧ block.recordLength = total
  := by
  obtain ⟨cell, hcell, heq⟩ := List.mem_map.mp h.mem_ids
  obtain ⟨block, hblock, hplaced⟩ := h.placed cell hcell
  obtain ⟨hprevious, htotal⟩ := hplaced.first heq
  exact ⟨block, heq ▸ hblock, hprevious, htotal⟩

/-- The blocks of a record that are not its first one are hidden. -/
theorem hidden (h : RecordAt s recordId total cells) (hid : id ∈ cells.map Prod.fst)
    (hne : id ≠ recordId) :
  Hidden s id
  := by
  obtain ⟨cell, hcell, rfl⟩ := List.mem_map.mp hid
  obtain ⟨block, hblock, hplaced⟩ := h.placed cell hcell
  exact ⟨block, hblock, .inr (hplaced.other hne)⟩

/-- The blocks of a record are not deleted. -/
theorem exists_block (h : RecordAt s recordId total cells) (hid : id ∈ cells.map Prod.fst) :
  ∃ block, s[id]? = some block ∧ block.isDeleted = 0
  := by
  obtain ⟨cell, hcell, rfl⟩ := List.mem_map.mp hid
  obtain ⟨block, hblock, hholds⟩ := h.holds cell hcell
  exact ⟨block, hblock, hholds.isDeleted⟩

end RecordAt

/-! ### Finding a record -/

/-- Filling in the contents of the blocks of a chain. -/
theorem fillData_apply {a fuel bytesRead : Nat} {data : Bytes}
    (hlinked : Segment (link s) a (cells.map Prod.fst) 0) (hne : cells ≠ [])
    (hend : 0 ∉ cells.map Prod.fst) (hfuel : cells.length ≤ fuel)
    (hholds : ∀ cell ∈ cells, HoldsAt s cell)
    (hdata : bytesRead + (cells.flatMap Prod.snd).length ≤ data.length) :
  fillData fuel a data bytesRead s
    = .ok (Bytes.overwrite data bytesRead (cells.flatMap Prod.snd)) s
  := by
  induction cells generalizing a fuel bytesRead data with
  | nil => exact absurd rfl hne
  | cons cell cells ih =>
      obtain ⟨id, bytes⟩ := cell
      obtain ⟨rfl, next, hlink, hrest⟩ := Segment.cons_iff.mp hlinked
      obtain ⟨block, hblock, hblockHolds⟩ : ∃ block, s[a]? = some block ∧ block.Holds bytes :=
        hholds (a, bytes) List.mem_cons_self
      have hnext : block.nextBlockId % 2 ^ 32 = next := by
        rw [link, hblock] at hlink
        exact Option.some.inj hlink
      have hle := hblockHolds.length_le
      have hread : readContent a 0 bytes.length s
          = .ok ((block.content.drop 0).take bytes.length) s := by
        apply readContent_apply hblock
        omega
      rw [List.drop_zero, hblockHolds.content] at hread
      rw [List.flatMap_cons, List.length_append] at hdata
      change bytesRead + (bytes.length + (cells.flatMap Prod.snd).length) ≤ data.length at hdata
      cases fuel with
      | zero => exact absurd hfuel (Nat.not_succ_le_zero _)
      | succ fuel =>
          rw [fillData, EStateM.bind_apply_of_ok (getBlock_apply hblock), hblockHolds.length,
            if_neg (Nat.not_lt.mpr hle), EStateM.bind_apply_of_ok hread,
            if_neg (by omega)]
          rw [hnext, List.flatMap_cons]
          cases cells with
          | nil =>
              rw [List.map_nil, Segment.nil_iff] at hrest
              rw [if_pos hrest, List.flatMap_nil, List.append_nil]
              rfl
          | cons cell cells =>
              obtain ⟨rfl, -⟩ := Segment.cons_iff.mp hrest
              obtain ⟨nextBlock, hnextBlock, -⟩ :=
                hholds cell (List.mem_cons_of_mem _ List.mem_cons_self)
              have hzero : cell.1 ≠ 0 := by
                intro heq
                apply hend
                rw [List.map_cons, List.map_cons, heq]
                exact List.mem_cons_of_mem _ List.mem_cons_self
              rw [if_neg hzero, EStateM.bind_apply_of_ok (hasBlock_apply hnextBlock), if_pos rfl,
                ih hrest (List.cons_ne_nil _ _), Bytes.overwrite_append]
              · rw [Nat.add_assoc]
                exact hdata
              · intro hmem
                exact hend (List.mem_cons_of_mem _ hmem)
              · exact Nat.le_of_succ_le_succ hfuel
              · intro cell hcell
                exact hholds cell (List.mem_cons_of_mem _ hcell)
              · rw [Bytes.length_overwrite (by omega), Nat.add_assoc]
                exact hdata

/-- A record that is not too long is found. -/
theorem RecordAt.find_apply (h : RecordAt s recordId total cells)
    (hlength : (cells.flatMap Prod.snd).length = total) (hmax : total ≤ maxRecordSize)
    (hend : 0 ∉ cells.map Prod.fst) (hcells : cells.length ≤ s.length) :
  find recordId s = .ok (some (cells.flatMap Prod.snd)) s
  := by
  obtain ⟨block, hblock, hprevious, htotal⟩ := h.exists_first
  have hdeleted : block.isDeleted = 0 := by
    obtain ⟨block', hblock', hdeleted⟩ := h.exists_block h.mem_ids
    obtain rfl := Option.some.inj (hblock.symm.trans hblock')
    exact hdeleted
  have hdata : 0 + (cells.flatMap Prod.snd).length ≤ (List.replicate total (0 : UInt8)).length := by
    rw [List.length_replicate, hlength, Nat.zero_add]
  have hfuel : cells.length ≤ (total + 1) * s.length + 1 := by
    have hle : s.length ≤ (total + 1) * s.length :=
      Nat.le_mul_of_pos_left s.length (Nat.succ_pos total)
    omega
  have hfill := fillData_apply h.linked h.nonempty hend hfuel h.holds hdata
  rw [Bytes.overwrite_all (by rw [hlength, List.length_replicate])] at hfill
  rw [find, EStateM.bind_apply_of_ok (hasBlock_apply hblock), if_pos rfl,
    EStateM.bind_apply_of_ok (getBlock_apply hblock), if_neg (by omega), hprevious, htotal,
    if_neg (by omega), if_neg (Nat.not_lt.mpr hmax), EStateM.get_bind_apply,
    EStateM.bind_apply_of_ok hfill]
  rfl

/-- Nothing is found in a hidden block. -/
theorem Hidden.find_apply (h : Hidden s id) :
  find id s = .ok none s
  := by
  obtain ⟨block, hblock, hhidden⟩ := h
  rw [find, EStateM.bind_apply_of_ok (hasBlock_apply hblock), if_pos rfl,
    EStateM.bind_apply_of_ok (getBlock_apply hblock)]
  by_cases hdeleted : block.isDeleted = 1
  · rw [if_pos hdeleted]
    rfl
  · rw [if_neg hdeleted, if_pos (hhidden.resolve_left hdeleted)]
    rfl

/-! ### Writing a record -/

section

variable {done : List (Nat × Bytes)} {last next : Nat} {bytes bytes' : Bytes}
  {block block' : Block blockContentSize}

/-- A record in one block. -/
theorem RecordAt.single (hblock : s[id]? = some block) (hnext : block.nextBlockId = 0)
    (hprevious : block.previousBlockId = 0) (hholds : block.Holds bytes) :
  RecordAt s id block.recordLength [(id, bytes)]
  := by
  have hlink : link s id = some 0 := by
    rw [link, hblock, Option.map_some, hnext, Nat.zero_mod]
  constructor
  · exact Segment.cons hlink (Segment.nil 0)
  · exact List.cons_ne_nil _ _
  · intro cell hcell
    obtain rfl := List.mem_singleton.mp hcell
    exact ⟨block, hblock, hholds⟩
  · intro cell hcell
    obtain rfl := List.mem_singleton.mp hcell
    exact ⟨block, hblock, fun _ => ⟨hprevious, rfl⟩, fun hne => absurd rfl hne⟩

/-- Another content in the last block of a record. -/
theorem RecordAt.setLast (h : RecordAt s recordId total (done ++ [(last, bytes)]))
    (hblock : s[last]? = some block) (hblock' : s'[last]? = some block')
    (hnext : block'.nextBlockId = block.nextBlockId)
    (hprevious : block'.previousBlockId = block.previousBlockId)
    (htotal : block'.recordLength = block.recordLength) (hholds : block'.Holds bytes')
    (hother : ∀ id ∈ done.map Prod.fst, s'[id]? = s[id]?) :
  RecordAt s' recordId total (done ++ [(last, bytes')])
  := by
  have hlinked := h.linked
  rw [List.map_append, List.map_singleton, Segment.concat_iff] at hlinked
  constructor
  · rw [List.map_append, List.map_singleton, Segment.concat_iff]
    constructor
    · apply hlinked.1.congr
      intro id hid
      exact link_congr (hother id hid)
    · rw [link, hblock', Option.map_some, hnext, ← hlinked.2, link, hblock, Option.map_some]
  · exact List.append_ne_nil_of_right_ne_nil _ (List.cons_ne_nil _ _)
  · intro cell hcell
    rw [List.mem_append, List.mem_singleton] at hcell
    obtain hcell | rfl := hcell
    · apply (h.holds cell (List.mem_append_left _ hcell)).congr
      exact hother cell.1 (List.mem_map_of_mem hcell)
    · exact ⟨block', hblock', hholds⟩
  · intro cell hcell
    rw [List.mem_append, List.mem_singleton] at hcell
    obtain hcell | rfl := hcell
    · rw [hother cell.1 (List.mem_map_of_mem hcell)]
      exact h.placed cell (List.mem_append_left _ hcell)
    · obtain ⟨old, hold, hplaced⟩ := h.placed (last, bytes) (by simp)
      obtain rfl := Option.some.inj (hblock.symm.trans hold)
      refine ⟨block', hblock', ?_, ?_⟩
      · rw [hprevious, htotal]
        exact hplaced.first
      · rw [hprevious]
        exact hplaced.other

/-- A block put behind the last one of a record. -/
theorem RecordAt.extend (h : RecordAt s recordId total (done ++ [(last, bytes)]))
    (hblock : s[last]? = some block)
    (hblock' : s'[last]? = some { block with nextBlockId := next })
    (hnew : s'[next]? = some block') (hnext : block'.nextBlockId = 0)
    (hprevious : block'.previousBlockId ≠ 0) (hholds : block'.Holds bytes')
    (hother : ∀ id ∈ done.map Prod.fst, s'[id]? = s[id]?) (hlt : next < 2 ^ 32)
    (hne : next ≠ recordId) :
  RecordAt s' recordId total (done ++ [(last, bytes)] ++ [(next, bytes')])
  := by
  have hlinked := h.linked
  rw [List.map_append, List.map_singleton, Segment.concat_iff] at hlinked
  constructor
  · rw [List.map_append, List.map_append, List.map_singleton, List.map_singleton,
      Segment.concat_iff, Segment.concat_iff]
    refine ⟨⟨?_, ?_⟩, ?_⟩
    · apply hlinked.1.congr
      intro id hid
      exact link_congr (hother id hid)
    · rw [link, hblock', Option.map_some, Nat.mod_eq_of_lt hlt]
    · rw [link, hnew, Option.map_some, hnext, Nat.zero_mod]
  · exact List.append_ne_nil_of_right_ne_nil _ (List.cons_ne_nil _ _)
  · intro cell hcell
    rw [List.mem_append, List.mem_append, List.mem_singleton, List.mem_singleton] at hcell
    obtain (hcell | rfl) | rfl := hcell
    · apply (h.holds cell (List.mem_append_left _ hcell)).congr
      exact hother cell.1 (List.mem_map_of_mem hcell)
    · obtain ⟨old, hold, hholds⟩ := h.holds (last, bytes) (by simp)
      obtain rfl := Option.some.inj (hblock.symm.trans hold)
      exact ⟨_, hblock', hholds.isDeleted, hholds.length, hholds.content⟩
    · exact ⟨block', hnew, hholds⟩
  · intro cell hcell
    rw [List.mem_append, List.mem_append, List.mem_singleton, List.mem_singleton] at hcell
    obtain (hcell | rfl) | rfl := hcell
    · rw [hother cell.1 (List.mem_map_of_mem hcell)]
      exact h.placed cell (List.mem_append_left _ hcell)
    · obtain ⟨old, hold, hplaced⟩ := h.placed (last, bytes) (by simp)
      obtain rfl := Option.some.inj (hblock.symm.trans hold)
      exact ⟨_, hblock', hplaced.first, hplaced.other⟩
    · exact ⟨block', hnew, fun heq => absurd heq hne, fun _ => hprevious⟩

end

end

end Datatent.Records
