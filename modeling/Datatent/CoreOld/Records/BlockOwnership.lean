import Datatent.CoreOld.Records.RecordKeeping
import Datatent.CoreOld.Records.SpaceSession

/-!
# The owners of the blocks

Each block has one owner: record 0, which keeps the free numbers, the list of free numbers or a
live record. Neither `update` nor `delete` checks that its record is a live one; where the record
is live or the call comes upon no block to change, every block has one owner again.
-/

namespace Datatent.Records

variable {blockContentSize : Nat}

/-! ### Calls that change nothing -/

section

variable {s : List (Block blockContentSize)} {id : Nat}

/-- Updating a record that the storage has no block for. -/
theorem update_of_le (h : s.length ≤ id) (hne : id ≠ 0) (data : Bytes) :
  update id data s = .error .blockNotFound s
  := by
  have hfind : findBlocks id s = .error .blockNotFound s := by
    rw [findBlocks, EStateM.get_bind_apply, findBlocksFrom]
    apply EStateM.bind_apply_of_error
    rw [findOrCreate, EStateM.bind_apply_of_ok (hasBlock_apply_of_le h), if_neg Bool.false_ne_true,
      if_neg hne]
    rfl
  exact EStateM.bind_apply_of_error hfind _

/-- Updating a record whose first block is deleted. -/
theorem update_of_deleted {block : Block blockContentSize} (h : s[id]? = some block)
    (hdeleted : block.isDeleted = 1) (data : Bytes) :
  update id data s = .error .invalidData s
  := by
  have hfind : findBlocks id s = .error .invalidData s := by
    have hblock : findOrCreate id s = .ok block s := by
      rw [findOrCreate, EStateM.bind_apply_of_ok (hasBlock_apply h)]
      exact getBlock_apply h
    rw [findBlocks, EStateM.get_bind_apply, findBlocksFrom, EStateM.bind_apply_of_ok hblock,
      if_pos hdeleted]
    rfl
  exact EStateM.bind_apply_of_error hfind _

/-- Deleting a record that the storage has no block for. -/
theorem delete_of_le (h : s.length ≤ id) :
  delete id s = .error .nullReference s
  := by
  rw [delete, EStateM.bind_apply_of_ok (hasBlock_apply_of_le h), if_neg Bool.false_ne_true]
  rfl

/-- A record is not reported as absent. -/
theorem RecordAt.find_ne {total : Nat} {cells : List (Nat × Bytes)}
    (h : RecordAt s id total cells) (s' : List (Block blockContentSize)) :
  find id s ≠ .ok none s'
  := by
  obtain ⟨block, hblock, hprevious, htotal⟩ := h.exists_first
  obtain ⟨block', hblock', hdeleted⟩ := h.exists_block h.mem_ids
  obtain rfl := Option.some.inj (hblock.symm.trans hblock')
  rw [find, EStateM.bind_apply_of_ok (hasBlock_apply hblock), if_pos rfl,
    EStateM.bind_apply_of_ok (getBlock_apply hblock), if_neg (by omega), hprevious, htotal,
    if_neg (by omega)]
  split
  · exact fun hcall => by cases hcall
  · rw [EStateM.get_bind_apply]
    cases hfill : fillData ((total + 1) * s.length + 1) id (List.replicate total 0) 0 s with
    | ok data s' =>
        rw [EStateM.bind_apply_of_ok hfill]
        exact fun hcall => by cases hcall
    | error e s' =>
        rw [EStateM.bind_apply_of_error hfill]
        exact fun hcall => by cases hcall

/-- The blocks of a record are those of its chain. -/
theorem RecordAt.chainIds_eq {total : Nat} {cells : List (Nat × Bytes)}
    (h : RecordAt s id total cells) (hend : 0 ∉ cells.map Prod.fst)
    (hlength : (cells.map Prod.fst).length ≤ s.length) :
  chainIds s id = cells.map Prod.fst
  := by
  apply h.linked.placesFrom_eq _ _ hlength
  · rw [Ne, List.map_eq_nil_iff]
    exact h.nonempty
  · exact fun hzero => hend (List.mem_of_mem_tail hzero)

end

namespace RecordSession

/-! ### Ownership -/

/-- Every block has one owner: record 0, the list of free numbers or a live record. -/
def Owned (s : RecordSession blockContentSize) : Prop :=
  (chainIds s.blocks 0 ++ recordedIds s.blocks
    ++ (s.live.map Prod.fst).flatMap (chainIds s.blocks)).Perm (List.range s.blocks.length)

/-- Two blocks allocated one after the other are different. -/
def AllocatesApart (s : RecordSession blockContentSize) : Prop :=
  ∀ id blocks id' blocks', allocateBlock s.blocks = .ok id blocks →
    allocateBlock blocks = .ok id' blocks' → id ≠ id'

/-- Deleting a record that is reported as absent leaves the list of free numbers. -/
def LeavesFree (s : RecordSession blockContentSize) : RecordCall → Prop
  | .create _ => True
  | .update _ _ => True
  | .delete id => s.found id = some none →
      recordedIds (s.step (.delete id)).blocks = recordedIds s.blocks

/-- The calls of a client: no call is about record 0, and no record is updated with no data. -/
def Admitted : RecordCall → Prop
  | .create _ => True
  | .update id data => id ≠ 0 ∧ data ≠ []
  | .delete id => id ≠ 0

instance (call : RecordCall) : Decidable (Admitted call) :=
  match call with
  | .create _ => inferInstanceAs (Decidable True)
  | .update id data => inferInstanceAs (Decidable (id ≠ 0 ∧ data ≠ []))
  | .delete id => inferInstanceAs (Decidable (id ≠ 0))

/-- The call creates a record or is about a live one, or there is no block of its record; a call
that updates a record may also come upon a deleted block. -/
def Aimed (s : RecordSession blockContentSize) : RecordCall → Prop
  | .create _ => True
  | .update id _ => id ∈ s.live.map Prod.fst ∨ s.blocks.length ≤ id
      ∨ s.blocks[id]?.map Block.isDeleted = some 1
  | .delete id => id ∈ s.live.map Prod.fst ∨ s.blocks.length ≤ id

instance (s : RecordSession blockContentSize) (call : RecordCall) : Decidable (s.Aimed call) :=
  match call with
  | .create _ => inferInstanceAs (Decidable True)
  | .update id _ => inferInstanceAs (Decidable (id ∈ s.live.map Prod.fst ∨ s.blocks.length ≤ id
      ∨ s.blocks[id]?.map Block.isDeleted = some 1))
  | .delete id =>
      inferInstanceAs (Decidable (id ∈ s.live.map Prod.fst ∨ s.blocks.length ≤ id))

/-- How many blocks can be allocated: the free ones, those that keep their numbers except for the
first, and new ones. Where no number fits into a block, there are none once a second block is to
keep the numbers. -/
def available (s : RecordSession blockContentSize) : Nat :=
  let others := (chainIds s.blocks 0).tail
  let fresh := 2 ^ 32 - max 1 s.blocks.length
  if 4 ≤ blockContentSize then (recordedIds s.blocks).length + others.length + fresh
  else if others = [] then fresh
  else 0

/-- How many new blocks it takes to keep further numbers of free blocks behind those of the last
block that keeps them. -/
def growth (s : RecordSession blockContentSize) (count : Nat) : Nat :=
  ((numbersAt s.blocks ((chainIds s.blocks 0).getLastD 0)).length + count - 1)
    / (blockContentSize / 4)

/-- There are the blocks that the call needs, or it comes to nothing at once: a record that is
created takes all its blocks or none, the blocks that an updated record does not use any more are
all marked as free, and so are those of a deleted record, or none of them. -/
def HasRoom (s : RecordSession blockContentSize) : RecordCall → Prop
  | .create data =>
      max 1 (blocksFor blockContentSize data.length) ≤ s.available ∨ s.available = 0
  | .update id data =>
      id ∈ s.live.map Prod.fst →
        (chainIds s.blocks id).length ≤ blocksFor blockContentSize data.length
        ∨ (4 ≤ blockContentSize
          ∧ s.blocks.length + s.growth
            ((chainIds s.blocks id).length - blocksFor blockContentSize data.length) ≤ 2 ^ 32)
  | .delete id =>
      id ∈ s.live.map Prod.fst →
        blockContentSize < 4
        ∨ s.blocks.length + s.growth (chainIds s.blocks id).length ≤ 2 ^ 32
        ∨ 2 ^ 32 < s.blocks.length + s.growth 1

instance (s : RecordSession blockContentSize) (call : RecordCall) : Decidable (s.HasRoom call) :=
  match call with
  | .create _ => inferInstanceAs (Decidable (_ ∨ _))
  | .update _ _ => inferInstanceAs (Decidable (_ → _ ∨ _ ∧ _))
  | .delete _ => inferInstanceAs (Decidable (_ → _ ∨ _ ∨ _))

/-- The call is aimed at a record or at no block, and there is room for it. -/
def Sound (s : RecordSession blockContentSize) (call : RecordCall) : Prop :=
  Admitted call ∧ s.Aimed call ∧ s.HasRoom call

instance (s : RecordSession blockContentSize) (call : RecordCall) : Decidable (s.Sound call) :=
  inferInstanceAs (Decidable (_ ∧ _ ∧ _))

/-- Nothing was created yet, or each live record has its blocks. -/
def Housing (s : RecordSession blockContentSize) : Prop :=
  s = new blockContentSize ∨ ∃ t records, Housed s t records

end RecordSession

/-! ### The blocks of live records -/

namespace Housed

variable {s : RecordSession blockContentSize} {t : Tracker} {records : List Record} {r : Record}

/-- The blocks of a record are those of its chain. -/
theorem chainIds_eq (h : Housed s t (r :: records)) :
  chainIds s.blocks r.id = r.ids
  := by
  obtain ⟨total, hrecord⟩ := h.record r List.mem_cons_self
  have htracks := h.tracks
  rw [List.flatMap_cons] at htracks
  apply hrecord.chainIds_eq
  · exact fun hzero => htracks.ne_zero (List.mem_append_left _ hzero) rfl
  · exact htracks.length_used_le

/-- Where each live record has its blocks every block has one owner. -/
theorem owned (h : Housed s t records) :
  s.Owned
  := by
  have hchain : ∀ r ∈ records, chainIds s.blocks r.id = r.ids := by
    intro r hr
    obtain ⟨before, after, rfl⟩ := List.append_of_mem hr
    exact (h.perm List.perm_middle).chainIds_eq
  have hids : (records.map Record.id).flatMap (chainIds s.blocks)
      = records.flatMap Record.ids := by
    rw [List.flatMap_map]
    exact List.flatMap_congr hchain
  rw [RecordSession.Owned, h.tracks.chainIds_eq, h.tracks.recordedIds_eq]
  apply List.Perm.trans _ h.tracks.ids
  rw [← hids]
  exact List.Perm.append_left _ (h.live.flatMap_right _)

/-- The blocks that can be allocated are those that the stack of free numbers has. -/
theorem available_eq (h : Housed s t records) :
  s.available = t.available blockContentSize s.blocks.length
  := by
  have htail : t.ids.tail.length = t.full.length := by
    rw [List.length_tail, Tracker.ids, List.length_append, List.length_map,
      List.length_singleton, Nat.add_sub_cancel]
  have hnil : t.ids.tail = [] ↔ t.full = [] := by
    rw [← List.length_eq_zero_iff, htail, List.length_eq_zero_iff]
  have hlt := h.tracks.lt_length
    (List.mem_append_left _ (List.mem_append_left _ t.last_mem))
  rw [RecordSession.available, h.tracks.chainIds_eq, h.tracks.recordedIds_eq, Tracker.available,
    htail, Nat.max_eq_right (by omega)]
  split
  · rfl
  · simp only [hnil]

/-- Further numbers take the new blocks that the stack of free numbers needs. -/
theorem growth_eq (h : Housed s t records) (count : Nat) :
  s.growth count = t.growth (blockContentSize / 4) count
  := by
  have hlast : t.ids.getLastD 0 = t.last := by
    rw [List.getLastD_eq_getLast?, Tracker.ids, List.getLast?_concat, Option.getD_some]
  have hnumbers : numbersAt s.blocks t.last = t.entries := by
    apply numbersAt_eq h.tracks.holdsLast
    intro id hid
    exact h.tracks.free_lt (List.mem_append_right _ hid)
  rw [RecordSession.growth, h.tracks.chainIds_eq, hlast, hnumbers, Tracker.growth]

/-- After a record was created, or could not be. -/
theorem create (h : Housed s t records) (hsize : 0 < blockContentSize) {data : Bytes}
    (hroom : max 1 (blocksFor blockContentSize data.length)
        ≤ t.available blockContentSize s.blocks.length
      ∨ t.available blockContentSize s.blocks.length = 0) :
  ∃ t' records', Housed (s.step (.create data)) t' records'
  := by
  rw [RecordSession.step]
  cases hcall : Records.create data s.blocks with
  | ok id blocks =>
      obtain ⟨t', cells, htracks, hrecord, -, hkeeps⟩ := (create_spec hsize h.tracks data).ok hcall
      use t', ⟨id, cells⟩ :: records
      dsimp only
      rw [h.others_of_create hsize hcall]
      constructor
      · exact htracks
      · intro r hr
        obtain rfl | hr := List.mem_cons.mp hr
        · exact ⟨_, hrecord⟩
        · exact h.record_of_keeps (fun r hr => hr) hkeeps r hr
      · exact h.live.cons id
  | error e blocks =>
      obtain ⟨hfull, hsame⟩ := (create_spec hsize h.tracks data).error hcall
      obtain rfl := hsame (hroom.resolve_left (Nat.not_le_of_lt hfull))
      exact ⟨t, records, h⟩

/-- After a live record was updated with some data, or could not be. -/
theorem update (h : Housed s t (r :: records)) (hsize : 0 < blockContentSize)
    {data : Bytes} (hdata : data ≠ [])
    (hroom : r.cells.length ≤ blocksFor blockContentSize data.length
      ∨ (4 ≤ blockContentSize ∧ s.blocks.length + t.growth (blockContentSize / 4)
        (r.cells.length - blocksFor blockContentSize data.length) ≤ 2 ^ 32)) :
  ∃ t' records', Housed (s.step (.update r.id data)) t' records'
  := by
  obtain ⟨total, hrecord⟩ := h.record r List.mem_cons_self
  have htracks := h.tracks
  rw [List.flatMap_cons] at htracks
  have hspec := update_spec hsize htracks hrecord hdata
    (fun hless => (hroom.resolve_left (Nat.not_le_of_lt hless)).1)
  have hhoused : ∀ {blocks t' cells}, Tracks blocks t'
      (cells.map Prod.fst ++ records.flatMap Record.ids) →
      RecordAt blocks r.id data.length cells →
      Keeps s.blocks t (records.flatMap Record.ids) blocks t' →
      ∀ live deleted, live.map Prod.fst = s.live.map Prod.fst →
        Housed ⟨blocks, live, deleted⟩ t' (⟨r.id, cells⟩ :: records) := by
    intro blocks t' cells htracks' hrecord' hkeeps live deleted hlive
    constructor
    · exact htracks'
    · intro r' hr'
      obtain rfl | hr' := List.mem_cons.mp hr'
      · exact ⟨_, hrecord'⟩
      · exact h.record_of_keeps (fun r' hr' => List.mem_cons_of_mem _ hr') hkeeps r' hr'
    · rw [hlive]
      exact h.live
  rw [RecordSession.step]
  cases hcall : Records.update r.id data s.blocks with
  | ok _ blocks =>
      obtain ⟨t', cells, htracks', hrecord', -, hkeeps⟩ := hspec.ok hcall
      exact ⟨t', _, hhoused htracks' hrecord' hkeeps _ _ (s.map_fst_update r.id data)⟩
  | error e blocks =>
      obtain ⟨⟨t', cells, htracks', hrecord', hkeeps⟩, -⟩ | ⟨hless, hfull⟩ := hspec.error hcall
      · exact ⟨t', _, hhoused htracks' hrecord' hkeeps _ _ rfl⟩
      · obtain hle | ⟨-, hle⟩ := hroom
        · omega
        · omega

/-- After a live record was deleted, or could not be. -/
theorem delete (h : Housed s t (r :: records))
    (hroom : blockContentSize < 4
      ∨ s.blocks.length + t.growth (blockContentSize / 4) r.cells.length ≤ 2 ^ 32
      ∨ 2 ^ 32 < s.blocks.length + t.growth (blockContentSize / 4) 1) :
  ∃ t' records', Housed (s.step (.delete r.id)) t' records'
  := by
  obtain ⟨total, hrecord⟩ := h.record r List.mem_cons_self
  have htracks := h.tracks
  rw [List.flatMap_cons] at htracks
  rw [RecordSession.step]
  obtain hsmall | hnumber := Nat.lt_or_ge blockContentSize 4
  · have hspec := delete_small hsmall htracks hrecord
    cases hcall : Records.delete r.id s.blocks with
    | ok _ blocks => exact absurd (hspec.ok hcall) not_false
    | error e blocks =>
        obtain ⟨⟨t', htracks'⟩, hsame⟩ := hspec.error hcall
        refine ⟨t', r :: records, htracks', ?_, h.live⟩
        intro r' hr'
        obtain ⟨total', hrecord'⟩ := h.record r' hr'
        refine ⟨total', hrecord'.congr ?_⟩
        intro j hj
        apply hsame
        rw [← Record.ids, ← List.flatMap_cons]
        exact List.mem_flatMap.mpr ⟨r', hr', hj⟩
  · have hspec := delete_spec hnumber htracks hrecord
    cases hcall : Records.delete r.id s.blocks with
    | ok _ blocks =>
        obtain ⟨t', htracks', hkeeps⟩ := hspec.ok hcall
        refine ⟨t', records, htracks', ?_, h.others_perm⟩
        exact h.record_of_keeps (fun r' hr' => List.mem_cons_of_mem _ hr') hkeeps
    | error e blocks =>
        obtain ⟨hfull, hsame⟩ := hspec.error hcall
        obtain rfl := hsame (by omega)
        exact ⟨t, r :: records, h⟩

end Housed

namespace RecordSession

/-! ### Sound calls -/

section

variable {s : RecordSession blockContentSize} {call : RecordCall}

/-- In an empty storage all blocks but the first can be allocated. -/
theorem available_new (blockContentSize : Nat) :
  (new blockContentSize).available = 2 ^ 32 - 1
  := by
  have hchain : chainIds (new blockContentSize).blocks 0 = [] := rfl
  have hfree : recordedIds (new blockContentSize).blocks = [] := rfl
  have hlength : (new blockContentSize).blocks.length = 0 := rfl
  simp [available, hchain, hfree, hlength]

/-- In each moment every block has one owner. -/
theorem Housing.owned (h : s.Housing) :
  s.Owned
  := by
  obtain rfl | ⟨t, records, hhoused⟩ := h
  · exact List.Perm.refl _
  · exact hhoused.owned

/-- In each moment blocks are allocated apart. -/
theorem Housing.allocatesApart (h : s.Housing) :
  s.AllocatesApart
  := by
  have htracked : ∀ {blocks : List (Block blockContentSize)} {t : Tracker} {used : List Nat},
      Tracks blocks t used → ∀ id blocks' id' blocks'', allocateBlock blocks = .ok id blocks' →
        allocateBlock blocks' = .ok id' blocks'' → id ≠ id' := by
    intro blocks t used htracks id blocks' id' blocks'' hfirst hsecond
    obtain ⟨t', hallocated⟩ := htracks.allocateBlock_spec.ok hfirst
    obtain ⟨t'', hallocated'⟩ := hallocated.tracks.allocateBlock_spec.ok hsecond
    have hnodup := (List.nodup_append.mp hallocated'.tracks.nodup).2.1
    rintro rfl
    exact (List.nodup_cons.mp hnodup).1 List.mem_cons_self
  obtain rfl | ⟨t, records, hhoused⟩ := h
  · intro id blocks id' blocks' hfirst
    change allocateBlock [] = .ok id blocks at hfirst
    rw [allocateBlock_nil] at hfirst
    exact htracked (tracks_new blockContentSize) id blocks id' blocks' hfirst
  · exact htracked hhoused.tracks

/-- A call about a record without blocks throws, and changes nothing. -/
theorem step_of_le (hadmitted : Admitted call) {id : Nat} (habout : about call = some id)
    (hle : s.blocks.length ≤ id) :
  s.step call = s
  := by
  cases call with
  | create data => cases habout
  | update id' data =>
      cases habout
      rw [RecordSession.step, update_of_le hle hadmitted.1]
  | delete id' =>
      cases habout
      rw [RecordSession.step, delete_of_le hle]

/-- After a sound call each live record has its blocks again. -/
theorem Housing.step (h : s.Housing) (hsize : 0 < blockContentSize) (hsound : s.Sound call) :
  (s.step call).Housing
  := by
  obtain ⟨hadmitted, haimed, hroom⟩ := hsound
  cases call with
  | create data =>
      obtain rfl | ⟨t, records, hhoused⟩ := h
      · rw [step_create_new]
        right
        apply (layout_new blockContentSize).housed.create hsize
        rw [Tracker.available_empty]
        rwa [HasRoom, available_new] at hroom
      · rw [HasRoom, hhoused.available_eq] at hroom
        exact .inr (hhoused.create hsize hroom)
  | update id data =>
      obtain hlive | hle | hdeleted := haimed
      · obtain rfl | ⟨t, records, hhoused⟩ := h
        · cases hlive
        · have hfits := hroom hlive
          obtain ⟨r, records, hhoused, rfl⟩ := hhoused.exists_record hlive
          rw [hhoused.chainIds_eq, hhoused.growth_eq, Record.ids, List.length_map] at hfits
          exact .inr (hhoused.update hsize hadmitted.2 hfits)
      · rw [step_of_le hadmitted rfl hle]
        exact h
      · obtain ⟨block, hblock, hdeleted⟩ := Option.map_eq_some_iff.mp hdeleted
        rw [RecordSession.step, update_of_deleted hblock hdeleted]
        exact h
  | delete id =>
      obtain hlive | hle := haimed
      · obtain rfl | ⟨t, records, hhoused⟩ := h
        · cases hlive
        · have hfits := hroom hlive
          obtain ⟨r, records, hhoused, rfl⟩ := hhoused.exists_record hlive
          rw [hhoused.chainIds_eq, hhoused.growth_eq, hhoused.growth_eq, Record.ids,
            List.length_map] at hfits
          exact .inr (hhoused.delete hfits)
      · rw [step_of_le hadmitted rfl hle]
        exact h

/-- A sound call that deletes an absent record leaves the list of free numbers. -/
theorem Housing.leavesFree (h : s.Housing) (hsound : s.Sound call) :
  s.LeavesFree call
  := by
  obtain ⟨hadmitted, haimed, -⟩ := hsound
  cases call with
  | create data => trivial
  | update id data => trivial
  | delete id =>
      intro hfound
      obtain hlive | hle := haimed
      · obtain rfl | ⟨t, records, hhoused⟩ := h
        · cases hlive
        · obtain ⟨r, records, hhoused, rfl⟩ := hhoused.exists_record hlive
          obtain ⟨total, hrecord⟩ := hhoused.record r List.mem_cons_self
          rw [found] at hfound
          split at hfound
          · rename_i data blocks hfind
            cases hfound
            exact absurd hfind (hrecord.find_ne blocks)
          · cases hfound
      · rw [step_of_le hadmitted rfl hle]

end

/-- In a session of sound calls every block has one owner at each moment, blocks are allocated
apart, and deleting an absent record leaves the list of free numbers. -/
theorem owned_of_sound (hsize : 0 < blockContentSize) {calls : List RecordCall}
    (hsound : Run.Along step Sound (new blockContentSize) calls) :
  (∀ n, (Run.final step (new blockContentSize) (calls.take n)).Owned
      ∧ (Run.final step (new blockContentSize) (calls.take n)).AllocatesApart)
    ∧ Run.Along step LeavesFree (new blockContentSize) calls
  := by
  have hstep : ∀ (s : RecordSession blockContentSize) call, s.Housing → s.Sound call →
      (s.step call).Housing := fun s call h hcall => h.step hsize hcall
  constructor
  · intro n
    have hhousing := (hsound.take n).invariant hstep (.inl rfl)
    exact ⟨hhousing.owned, hhousing.allocatesApart⟩
  · apply Run.Along.imp hstep _ hsound (.inl rfl)
    exact fun s call h hcall => h.leavesFree hcall

/-- A record that is cut to one block and deleted, calls about records that there are not, and a
record in the blocks that are free then. -/
theorem owned_eight :
  (∀ n, (Run.final step (new 8) ([.create [1, 2, 3, 4, 5, 6, 7, 8, 9], .update 1 [4], .delete 1,
      .update 1 [4], .delete 9, .create [5, 6, 7, 8, 9, 10, 11, 12, 13]].take n)).Owned
      ∧ (Run.final step (new 8) ([.create [1, 2, 3, 4, 5, 6, 7, 8, 9], .update 1 [4], .delete 1,
        .update 1 [4], .delete 9,
        .create [5, 6, 7, 8, 9, 10, 11, 12, 13]].take n)).AllocatesApart)
    ∧ Run.Along step LeavesFree (new 8) [.create [1, 2, 3, 4, 5, 6, 7, 8, 9], .update 1 [4],
      .delete 1, .update 1 [4], .delete 9, .create [5, 6, 7, 8, 9, 10, 11, 12, 13]]
  := owned_of_sound (by decide) (by decide)

/-- In every session of admitted calls every block has one owner. -/
def OwnsBlocks (blockContentSize : Nat) : Prop :=
  ∀ calls : List RecordCall, (∀ call ∈ calls, Admitted call) →
    (∀ n, (Run.final step (new blockContentSize) (calls.take n)).Owned
        ∧ (Run.final step (new blockContentSize) (calls.take n)).AllocatesApart)
      ∧ Run.Along step LeavesFree (new blockContentSize) calls

/-- A record that is deleted twice is twice on the list of free numbers. -/
theorem not_ownsBlocks :
  ¬ OwnsBlocks 8
  := by
  intro h
  obtain ⟨howned, -⟩ := h [.create [7], .delete 1, .delete 1] (by decide)
  have hlength := (howned 3).1.length_eq
  exact absurd hlength (by decide)

end RecordSession

end Datatent.Records
