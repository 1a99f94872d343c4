import Datatent.CoreOld.Records.FollowingSpace
import Datatent.CoreOld.Records.RecordOperations

/-!
# The operations on records over open blocks

Where an operation on records over the array returns, the program for it comes to the same over
open blocks, and has disposed of everything it opened. While it is at work the objects that are
open are those of used blocks (`Working`), so that neither the blocks of record 0 nor a free block
are asked for when an object is open for them.
-/

namespace Datatent.RecordStorage

open Blocks Records

variable {blockContentSize : Nat} {α : Type}

/-- The free numbers are tracked, and what is open are objects of used blocks. -/
structure Working (s : OpenBlocks blockContentSize) (t : Tracker) (used : List Nat)
    (objects : List BlockObject) : Prop where
  tracks : Tracks s.blocks t used
  isOpen : ∀ block ∈ objects, s.IsOpen block
  used : ∀ block ∈ objects, block.id.toNat ∈ used
  closed : ∀ blockId, (∀ block ∈ objects, blockId ≠ block.id) → s.serials blockId = none

namespace Working

variable {s s' : OpenBlocks blockContentSize} {t : Tracker} {used ids : List Nat}
  {objects objects' : List BlockObject} {block : BlockObject} {id : Nat}
  {blocks : List (Records.Block blockContentSize)}

/-- No object is open for a block that is not used. -/
theorem closed_of (h : Working s t used objects) (hids : ∀ id ∈ ids, id ∉ used) :
  Closed s ids
  := by
  intro blockId hmem
  apply h.closed
  rintro block hblock rfl
  exact hids _ hmem (h.used block hblock)

/-- No object is open for a block that keeps free numbers. -/
theorem closed_ids (h : Working s t used objects) :
  Closed s t.ids
  := h.closed_of fun _ hid => h.tracks.notMem_used hid

/-- No object is open for the next new block. -/
theorem closed_length (h : Working s t used objects) :
  Closed s [s.blocks.length]
  := by
  apply h.closed_of
  intro id hid hused
  obtain rfl := List.mem_singleton.mp hid
  exact Nat.lt_irrefl _ (h.tracks.lt_length (List.mem_append_right _ hused))

/-- A used block is changed. -/
theorem modify (h : Working s t used objects)
    {f : Records.Block blockContentSize → Records.Block blockContentSize} (hid : id ∈ used)
    (hblocks : s'.blocks = s.blocks.modify id f) (hserials : s'.serials = s.serials) :
  Working s' t used objects
  := by
  constructor
  · rw [hblocks]
    exact h.tracks.modify f (h.tracks.notMem_ids hid)
  · exact fun block hblock => isOpen_congr (h.isOpen block hblock) hserials
  · exact h.used
  · rw [hserials]
    exact h.closed

/-- An object is disposed of. -/
theorem close (h : Working s t used objects) (hblocks : s'.blocks = s.blocks)
    (hserials : s'.serials = Function.update s.serials block.id none)
    (hsub : ∀ other ∈ objects', other ∈ objects ∧ other.id ≠ block.id)
    (hrest : ∀ other ∈ objects, other.id ≠ block.id → other ∈ objects') :
  Working s' t used objects'
  := by
  constructor
  · rw [hblocks]
    exact h.tracks
  · intro other hother
    obtain ⟨hmem, hne⟩ := hsub other hother
    rw [OpenBlocks.IsOpen, hserials, Function.update_of_ne hne]
    exact h.isOpen other hmem
  · exact fun other hother => h.used other (hsub other hother).1
  · intro blockId hne
    rw [hserials, Function.update_apply]
    split
    · rfl
    · rename_i hblock
      apply h.closed
      rintro other hother rfl
      exact hne other (hrest other hother hblock) rfl

/-- The object of a used block is the only one that is open. -/
theorem singleton (htracks : Tracks s.blocks t used) (hopen : s.IsOpen block)
    (hused : block.id.toNat ∈ used)
    (hclosed : ∀ blockId, blockId ≠ block.id → s.serials blockId = none) :
  Working s t used [block]
  := by
  constructor
  · exact htracks
  · intro other hother
    obtain rfl := List.mem_singleton.mp hother
    exact hopen
  · intro other hother
    obtain rfl := List.mem_singleton.mp hother
    exact hused
  · exact fun blockId hne => hclosed blockId (hne block (List.mem_singleton_self _))

/-- Only one object is open. -/
theorem closed_ne (h : Working s t used [block]) {blockId : UInt32} (hne : blockId ≠ block.id) :
  s.serials blockId = none
  := by
  apply h.closed
  intro other hother
  obtain rfl := List.mem_singleton.mp hother
  exact hne

/-- An object is opened for another block, and the only one that was open before is disposed
of. -/
theorem replace {s₁ s₂ : OpenBlocks blockContentSize} {t' : Tracker} {used' : List Nat}
    {other : BlockObject} (h : Working s t used [block]) (hserials₁ : s₁.serials = s.serials)
    (hopened : Opened s₁ other s₂) (hne : other.id ≠ block.id)
    (hserials : s'.serials = Function.update s₂.serials block.id none)
    (htracks : Tracks s'.blocks t' used') (hused : other.id.toNat ∈ used') :
  Working s' t' used' [other]
  := by
  apply singleton htracks _ hused
  · intro blockId hother
    rw [hserials, Function.update_apply]
    split
    · rfl
    · rename_i hblock
      rw [hopened.other blockId hother, hserials₁]
      exact h.closed_ne hblock
  · rw [OpenBlocks.IsOpen, hserials, Function.update_of_ne hne]
    exact hopened.isOpen

/-- The only object that is open is disposed of, or was before. -/
theorem close_last (h : Working s t used [block])
    (hserials : s'.serials = Function.update s.serials block.id none) :
  s'.serials = fun _ => none
  := by
  funext blockId
  rw [hserials, Function.update_apply]
  split
  · rfl
  · rename_i hne
    exact h.closed_ne hne

/-- Nothing is open. -/
theorem of_tracks (htracks : Tracks s.blocks t used) (hserials : s.serials = fun _ => none) :
  Working s t used []
  := by
  constructor
  · exact htracks
  · exact fun block hblock => absurd hblock List.not_mem_nil
  · exact fun block hblock => absurd hblock List.not_mem_nil
  · exact fun blockId _ => congrFun hserials blockId

/-- A block is opened for use. -/
theorem opened (h : Working s t used objects) {s' : OpenBlocks blockContentSize} {t' : Tracker}
    (htracks : Tracks s'.blocks t' (id :: used)) (hid : block.id.toNat = id)
    (hopened : Opened s block s') :
  Working s' t' (id :: used) (block :: objects)
  := by
  have hnotMem : id ∉ used := (List.nodup_cons.mp (List.nodup_append.mp htracks.nodup).2.1).1
  constructor
  · exact htracks
  · intro other hother
    obtain rfl | hother := List.mem_cons.mp hother
    · exact hopened.isOpen
    · rw [OpenBlocks.IsOpen, hopened.other]
      · exact h.isOpen other hother
      · intro heq
        apply hnotMem
        rw [← hid, ← heq]
        exact h.used other hother
  · intro other hother
    obtain rfl | hother := List.mem_cons.mp hother
    · rw [hid]
      exact List.mem_cons_self
    · exact List.mem_cons_of_mem _ (h.used other hother)
  · intro blockId hne
    rw [hopened.other blockId (hne block List.mem_cons_self)]
    exact h.closed blockId fun other hother => hne other (List.mem_cons_of_mem _ hother)

/-- Allocating a block. -/
theorem runs_allocateBlock (h : Working s t used objects)
    (hint : blockContentSize < 2 ^ 31) {Q : BlockObject → OpenBlocks blockContentSize → Prop}
    (hx : Records.allocateBlock s.blocks = .ok id blocks)
    (hQ : ∀ block s' t', block.id.toNat = id → s'.blocks = blocks →
      Working s' t' (id :: used) (block :: objects) → Q block s') :
  Runs allocateBlock s Q
  := by
  obtain ⟨t', hallocated⟩ := h.tracks.allocateBlock_spec.ok hx
  have htracks := hallocated.tracks
  have hclosed : Closed s [id] := by
    apply h.closed_of
    intro j hj
    obtain rfl := List.mem_singleton.mp hj
    exact (List.nodup_cons.mp (List.nodup_append.mp htracks.nodup).2.1).1
  apply RecordStorage.runs_allocateBlock hint (.of_tracks h.tracks h.closed_ids) hx hclosed
  rintro block s' hid hopened rfl
  exact hQ block s' t' hid rfl (h.opened htracks hid hopened)

/-- Marking a used block as free. -/
theorem runs_markAsFree (h : Working s t used objects) (hint : blockContentSize < 2 ^ 31)
    {Q : Unit → OpenBlocks blockContentSize → Prop} {blockId : UInt32}
    (hx : Records.markAsFree blockId.toNat s.blocks = .ok () blocks)
    (hQ : ∀ s', s'.blocks = blocks → s'.serials = s.serials → Q () s') :
  Runs (markAsFree blockContentSize blockId) s Q
  := RecordStorage.runs_markAsFree hint h.tracks h.closed_ids h.closed_length hx hQ

end Working

/-! ### Creating a record -/

section

variable {blocks : List (Records.Block blockContentSize)}

/-- Writing data from a block on, to it and to blocks that are allocated. -/
theorem runs_writeData (hsize : 4 ≤ blockContentSize) (hint : blockContentSize < 2 ^ 31)
    {data : Bytes} (hdata : data.length < 2 ^ 31)
    {Q : Unit → OpenBlocks blockContentSize → Prop} (fuel : Nat) :
  ∀ {rounds : Nat} {block : BlockObject} {written : Nat} {s : OpenBlocks blockContentSize}
    {t : Tracker} {used : List Nat}, fuel ≤ rounds → Working s t used [block] →
    written ≤ data.length →
    Records.writeData fuel block.id.toNat (data.drop written) s.blocks = .ok () blocks →
    (∀ s', s'.blocks = blocks → (s'.serials = fun _ => none) → Q () s') →
    Runs (writeData blockContentSize data rounds block written) s Q
  := by
  induction fuel with
  | zero =>
      intro rounds block written s t used _ _ _ hx
      cases hx
  | succ fuel ih =>
      intro rounds block written s t used hrounds hworking hwritten hx h
      obtain ⟨rounds, rfl⟩ := Nat.exists_eq_succ_of_ne_zero (by omega : rounds ≠ 0)
      rw [Records.writeData, List.length_drop] at hx
      have hopen := hworking.isOpen block (List.mem_singleton_self _)
      have hused := hworking.used block (List.mem_singleton_self _)
      have hlength : ((data.drop written).take
          (min blockContentSize (data.length - written))).length
          = min blockContentSize (data.length - written) := by
        rw [List.length_take, List.length_drop]
        omega
      have hsmall : ∀ blockId : UInt32, blockId.toNat < 2 ^ 63 := by
        intro blockId
        have hlt := blockId.toNat_lt
        omega
      obtain ⟨_, _, hwrite, hx⟩ := EStateM.bind_eq_ok.mp hx
      obtain ⟨hle, rfl⟩ := writeContent_eq_ok hwrite
      obtain ⟨_, _, hset, hx⟩ := EStateM.bind_eq_ok.mp hx
      obtain rfl := setBlock_eq_ok hset
      rw [writeData]
      apply Program.Ends.bind
      apply runs_disposing
      apply Program.Ends.bind
      apply @runs_writeContent _ s block _ data _ written 0 _ hopen rfl hlength hdata hle
      · intro s₁ hblocks₁ hserials₁
        have hworking₁ := hworking.modify hused hblocks₁ hserials₁
        apply Program.Ends.bind
        apply runs_setHeader (isOpen_congr hopen hserials₁) rfl (by omega)
        intro s₂ hblocks₂ hserials₂
        have hworking₂ := hworking₁.modify hused hblocks₂ hserials₂
        have hopen₂ := isOpen_congr hopen (hserials₂.trans hserials₁)
        have hsame₂ : s₂.blocks = s₁.blocks.modify block.id.toNat (fun block =>
            { block with
              blockContentLength := min blockContentSize (data.length - written) }) :=
          hblocks₂
        rw [← hblocks₁, ← hsame₂] at hx
        split at hx
        · rename_i hmore
          rw [if_pos (by omega)]
          obtain ⟨next, _, hallocate, hx⟩ := EStateM.bind_eq_ok.mp hx
          obtain ⟨_, _, hset, hx⟩ := EStateM.bind_eq_ok.mp hx
          obtain rfl := setBlock_eq_ok hset
          obtain ⟨_, _, hset, hx⟩ := EStateM.bind_eq_ok.mp hx
          obtain rfl := setBlock_eq_ok hset
          apply Program.Ends.bind
          apply hworking₂.runs_allocateBlock hint hallocate
          rintro nextBlock s₃ t₃ rfl rfl hworking₃
          have hopenNext := hworking₃.isOpen nextBlock List.mem_cons_self
          have hopen₃ := hworking₃.isOpen block (List.mem_cons_of_mem _ (List.mem_singleton_self _))
          have hused₃ : block.id.toNat ∈ nextBlock.id.toNat :: used := List.mem_cons_of_mem _ hused
          apply Program.Ends.bind
          apply Program.Ends.onError
          apply Program.Ends.bind
          apply runs_setHeader hopenNext rfl (hsmall _)
          intro s₄ hblocks₄ hserials₄
          have hworking₄ := hworking₃.modify List.mem_cons_self hblocks₄ hserials₄
          apply runs_setHeader (isOpen_congr hopen₃ hserials₄) rfl (hsmall _)
          intro s₅ hblocks₅ hserials₅
          have hworking₅ := hworking₄.modify hused₃ hblocks₅ hserials₅
          apply Program.Ends.pure
          refine ⟨.inl (isOpen_congr hopen₃ (hserials₅.trans hserials₄)), ?_⟩
          intro s₆ hblocks₆ hserials₆
          have hne : nextBlock.id ≠ block.id := by
            intro heq
            apply (List.nodup_cons.mp (List.nodup_append.mp hworking₃.tracks.nodup).2.1).1
            rw [heq]
            exact hused
          have hworking₆ : Working s₆ t₃ (nextBlock.id.toNat :: used) [nextBlock] := by
            apply hworking₅.close hblocks₆ hserials₆
            · intro other hother
              obtain rfl := List.mem_singleton.mp hother
              exact ⟨List.mem_cons_self, hne⟩
            · intro other hother hother'
              obtain rfl | hother := List.mem_cons.mp hother
              · exact List.mem_singleton_self _
              · obtain rfl := List.mem_singleton.mp hother
                exact absurd rfl hother'
          apply ih (Nat.le_of_succ_le_succ hrounds) hworking₆ (by omega) _ h
          rw [hblocks₆, hblocks₅, hblocks₄, ← List.drop_drop]
          exact hx
        · rename_i hdone
          rw [if_neg (by omega)]
          obtain ⟨-, hblocks⟩ := pure_eq_ok hx
          apply Program.Ends.pure
          refine ⟨.inl hopen₂, fun s₃ hblocks₃ hserials₃ => ?_⟩
          apply Program.Ends.pure
          exact h s₃ (hblocks₃.trans hblocks) (hworking₂.close_last hserials₃)
      · omega

end

section

variable {s : OpenBlocks blockContentSize} {blocks : List (Records.Block blockContentSize)}
  {id : Nat}

/-- Allocating a block while nothing is open, be it that block 0 was created before or not. -/
theorem runs_allocateFirst (hint : blockContentSize < 2 ^ 31)
    {Q : BlockObject → OpenBlocks blockContentSize → Prop} (hclosed : s.serials = fun _ => none)
    (hbegun : s.blocks = [] ∨ ∃ t used, Tracks s.blocks t used)
    (hx : Records.allocateBlock s.blocks = .ok id blocks)
    (hQ : ∀ block s' t' used', block.id.toNat = id → s'.blocks = blocks →
      Working s' t' used' [block] →
      (∃ found, blocks[id]? = some found ∧ found.IsClear) → Q block s') :
  Runs allocateBlock s Q
  := by
  obtain hnil | ⟨t, used, htracks⟩ := hbegun
  · have hready := Ready.of_nil hnil hclosed
    have hfree : Closed s [id] := by
      intro blockId _
      rw [hclosed]
    apply RecordStorage.runs_allocateBlock hint hready hx hfree
    rintro block s' rfl hopened rfl
    rw [hnil, allocateBlock_nil] at hx
    obtain ⟨t', hallocated⟩ := (tracks_new blockContentSize).allocateBlock_spec.ok hx
    apply hQ block s' t' [block.id.toNat] rfl rfl _ hallocated.cleared
    constructor
    · exact hallocated.tracks
    · intro other hother
      obtain rfl := List.mem_singleton.mp hother
      exact hopened.isOpen
    · intro other hother
      obtain rfl := List.mem_singleton.mp hother
      exact List.mem_cons_self
    · intro blockId hne
      rw [hopened.other blockId (hne block (List.mem_singleton_self _)), hclosed]
  · obtain ⟨t', hallocated⟩ := htracks.allocateBlock_spec.ok hx
    apply (Working.of_tracks htracks hclosed).runs_allocateBlock hint hx
    intro block s' t'' hid hblocks hworking
    exact hQ block s' t'' _ hid hblocks hworking hallocated.cleared

/-- Creating a record with the data that is generated for its number. -/
theorem runs_createFrom (hsize : 4 ≤ blockContentSize) (hint : blockContentSize < 2 ^ 31)
    {dataGenerator : UInt32 → Bytes} {dataGenerator' : Nat → Bytes}
    (hgenerator : ∀ blockId, dataGenerator blockId = dataGenerator' blockId.toNat)
    (hdata : ∀ blockId, (dataGenerator blockId).length < 2 ^ 31)
    {Q : UInt32 → OpenBlocks blockContentSize → Prop} (hclosed : s.serials = fun _ => none)
    (hbegun : s.blocks = [] ∨ ∃ t used, Tracks s.blocks t used)
    (hx : Records.createFrom dataGenerator' s.blocks = .ok id blocks)
    (h : ∀ recordId s', recordId.toNat = id → s'.blocks = blocks →
      (s'.serials = fun _ => none) → Q recordId s') :
  Runs (createFrom blockContentSize dataGenerator) s Q
  := by
  obtain ⟨first, blocks₁, hallocate, hx⟩ := EStateM.bind_eq_ok.mp hx
  obtain ⟨_, _, hset, hx⟩ := EStateM.bind_eq_ok.mp hx
  obtain rfl := setBlock_eq_ok hset
  apply Program.Ends.bind
  apply runs_allocateFirst hint hclosed hbegun hallocate
  rintro firstBlock s₁ t used rfl rfl hworking -
  have hopen := hworking.isOpen firstBlock (List.mem_singleton_self _)
  have hused := hworking.used firstBlock (List.mem_singleton_self _)
  have hlength := hdata firstBlock.id
  rw [← hgenerator] at hx
  apply runs_disposing
  apply Program.Ends.bind
  apply runs_setHeader hopen rfl (by omega)
  intro s₂ hblocks₂ hserials₂
  have hworking₂ := hworking.modify hused hblocks₂ hserials₂
  have hsame₂ : s₂.blocks = s₁.blocks.modify firstBlock.id.toNat (fun block =>
      { block with recordLength := (dataGenerator firstBlock.id).length }) := hblocks₂
  rw [← hsame₂] at hx
  split at hx
  · rename_i hempty
    obtain ⟨rfl, hblocks⟩ := pure_eq_ok hx
    rw [if_pos hempty]
    apply Program.Ends.pure
    refine ⟨.inl (isOpen_congr hopen hserials₂), fun s₃ hblocks₃ hserials₃ => ?_⟩
    exact h firstBlock.id s₃ rfl (hblocks₃.trans hblocks) (hworking₂.close_last hserials₃)
  · rename_i hne
    obtain ⟨_, blocks₃, hwrite, hx⟩ := EStateM.bind_eq_ok.mp hx
    obtain ⟨rfl, rfl⟩ := pure_eq_ok hx
    have hrounds : (dataGenerator firstBlock.id).length ≤ maxRounds := by
      rw [maxRounds]
      omega
    rw [if_neg hne]
    apply Program.Ends.bind
    apply runs_writeData hsize hint hlength _ hrounds hworking₂ (Nat.zero_le _) hwrite
    intro s₃ hblocks₃ hserials₃
    apply Program.Ends.pure
    refine ⟨.inr (congrFun hserials₃ _), fun s₄ hblocks₄ hserials₄ => ?_⟩
    apply h firstBlock.id s₄ rfl (hblocks₄.trans hblocks₃)
    rw [hserials₄, hserials₃]
    exact Function.update_eq_self firstBlock.id _

/-- Creating a record without data. -/
theorem runs_createEmpty (hint : blockContentSize < 2 ^ 31)
    {Q : UInt32 → OpenBlocks blockContentSize → Prop} (hclosed : s.serials = fun _ => none)
    (hbegun : s.blocks = [] ∨ ∃ t used, Tracks s.blocks t used)
    (hx : Records.create [] s.blocks = .ok id blocks)
    (h : ∀ recordId s', recordId.toNat = id → s'.blocks = blocks →
      (s'.serials = fun _ => none) → Q recordId s') :
  Runs createEmpty s Q
  := by
  obtain ⟨first, blocks₁, hallocate, hx⟩ := EStateM.bind_eq_ok.mp hx
  obtain ⟨_, _, hset, hx⟩ := EStateM.bind_eq_ok.mp hx
  obtain rfl := setBlock_eq_ok hset
  obtain ⟨rfl, hblocks⟩ := pure_eq_ok hx
  apply Program.Ends.bind
  apply runs_allocateFirst hint hclosed hbegun hallocate
  rintro firstBlock s₁ t used rfl rfl hworking ⟨found, hfound, hclear⟩
  have hopen := hworking.isOpen firstBlock (List.mem_singleton_self _)
  apply runs_disposing
  apply Program.Ends.pure
  refine ⟨.inl hopen, fun s₂ hblocks₂ hserials₂ => ?_⟩
  apply h firstBlock.id s₂ rfl _ (hworking.close_last hserials₂)
  rw [hblocks₂, ← hblocks]
  have hkeep : found = { found with recordLength := 0 } := by
    conv_rhs => rw [← hclear.recordLength]
  have hsame := modify_congr hfound (f := fun block => block)
    (g := fun block => { block with recordLength := 0 }) hkeep
  exact (List.modify_id ..).symm.trans hsame

end

/-! ### Deleting a record -/

section

variable {blocks : List (Records.Block blockContentSize)}

/-- After a used block was marked as free and changed, the others are tracked as before. -/
theorem tracks_of_markAsFree (hsize : 4 ≤ blockContentSize)
    {s : List (Records.Block blockContentSize)} {t : Tracker} {id : Nat} {used : List Nat}
    (htracks : Tracks s t (id :: used)) (hmark : Records.markAsFree id s = .ok () blocks)
    (f : Records.Block blockContentSize → Records.Block blockContentSize) :
  blocks[id]? = s[id]? ∧ (∀ j ∈ used, (blocks.modify id f)[j]? = s[j]?)
    ∧ ∃ t', Tracks (blocks.modify id f) t' used
  := by
  obtain ⟨htracks', hother, -⟩ := (htracks.markAsFree_spec hsize).ok hmark
  have hsame : ∀ j ∈ id :: used, j ≠ s.length ∧ blocks[j]? = s[j]? := by
    intro j hj
    have hlt := htracks.lt_length (List.mem_append_right _ hj)
    have hne : j ≠ s.length := by omega
    exact ⟨hne, hother j (htracks.notMem_ids hj) hne⟩
  have hnotMem : id ∉ used := (List.nodup_cons.mp (List.nodup_append.mp htracks.nodup).2.1).1
  refine ⟨(hsame id List.mem_cons_self).2, ?_, _, htracks'.modify f ?_⟩
  · intro j hj
    have hne : j ≠ id := by
      rintro rfl
      exact hnotMem hj
    rw [modify_other _ hne]
    exact (hsame j (List.mem_cons_of_mem _ hj)).2
  · intro hpush
    obtain hpush | heq := Tracker.mem_ids_push hpush
    · exact htracks.notMem_ids List.mem_cons_self hpush
    · exact (hsame id List.mem_cons_self).1 heq

/-- Deleting the blocks of a chain from one on. -/
theorem runs_deleteFrom (hsize : 4 ≤ blockContentSize) (hint : blockContentSize < 2 ^ 31)
    {Q : Unit → OpenBlocks blockContentSize → Prop} {used : List Nat} (fuel : Nat) :
  ∀ {rounds : Nat} {block : BlockObject} {s : OpenBlocks blockContentSize} {t : Tracker}
    {ids : List Nat}, fuel ≤ rounds → Working s t (ids ++ used) [block] →
    Segment (link s.blocks) block.id.toNat ids 0 → ids ≠ [] →
    Records.deleteFrom fuel block.id.toNat s.blocks = .ok () blocks →
    (∀ s', s'.blocks = blocks → (s'.serials = fun _ => none) → Q () s') →
    Runs (deleteFrom blockContentSize rounds block) s Q
  := by
  induction fuel with
  | zero =>
      intro rounds block s t ids _ _ _ _ hx
      cases hx
  | succ fuel ih =>
      intro rounds block s t ids hrounds hworking hlinked hne hx h
      obtain ⟨rounds, rfl⟩ := Nat.exists_eq_succ_of_ne_zero (by omega : rounds ≠ 0)
      obtain ⟨a, ids, rfl⟩ := List.exists_cons_of_ne_nil hne
      obtain ⟨rfl, next, hlink, hrest⟩ := Segment.cons_iff.mp hlinked
      have htracks := hworking.tracks
      have hopen := hworking.isOpen block (List.mem_singleton_self _)
      have hmem : block.id.toNat ∈ block.id.toNat :: (ids ++ used) := List.mem_cons_self
      have hlt := htracks.lt_length (List.mem_append_right _ hmem)
      obtain ⟨found, hfound⟩ : ∃ found, s.blocks[block.id.toNat]? = some found :=
        ⟨_, List.getElem?_eq_getElem hlt⟩
      have hnext : found.nextBlockId % 2 ^ 32 = next := by
        rw [link, hfound] at hlink
        exact Option.some.inj hlink
      obtain ⟨_, blocks₁, hmark, hx⟩ := EStateM.bind_eq_ok.mp hx
      obtain ⟨hsame, hothers, t', htracks₂⟩ := tracks_of_markAsFree hsize htracks hmark
        (fun found => { found with isDeleted := 1 })
      obtain ⟨_, _, hset, hx⟩ := EStateM.bind_eq_ok.mp hx
      obtain rfl := setBlock_eq_ok hset
      have hfound₁ := hsame.trans hfound
      have hfound₂ := modify_same (fun found : Records.Block blockContentSize =>
        { found with isDeleted := 1 }) hfound₁
      rw [EStateM.bind_apply_of_ok (getBlock_apply hfound₂)] at hx
      dsimp only at hx
      rw [hnext] at hx
      have hnotMem : block.id.toNat ∉ ids ++ used :=
        (List.nodup_cons.mp (List.nodup_append.mp htracks.nodup).2.1).1
      rw [deleteFrom]
      apply Program.Ends.bind
      apply runs_disposing
      apply Program.Ends.bind
      apply hworking.runs_markAsFree hint hmark
      rintro s₁ rfl hserials₁
      apply Program.Ends.bind
      apply runs_setHeader (n := 1) (isOpen_congr hopen hserials₁) rfl (by decide)
      intro s₂ hblocks₂ hserials₂
      have hserials₂ := hserials₂.trans hserials₁
      have hopen₂ := isOpen_congr hopen hserials₂
      have hsame₂ : s₂.blocks = s₁.blocks.modify block.id.toNat (fun block =>
          { block with isDeleted := 1 }) := hblocks₂
      rw [← hsame₂] at hx hfound₂ htracks₂ hothers
      have hnextId : uint (Int64.ofNat found.nextBlockId) = UInt32.ofNat next := by
        rw [uint_ofNat, ← hnext]
        apply UInt32.toNat_inj.mp
        rw [UInt32.toNat_ofNat', UInt32.toNat_ofNat', Nat.mod_mod]
      have hheader : ({ found with isDeleted := 1 } : Records.Block blockContentSize).header
          kNextBlockId.toNat = found.nextBlockId := rfl
      apply Program.Ends.bind
      apply runs_getHeader hopen₂ hfound₂
      rw [hheader, hnextId]
      cases ids with
      | nil =>
          rw [Segment.nil_iff] at hrest
          subst hrest
          obtain ⟨-, hblocks⟩ := pure_eq_ok hx
          have hzero : UInt32.ofNat 0 = 0 := rfl
          rw [if_pos hzero]
          apply Program.Ends.pure
          refine ⟨.inl hopen₂, fun s₃ hblocks₃ hserials₃ => ?_⟩
          apply Program.Ends.pure
          apply h s₃ (hblocks₃.trans hblocks)
          apply hworking.close_last
          rw [hserials₃, hserials₂]
      | cons id ids =>
          obtain ⟨rfl, -⟩ := Segment.cons_iff.mp hrest
          have hnextMem : next ∈ next :: ids ++ used := List.mem_cons_self
          have hltNext := htracks₂.lt_length (List.mem_append_right _ hnextMem)
          have hlimit := htracks₂.length_le
          have htoNat : (UInt32.ofNat next).toNat = next :=
            UInt32.toNat_ofNat_of_lt' (hltNext.trans_le hlimit)
          have hne : UInt32.ofNat next ≠ 0 := by
            intro heq
            apply htracks₂.ne_zero hnextMem
            rw [← htoNat, heq]
            rfl
          have hneBlock : UInt32.ofNat next ≠ block.id := by
            intro heq
            apply hnotMem
            rw [← heq, htoNat]
            exact hnextMem
          rw [if_neg (htracks₂.ne_zero hnextMem),
            EStateM.bind_apply_of_ok (hasBlock_apply (List.getElem?_eq_getElem hltNext)),
            if_pos rfl] at hx
          rw [if_neg hne]
          apply Program.Ends.bind
          apply runs_findBlock
          · rw [hserials₂]
            exact hworking.closed_ne hneBlock
          · rw [htoNat]
            exact hltNext
          · rintro nextBlock s₃ hid hopened₃ hblocks₃
            apply Program.Ends.pure
            have hopen₃ : s₃.IsOpen block := by
              rw [OpenBlocks.IsOpen, hopened₃.other _ (hid ▸ hneBlock.symm)]
              exact hopen₂
            refine ⟨.inl hopen₃, fun s₄ hblocks₄ hserials₄ => ?_⟩
            have hblocks₄ := hblocks₄.trans hblocks₃
            have hidNext : nextBlock.id.toNat = next := by rw [hid, htoNat]
            rw [← hblocks₄] at htracks₂
            have hworking₄ : Working s₄ t' (next :: ids ++ used) [nextBlock] :=
              hworking.replace hserials₂ hopened₃ (hid ▸ hneBlock) hserials₄ htracks₂
                (hidNext.symm ▸ hnextMem)
            have hlinked₄ : Segment (link s₄.blocks) next (next :: ids) 0 := by
              apply hrest.congr
              intro j hj
              apply link_congr
              rw [hblocks₄]
              exact hothers j (List.mem_append_left _ hj)
            rw [← hidNext] at hworking₄ hlinked₄ hx
            rw [← hblocks₄] at hx
            exact ih (Nat.le_of_succ_le_succ hrounds) hworking₄ hlinked₄ (List.cons_ne_nil _ _)
              hx h

/-- Deleting a record. -/
theorem runs_delete (hsize : 4 ≤ blockContentSize) (hint : blockContentSize < 2 ^ 31)
    {Q : Unit → OpenBlocks blockContentSize → Prop} {s : OpenBlocks blockContentSize}
    {recordId : UInt32} {t : Tracker} {total : Nat} {cells : List (Nat × Bytes)}
    {used : List Nat} (htracks : Tracks s.blocks t (cells.map Prod.fst ++ used))
    (hrecord : RecordAt s.blocks recordId.toNat total cells)
    (hclosed : s.serials = fun _ => none)
    (hx : Records.delete recordId.toNat s.blocks = .ok () blocks)
    (h : ∀ s', s'.blocks = blocks → (s'.serials = fun _ => none) → Q () s') :
  Runs (delete blockContentSize recordId) s Q
  := by
  obtain ⟨found, hfound, -⟩ := hrecord.exists_first
  rw [Records.delete, EStateM.bind_apply_of_ok (hasBlock_apply hfound), if_pos rfl,
    EStateM.get_bind_apply] at hx
  have hne : cells.map Prod.fst ≠ [] := by
    rw [Ne, List.map_eq_nil_iff]
    exact hrecord.nonempty
  apply Program.Ends.bind
  apply runs_findBlock (congrFun hclosed _) (List.getElem?_eq_some_iff.mp hfound).1
  rintro block s₁ rfl hopened hblocks₁
  rw [← hblocks₁] at hx
  have hworking : Working s₁ t (cells.map Prod.fst ++ used) [block] := by
    apply Working.singleton (hblocks₁ ▸ htracks) hopened.isOpen
      (List.mem_append_left _ hrecord.mem_ids)
    intro blockId hother
    rw [hopened.other blockId hother, hclosed]
  have hlinked := hrecord.linked
  rw [← hblocks₁] at hlinked
  have hlength := hworking.tracks.length_le
  have hrounds : s₁.blocks.length + 1 ≤ maxRounds := Nat.succ_le_succ hlength
  apply runs_disposing
  apply runs_deleteFrom hsize hint _ hrounds hworking hlinked hne
  · rw [hblocks₁] at hx ⊢
    exact hx
  · intro s₂ hblocks₂ hserials₂
    refine ⟨.inr (congrFun hserials₂ _), fun s₃ hblocks₃ hserials₃ => ?_⟩
    apply h s₃ (hblocks₃.trans hblocks₂)
    rw [hserials₃, hserials₂]
    exact Function.update_eq_self block.id _

end

/-! ### Finding a record -/

section

variable {s : OpenBlocks blockContentSize} {recordId : UInt32}

/-- Filling in the contents of the blocks from one on. -/
theorem runs_fillData (hint : blockContentSize < 2 ^ 31) {result : Bytes}
    {blocks : List (Records.Block blockContentSize)}
    {Q : Bytes → OpenBlocks blockContentSize → Prop} (fuel : Nat) :
  ∀ {rounds : Nat} {block : BlockObject} {data : Bytes} {bytesRead : Nat}
    {s : OpenBlocks blockContentSize}, fuel ≤ rounds → data.length < 2 ^ 31 →
    s.IsOpen block → (∀ blockId, blockId ≠ block.id → s.serials blockId = none) →
    Records.fillData fuel block.id.toNat data bytesRead s.blocks = .ok result blocks →
    (∀ s', s'.blocks = blocks → (s'.serials = fun _ => none) → Q result s') →
    Runs (fillData blockContentSize rounds block data bytesRead) s Q
  := by
  induction fuel with
  | zero =>
      intro rounds block data bytesRead s _ _ _ _ hx
      cases hx
  | succ fuel ih =>
      intro rounds block data bytesRead s hrounds hdata hopen hclosed hx h
      obtain ⟨rounds, rfl⟩ := Nat.exists_eq_succ_of_ne_zero (by omega : rounds ≠ 0)
      obtain ⟨found, _, hget, hx⟩ := EStateM.bind_eq_ok.mp hx
      obtain ⟨rfl, hfound⟩ := getBlock_eq_ok hget
      split at hx
      · cases hx
      · rename_i hle
        rw [EStateM.bind_apply_of_ok (readContent_apply hfound (by omega)), List.drop_zero] at hx
        split at hx
        · cases hx
        · rename_i hroom
          have hroom := Nat.le_of_not_lt hroom
          have hinside : 0 + found.blockContentLength ≤ blockContentSize :=
            (Nat.zero_add _).trans_le (Nat.le_of_not_lt hle)
          have hheader : found.header kBlockContentLength.toNat = found.blockContentLength := rfl
          have hheader' : found.header kNextBlockId.toNat = found.nextBlockId := rfl
          have htoInt := Int64.toInt_ofNat_of_lt
            (by omega : found.blockContentLength < 2 ^ 63)
          have hsum : int ((bytesRead : Int) + found.blockContentLength)
              = ((bytesRead + found.blockContentLength : Nat) : Int) := by
            rw [int_eq (by omega) (by omega)]
            rfl
          have hnext : (uint (Int64.ofNat found.nextBlockId)).toNat
              = found.nextBlockId % 2 ^ 32 := by
            rw [uint_ofNat, UInt32.toNat_ofNat']
          rw [fillData]
          apply Program.Ends.bind
          apply runs_disposing
          apply Program.Ends.bind
          apply runs_getHeader hopen hfound
          rw [hheader, htoInt, if_neg (fun hlt => hle (Int.ofNat_lt.mp hlt)), ← htoInt]
          apply Program.Ends.bind
          rw [int_ofNat (by omega)]
          apply @runs_readContent _ s block found _ data bytesRead 0 _ hopen hfound hinside hroom
            hdata
          apply Program.Ends.bind
          apply runs_getHeader hopen hfound
          apply Program.Ends.pure
          refine ⟨.inl hopen, fun s₁ hblocks₁ hserials₁ => ?_⟩
          have hclosed₁ : s₁.serials = fun _ => none := by
            funext blockId
            rw [hserials₁, Function.update_apply]
            split
            · rfl
            · rename_i hne
              exact hclosed blockId hne
          have hdata₁ : (Bytes.overwrite data bytesRead
              (found.content.take found.blockContentLength)).length < 2 ^ 31 := by
            rw [Bytes.length_overwrite]
            · exact hdata
            · rw [List.length_take]
              exact (Nat.add_le_add_left (Nat.min_le_left _ _) _).trans hroom
          dsimp only at hx ⊢
          rw [hheader', hsum, List.drop_zero]
          split at hx
          · rename_i hzero
            obtain ⟨rfl, hblocks⟩ := pure_eq_ok hx
            have heq : uint (Int64.ofNat found.nextBlockId) = 0 :=
              UInt32.toNat_inj.mp (hnext.trans hzero)
            rw [if_pos heq]
            apply Program.Ends.pure
            exact h s₁ (hblocks₁.trans hblocks) hclosed₁
          · rename_i hzero
            have hne : uint (Int64.ofNat found.nextBlockId) ≠ 0 := by
              intro heq
              apply hzero
              rw [← hnext, heq]
              rfl
            obtain ⟨has, _, hhas, hx⟩ := EStateM.bind_eq_ok.mp hx
            obtain ⟨rfl, rfl⟩ := pure_eq_ok hhas
            split at hx
            · rename_i hlt
              rw [if_neg hne]
              apply Program.Ends.bind
              apply runs_findBlock (congrFun hclosed₁ _)
              · rw [hblocks₁, hnext]
                exact of_decide_eq_true hlt
              · rintro nextBlock s₂ hid hopened hblocks₂
                apply ih (Nat.le_of_succ_le_succ hrounds) hdata₁ hopened.isOpen
                · intro blockId hother
                  rw [hopened.other blockId hother, hclosed₁]
                · rw [hid, hnext, hblocks₂, hblocks₁]
                  exact hx
                · exact h
            · cases hx

/-- Finding a record. -/
theorem runs_find_record (hint : blockContentSize < 2 ^ 31)
    {Q : Option Bytes → OpenBlocks blockContentSize → Prop} {total : Nat}
    {cells : List (Nat × Bytes)} (hrecord : RecordAt s.blocks recordId.toNat total cells)
    (hlength : (cells.flatMap Prod.snd).length = total) (hmax : total ≤ maxRecordSize)
    (hend : 0 ∉ cells.map Prod.fst) (hcells : cells.length ≤ maxRounds)
    (hclosed : s.serials = fun _ => none)
    (h : ∀ s', s'.blocks = s.blocks → (s'.serials = fun _ => none) →
      Q (some (cells.flatMap Prod.snd)) s') :
  Runs (find blockContentSize recordId) s Q
  := by
  obtain ⟨found, hfound, hprevious, htotal⟩ := hrecord.exists_first
  have hdeleted : found.isDeleted = 0 := by
    obtain ⟨found', hfound', hdeleted⟩ := hrecord.exists_block hrecord.mem_ids
    obtain rfl := Option.some.inj (hfound.symm.trans hfound')
    exact hdeleted
  have hbound : total < 2 ^ 31 := by
    rw [maxRecordSize] at hmax
    omega
  have hdata : 0 + (cells.flatMap Prod.snd).length
      ≤ (List.replicate total (0 : UInt8)).length := by
    rw [List.length_replicate, hlength, Nat.zero_add]
  have hfill := fillData_apply hrecord.linked hrecord.nonempty hend (le_refl _) hrecord.holds hdata
  rw [Bytes.overwrite_all (by rw [hlength, List.length_replicate])] at hfill
  have htoInt : (Int64.ofNat total).toInt = total := Int64.toInt_ofNat_of_lt (by omega)
  have hreplicate : (List.replicate total (0 : UInt8)).length < 2 ^ 31 := by
    rw [List.length_replicate]
    exact hbound
  have hdeleted' : found.header kIsDeleted.toNat = 0 := hdeleted
  have hprevious' : found.header kPreviousBlockId.toNat = 0 := hprevious
  have htotal' : found.header kRecordLength.toNat = total := htotal
  apply Program.Ends.bind
  apply runs_findBlock (congrFun hclosed _) (List.getElem?_eq_some_iff.mp hfound).1
  rintro block s₁ rfl hopened hblocks₁
  rw [← hblocks₁] at hfound hfill
  have hopen := hopened.isOpen
  apply runs_disposing
  apply Program.Ends.bind
  apply runs_getHeader hopen hfound
  rw [hdeleted', if_neg (by decide)]
  apply Program.Ends.bind
  apply runs_getHeader hopen hfound
  rw [hprevious', if_neg (by decide)]
  apply Program.Ends.bind
  apply runs_getHeader hopen hfound
  rw [htotal', htoInt, if_neg (by omega), if_neg (by omega), Int.toNat_natCast]
  apply Program.Ends.bind
  apply runs_fillData hint _ hcells hreplicate hopen _ hfill
  · intro s₂ hblocks₂ hserials₂
    apply Program.Ends.pure
    refine ⟨.inr (congrFun hserials₂ _), fun s₃ hblocks₃ hserials₃ => ?_⟩
    apply h s₃ (hblocks₃.trans (hblocks₂.trans hblocks₁))
    rw [hserials₃, hserials₂]
    exact Function.update_eq_self block.id _
  · intro blockId hne
    rw [hopened.other blockId hne, hclosed]

/-- No record is found where there is no block or one that is hidden. -/
theorem find_eq_none {id : Nat} {blocks blocks' : List (Records.Block blockContentSize)}
    (h : Records.find id blocks = .ok none blocks') :
  blocks.length ≤ id ∨ Hidden blocks id
  := by
  by_cases hlt : id < blocks.length
  · right
    have hfound : blocks[id]? = some blocks[id] := List.getElem?_eq_getElem hlt
    refine ⟨_, hfound, ?_⟩
    rw [Records.find, EStateM.bind_apply_of_ok (hasBlock_apply hfound), if_pos rfl,
      EStateM.bind_apply_of_ok (getBlock_apply hfound)] at h
    split at h
    · rename_i hdeleted
      exact .inl hdeleted
    · split at h
      · rename_i hprevious
        exact .inr hprevious
      · split at h
        · cases h
        · rw [EStateM.get_bind_apply] at h
          obtain ⟨data, _, -, h⟩ := EStateM.bind_eq_ok.mp h
          cases h
  · exact .inl (Nat.le_of_not_lt hlt)

/-- Finding no record. -/
theorem runs_find_none {Q : Option Bytes → OpenBlocks blockContentSize → Prop}
    {blocks : List (Records.Block blockContentSize)}
    (hx : Records.find recordId.toNat s.blocks = .ok none blocks)
    (hclosed : s.serials = fun _ => none)
    (h : ∀ s', s'.blocks = s.blocks → (s'.serials = fun _ => none) → Q none s') :
  Runs (find blockContentSize recordId) s Q
  := by
  apply Program.Ends.bind
  obtain hge | ⟨found, hfound, hcause⟩ := find_eq_none hx
  · apply runs_findBlock_none (congrFun hclosed _) hge
    apply Program.Ends.pure
    exact h s rfl hclosed
  · apply runs_findBlock (congrFun hclosed _) (List.getElem?_eq_some_iff.mp hfound).1
    rintro block s₁ rfl hopened hblocks₁
    rw [← hblocks₁] at hfound
    have hopen := hopened.isOpen
    have hsmall := s₁.small found (List.mem_of_getElem? hfound)
    have hafter : ∀ s₂ : OpenBlocks blockContentSize, s₂.blocks = s₁.blocks →
        s₂.serials = Function.update s₁.serials block.id none → Q none s₂ := by
      intro s₂ hblocks₂ hserials₂
      apply h s₂ (hblocks₂.trans hblocks₁)
      funext blockId
      rw [hserials₂, Function.update_apply]
      split
      · rfl
      · rename_i hne
        rw [hopened.other blockId hne, hclosed]
    apply runs_disposing
    apply Program.Ends.bind
    apply runs_getHeader hopen hfound
    by_cases hdeleted : found.isDeleted = 1
    · have heq : Int64.ofNat (found.header kIsDeleted.toNat) = 1 :=
        (ofNat_eq_one (hsmall 4)).mpr hdeleted
      rw [if_pos heq]
      apply Program.Ends.pure
      exact ⟨.inl hopen, hafter⟩
    · have hne : Int64.ofNat (found.header kIsDeleted.toNat) ≠ 1 :=
        fun heq => hdeleted ((ofNat_eq_one (hsmall 4)).mp heq)
      have hprevious : Int64.ofNat (found.header kPreviousBlockId.toNat) ≠ 0 :=
        fun heq => hcause.resolve_left hdeleted ((ofNat_eq_zero (hsmall 3)).mp heq)
      rw [if_neg hne]
      apply Program.Ends.bind
      apply runs_getHeader hopen hfound
      rw [if_pos hprevious]
      apply Program.Ends.pure
      exact ⟨.inl hopen, hafter⟩

end

/-! ### Updating a record -/

/-- The numbers of the blocks of objects. -/
def numbers (objects : List BlockObject) : List Nat :=
  objects.map fun block => block.id.toNat

section

variable {s : OpenBlocks blockContentSize} {t : Tracker} {rest : List Nat}
  {objects : List BlockObject} {blocks : List (Records.Block blockContentSize)}

/-- The order of the used blocks does not matter. -/
theorem Working.perm {used used' : List Nat} (h : Working s t used objects)
    (hperm : used.Perm used') :
  Working s t used' objects
  := by
  constructor
  · exact h.tracks.perm hperm
  · exact h.isOpen
  · exact fun block hblock => hperm.mem_iff.mp (h.used block hblock)
  · exact h.closed

/-- The same objects are open in another order. -/
theorem Working.perm_objects {used : List Nat} {objects' : List BlockObject}
    (h : Working s t used objects) (hperm : objects.Perm objects') :
  Working s t used objects'
  := by
  constructor
  · exact h.tracks
  · exact fun block hblock => h.isOpen block (hperm.mem_iff.mpr hblock)
  · exact fun block hblock => h.used block (hperm.mem_iff.mpr hblock)
  · exact fun blockId hne => h.closed blockId fun block hblock =>
      hne block (hperm.mem_iff.mp hblock)

/-- The block to write to next. -/
theorem runs_findTarget (hint : blockContentSize < 2 ^ 31)
    {Q : BlockObject × List BlockObject → OpenBlocks blockContentSize → Prop} {index id : Nat}
    {ids : List Nat} (hworking : Working s t (numbers objects ++ rest) objects)
    (hx : Records.findTarget (numbers objects) index s.blocks = .ok (id, ids) blocks)
    (h : ∀ target objects' s' t', target.id.toNat = id → numbers objects' = ids →
      target ∈ objects' → (∀ block ∈ objects, block ∈ objects') → s'.blocks = blocks →
      Working s' t' (numbers objects' ++ rest) objects' → Q (target, objects') s') :
  Runs (findTarget objects index) s Q
  := by
  rw [Records.findTarget, numbers, List.getElem?_map] at hx
  rw [findTarget]
  cases htarget : objects[index]? with
  | some target =>
      rw [htarget, Option.map_some] at hx
      obtain ⟨heq, hblocks⟩ := pure_eq_ok hx
      cases heq
      apply Program.Ends.pure
      exact h target objects s t rfl rfl (List.mem_of_getElem? htarget) (fun _ hmem => hmem)
        hblocks hworking
  | none =>
      rw [htarget, Option.map_none] at hx
      obtain ⟨new, blocks₁, hallocate, hx⟩ := EStateM.bind_eq_ok.mp hx
      obtain ⟨heq, hblocks⟩ := pure_eq_ok hx
      cases heq
      apply Program.Ends.bind
      apply hworking.runs_allocateBlock hint hallocate
      rintro target s₁ t₁ rfl hblocks₁ hworking₁
      have hnumbers : numbers (objects ++ [target]) = numbers objects ++ [target.id.toNat] :=
        List.map_append
      apply Program.Ends.pure
      apply h target (objects ++ [target]) s₁ t₁ rfl hnumbers
        (List.mem_append_right _ (List.mem_singleton_self _))
        (fun _ hmem => List.mem_append_left _ hmem) (hblocks₁.trans hblocks)
      rw [hnumbers, List.append_assoc, List.singleton_append]
      apply (hworking₁.perm List.perm_middle.symm).perm_objects
      exact (List.perm_append_singleton _ _).symm

/-- Linking a block with the one before it and writing to it. -/
theorem runs_writeTarget (hint : blockContentSize < 2 ^ 31) {used : List Nat}
    {Q : Unit → OpenBlocks blockContentSize → Prop} {data : Bytes} (hdata : data.length < 2 ^ 31)
    {previousBlock : Option BlockObject} {target : BlockObject} {written bytesToWrite : Nat}
    (hworking : Working s t used objects) (htarget : target ∈ objects)
    (hprevious : ∀ block ∈ previousBlock, block ∈ objects)
    (hwritten : written + bytesToWrite ≤ data.length)
    (hx : Records.writeTarget (previousBlock.map fun block => block.id.toNat) target.id.toNat
      ((data.drop written).take bytesToWrite) written data.length s.blocks = .ok () blocks)
    (h : ∀ s', s'.blocks = blocks → Working s' t used objects → Q () s') :
  Runs (writeTarget data previousBlock target written bytesToWrite) s Q
  := by
  have hsmall : ∀ blockId : UInt32, blockId.toNat < 2 ^ 63 := by
    intro blockId
    have hlt := blockId.toNat_lt
    omega
  have hlength : ((data.drop written).take bytesToWrite).length = bytesToWrite := by
    rw [List.length_take, List.length_drop]
    omega
  obtain ⟨_, blocks₁, hlink, hx⟩ := EStateM.bind_eq_ok.mp hx
  obtain ⟨_, _, hwrite, hx⟩ := EStateM.bind_eq_ok.mp hx
  obtain ⟨hle, rfl⟩ := writeContent_eq_ok hwrite
  obtain ⟨_, _, hset, hx⟩ := EStateM.bind_eq_ok.mp hx
  obtain rfl := setBlock_eq_ok hset
  have hwriting : ∀ s₁ : OpenBlocks blockContentSize, s₁.blocks = blocks₁ →
      Working s₁ t used objects → Runs (do
        writeContent target data written 0 bytesToWrite
        setHeader target kBlockContentLength (Int64.ofNat bytesToWrite)
        setHeader target kNextBlockId 0
        if written = 0 then setHeader target kRecordLength (Int64.ofNat data.length)
        else return) s₁ Q := by
    rintro s₁ rfl hworking₁
    have hopen₁ := hworking₁.isOpen target htarget
    have hused := hworking₁.used target htarget
    apply Program.Ends.bind
    apply @runs_writeContent _ s₁ target _ data _ written 0 bytesToWrite hopen₁ rfl hlength hdata
      hle _ hwritten
    intro s₂ hblocks₂ hserials₂
    have hworking₂ := hworking₁.modify hused hblocks₂ hserials₂
    apply Program.Ends.bind
    apply runs_setHeader (hworking₂.isOpen target htarget) rfl (by omega)
    intro s₃ hblocks₃ hserials₃
    have hworking₃ := hworking₂.modify hused hblocks₃ hserials₃
    apply Program.Ends.bind
    apply runs_setHeader (n := 0) (hworking₃.isOpen target htarget) rfl (by decide)
    intro s₄ hblocks₄ hserials₄
    have hworking₄ := hworking₃.modify hused hblocks₄ hserials₄
    have hsame₄ : s₄.blocks = (s₁.blocks.modify target.id.toNat fun block =>
        block.write 0 ((data.drop written).take bytesToWrite) hle).modify target.id.toNat
          fun block => { block with
            blockContentLength := ((data.drop written).take bytesToWrite).length
            nextBlockId := 0 } := by
      rw [hblocks₄, hblocks₃, hblocks₂, hlength, List.modify_modify_eq _ _ target.id.toNat]
      rfl
    rw [← hsame₄] at hx
    split at hx
    · rename_i hzero
      rw [if_pos hzero]
      apply runs_setHeader (hworking₄.isOpen target htarget) rfl (by omega)
      intro s₅ hblocks₅ hserials₅
      exact h s₅ (hblocks₅.trans (setBlock_eq_ok hx).symm)
        (hworking₄.modify hused hblocks₅ hserials₅)
    · rename_i hne
      obtain ⟨-, hblocks⟩ := pure_eq_ok hx
      rw [if_neg hne]
      apply Program.Ends.pure
      exact h s₄ hblocks hworking₄
  cases previousBlock with
  | none =>
      obtain ⟨-, hblocks⟩ := pure_eq_ok hlink
      exact hwriting s hblocks hworking
  | some previousBlock =>
      have hmem := hprevious previousBlock rfl
      obtain ⟨_, _, hset, hlink⟩ := EStateM.bind_eq_ok.mp hlink
      obtain rfl := setBlock_eq_ok hset
      have hblocks := setBlock_eq_ok hlink
      apply Program.Ends.bind
      apply runs_setHeader (hworking.isOpen _ hmem) rfl (hsmall _)
      intro s₁ hblocks₁ hserials₁
      have hworking₁ := hworking.modify (hworking.used _ hmem) hblocks₁ hserials₁
      apply Program.Ends.bind
      apply runs_setHeader (hworking₁.isOpen target htarget) rfl (hsmall _)
      intro s₂ hblocks₂ hserials₂
      apply hwriting s₂ _ (hworking₁.modify (hworking.used _ htarget) hblocks₂ hserials₂)
      rw [hblocks₂, hblocks₁]
      exact hblocks.symm

/-- Writing data to the blocks of a record and to allocated ones. -/
theorem runs_overwriteBlocks (hint : blockContentSize < 2 ^ 31)
    {data : Bytes} (hdata : data.length < 2 ^ 31) {ids : List Nat} {blocksUsed : Nat}
    {Q : List BlockObject × Except (ClientException RecordFault) Nat →
      OpenBlocks blockContentSize → Prop} (fuel : Nat) :
  ∀ {rounds : Nat} {s : OpenBlocks blockContentSize} {t : Tracker} {objects : List BlockObject}
    {written blocksUsed' : Nat} {previousBlock : Option BlockObject}, fuel ≤ rounds →
    Working s t (numbers objects ++ rest) objects →
    (∀ block ∈ previousBlock, block ∈ objects) →
    Records.overwriteBlocks data fuel (numbers objects) written blocksUsed'
      (previousBlock.map fun block => block.id.toNat) s.blocks = .ok (ids, blocksUsed) blocks →
    (∀ objects' s' t', numbers objects' = ids → s'.blocks = blocks →
      Working s' t' (numbers objects' ++ rest) objects' → Q (objects', .ok blocksUsed) s') →
    Runs (overwriteBlocks blockContentSize data rounds objects written blocksUsed' previousBlock) s
      Q
  := by
  induction fuel with
  | zero =>
      intro rounds s t objects written blocksUsed' previousBlock _ _ _ hx
      cases hx
  | succ fuel ih =>
      intro rounds s t objects written blocksUsed' previousBlock hrounds hworking hprevious hx h
      obtain ⟨rounds, rfl⟩ := Nat.exists_eq_succ_of_ne_zero (by omega : rounds ≠ 0)
      rw [Records.overwriteBlocks] at hx
      rw [overwriteBlocks]
      split at hx
      · rename_i hmore
        obtain ⟨⟨id, ids₁⟩, blocks₁, htarget, hx⟩ := EStateM.bind_eq_ok.mp hx
        obtain ⟨_, blocks₂, hwrite, hx⟩ := EStateM.bind_eq_ok.mp hx
        rw [if_pos hmore]
        apply Program.Ends.bind
        apply Program.Ends.attempt
        apply runs_findTarget hint hworking htarget
        rintro target objects₁ s₁ t₁ rfl rfl hmem hsubset rfl hworking₁
        apply Program.Ends.bind
        apply Program.Ends.attempt
        apply runs_writeTarget hint hdata hworking₁ hmem
          (fun block hblock => hsubset block (hprevious block hblock)) (by omega) hwrite
        rintro s₂ rfl hworking₂
        apply ih (Nat.le_of_succ_le_succ hrounds) hworking₂ _ hx h
        rintro block ⟨⟩
        exact hmem
      · rename_i hdone
        obtain ⟨heq, hblocks⟩ := pure_eq_ok hx
        cases heq
        rw [if_neg hdone]
        apply Program.Ends.pure
        exact h objects s t rfl hblocks hworking

/-- Marking used blocks as free, one after the other. -/
theorem runs_markAllAsFree (hsize : 4 ≤ blockContentSize) (hint : blockContentSize < 2 ^ 31)
    {Q : Unit → OpenBlocks blockContentSize → Prop} (unused : List BlockObject) :
  ∀ {s : OpenBlocks blockContentSize} {t : Tracker},
    Tracks s.blocks t (numbers unused ++ rest) → Closed s t.ids →
    (∀ blockId : UInt32, s.blocks.length ≤ blockId.toNat → s.serials blockId = none) →
    Records.markAllAsFree (numbers unused) s.blocks = .ok () blocks →
    (∀ s', s'.blocks = blocks → s'.serials = s.serials → Q () s') →
    Runs (markAllAsFree blockContentSize unused) s Q
  := by
  induction unused with
  | nil =>
      intro s t _ _ _ hx h
      obtain ⟨-, hblocks⟩ := pure_eq_ok hx
      exact h s hblocks rfl
  | cons block unused ih =>
      intro s t htracks hclosed hnew hx h
      obtain ⟨_, blocks₁, hmark, hx⟩ := EStateM.bind_eq_ok.mp hx
      obtain ⟨htracks₁, -, hge, -⟩ := (htracks.markAsFree_spec hsize).ok hmark
      have hfresh : Closed s [s.blocks.length] := by
        intro blockId hmem
        exact hnew blockId (List.mem_singleton.mp hmem).ge
      apply Program.Ends.bind
      apply runs_markAsFree hint htracks hclosed hfresh hmark
      rintro s₁ rfl hserials₁
      apply ih htracks₁ _ _ hx
      · intro s₂ hblocks₂ hserials₂
        exact h s₂ hblocks₂ (hserials₂.trans hserials₁)
      · intro blockId hmem
        rw [hserials₁]
        obtain hmem | heq := Tracker.mem_ids_push hmem
        · exact hclosed blockId hmem
        · exact hnew blockId heq.ge
      · intro blockId hle
        rw [hserials₁]
        exact hnew blockId (hge.trans hle)

/-- Updating a record. -/
theorem runs_update (hsize : 4 ≤ blockContentSize) (hint : blockContentSize < 2 ^ 31)
    {Q : Unit → OpenBlocks blockContentSize → Prop} {recordId : UInt32} {data : Bytes}
    (hdata : data.length < 2 ^ 31) {total : Nat} {cells : List (Nat × Bytes)}
    (htracks : Tracks s.blocks t (cells.map Prod.fst ++ rest))
    (hrecord : RecordAt s.blocks recordId.toNat total cells)
    (hclosed : s.serials = fun _ => none)
    (hx : Records.update recordId.toNat data s.blocks = .ok () blocks)
    (h : ∀ s', s'.blocks = blocks → (s'.serials = fun _ => none) → Q () s') :
  Runs (update blockContentSize recordId data) s Q
  := by
  have hfind := hrecord.findBlocks_apply htracks
  have hnodup := (List.nodup_append.mp (List.nodup_append.mp htracks.nodup).2.1).1
  have hnone : Closed s (cells.map Prod.fst) := fun blockId _ => congrFun hclosed blockId
  rw [Records.update, EStateM.bind_apply_of_ok hfind] at hx
  obtain ⟨⟨ids, blocksUsed⟩, blocks₁, hoverwrite, hx⟩ := EStateM.bind_eq_ok.mp hx
  apply Program.Ends.bind
  apply runs_findBlocks recordId hfind htracks.length_le hnodup hnone
  intro objects s₁ hopens hblocks₁
  have hnumbers : numbers objects = cells.map Prod.fst := hopens.ids_eq
  have hworking : Working s₁ t (numbers objects ++ rest) objects := by
    constructor
    · rw [hblocks₁, hnumbers]
      exact htracks
    · exact hopens.isOpen
    · exact fun block hblock => List.mem_append_left _ (List.mem_map_of_mem hblock)
    · intro blockId hne
      rw [hopens.other, hclosed]
      rw [← hopens.ids_eq]
      intro hmem
      obtain ⟨block, hblock, heq⟩ := List.mem_map.mp hmem
      exact hne block hblock (UInt32.toNat_inj.mp heq).symm
  have hrounds : data.length + 1 ≤ maxRounds := by
    rw [maxRounds]
    omega
  rw [← hnumbers, ← hblocks₁] at hoverwrite
  apply Program.Ends.bind
  apply @runs_overwriteBlocks _ rest _ hint data hdata ids blocksUsed _ _ _ s₁ t objects 0 0
    none hrounds hworking (fun block hblock => by cases hblock) hoverwrite
  rintro objects₂ s₂ t₂ rfl rfl hworking₂
  have hdrop : numbers (objects₂.drop blocksUsed) = (numbers objects₂).drop blocksUsed :=
    List.map_drop
  have htracks₂ : Tracks s₂.blocks t₂ (numbers (objects₂.drop blocksUsed)
      ++ ((numbers objects₂).take blocksUsed ++ rest)) := by
    apply hworking₂.tracks.perm
    rw [hdrop, ← List.append_assoc]
    apply List.Perm.append_right
    conv_lhs => rw [← List.take_append_drop blocksUsed (numbers objects₂)]
    exact List.perm_append_comm
  dsimp only at hx ⊢
  rw [← hdrop] at hx
  apply Program.Ends.bind
  apply Program.Ends.attempt
  apply runs_markAllAsFree hsize hint _ htracks₂ hworking₂.closed_ids _ hx
  · intro s₃ hblocks₃ hserials₃
    apply Program.Ends.bind
    apply runs_disposeAll
    · exact fun block hblock => .inl (isOpen_congr (hworking₂.isOpen block hblock) hserials₃)
    · intro s₄ hblocks₄ hserials₄
      apply Program.Ends.pure
      apply h s₄ (hblocks₄.trans hblocks₃)
      funext blockId
      rw [hserials₄]
      split
      · rfl
      · rename_i hmem
        rw [hserials₃]
        apply hworking₂.closed
        rintro block hblock rfl
        exact hmem (List.mem_map_of_mem hblock)
  · intro blockId hle
    apply hworking₂.closed
    rintro block hblock rfl
    have hlt := hworking₂.tracks.lt_length
      (List.mem_append_right _ (hworking₂.used block hblock))
    omega

end

end Datatent.RecordStorage
