import Datatent.CoreOld.Records.SpaceTracking
import Datatent.Library.Run

/-!
# Sessions with the space tracker

A client allocates blocks from a storage that is empty at first and marks blocks it was handed
out as free. The blocks of a chain and the free numbers are read off the array of blocks, as the
methods read them, and every call keeps each block in one place: among those that keep the free
numbers, among the free ones or among those handed out.
-/

namespace Datatent.Records

variable {blockContentSize : Nat}

/-! ### What the blocks keep -/

/-- The numbers in the front of a content. -/
def decode : Nat → Bytes → List Nat
  | 0, _ => []
  | count + 1, bytes => Bytes.readLE bytes 4 :: decode count (bytes.drop 4)

/-- The numbers in the content of a block. -/
def Block.numbers (block : Block blockContentSize) : List Nat :=
  decode (block.blockContentLength / 4) block.content

/-- The numbers in the content of a block of the array. -/
def numbersAt (blocks : List (Block blockContentSize)) (id : Nat) : List Nat :=
  match blocks[id]? with
  | some block => block.numbers
  | none => []

/-- The blocks of a record, from its first one on. -/
def chainIds (blocks : List (Block blockContentSize)) (id : Nat) : List Nat :=
  placesFrom (link blocks) 0 blocks.length id

/-- The numbers that the space tracking record keeps. -/
def recordedIds (blocks : List (Block blockContentSize)) : List Nat :=
  (chainIds blocks 0).flatMap (numbersAt blocks)

/-- Numbers are read from what they were written as. -/
theorem decode_encode {ids : List Nat} (hlt : ∀ id ∈ ids, id < 2 ^ 32) (bytes : Bytes) :
  decode ids.length (encode ids ++ bytes) = ids
  := by
  induction ids with
  | nil => rfl
  | cons id ids ih =>
      have hid : id < 256 ^ 4 := hlt id List.mem_cons_self
      have hencode : encode (id :: ids) = Bytes.toLE 4 id ++ encode ids := rfl
      have hdrop : (Bytes.toLE 4 id ++ (encode ids ++ bytes)).drop 4 = encode ids ++ bytes :=
        List.drop_left' (Bytes.length_toLE 4 id)
      rw [List.length_cons, decode, hencode, List.append_assoc, Bytes.readLE_toLE_append,
        Nat.mod_eq_of_lt hid, hdrop, ih]
      intro id hid
      exact hlt id (List.mem_cons_of_mem _ hid)

/-- The numbers of a block are those that it holds. -/
theorem Block.Holds.numbers_eq {block : Block blockContentSize} {ids : List Nat}
    (h : block.Holds (encode ids)) (hlt : ∀ id ∈ ids, id < 2 ^ 32) :
  block.numbers = ids
  := by
  have hlength : block.blockContentLength / 4 = ids.length := by
    rw [h.length, length_encode]
    omega
  have hcontent : block.content = encode ids ++ block.content.drop (encode ids).length := by
    have hparts := (List.take_append_drop (encode ids).length block.content).symm
    rwa [h.content] at hparts
  rw [Block.numbers, hlength, hcontent, decode_encode hlt]

section

variable {s : List (Block blockContentSize)} {t : Tracker} {used : List Nat}

/-- The numbers of a block of the array that holds some. -/
theorem numbersAt_eq {id : Nat} {ids : List Nat} (h : HoldsAt s (id, encode ids))
    (hlt : ∀ id ∈ ids, id < 2 ^ 32) :
  numbersAt s id = ids
  := by
  obtain ⟨block, hblock, hholds⟩ := h
  rw [numbersAt, hblock]
  exact hholds.numbers_eq hlt

namespace Tracks

/-- The blocks of record 0 are those that keep the free numbers. -/
theorem chainIds_eq (h : Tracks s t used) :
  chainIds s 0 = t.ids
  := by
  obtain ⟨ids, hids, hzero⟩ := h.ids_eq
  apply h.segment.placesFrom_eq
  · rw [hids]
    exact List.cons_ne_nil _ _
  · rw [hids]
    exact hzero
  · exact h.length_ids_le

/-- The free numbers are those of blocks and have 32 bits. -/
theorem free_lt (h : Tracks s t used) {id : Nat} (hid : id ∈ t.free) :
  id < 2 ^ 32
  := by
  have hlt := h.lt_length (List.mem_append_left _ (List.mem_append_right _ hid))
  have hle := h.length_le
  omega

/-- The numbers that record 0 keeps are those of the free blocks. -/
theorem recordedIds_eq (h : Tracks s t used) :
  recordedIds s = t.free
  := by
  have hlast : numbersAt s t.last = t.entries := by
    apply numbersAt_eq h.holdsLast
    intro id hid
    exact h.free_lt (List.mem_append_right _ hid)
  have hfull : ∀ cells, cells ⊆ t.full →
      (cells.map Prod.fst).flatMap (numbersAt s) = cells.flatMap Prod.snd := by
    intro cells
    induction cells with
    | nil =>
        intro _
        rfl
    | cons cell cells ih =>
        intro hsub
        obtain ⟨hcell, hcells⟩ := List.cons_subset.mp hsub
        have hnumbers : numbersAt s cell.1 = cell.2 := by
          apply numbersAt_eq (h.holdsFull cell hcell)
          intro id hid
          apply h.free_lt
          exact List.mem_append_left _ (List.mem_flatMap.mpr ⟨cell, hcell, hid⟩)
        rw [List.map_cons, List.flatMap_cons, List.flatMap_cons, hnumbers, ih hcells]
  rw [recordedIds, h.chainIds_eq, Tracker.ids, List.flatMap_append, hfull _ (List.Subset.refl _),
    List.flatMap_singleton, hlast, Tracker.free]

/-- The content of a block that keeps free numbers is made of numbers of four bytes. -/
theorem aligned (h : Tracks s t used) {id : Nat} (hid : id ∈ t.ids) :
  ∃ block, s[id]? = some block ∧ block.blockContentLength % 4 = 0
    ∧ block.blockContentLength ≤ blockContentSize
  := by
  have hnumbers : ∃ numbers, HoldsAt s (id, encode numbers) := by
    rw [Tracker.ids, List.mem_append, List.mem_singleton] at hid
    obtain hfull | rfl := hid
    · obtain ⟨cell, hcell, rfl⟩ := List.mem_map.mp hfull
      exact ⟨cell.2, h.holdsFull cell hcell⟩
    · exact ⟨t.entries, h.holdsLast⟩
  obtain ⟨numbers, block, hblock, hholds⟩ := hnumbers
  refine ⟨block, hblock, ?_, ?_⟩
  · rw [hholds.length, length_encode, Nat.mul_mod_right]
  · rw [hholds.length]
    exact hholds.length_le

end Tracks

end

/-! ### Sessions -/

/-- A call of a client of the space tracker. -/
inductive SpaceCall where
  | allocateBlock
  | markAsFree (blockId : Nat)
deriving DecidableEq

/-- The array of blocks, and the blocks that are handed out. -/
structure SpaceSession (blockContentSize : Nat) where
  blocks : List (Block blockContentSize)
  handedOut : List Nat

namespace SpaceSession

/-- The session with an empty block storage. -/
def new (blockContentSize : Nat) : SpaceSession blockContentSize :=
  ⟨[], []⟩

/-- The session after a call. A call that throws changes at most the blocks. -/
def step (s : SpaceSession blockContentSize) : SpaceCall → SpaceSession blockContentSize
  | .allocateBlock =>
      match allocateBlock s.blocks with
      | .ok id blocks => ⟨blocks, id :: s.handedOut⟩
      | .error _ blocks => { s with blocks := blocks }
  | .markAsFree id =>
      match markAsFree id s.blocks with
      | .ok _ blocks => ⟨blocks, s.handedOut.erase id⟩
      | .error _ blocks => { s with blocks := blocks }

/-- Only blocks that are handed out are marked as free. -/
def Legal (s : SpaceSession blockContentSize) : SpaceCall → Prop
  | .allocateBlock => True
  | .markAsFree id => id ∈ s.handedOut

instance (s : SpaceSession blockContentSize) (call : SpaceCall) : Decidable (s.Legal call) :=
  match call with
  | .allocateBlock => inferInstanceAs (Decidable True)
  | .markAsFree id => inferInstanceAs (Decidable (id ∈ s.handedOut))

/-- Each block is in one place: in the chain of record 0, recorded once in the content of this
chain, or handed out; and the lengths of the contents are multiples of 4. -/
structure Conserved (s : SpaceSession blockContentSize) : Prop where
  places : (chainIds s.blocks 0 ++ recordedIds s.blocks ++ s.handedOut).Perm
    (List.range s.blocks.length)
  aligned : ∀ id ∈ chainIds s.blocks 0, ∃ block, s.blocks[id]? = some block
    ∧ block.blockContentLength % 4 = 0 ∧ block.blockContentLength ≤ blockContentSize

/-- The array is full: there is no number of 32 bits left for a new block. Then a call that
needs one throws, and changes nothing. -/
def IsFull (s : SpaceSession blockContentSize) (e : RecordException)
    (blocks : List (Block blockContentSize)) : Prop :=
  e = .storageFull ∧ blocks = s.blocks ∧ s.blocks.length = 2 ^ 32

/-- The call returns unless the array is full. A block that is allocated has a cleared header,
and is a new one only when no number is recorded. -/
def Serves (s : SpaceSession blockContentSize) : SpaceCall → Prop
  | .allocateBlock =>
      Finishes allocateBlock s.blocks
        (fun id blocks => (∃ block, blocks[id]? = some block ∧ block.IsClear)
          ∧ (s.blocks.length ≤ id → recordedIds s.blocks = []))
        s.IsFull
  | .markAsFree id => Finishes (markAsFree id) s.blocks (fun _ _ => True) s.IsFull

/-- Either nothing was allocated, or the storage keeps the stack of free numbers. -/
def Tracked (s : SpaceSession blockContentSize) : Prop :=
  s.blocks = [] ∧ s.handedOut = [] ∨ ∃ t, Tracks s.blocks t s.handedOut

section

variable {s : SpaceSession blockContentSize}

/-- Each block of a tracked storage is in one place. -/
theorem Tracked.conserved (h : s.Tracked) :
  s.Conserved
  := by
  obtain ⟨hblocks, hhandedOut⟩ | ⟨t, htracks⟩ := h
  · constructor
    · rw [hblocks, hhandedOut]
      exact List.Perm.refl _
    · rw [hblocks]
      intro id hid
      cases hid
  · constructor
    · rw [htracks.chainIds_eq, htracks.recordedIds_eq]
      exact htracks.ids
    · rw [htracks.chainIds_eq]
      exact fun id => htracks.aligned

/-- Allocating a block from a tracked storage. -/
theorem Tracked.allocateBlock_spec (h : s.Tracked) (hsize : 4 ≤ blockContentSize) :
  Finishes allocateBlock s.blocks
    (fun id blocks => (∃ t, Tracks blocks t (id :: s.handedOut))
      ∧ (∃ block, blocks[id]? = some block ∧ block.IsClear)
      ∧ (s.blocks.length ≤ id → recordedIds s.blocks = []))
    s.IsFull
  := by
  obtain ⟨hblocks, hhandedOut⟩ | ⟨t, htracks⟩ := h
  · rw [hblocks, hhandedOut]
    apply Finishes.congr_state allocateBlock_nil
    apply (tracks_new blockContentSize).allocateBlock_spec.mono
    · rintro id blocks ⟨t', hallocated⟩
      exact ⟨⟨t', hallocated.tracks⟩, hallocated.cleared, fun _ => rfl⟩
    · rintro e blocks ⟨-, hnone, -⟩
      obtain ⟨hfull, -⟩ := (tracks_new blockContentSize).full_of_available hsize hnone
      rw [List.length_singleton] at hfull
      omega
  · apply htracks.allocateBlock_spec.mono
    · rintro id blocks ⟨t', hallocated⟩
      refine ⟨⟨t', hallocated.tracks⟩, hallocated.cleared, ?_⟩
      intro hnew
      rw [htracks.recordedIds_eq]
      obtain hfree | ⟨hempty, -⟩ := hallocated.origin
      · have hlt := htracks.lt_length (List.mem_append_left _ (List.mem_append_right _ hfree))
        omega
      · exact hempty
    · rintro e blocks ⟨hblocks, hnone, he⟩
      exact ⟨he hsize, hblocks, (htracks.full_of_available hsize hnone).1⟩

/-- Marking a block as free that a tracked storage handed out. -/
theorem Tracked.markAsFree_spec (h : s.Tracked) (hsize : 4 ≤ blockContentSize) {id : Nat}
    (hid : id ∈ s.handedOut) :
  Finishes (markAsFree id) s.blocks
    (fun _ blocks => ∃ t, Tracks blocks t (s.handedOut.erase id)) s.IsFull
  := by
  obtain ⟨-, hhandedOut⟩ | ⟨t, htracks⟩ := h
  · rw [hhandedOut] at hid
    cases hid
  · apply ((htracks.perm (List.perm_cons_erase hid)).markAsFree_spec hsize).mono
    · rintro _ blocks ⟨htracks', -⟩
      exact ⟨_, htracks'⟩
    · rintro e blocks ⟨he, hblocks, hfull, -⟩
      exact ⟨he, hblocks, hfull⟩

/-- A legal call keeps the storage tracked. -/
theorem Tracked.step (h : s.Tracked) (hsize : 4 ≤ blockContentSize) {call : SpaceCall}
    (hlegal : s.Legal call) :
  (s.step call).Tracked
  := by
  cases call with
  | allocateBlock =>
      have hspec := h.allocateBlock_spec hsize
      rw [SpaceSession.step]
      cases hcall : allocateBlock s.blocks with
      | ok id blocks => exact .inr (hspec.ok hcall).1
      | error e blocks =>
          obtain ⟨-, rfl, -⟩ := hspec.error hcall
          exact h
  | markAsFree id =>
      have hspec := h.markAsFree_spec hsize hlegal
      rw [SpaceSession.step]
      cases hcall : markAsFree id s.blocks with
      | ok _ blocks => exact .inr (hspec.ok hcall)
      | error e blocks =>
          obtain ⟨-, rfl, -⟩ := hspec.error hcall
          exact h

/-- A legal call on a tracked storage is served. -/
theorem Tracked.serves (h : s.Tracked) (hsize : 4 ≤ blockContentSize) {call : SpaceCall}
    (hlegal : s.Legal call) :
  s.Serves call
  := by
  cases call with
  | allocateBlock =>
      apply (h.allocateBlock_spec hsize).mono
      · exact fun id blocks hspec => hspec.2
      · exact fun e blocks hfull => hfull
  | markAsFree id =>
      apply (h.markAsFree_spec hsize hlegal).mono
      · exact fun _ _ _ => trivial
      · exact fun e blocks hfull => hfull

/-- A session with an empty storage is tracked. -/
theorem tracked_new (blockContentSize : Nat) :
  (new blockContentSize).Tracked
  := .inl ⟨rfl, rfl⟩

end

/-- In a legal session each block is in one place at each moment, and every call is served. -/
theorem conserved_of_legal (hsize : 4 ≤ blockContentSize) {calls : List SpaceCall}
    (hlegal : Run.Along step Legal (new blockContentSize) calls) :
  (∀ n, (Run.final step (new blockContentSize) (calls.take n)).Conserved)
    ∧ Run.Along step Serves (new blockContentSize) calls
  := by
  have hstep : ∀ (s : SpaceSession blockContentSize) call, s.Tracked → s.Legal call →
      (s.step call).Tracked := fun s call h hcall => h.step hsize hcall
  constructor
  · intro n
    apply Tracked.conserved
    exact (hlegal.take n).invariant hstep (tracked_new _)
  · apply Run.Along.imp hstep _ hlegal (tracked_new _)
    exact fun s call h hcall => h.serves hsize hcall

/-- The chain of record 0 grows when two blocks are marked as free, and gives a block up when
the numbers are taken from it again. -/
theorem conserved_four :
  (∀ n, (Run.final step (new 4) ([.allocateBlock, .allocateBlock, .markAsFree 2, .markAsFree 1,
      .allocateBlock, .allocateBlock].take n)).Conserved)
    ∧ Run.Along step Serves (new 4) [.allocateBlock, .allocateBlock, .markAsFree 2,
      .markAsFree 1, .allocateBlock, .allocateBlock]
  := conserved_of_legal (by decide) (by decide)

end SpaceSession

end Datatent.Records
