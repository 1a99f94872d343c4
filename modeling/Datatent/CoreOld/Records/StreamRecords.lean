import Datatent.CoreOld.Records.BlockOwnership
import Datatent.CoreOld.Records.FollowingRecords

/-!
# Records over a stream

The record storage with the block storage under it, over the stream of a data file: a client
creates, updates and deletes records, and may give the storage up and construct another one over
the same bytes at any moment. As long as the calls are about live records and there is room, each
call returns, no block object stays in memory, and the live records are found with the data last
given for them.
-/

namespace Datatent.RecordStorage

open Blocks Records

/-- A call of a client, or the construction of another storage over the bytes of the stream. -/
inductive StreamCall where
  | create (data : Bytes)
  | createEmpty
  | update (recordId : UInt32) (data : Bytes)
  | delete (recordId : UInt32)
  | find (recordId : UInt32)
  | reopen (position : Nat)
deriving DecidableEq

/-- The block storage with its objects, the live records with their data, and the deleted
records. -/
structure StreamSession where
  store : ObjectStore
  live : List (UInt32 × Bytes)
  deleted : List UInt32

namespace StreamSession

/-- The session with an empty stream. -/
def new (position : Nat) : StreamSession where
  store := ObjectStore.over { bytes := [], position := position }
  live := []
  deleted := []

section

variable (storage : BlockStorage)

/-- Run a program of the record storage over the stream. -/
def run {α : Type} (s : StreamSession) (p : RecordProgram α) :
    EStateM.Result (ClientException RecordFault) ObjectStore α :=
  Program.run (ObjectStore.perform storage) p s.store

/-- A record was created. -/
def created (s : StreamSession) (recordId : UInt32) (data : Bytes) (store : ObjectStore) :
    StreamSession where
  store := store
  live := (recordId, data) :: s.live.filter (fun r => r.1 ≠ recordId)
  deleted := s.deleted.filter (fun d => d ≠ recordId)

/-- The session after a call. A call that throws changes at most the block storage. -/
def step (s : StreamSession) : StreamCall → StreamSession
  | .create data =>
      match run storage s (create storage.blockContentSize data) with
      | .ok recordId store => s.created recordId data store
      | .error _ store => { s with store := store }
  | .createEmpty =>
      match run storage s createEmpty with
      | .ok recordId store => s.created recordId [] store
      | .error _ store => { s with store := store }
  | .update recordId data =>
      match run storage s (update storage.blockContentSize recordId data) with
      | .ok _ store =>
          { s with
            store := store
            live := s.live.map fun r => if r.1 = recordId then (recordId, data) else r }
      | .error _ store => { s with store := store }
  | .delete recordId =>
      match run storage s (delete storage.blockContentSize recordId) with
      | .ok _ store =>
          { store := store
            live := s.live.filter fun r => r.1 ≠ recordId
            deleted :=
              if recordId ∈ s.live.map Prod.fst then recordId :: s.deleted else s.deleted }
      | .error _ store => { s with store := store }
  | .find recordId =>
      match run storage s (find storage.blockContentSize recordId) with
      | .ok _ store => { s with store := store }
      | .error _ store => { s with store := store }
  | .reopen position =>
      { s with
        store := ObjectStore.over { bytes := s.store.storage.stream.bytes, position := position } }

/-- The call returns. A record that is created has a number that no live record has. -/
def Returns (s : StreamSession) : StreamCall → Prop
  | .create data => ∃ recordId store,
      run storage s (create storage.blockContentSize data) = .ok recordId store
        ∧ recordId ∉ s.live.map Prod.fst
  | .createEmpty => ∃ recordId store, run storage s createEmpty = .ok recordId store
      ∧ recordId ∉ s.live.map Prod.fst
  | .update recordId data => ∃ store,
      run storage s (update storage.blockContentSize recordId data) = .ok () store
  | .delete recordId => ∃ store,
      run storage s (delete storage.blockContentSize recordId) = .ok () store
  | .find recordId => ∃ data store,
      run storage s (find storage.blockContentSize recordId) = .ok data store
  | .reopen _ => True

/-- What `Find` gives for a number, where it does not throw. -/
def found (s : StreamSession) (recordId : UInt32) : Option (Option Bytes) :=
  match run storage s (find storage.blockContentSize recordId) with
  | .ok data _ => some data
  | .error _ _ => none

/-- The live records are found with their data, and the deleted ones are not found. -/
def FindsAll (s : StreamSession) : Prop :=
  (∀ entry ∈ s.live, s.found storage entry.1 = some (some entry.2))
    ∧ ∀ recordId ∈ s.deleted, s.found storage recordId = some none

/-- The call creates a record or is about a live one, its data are not too large to be read, and a
record is updated with some data. A deleted record may be looked for. -/
def Legal (s : StreamSession) : StreamCall → Prop
  | .create data => data.length ≤ maxRecordSize
  | .createEmpty => True
  | .update recordId data =>
      recordId ∈ s.live.map Prod.fst ∧ data ≠ [] ∧ data.length ≤ maxRecordSize
  | .delete recordId => recordId ∈ s.live.map Prod.fst
  | .find recordId => recordId ∈ s.live.map Prod.fst ∨ recordId ∈ s.deleted
  | .reopen _ => True

instance (s : StreamSession) (call : StreamCall) : Decidable (s.Legal call) :=
  match call with
  | .create data => inferInstanceAs (Decidable (data.length ≤ maxRecordSize))
  | .createEmpty => inferInstanceAs (Decidable True)
  | .update _ _ => inferInstanceAs (Decidable (_ ∧ _ ∧ _))
  | .delete recordId => inferInstanceAs (Decidable (recordId ∈ s.live.map Prod.fst))
  | .find _ => inferInstanceAs (Decidable (_ ∨ _))
  | .reopen _ => inferInstanceAs (Decidable True)

/-- The length of the data of a call. -/
def dataLength : StreamCall → Nat
  | .create data => data.length
  | .update _ data => data.length
  | .createEmpty | .delete _ | .find _ | .reopen _ => 0

/-- There are numbers left for the blocks that the call may need. -/
def HasRoom (s : StreamSession) (call : StreamCall) : Prop :=
  2 * (s.store.storage.stream.bytes.length / storage.blockSize)
    + blocksFor storage.blockContentSize (dataLength call) + 2 ≤ 2 ^ 32

instance (s : StreamSession) (call : StreamCall) : Decidable (s.HasRoom storage call) :=
  inferInstanceAs (Decidable (_ ≤ _))

end

/-- No block object is in memory. -/
def NoneInMemory (s : StreamSession) : Prop :=
  ∀ blockId, s.store.serials blockId = none ∧ s.store.storage.blocks blockId = none

/-! ### The session over the array -/

/-- The stream keeps the blocks of a session over the array of blocks, no object is in memory, and
the client knows the same records. -/
structure Represented (storage : BlockStorage) (s : StreamSession)
    (r : RecordSession storage.blockContentSize) (t : OpenBlocks storage.blockContentSize) :
    Prop where
  agrees : Agrees storage s.store t
  closed : t.serials = fun _ => none
  blocks : t.blocks = r.blocks
  live : r.live = s.live.map fun entry => (entry.1.toNat, entry.2)
  deleted : r.deleted = s.deleted.map UInt32.toNat
  laidOut : r.LaidOut
  readable : r.Readable

namespace Represented

variable {storage : BlockStorage} {s : StreamSession} {r : RecordSession storage.blockContentSize}
  {t : OpenBlocks storage.blockContentSize} {recordId : UInt32} {data : Bytes}

/-- A program that runs over the array returns the same over the stream. -/
theorem exists_run (h : Represented storage s r t) (hheader : 48 ≤ storage.blockHeaderSize)
    (hsize : 4096 ≤ storage.blockSize ∧ storage.blockSize ≤ 2 ^ 21)
    {α : Type} {p : RecordProgram α}
    {Q : α → OpenBlocks storage.blockContentSize → Prop} (hruns : Runs p t Q) :
  ∃ a store t', run storage s p = .ok a store ∧ Agrees storage store t' ∧ Q a t'
  := by
  have hstep : ∀ (call : ObjectCall) (store : ObjectStore)
      (t : OpenBlocks storage.blockContentSize) (reply : call.Reply)
      (t' : OpenBlocks storage.blockContentSize), Agrees storage store t →
      OpenBlocks.perform (E := RecordFault) call t = .ok reply t' →
      ∃ store', ObjectStore.perform storage call store = .ok reply store'
        ∧ Agrees storage store' t' :=
    fun call _ _ _ _ hagrees hcall => Agrees.perform hheader hsize call hagrees hcall
  obtain ⟨a, store, hrun, t', hagrees, hQ⟩ := (hruns.simulate hstep h.agrees).exists_run
  exact ⟨a, store, t', hrun, hagrees, hQ⟩

/-- A record is live over the stream and over the array. -/
theorem mem_live_iff (h : Represented storage s r t) :
  recordId.toNat ∈ r.live.map Prod.fst ↔ recordId ∈ s.live.map Prod.fst
  := by
  have hmap : r.live.map Prod.fst = (s.live.map Prod.fst).map UInt32.toNat := by
    rw [h.live, List.map_map, List.map_map]
    rfl
  rw [hmap]
  constructor
  · intro hmem
    obtain ⟨other, hother, heq⟩ := List.mem_map.mp hmem
    rwa [← UInt32.toNat_inj.mp heq]
  · exact List.mem_map_of_mem

/-- The blocks of the stream. -/
theorem length_eq (h : Represented storage s r t) :
  s.store.storage.stream.bytes.length / storage.blockSize = r.blocks.length
  := by
  have hsize := storage.size_ge
  rw [h.agrees.represents.length_eq, Nat.mul_div_cancel _ (by omega), ← h.blocks]
  rfl

/-- Nothing was created yet, or the free blocks are tracked. -/
theorem begun (h : Represented storage s r t) :
  t.blocks = [] ∨ ∃ t' used, Tracks t.blocks t' used
  := by
  rw [h.blocks]
  obtain rfl | ⟨t', records, hlayout⟩ := h.laidOut
  · exact .inl rfl
  · exact .inr ⟨t', _, hlayout.tracks⟩

/-- The live records with other numbers. -/
theorem others_eq (h : Represented storage s r t) (recordId : UInt32) :
  r.others recordId.toNat
    = (s.live.filter fun r => r.1 ≠ recordId).map fun entry => (entry.1.toNat, entry.2)
  := by
  rw [RecordSession.others, h.live, List.filter_map]
  congr 1
  apply List.filter_congr
  intro entry _
  exact decide_eq_decide.mpr (not_congr UInt32.toNat_inj)

/-- The deleted records with other numbers. -/
theorem deleted_filter (h : Represented storage s r t) (recordId : UInt32) :
  r.deleted.filter (fun d => d ≠ recordId.toNat)
    = (s.deleted.filter fun d => d ≠ recordId).map UInt32.toNat
  := by
  rw [h.deleted, List.filter_map]
  congr 1
  apply List.filter_congr
  intro d _
  exact decide_eq_decide.mpr (not_congr UInt32.toNat_inj)

end Represented

/-- In a session with a layout and with room a record can be created. -/
theorem exists_create {blockContentSize : Nat} {r : RecordSession blockContentSize}
    (h : r.LaidOut) (hsize : 4 ≤ blockContentSize) {data : Bytes}
    (hroom : r.blocks.length + 1 + blocksFor blockContentSize data.length < 2 ^ 32) :
  ∃ id blocks, Records.create data r.blocks = .ok id blocks ∧ id ∉ r.live.map Prod.fst
  := by
  have hpos : 0 < blockContentSize := by omega
  obtain rfl | ⟨t, records, hlayout⟩ := h
  · have hroom : 0 + 1 + blocksFor blockContentSize data.length < 2 ^ 32 := hroom
    change ∃ id blocks, Records.create data [] = .ok id blocks ∧ id ∉ []
    rw [create_nil]
    cases hcall : Records.create data [Records.Block.new blockContentSize] with
    | ok id blocks => exact ⟨id, blocks, rfl, List.not_mem_nil⟩
    | error e blocks =>
        have hfull := ((create_spec hpos (tracks_new blockContentSize) data).error hcall).1
        have hfree := Tracker.le_available ⟨[], 0, []⟩ hsize 1
        rw [List.length_singleton] at hfull
        omega
  · cases hcall : Records.create data r.blocks with
    | ok id blocks => exact ⟨id, blocks, rfl, hlayout.housed.notMem_of_create hpos hcall⟩
    | error e blocks =>
        have hfull := ((create_spec hpos hlayout.tracks data).error hcall).1
        have hfree := t.le_available hsize r.blocks.length
        omega

/-! ### Calls over the stream -/

namespace Represented

section

variable {storage : BlockStorage} {s : StreamSession} {r : RecordSession storage.blockContentSize}
  {t t' : OpenBlocks storage.blockContentSize} {recordId : UInt32} {data : Bytes}
  {store : ObjectStore} {blocks : List (Records.Block storage.blockContentSize)}

/-- The content of a block is counted by an `int`. -/
theorem contentSize_lt (storage : BlockStorage) :
  storage.blockContentSize < 2 ^ 31
  := (Nat.sub_le _ _).trans_lt storage.size_lt

/-- After a record was created. -/
theorem created (h : Represented storage s r t) (hcontent : 4 ≤ storage.blockContentSize)
    (hmax : data.length ≤ maxRecordSize)
    (hcall : Records.create data r.blocks = .ok recordId.toNat blocks)
    (hagrees : Agrees storage store t') (hblocks : t'.blocks = blocks)
    (hclosed : t'.serials = fun _ => none) :
  Represented storage (s.created recordId data store) (r.step (.create data)) t'
  := by
  have hreturns : r.returns (.create data) = true := by
    rw [RecordSession.returns, hcall]
  have hstep : r.step (.create data)
      = ⟨blocks, (recordId.toNat, data) :: r.others recordId.toNat,
        r.deleted.filter fun d => d ≠ recordId.toNat⟩ := by
    rw [RecordSession.step, hcall]
  constructor
  · exact hagrees
  · exact hclosed
  · rw [hstep]
    exact hblocks
  · rw [hstep]
    exact congrArg _ (h.others_eq recordId)
  · rw [hstep]
    exact h.deleted_filter recordId
  · exact h.laidOut.step hcontent ⟨trivial, hreturns⟩ hmax
  · exact h.readable.step hmax

/-- Creating a record. -/
theorem create (h : Represented storage s r t) (hheader : 48 ≤ storage.blockHeaderSize)
    (hsize : 4096 ≤ storage.blockSize ∧ storage.blockSize ≤ 2 ^ 21)
    (hcontent : 4 ≤ storage.blockContentSize)
    {p : RecordProgram UInt32} (hmax : data.length ≤ maxRecordSize)
    (hroom : r.blocks.length + 1 + blocksFor storage.blockContentSize data.length < 2 ^ 32)
    (hruns : ∀ {id blocks}, Records.create data t.blocks = .ok id blocks →
      Runs p t fun recordId t' => recordId.toNat = id ∧ t'.blocks = blocks
        ∧ (t'.serials = fun _ => none)) :
  ∃ recordId store t', run storage s p = .ok recordId store
    ∧ recordId ∉ s.live.map Prod.fst
    ∧ Represented storage (s.created recordId data store) (r.step (.create data)) t'
  := by
  obtain ⟨id, blocks, hcall, hfresh⟩ := exists_create h.laidOut hcontent hroom
  rw [← h.blocks] at hcall
  obtain ⟨recordId, store, t', hrun, hagrees, rfl, hblocks, hclosed⟩ :=
    h.exists_run hheader hsize (hruns hcall)
  rw [h.mem_live_iff] at hfresh
  rw [h.blocks] at hcall
  exact ⟨recordId, store, t', hrun, hfresh, h.created hcontent hmax hcall hagrees hblocks hclosed⟩

/-- Updating a live record. -/
theorem update (h : Represented storage s r t) (hheader : 48 ≤ storage.blockHeaderSize)
    (hsize : 4096 ≤ storage.blockSize ∧ storage.blockSize ≤ 2 ^ 21)
    (hcontent : 4 ≤ storage.blockContentSize)
    (hlive : recordId ∈ s.live.map Prod.fst) (hdata : data ≠ [])
    (hmax : data.length ≤ maxRecordSize)
    (hroom : 2 * r.blocks.length + blocksFor storage.blockContentSize data.length < 2 ^ 32) :
  ∃ store t', run storage s (RecordStorage.update storage.blockContentSize recordId data)
      = .ok () store
    ∧ Represented storage
      { s with
        store := store
        live := s.live.map fun r => if r.1 = recordId then (recordId, data) else r }
      (r.step (.update recordId.toNat data)) t'
  := by
  have hid := h.mem_live_iff.mpr hlive
  obtain rfl | ⟨tracker, records, hlayout⟩ := h.laidOut
  · cases hid
  · obtain ⟨record, records, hlayout, hrecordId⟩ := hlayout.exists_record hid
    have htracks := hlayout.tracks
    have hrecord := hlayout.record record List.mem_cons_self
    rw [List.flatMap_cons] at htracks
    rw [hrecordId] at hrecord
    cases hcall : Records.update recordId.toNat data r.blocks with
    | error e blocks =>
        have hfull := (update_spec (by omega) htracks hrecord hdata fun _ => hcontent).error hcall
        have hfree := tracker.le_available hcontent r.blocks.length
        have hgrowth := htracks.growth_le_length hcontent
        rw [Record.ids, List.length_map] at hgrowth
        obtain ⟨-, hfull⟩ | ⟨hless, hfull⟩ := hfull
        · omega
        · have hmono := tracker.growth_mono (storage.blockContentSize / 4)
            (Nat.sub_le record.cells.length (blocksFor storage.blockContentSize data.length))
          omega
    | ok _ blocks =>
        have hbound : data.length < 2 ^ 31 := by
          rw [maxRecordSize] at hmax
          omega
        have hcall' := hcall
        rw [← h.blocks] at htracks hrecord hcall'
        obtain ⟨_, store, t', hrun, hagrees, hblocks, hclosed⟩ :=
          h.exists_run hheader hsize (runs_update hcontent (contentSize_lt storage) hbound htracks
            hrecord h.closed hcall' (Q := fun _ t' => t'.blocks = blocks
              ∧ (t'.serials = fun _ => none)) (fun _ hblocks hclosed => ⟨hblocks, hclosed⟩))
        have hreturns : r.returns (.update recordId.toNat data) = true := by
          rw [RecordSession.returns, hcall]
        have hstep : r.step (.update recordId.toNat data)
            = ⟨blocks, r.live.map (fun entry => if entry.1 = recordId.toNat
                then (recordId.toNat, data) else entry), r.deleted⟩ := by
          rw [RecordSession.step, hcall]
        refine ⟨store, t', hrun, ?_⟩
        constructor
        · exact hagrees
        · exact hclosed
        · rw [hstep]
          exact hblocks
        · rw [hstep, h.live]
          dsimp only
          rw [List.map_map, List.map_map]
          apply List.map_congr_left
          intro entry _
          dsimp only [Function.comp]
          by_cases heq : entry.1 = recordId
          · rw [if_pos heq, if_pos (congrArg UInt32.toNat heq)]
          · rw [if_neg heq, if_neg fun hid => heq (UInt32.toNat_inj.mp hid)]
        · rw [hstep]
          exact h.deleted
        · exact h.laidOut.step hcontent ⟨hid, hreturns⟩ ⟨hdata, hmax⟩
        · exact h.readable.step ⟨hdata, hmax⟩

/-- Deleting a live record. -/
theorem delete (h : Represented storage s r t) (hheader : 48 ≤ storage.blockHeaderSize)
    (hsize : 4096 ≤ storage.blockSize ∧ storage.blockSize ≤ 2 ^ 21)
    (hcontent : 4 ≤ storage.blockContentSize)
    (hlive : recordId ∈ s.live.map Prod.fst) (hroom : 2 * r.blocks.length < 2 ^ 32) :
  ∃ store t', run storage s (RecordStorage.delete storage.blockContentSize recordId)
      = .ok () store
    ∧ Represented storage
      { store := store
        live := s.live.filter fun r => r.1 ≠ recordId
        deleted := if recordId ∈ s.live.map Prod.fst then recordId :: s.deleted else s.deleted }
      (r.step (.delete recordId.toNat)) t'
  := by
  have hid := h.mem_live_iff.mpr hlive
  obtain rfl | ⟨tracker, records, hlayout⟩ := h.laidOut
  · cases hid
  · obtain ⟨record, records, hlayout, hrecordId⟩ := hlayout.exists_record hid
    have htracks := hlayout.tracks
    have hrecord := hlayout.record record List.mem_cons_self
    rw [List.flatMap_cons] at htracks
    rw [hrecordId] at hrecord
    cases hcall : Records.delete recordId.toNat r.blocks with
    | error e blocks =>
        have hfull := ((delete_spec hcontent htracks hrecord).error hcall).1
        have hgrowth := htracks.growth_le_length hcontent
        rw [Record.ids, List.length_map] at hgrowth
        omega
    | ok _ blocks =>
        have hcall' := hcall
        rw [← h.blocks] at htracks hrecord hcall'
        obtain ⟨_, store, t', hrun, hagrees, hblocks, hclosed⟩ :=
          h.exists_run hheader hsize (runs_delete hcontent (contentSize_lt storage) htracks
            hrecord h.closed hcall' (Q := fun _ t' => t'.blocks = blocks
              ∧ (t'.serials = fun _ => none)) (fun _ hblocks hclosed => ⟨hblocks, hclosed⟩))
        have hreturns : r.returns (.delete recordId.toNat) = true := by
          rw [RecordSession.returns, hcall]
        have hstep : r.step (.delete recordId.toNat)
            = ⟨blocks, r.others recordId.toNat, recordId.toNat :: r.deleted⟩ := by
          rw [RecordSession.step, hcall]
          dsimp only
          rw [if_pos hid]
        refine ⟨store, t', hrun, ?_⟩
        constructor
        · exact hagrees
        · exact hclosed
        · rw [hstep]
          exact hblocks
        · rw [hstep]
          exact h.others_eq recordId
        · rw [hstep, if_pos hlive]
          exact congrArg _ h.deleted
        · exact h.laidOut.step hcontent ⟨hid, hreturns⟩ trivial
        · exact @RecordSession.Readable.step _ r (.delete recordId.toNat) h.readable trivial

/-- Constructing another storage over the bytes of the stream. -/
theorem reopen (h : Represented storage s r t) (position : Nat) :
  Represented storage (s.step storage (.reopen position)) r
    { t with serials := fun _ => none, made := 0 }
  := { h with
    agrees := h.agrees.reopen h.closed rfl
    closed := rfl
    blocks := h.blocks }

/-- No block object is in memory. -/
theorem noneInMemory (h : Represented storage s r t) :
  s.NoneInMemory
  := by
  intro blockId
  constructor
  · rw [h.agrees.serials, h.closed]
  · rw [← Option.not_isSome_iff_eq_none, h.agrees.inMemory, h.closed]
    exact Bool.false_ne_true

/-- After a call that leaves the array. -/
theorem ofStore (h : Represented storage s r t) (hagrees : Agrees storage store t')
    (hblocks : t'.blocks = t.blocks) (hclosed : t'.serials = fun _ => none) :
  Represented storage { s with store := store } r t'
  := { h with
    agrees := hagrees
    closed := hclosed
    blocks := hblocks.trans h.blocks }

/-- A live record is found with its data. -/
theorem find_live (h : Represented storage s r t) (hheader : 48 ≤ storage.blockHeaderSize)
    (hsize : 4096 ≤ storage.blockSize ∧ storage.blockSize ≤ 2 ^ 21)
    {entry : UInt32 × Bytes} (hentry : entry ∈ s.live) :
  ∃ store t', run storage s (find storage.blockContentSize entry.1) = .ok (some entry.2) store
    ∧ Represented storage { s with store := store } r t'
  := by
  have hlive : (entry.1.toNat, entry.2) ∈ r.live := by
    rw [h.live]
    exact List.mem_map_of_mem hentry
  have hmax := h.readable _ hlive
  obtain rfl | ⟨tracker, records, hlayout⟩ := h.laidOut
  · cases hlive
  · obtain ⟨record, hrecord, heq⟩ := List.mem_map.mp (hlayout.live.mem_iff.mp hlive)
    obtain ⟨hid, hdata⟩ := Prod.mk.inj heq
    have hdata : record.cells.flatMap Prod.snd = entry.2 := hdata
    obtain ⟨before, after, rfl⟩ := List.append_of_mem hrecord
    have hfirst := hlayout.perm List.perm_middle
    have htracks := hfirst.tracks
    have hrecordAt := hfirst.record record List.mem_cons_self
    rw [List.flatMap_cons] at htracks
    rw [hid, ← h.blocks] at hrecordAt
    rw [← hdata] at hmax
    have hcells : record.cells.length ≤ maxRounds := by
      have hle := htracks.length_used_le
      rw [Record.ids, List.length_map] at hle
      exact (hle.trans htracks.length_le).trans (Nat.le_succ _)
    have hruns : Runs (find storage.blockContentSize entry.1) t fun found t' =>
        found = some entry.2 ∧ t'.blocks = t.blocks ∧ (t'.serials = fun _ => none) := by
      apply runs_find_record (contentSize_lt storage) hrecordAt rfl hmax _ hcells h.closed
      · intro t' hblocks hclosed
        exact ⟨congrArg some hdata, hblocks, hclosed⟩
      · exact fun hzero => htracks.ne_zero (List.mem_append_left _ hzero) rfl
    obtain ⟨_, store, t', hrun, hagrees, rfl, hblocks, hclosed⟩ :=
      h.exists_run hheader hsize hruns
    exact ⟨store, t', hrun, h.ofStore hagrees hblocks hclosed⟩

/-- A deleted record is not found. -/
theorem find_deleted (h : Represented storage s r t) (hheader : 48 ≤ storage.blockHeaderSize)
    (hsize : 4096 ≤ storage.blockSize ∧ storage.blockSize ≤ 2 ^ 21)
    (hmem : recordId ∈ s.deleted) :
  ∃ store t', run storage s (find storage.blockContentSize recordId) = .ok none store
    ∧ Represented storage { s with store := store } r t'
  := by
  have hdeleted : recordId.toNat ∈ r.deleted := by
    rw [h.deleted]
    exact List.mem_map_of_mem hmem
  have hnone := (h.laidOut.findsAll h.readable).2 recordId.toNat hdeleted
  rw [RecordSession.found] at hnone
  split at hnone
  · rename_i data blocks hfind
    cases hnone
    rw [← h.blocks] at hfind
    have hruns : Runs (find storage.blockContentSize recordId) t fun found t' =>
        found = none ∧ t'.blocks = t.blocks ∧ (t'.serials = fun _ => none) := by
      apply runs_find_none hfind h.closed
      exact fun t' hblocks hclosed => ⟨rfl, hblocks, hclosed⟩
    obtain ⟨_, store, t', hrun, hagrees, rfl, hblocks, hclosed⟩ :=
      h.exists_run hheader hsize hruns
    exact ⟨store, t', hrun, h.ofStore hagrees hblocks hclosed⟩
  · cases hnone

/-- The live records are found with their data, and the deleted ones are not found. -/
theorem findsAll (h : Represented storage s r t) (hheader : 48 ≤ storage.blockHeaderSize)
    (hsize : 4096 ≤ storage.blockSize ∧ storage.blockSize ≤ 2 ^ 21) :
  s.FindsAll storage
  := by
  constructor
  · intro entry hentry
    obtain ⟨store, t', hrun, -⟩ := h.find_live hheader hsize hentry
    rw [found, hrun]
  · intro recordId hmem
    obtain ⟨store, t', hrun, -⟩ := h.find_deleted hheader hsize hmem
    rw [found, hrun]

/-- Looking for a live record or a deleted one. -/
theorem find (h : Represented storage s r t) (hheader : 48 ≤ storage.blockHeaderSize)
    (hsize : 4096 ≤ storage.blockSize ∧ storage.blockSize ≤ 2 ^ 21)
    (hknown : recordId ∈ s.live.map Prod.fst ∨ recordId ∈ s.deleted) :
  ∃ data store t', run storage s (RecordStorage.find storage.blockContentSize recordId)
      = .ok data store
    ∧ Represented storage { s with store := store } r t'
  := by
  obtain hlive | hdeleted := hknown
  · obtain ⟨entry, hentry, rfl⟩ := List.mem_map.mp hlive
    exact ⟨_, h.find_live hheader hsize hentry⟩
  · exact ⟨_, h.find_deleted hheader hsize hdeleted⟩

/-- A legal call with room returns and gives a represented session again. -/
theorem step (h : Represented storage s r t) (hheader : 48 ≤ storage.blockHeaderSize)
    (hsize : 4096 ≤ storage.blockSize ∧ storage.blockSize ≤ 2 ^ 21)
    (hcontent : 4 ≤ storage.blockContentSize)
    {call : StreamCall} (hlegal : s.Legal call) (hroom : s.HasRoom storage call) :
  s.Returns storage call ∧ ∃ r' t', Represented storage (s.step storage call) r' t'
  := by
  have hint := contentSize_lt storage
  rw [HasRoom, h.length_eq] at hroom
  cases call with
  | create data =>
      obtain ⟨recordId, store, t', hrun, hfresh, h'⟩ :=
        h.create hheader hsize hcontent hlegal (by rw [dataLength] at hroom; omega)
          fun hcall => runs_createFrom hcontent hint (fun _ => rfl)
            (fun _ => by rw [Legal, maxRecordSize] at hlegal; omega) h.closed h.begun hcall
            fun _ _ hid hblocks hclosed => ⟨hid, hblocks, hclosed⟩
      refine ⟨⟨recordId, store, hrun, hfresh⟩, r.step (.create data), t', ?_⟩
      rw [StreamSession.step, RecordStorage.create, hrun]
      exact h'
  | createEmpty =>
      obtain ⟨recordId, store, t', hrun, hfresh, h'⟩ :=
        h.create hheader hsize hcontent (Nat.zero_le _) (by rw [dataLength] at hroom; exact
            (by omega : r.blocks.length + 1 + blocksFor storage.blockContentSize 0 < 2 ^ 32))
          fun hcall => runs_createEmpty hint h.closed h.begun hcall
            fun _ _ hid hblocks hclosed => ⟨hid, hblocks, hclosed⟩
      refine ⟨⟨recordId, store, hrun, hfresh⟩, r.step (.create []), t', ?_⟩
      rw [StreamSession.step, hrun]
      exact h'
  | update recordId data =>
      obtain ⟨hlive, hdata, hmax⟩ := hlegal
      obtain ⟨store, t', hrun, h'⟩ := h.update hheader hsize hcontent hlive hdata hmax
        (by rw [dataLength] at hroom; omega)
      refine ⟨⟨store, hrun⟩, r.step (.update recordId.toNat data), t', ?_⟩
      rw [StreamSession.step, hrun]
      exact h'
  | delete recordId =>
      obtain ⟨store, t', hrun, h'⟩ := h.delete hheader hsize hcontent hlegal (by omega)
      refine ⟨⟨store, hrun⟩, r.step (.delete recordId.toNat), t', ?_⟩
      rw [StreamSession.step, hrun]
      exact h'
  | find recordId =>
      obtain ⟨data, store, t', hrun, h'⟩ := h.find hheader hsize hlegal
      refine ⟨⟨data, store, hrun⟩, r, t', ?_⟩
      rw [StreamSession.step, hrun]
      exact h'
  | reopen position => exact ⟨trivial, r, _, h.reopen position⟩

end

end Represented

/-- The session with an empty stream. -/
theorem represented_new (storage : BlockStorage) (position : Nat) :
  ∃ r t, Represented storage (new position) r t
  := by
  refine ⟨RecordSession.new storage.blockContentSize, _, agrees_empty storage position, rfl, rfl,
    rfl, rfl, .inl rfl, ?_⟩
  intro entry hentry
  cases hentry

end StreamSession

end Datatent.RecordStorage
