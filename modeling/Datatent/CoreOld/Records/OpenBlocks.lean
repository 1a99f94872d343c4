import Datatent.CoreOld.Block.BlockObjects
import Datatent.CoreOld.Block.FlatBlocks
import Datatent.CoreOld.Records.RecordStorage

/-!
# Blocks that are open

What the record storage relies on of the block storage: an array of blocks, and for some of the
ids an object that is open. A call that is within this contract comes to what it comes to on
the array; the others are refused. A block storage over a stream whose blocks have at least 4096
bytes and room for the header fields keeps the contract (`Agrees.perform`).
-/

namespace Datatent.Records

open Blocks

variable {blockContentSize : Nat} {E : Type}

/-! ### Header fields by their number -/

/-- The value of a header field. -/
def Block.header (block : Block blockContentSize) : Nat → Nat
  | 0 => block.nextBlockId
  | 1 => block.recordLength
  | 2 => block.blockContentLength
  | 3 => block.previousBlockId
  | 4 => block.isDeleted
  | _ => 0

/-- The block with a header field set. -/
def Block.setHeader (block : Block blockContentSize) (field value : Nat) :
    Block blockContentSize :=
  match field with
  | 0 => { block with nextBlockId := value }
  | 1 => { block with recordLength := value }
  | 2 => { block with blockContentLength := value }
  | 3 => { block with previousBlockId := value }
  | 4 => { block with isDeleted := value }
  | _ => block

/-- The field that was set has the value, the others keep theirs. -/
theorem Block.header_setHeader (block : Block blockContentSize) {field : Nat} (hfield : field < 5)
    (value other : Nat) :
  (block.setHeader field value).header other = if other = field then value else block.header other
  := by
  match field, hfield with
  | 0, _ | 1, _ | 2, _ | 3, _ | 4, _ =>
      match other with
      | 0 | 1 | 2 | 3 | 4 | _ + 5 => rfl

/-- Setting a header field leaves the content. -/
theorem Block.content_setHeader (block : Block blockContentSize) (field value : Nat) :
  (block.setHeader field value).content = block.content
  := by
  match field with
  | 0 | 1 | 2 | 3 | 4 | _ + 5 => rfl

/-- The header fields are numbers of 64 bits with a sign. -/
def Block.Small (block : Block blockContentSize) : Prop :=
  ∀ field, block.header field < 2 ^ 63

/-- The header fields stay small when one is set to a number of 64 bits. -/
theorem Block.Small.setHeader {block : Block blockContentSize} (h : block.Small) (field : Nat)
    {value : Nat} (hvalue : value < 2 ^ 63) :
  (block.setHeader field value).Small
  := by
  intro other
  by_cases hfield : field < 5
  · rw [header_setHeader block hfield]
    split
    · exact hvalue
    · exact h other
  · match field with
    | 0 | 1 | 2 | 3 | 4 => exact absurd (by decide) hfield
    | _ + 5 => exact h other

/-- The header fields of a new block are small. -/
theorem Block.small_new (blockContentSize : Nat) :
  (Block.new blockContentSize).Small
  := by
  intro field
  match field with
  | 0 | 1 | 2 | 3 | 4 | _ + 5 => exact Nat.two_pow_pos 63

/-- What holds of all blocks holds of them when one is changed that it holds of still. -/
theorem forall_mem_modify {P : Block blockContentSize → Prop}
    {blocks : List (Block blockContentSize)} (h : ∀ block ∈ blocks, P block) (id : Nat)
    {f : Block blockContentSize → Block blockContentSize} (hf : ∀ block, P block → P (f block)) :
  ∀ block ∈ blocks.modify id f, P block
  := by
  intro block hblock
  obtain ⟨j, hj⟩ := List.mem_iff_getElem?.mp hblock
  rw [List.getElem?_modify, Option.map_eq_map, Option.map_eq_some_iff] at hj
  obtain ⟨old, hold, rfl⟩ := hj
  have hP := h old (List.mem_of_getElem? hold)
  split
  · exact hf old hP
  · exact hP

/-! ### The contract -/

/-- The array of blocks, whose header fields are small, and the serial numbers of the objects
that are open. -/
structure OpenBlocks (blockContentSize : Nat) where
  blocks : List (Block blockContentSize)
  small : ∀ block ∈ blocks, block.Small
  serials : UInt32 → Option Nat
  made : Nat

namespace OpenBlocks

/-- The object is open. -/
def IsOpen (s : OpenBlocks blockContentSize) (block : BlockObject) : Prop :=
  s.serials block.id = some block.serial

instance (s : OpenBlocks blockContentSize) (block : BlockObject) : Decidable (s.IsOpen block) :=
  inferInstanceAs (Decidable (_ = _))

/-- Set a header field of the block with an id. -/
def setHeader (s : OpenBlocks blockContentSize) (blockId : UInt32) (field : Nat)
    (value : Int64) : OpenBlocks blockContentSize :=
  { s with
    blocks := s.blocks.modify blockId.toNat fun block => block.setHeader field value.toInt.toNat
    small := forall_mem_modify s.small _ fun block h => h.setHeader field (by
      have hlt := value.toInt_lt
      omega) }

/-- Write to the content of the block with an id. -/
def write (s : OpenBlocks blockContentSize) (blockId : UInt32) (dstOffset : Nat) (src : Bytes)
    (hle : dstOffset + src.length ≤ blockContentSize) : OpenBlocks blockContentSize :=
  { s with
    blocks := s.blocks.modify blockId.toNat fun block => block.write dstOffset src hle
    small := forall_mem_modify s.small _ fun _ h => h }

/-- Put a new block at the end of the array. -/
def append (s : OpenBlocks blockContentSize) : OpenBlocks blockContentSize :=
  { s with
    blocks := s.blocks ++ [Block.new blockContentSize]
    small := by
      intro block hblock
      rw [List.mem_append, List.mem_singleton] at hblock
      obtain hblock | rfl := hblock
      · exact s.small block hblock
      · exact Block.small_new blockContentSize }

/-- Open a new object. -/
def opening (s : OpenBlocks blockContentSize) (blockId : UInt32) : OpenBlocks blockContentSize :=
  { s with serials := Function.update s.serials blockId (some s.made), made := s.made + 1 }

/-- The object for an id is open no more. -/
def closing (s : OpenBlocks blockContentSize) (blockId : UInt32) : OpenBlocks blockContentSize :=
  { s with serials := Function.update s.serials blockId none }

/-- A range of bytes that lies within the content and within the buffer of the client. -/
def InRange (blockContentSize : Nat) (buffer : Bytes) (bufferOffset offset count : Int) : Prop :=
  0 ≤ bufferOffset ∧ 0 ≤ offset ∧ 0 ≤ count ∧ offset + count ≤ blockContentSize
    ∧ bufferOffset + count ≤ buffer.length ∧ buffer.length < 2 ^ 31

instance (buffer : Bytes) (bufferOffset offset count : Int) :
    Decidable (InRange blockContentSize buffer bufferOffset offset count) :=
  inferInstanceAs (Decidable (_ ∧ _ ∧ _ ∧ _ ∧ _ ∧ _))

/-- The bytes that a client has written from its buffer lie within the content. -/
theorem InRange.write_le {src : Bytes} {srcOffset dstOffset count : Int}
    (h : InRange blockContentSize src srcOffset dstOffset count) :
  dstOffset.toNat + ((src.drop srcOffset.toNat).take count.toNat).length ≤ blockContentSize
  := by
  obtain ⟨hsrc, hdst, hcount, hinside, hroom, -⟩ := h
  rw [List.length_take, List.length_drop]
  omega

/-- What a call comes to, as long as the client keeps to the contract: an id is looked for only
where no object for it is open, there is a number left for a new block, and the methods are
called on open objects, in range and with header fields that are not negative. -/
def perform : (call : ObjectCall) →
    EStateM (ClientException E) (OpenBlocks blockContentSize) call.Reply
  | .find blockId => fun s =>
      if (s.serials blockId).isSome then .error (.block .argument) s
      else if blockId.toNat < s.blocks.length then
        .ok (some { id := blockId, serial := s.made }) (s.opening blockId)
      else .ok none s
  | .createNew => fun s =>
      if s.blocks.length < 2 ^ 32 then
        .ok { id := UInt32.ofNat s.blocks.length, serial := s.made }
          (s.append.opening (UInt32.ofNat s.blocks.length))
      else .error (.block .argument) s
  | .getHeader block field => fun s =>
      match s.blocks[block.id.toNat]? with
      | some found =>
          if s.IsOpen block ∧ 0 ≤ field ∧ field < 5 then
            .ok (Int64.ofNat (found.header field.toNat)) s
          else .error (.block .argument) s
      | none => .error (.block .argument) s
  | .setHeader block field value => fun s =>
      if s.IsOpen block ∧ 0 ≤ field ∧ field < 5 ∧ 0 ≤ value.toInt then
        .ok () (s.setHeader block.id field.toNat value)
      else .error (.block .argument) s
  | .read block dst dstOffset srcOffset count => fun s =>
      match s.blocks[block.id.toNat]? with
      | some found =>
          if s.IsOpen block ∧ InRange blockContentSize dst dstOffset srcOffset count then
            .ok (Bytes.overwrite dst dstOffset.toNat
              ((found.content.drop srcOffset.toNat).take count.toNat)) s
          else .error (.block .argument) s
      | none => .error (.block .argument) s
  | .write block src srcOffset dstOffset count => fun s =>
      if h : InRange blockContentSize src srcOffset dstOffset count then
        if s.IsOpen block then
          .ok () (s.write block.id dstOffset.toNat ((src.drop srcOffset.toNat).take count.toNat)
            h.write_le)
        else .error (.block .argument) s
      else .error (.block .argument) s
  | .dispose block => fun s =>
      if s.IsOpen block then .ok () (s.closing block.id) else .ok () s

end OpenBlocks

/-! ### Blocks in memory -/

section Memory

variable {storage : BlockStorage} {s s' : StorageState} {blockId : UInt32}

/-- A call that does not throw, as a computation. -/
theorem run_of_step {call : BlockCall} {result : BlockResult}
    (h : step storage s call = (result, s')) (hresult : ∀ e, result ≠ .thrown e) :
  call.run storage s = .ok result s'
  := by
  rw [step] at h
  cases hrun : call.run storage s with
  | ok result' s'' =>
      rw [hrun] at h
      cases h
      rfl
  | error e s'' =>
      rw [hrun] at h
      cases h
      exact absurd rfl (hresult e)

/-- A method of a block leaves which blocks are in memory. -/
theorem isSome_of_onBlock {α : Type} {method : BlockM α} {a : α}
    (h : BlockStorage.onBlock blockId method s = .ok a s') (otherId : UInt32) :
  (s'.blocks otherId).isSome = (s.blocks otherId).isSome
  := by
  rw [BlockStorage.onBlock] at h
  cases hblock : s.blocks blockId with
  | none =>
      rw [hblock] at h
      cases h
  | some block =>
      rw [hblock] at h
      dsimp only at h
      split at h
      · cases h
        dsimp only
        rw [Function.update_apply]
        split
        · rename_i heq
          rw [heq, hblock]
          rfl
        · rfl
      · cases h

/-- A block that is found is in memory, and the others stay as they are. -/
theorem isSome_of_find {found : Option UInt32} (h : storage.find blockId s = .ok found s')
    (otherId : UInt32) :
  (s'.blocks otherId).isSome
    = if otherId = blockId ∧ found.isSome then true else (s.blocks otherId).isSome
  := by
  rw [BlockStorage.find, EStateM.get_bind_apply] at h
  split at h
  · rename_i hblock
    cases h
    split
    · rename_i heq
      rw [heq.1, hblock]
    · rfl
  · dsimp only at h
    split at h
    · cases h
      rw [if_neg (fun hsome => Bool.false_ne_true hsome.2)]
    · obtain ⟨_, _, hset, h⟩ := EStateM.bind_eq_ok.mp h
      cases hset
      obtain ⟨_, _, hkeep, h⟩ := EStateM.bind_eq_ok.mp h
      cases hkeep
      cases h
      dsimp only [Block.new]
      rw [Function.update_apply]
      split
      · rename_i heq
        rw [if_pos ⟨heq, rfl⟩]
        rfl
      · rename_i hne
        rw [if_neg (fun heq => hne heq.1)]

/-- A new block is in memory, and the others stay as they are. -/
theorem isSome_of_createNew (h : storage.createNew s = .ok blockId s') (otherId : UInt32) :
  (s'.blocks otherId).isSome = if otherId = blockId then true else (s.blocks otherId).isSome
  := by
  rw [BlockStorage.createNew, EStateM.get_bind_apply] at h
  split at h
  · cases h
  · obtain ⟨_, _, hset, h⟩ := EStateM.bind_eq_ok.mp h
    cases hset
    obtain ⟨_, _, hkeep, h⟩ := EStateM.bind_eq_ok.mp h
    cases hkeep
    cases h
    dsimp only [Block.new]
    rw [Function.update_apply, apply_ite Option.isSome]
    rfl

/-- Disposing a block that is not disposed raises the event. -/
theorem raised_of_dispose {state state' : BlockState} {raised : Bool}
    (hlive : state.block.isDisposed = false)
    (h : Blocks.Block.dispose storage state = .ok raised state') :
  raised = true
  := by
  rw [Blocks.Block.dispose, EStateM.get_bind_apply, if_neg (by rw [hlive]; decide)] at h
  obtain ⟨_, _, -, h⟩ := EStateM.bind_eq_ok.mp h
  split at h
  · obtain ⟨_, _, -, h⟩ := EStateM.bind_eq_ok.mp h
    cases h
    rfl
  · cases h
    rfl

/-- A block that was disposed is not in memory, and the others stay as they are. -/
theorem isSome_of_dispose (hlive : Live s blockId) (h : storage.dispose blockId s = .ok () s')
    (otherId : UInt32) :
  (s'.blocks otherId).isSome = if otherId = blockId then false else (s.blocks otherId).isSome
  := by
  obtain ⟨block, hblock, hlive⟩ := hlive
  obtain ⟨raised, s₁, hdispose, h⟩ := EStateM.bind_eq_ok.mp h
  have hraised : raised = true := by
    rw [BlockStorage.onBlock, hblock] at hdispose
    dsimp only at hdispose
    split at hdispose
    · rename_i hmethod
      cases hdispose
      exact raised_of_dispose hlive hmethod
    · cases hdispose
  rw [hraised, if_pos rfl] at h
  cases h
  dsimp only
  rw [Function.update_apply]
  split
  · rfl
  · exact isSome_of_onBlock hdispose otherId

end Memory

/-! ### A block storage over a stream keeps the contract -/

/-- The blocks of an array as flat blocks. -/
def flat (blocks : List (Block blockContentSize)) : FlatBlocks where
  count := blocks.length
  content id :=
    match blocks[id]? with
    | some block => block.content
    | none => []
  header id field :=
    match blocks[id]? with
    | some block => Int64.ofNat (block.header field)
    | none => 0

section Flat

variable {blocks blocks' : List (Block blockContentSize)} {block : Block blockContentSize}
  {id : Nat}

/-- The content of a block of the array. -/
theorem flat_content (h : blocks[id]? = some block) :
  (flat blocks).content id = block.content
  := by
  simp only [flat, h]

/-- The header fields of a block of the array. -/
theorem flat_header (h : blocks[id]? = some block) (field : Nat) :
  (flat blocks).header id field = Int64.ofNat (block.header field)
  := by
  simp only [flat, h]

/-- The content and the header fields of a block that did not change. -/
theorem flat_congr (h : blocks'[id]? = blocks[id]?) :
  (flat blocks').content id = (flat blocks).content id
    ∧ (flat blocks').header id = (flat blocks).header id
  := by
  simp only [flat, h, and_self]

/-- An array as flat blocks is as long as these and has their contents and header fields. -/
theorem flat_eq {t : FlatBlocks} (hcount : blocks.length = t.count)
    (hcontent : ∀ id, (flat blocks).content id = t.content id)
    (hheader : ∀ id, (flat blocks).header id = t.header id) :
  flat blocks = t
  := by
  obtain ⟨count, content, header⟩ := t
  rw [flat, FlatBlocks.mk.injEq]
  exact ⟨hcount, funext hcontent, funext hheader⟩

/-- A header field of a block that is set. -/
theorem flat_setHeader (hid : id < blocks.length) {field : Nat} (hfield : field < 5)
    (value : Nat) :
  flat (blocks.modify id fun block => block.setHeader field value)
    = { flat blocks with
        header := Function.update (flat blocks).header id
          (Function.update ((flat blocks).header id) field (Int64.ofNat value)) }
  := by
  have hblock : blocks[id]? = some blocks[id] := List.getElem?_eq_getElem hid
  apply flat_eq
  · exact List.length_modify _ _ _
  · intro j
    by_cases hj : j = id
    · subst hj
      rw [flat_content (modify_same _ hblock), Block.content_setHeader, flat_content hblock]
    · exact (flat_congr (modify_other _ hj)).1
  · intro j
    dsimp only
    by_cases hj : j = id
    · subst hj
      funext other
      rw [flat_header (modify_same _ hblock), Block.header_setHeader _ hfield,
        Function.update_self, Function.update_apply, flat_header hblock, apply_ite Int64.ofNat]
    · rw [Function.update_of_ne hj]
      exact (flat_congr (modify_other _ hj)).2

/-- The content of a block that is written to. -/
theorem flat_write (hid : id < blocks.length) {dstOffset : Nat} {src : Bytes}
    (hle : dstOffset + src.length ≤ blockContentSize) :
  flat (blocks.modify id fun block => block.write dstOffset src hle)
    = { flat blocks with
        content := Function.update (flat blocks).content id
          (Bytes.overwrite ((flat blocks).content id) dstOffset src) }
  := by
  have hblock : blocks[id]? = some blocks[id] := List.getElem?_eq_getElem hid
  apply flat_eq
  · exact List.length_modify _ _ _
  · intro j
    dsimp only
    by_cases hj : j = id
    · subst hj
      rw [flat_content (modify_same _ hblock), Function.update_self, flat_content hblock]
      rfl
    · rw [Function.update_of_ne hj]
      exact (flat_congr (modify_other _ hj)).1
  · intro j
    by_cases hj : j = id
    · subst hj
      funext field
      rw [flat_header (modify_same _ hblock), flat_header hblock]
      match field with
      | 0 | 1 | 2 | 3 | 4 | _ + 5 => rfl
    · exact (flat_congr (modify_other _ hj)).2

/-- A new block behind the others. -/
theorem flat_concat (blocks : List (Block blockContentSize)) :
  flat (blocks ++ [Block.new blockContentSize])
    = ((flat blocks).step blockContentSize .createNew).2
  := by
  have hcount : (flat blocks).count = blocks.length := rfl
  rw [FlatBlocks.step, hcount]
  apply flat_eq
  · rw [List.length_append, List.length_singleton]
  · intro j
    dsimp only
    by_cases hj : j = blocks.length
    · subst hj
      rw [flat_content List.getElem?_concat_length, Function.update_self]
      rfl
    · rw [(flat_congr (getElem?_concat_other _ hj)).1, Function.update_of_ne hj]
  · intro j
    dsimp only
    by_cases hj : j = blocks.length
    · subst hj
      funext field
      rw [flat_header List.getElem?_concat_length, Function.update_self]
      match field with
      | 0 | 1 | 2 | 3 | 4 | _ + 5 => rfl
    · rw [(flat_congr (getElem?_concat_other _ hj)).2, Function.update_of_ne hj]

end Flat

/-- A block storage over a stream represents the array, and has the objects that are open in
memory. -/
structure Agrees (storage : BlockStorage) (s : ObjectStore)
    (t : OpenBlocks storage.blockContentSize) : Prop where
  represents : Represents storage s.storage (flat t.blocks)
  serials : s.serials = t.serials
  made : s.made = t.made
  inMemory : ∀ blockId, (s.storage.blocks blockId).isSome = (t.serials blockId).isSome

namespace Agrees

variable {storage : BlockStorage} {s : ObjectStore} {t t' : OpenBlocks storage.blockContentSize}
  {block : BlockObject} {st : StorageState}

/-- An object that is open is in memory, and its block is not disposed. -/
theorem live (h : Agrees storage s t) (hopen : t.IsOpen block) :
  s.InMemory block ∧ Live s.storage block.id ∧ block.id.toNat < t.blocks.length
  := by
  have hsome := h.inMemory block.id
  rw [hopen, Option.isSome_some] at hsome
  obtain ⟨found, hfound⟩ := Option.isSome_iff_exists.mp hsome
  obtain ⟨hcount, hopened⟩ := h.represents.opened hfound
  refine ⟨?_, ⟨found, hfound, hopened.live⟩, hcount⟩
  rw [ObjectStore.InMemory, h.serials]
  exact hopen

/-- A method of an object that is in memory. -/
theorem onObject_eq {α : Type} {method : BlockM α} {a : α} (hmemory : s.InMemory block)
    (hmethod : BlockStorage.onBlock block.id method s.storage = .ok a st) :
  (ObjectStore.onObject block method : ObjectM E α) s = .ok a { s with storage := st }
  := by
  rw [ObjectStore.onObject, EStateM.get_bind_apply, if_pos hmemory, ObjectStore.onStorage,
    hmethod]

/-- After a method of a block the same objects are in memory. -/
theorem of_onBlock {α : Type} {method : BlockM α} {a : α} (h : Agrees storage s t)
    (hmethod : BlockStorage.onBlock block.id method s.storage = .ok a st)
    (hrepresents : Represents storage st (flat t'.blocks)) (hserials : t'.serials = t.serials)
    (hmade : t'.made = t.made) :
  Agrees storage { s with storage := st } t'
  where
  represents := hrepresents
  serials := h.serials.trans hserials.symm
  made := h.made.trans hmade.symm
  inMemory blockId := by
    rw [hserials]
    exact (isSome_of_onBlock hmethod blockId).trans (h.inMemory blockId)

/-- Reading a header field. -/
theorem getHeader (h : Agrees storage s t) (hheader : 48 ≤ storage.blockHeaderSize) {field : Int}
    {value : Int64}
    (hcall : OpenBlocks.perform (E := E) (.getHeader block field) t = .ok value t') :
  ∃ s', ObjectStore.perform (E := E) storage (.getHeader block field) s = .ok value s'
    ∧ Agrees storage s' t'
  := by
  rw [OpenBlocks.perform] at hcall
  dsimp only at hcall
  split at hcall
  · rename_i found hfound
    split at hcall
    · rename_i hrange
      obtain ⟨hopen, hfield, hlt⟩ := hrange
      cases hcall
      obtain ⟨hmemory, hlive, hcount⟩ := h.live hopen
      lift field to Nat using hfield
      have hfield : field < 5 := by omega
      obtain ⟨st, hstep, hrepresents⟩ := h.represents.getHeader hheader hlive hfield
      obtain ⟨value, st', hmethod, hreturn⟩ :=
        EStateM.bind_eq_ok.mp (run_of_step hstep (fun _ heq => nomatch heq))
      cases hreturn
      rw [flat_header hfound] at hmethod
      exact ⟨_, onObject_eq hmemory hmethod, h.of_onBlock hmethod hrepresents rfl rfl⟩
    · cases hcall
  · cases hcall

/-- Setting a header field. -/
theorem setHeader (h : Agrees storage s t) (hheader : 48 ≤ storage.blockHeaderSize) {field : Int}
    {value : Int64}
    (hcall : OpenBlocks.perform (E := E) (.setHeader block field value) t = .ok () t') :
  ∃ s', ObjectStore.perform (E := E) storage (.setHeader block field value) s = .ok () s'
    ∧ Agrees storage s' t'
  := by
  rw [OpenBlocks.perform] at hcall
  dsimp only at hcall
  split at hcall
  · rename_i hrange
    obtain ⟨hopen, hfield, hlt, hvalue⟩ := hrange
    cases hcall
    obtain ⟨hmemory, hlive, hcount⟩ := h.live hopen
    lift field to Nat using hfield
    have hfield : field < 5 := by omega
    obtain ⟨st, hstep, hrepresents⟩ := h.represents.setHeader hheader hlive hfield value
    obtain ⟨value', st', hmethod, hreturn⟩ :=
      EStateM.bind_eq_ok.mp (run_of_step hstep (fun _ heq => nomatch heq))
    cases hreturn
    have hofNat : Int64.ofNat value.toInt.toNat = value := by
      rw [← Int64.ofInt_eq_ofNat, Int.toNat_of_nonneg hvalue, Int64.ofInt_toInt]
    refine ⟨_, onObject_eq hmemory hmethod, h.of_onBlock hmethod ?_ rfl rfl⟩
    rw [OpenBlocks.setHeader, Int.toNat_natCast, flat_setHeader hcount hfield, hofNat]
    exact hrepresents
  · cases hcall

/-- Reading content. -/
theorem read (h : Agrees storage s t) {dst result : Bytes} {dstOffset srcOffset count : Int}
    (hcall : OpenBlocks.perform (E := E) (.read block dst dstOffset srcOffset count) t
      = .ok result t') :
  ∃ s', ObjectStore.perform (E := E) storage (.read block dst dstOffset srcOffset count) s
      = .ok result s'
    ∧ Agrees storage s' t'
  := by
  rw [OpenBlocks.perform] at hcall
  dsimp only at hcall
  split at hcall
  · rename_i found hfound
    split at hcall
    · rename_i hrange
      obtain ⟨hopen, hdst, hsrc, hcount, hinside, hroom, hint⟩ := hrange
      cases hcall
      obtain ⟨hmemory, hlive, -⟩ := h.live hopen
      lift dstOffset to Nat using hdst
      lift srcOffset to Nat using hsrc
      lift count to Nat using hcount
      obtain ⟨st, hstep, hrepresents⟩ := h.represents.read hlive
        (by omega : srcOffset + count ≤ storage.blockContentSize)
        (by omega : dstOffset + count ≤ dst.length) hint
      obtain ⟨result', st', hmethod, hreturn⟩ :=
        EStateM.bind_eq_ok.mp (run_of_step hstep (fun _ heq => nomatch heq))
      cases hreturn
      rw [flat_content hfound] at hmethod
      exact ⟨_, onObject_eq hmemory hmethod, h.of_onBlock hmethod hrepresents rfl rfl⟩
    · cases hcall
  · cases hcall

/-- Writing content. -/
theorem write (h : Agrees storage s t) (hheader : 48 ≤ storage.blockHeaderSize) {src : Bytes}
    {srcOffset dstOffset count : Int}
    (hcall : OpenBlocks.perform (E := E) (.write block src srcOffset dstOffset count) t
      = .ok () t') :
  ∃ s', ObjectStore.perform (E := E) storage (.write block src srcOffset dstOffset count) s
      = .ok () s'
    ∧ Agrees storage s' t'
  := by
  rw [OpenBlocks.perform] at hcall
  dsimp only at hcall
  split at hcall
  · rename_i hrange
    split at hcall
    · rename_i hopen
      cases hcall
      obtain ⟨hmemory, hlive, hid⟩ := h.live hopen
      have hle := hrange.write_le
      obtain ⟨hsrc, hdst, hcount, hinside, hroom, hint⟩ := hrange
      lift srcOffset to Nat using hsrc
      lift dstOffset to Nat using hdst
      lift count to Nat using hcount
      obtain ⟨st, hstep, hrepresents⟩ := h.represents.write hheader hlive
        (by omega : srcOffset + count ≤ src.length) hint
        (by omega : dstOffset + count ≤ storage.blockContentSize)
      obtain ⟨_, st', hmethod, hreturn⟩ :=
        EStateM.bind_eq_ok.mp (run_of_step hstep (fun _ heq => nomatch heq))
      cases hreturn
      refine ⟨_, onObject_eq hmemory hmethod, h.of_onBlock hmethod ?_ rfl rfl⟩
      rw [OpenBlocks.write, flat_write hid hle]
      exact hrepresents
    · cases hcall
  · cases hcall

/-- Disposing an object. -/
theorem dispose (h : Agrees storage s t) (hsize : 4096 ≤ storage.blockSize)
    (hcall : OpenBlocks.perform (E := E) (.dispose block) t = .ok () t') :
  ∃ s', ObjectStore.perform (E := E) storage (.dispose block) s = .ok () s'
    ∧ Agrees storage s' t'
  := by
  rw [OpenBlocks.perform] at hcall
  dsimp only at hcall
  split at hcall
  · rename_i hopen
    cases hcall
    obtain ⟨hmemory, hlive, -⟩ := h.live hopen
    obtain ⟨st, hstep, hrepresents⟩ := h.represents.dispose hlive (fun _ _ _ => hsize)
    obtain ⟨_, st', hdispose, hreturn⟩ :=
      EStateM.bind_eq_ok.mp (run_of_step hstep (fun _ heq => nomatch heq))
    cases hreturn
    have hclosed : (st.blocks block.id).isNone = true := by
      rw [← Option.not_isSome, isSome_of_dispose hlive hdispose, if_pos rfl]
      rfl
    refine ⟨{ s with storage := st, serials := Function.update s.serials block.id none }, ?_, ?_⟩
    · rw [ObjectStore.perform, ObjectStore.dispose, EStateM.get_bind_apply, if_pos hmemory]
      have hmethod : (ObjectStore.onStorage (storage.dispose block.id) : ObjectM E Unit) s
          = .ok () { s with storage := st } := by
        rw [ObjectStore.onStorage, hdispose]
      rw [EStateM.bind_apply_of_ok hmethod]
      change EStateM.Result.ok () (if (st.blocks block.id).isNone = true then _ else _) = _
      rw [if_pos hclosed]
    · exact
        { represents := hrepresents
          serials := congrArg (fun serials => Function.update serials block.id none) h.serials
          made := h.made
          inMemory := by
            intro blockId
            dsimp only [OpenBlocks.closing]
            rw [isSome_of_dispose hlive hdispose, Function.update_apply, h.inMemory,
              apply_ite Option.isSome]
            rfl }
  · rename_i hclosed
    cases hcall
    refine ⟨s, ?_, h⟩
    have hmemory : ¬ s.InMemory block := by
      rw [ObjectStore.InMemory, h.serials]
      exact hclosed
    rw [ObjectStore.perform, ObjectStore.dispose, EStateM.get_bind_apply, if_neg hmemory]
    rfl

/-- Looking for a block. -/
theorem find (h : Agrees storage s t) {blockId : UInt32} {found : Option BlockObject}
    (hcall : OpenBlocks.perform (E := E) (.find blockId) t = .ok found t') :
  ∃ s', ObjectStore.perform (E := E) storage (.find blockId) s = .ok found s'
    ∧ Agrees storage s' t'
  := by
  rw [OpenBlocks.perform] at hcall
  dsimp only at hcall
  obtain ⟨st, hstep, hrepresents⟩ := h.represents.find blockId
  obtain ⟨id?, st', hfind, hreturn⟩ :=
    EStateM.bind_eq_ok.mp (run_of_step hstep (fun _ heq => by split at heq <;> nomatch heq))
  have hreturn : EStateM.Result.ok (BlockResult.block (id?.map UInt32.toNat)) st'
      = (.ok (.block (if blockId.toNat < t.blocks.length then some blockId.toNat else none)) st :
        EStateM.Result BlockException StorageState BlockResult) := hreturn
  injection hreturn with hresult hstate
  injection hresult with hresult
  subst hstate
  have hmethod : (ObjectStore.onStorage (storage.find blockId) : ObjectM E _) s
      = .ok id? { s with storage := st' } := by
    rw [ObjectStore.onStorage, hfind]
  rw [ObjectStore.perform, ObjectStore.find, EStateM.bind_apply_of_ok hmethod]
  split at hcall
  · cases hcall
  · rename_i hclosed
    have hnone : s.serials blockId = none := by
      rw [h.serials]
      exact Option.not_isSome_iff_eq_none.mp hclosed
    split at hcall
    · rename_i hlt
      cases hcall
      rw [if_pos hlt] at hresult
      have hsome : id?.isSome = true := by
        rw [← Option.isSome_map, hresult]
        rfl
      rw [if_neg (by rw [Option.isNone_iff_eq_none]; rintro rfl; cases hsome),
        EStateM.get_bind_apply]
      dsimp only
      rw [hnone]
      refine ⟨_, congrArg (fun made => EStateM.Result.ok (some
        ({ id := blockId, serial := made } : BlockObject)) _) h.made, ?_⟩
      exact
        { represents := hrepresents
          serials := by
            dsimp only [OpenBlocks.opening]
            rw [h.serials, h.made]
          made := congrArg (· + 1) h.made
          inMemory := by
            intro otherId
            dsimp only [OpenBlocks.opening]
            rw [isSome_of_find hfind, Function.update_apply, h.inMemory, apply_ite Option.isSome,
              hsome]
            simp only [and_true, Option.isSome_some] }
    · rename_i hge
      cases hcall
      rw [if_neg hge, Option.map_eq_none_iff] at hresult
      subst hresult
      refine ⟨_, rfl, ?_⟩
      exact
        { represents := hrepresents
          serials := h.serials
          made := h.made
          inMemory := by
            intro otherId
            rw [isSome_of_find hfind, if_neg (fun hsome => Bool.false_ne_true hsome.2)]
            exact h.inMemory otherId }

/-- A new block. -/
theorem createNew (h : Agrees storage s t) (hsize : storage.blockSize ≤ 2 ^ 21)
    {block : BlockObject}
    (hcall : OpenBlocks.perform (E := E) .createNew t = .ok block t') :
  ∃ s', ObjectStore.perform (E := E) storage .createNew s = .ok block s' ∧ Agrees storage s' t'
  := by
  rw [OpenBlocks.perform] at hcall
  dsimp only at hcall
  split at hcall
  · rename_i hroom
    cases hcall
    have hid : (UInt32.ofNat t.blocks.length).toNat = t.blocks.length :=
      UInt32.toNat_ofNat_of_lt' hroom
    have hright : CountsRight storage s.storage.stream.bytes.length := by
      apply countsRight_of_lt
      rw [h.represents.length_eq]
      calc t.blocks.length * storage.blockSize ≤ t.blocks.length * 2 ^ 21 :=
            Nat.mul_le_mul_left _ hsize
        _ < 2 ^ 53 := by omega
    obtain ⟨st, hstep, hrepresents⟩ := h.represents.createNew hroom hright
    obtain ⟨blockId, st', hcreate, hreturn⟩ :=
      EStateM.bind_eq_ok.mp (run_of_step hstep (fun _ heq => nomatch heq))
    have hreturn : EStateM.Result.ok (BlockResult.block (some blockId.toNat)) st'
        = (.ok (.block (some t.blocks.length)) st :
          EStateM.Result BlockException StorageState BlockResult) := hreturn
    injection hreturn with hresult hstate
    injection hresult with hresult
    injection hresult with htoNat
    obtain rfl : blockId = UInt32.ofNat t.blocks.length := by
      rw [← htoNat, UInt32.ofNat_toNat]
    subst hstate
    have hmethod : (ObjectStore.onStorage storage.createNew : ObjectM E _) s
        = .ok (UInt32.ofNat t.blocks.length) { s with storage := st' } := by
      rw [ObjectStore.onStorage, hcreate]
    rw [ObjectStore.perform, ObjectStore.createNew, EStateM.bind_apply_of_ok hmethod]
    refine ⟨_, congrArg (fun made => EStateM.Result.ok
      ({ id := UInt32.ofNat t.blocks.length, serial := made } : BlockObject) _) h.made, ?_⟩
    exact
      { represents := by
          dsimp only [OpenBlocks.opening, OpenBlocks.append]
          rw [flat_concat]
          exact hrepresents
        serials := by
          dsimp only [OpenBlocks.opening, OpenBlocks.append]
          rw [h.serials, h.made]
        made := congrArg (· + 1) h.made
        inMemory := by
          intro otherId
          dsimp only [OpenBlocks.opening, OpenBlocks.append]
          rw [isSome_of_createNew hcreate, Function.update_apply, h.inMemory,
            apply_ite Option.isSome]
          rfl }
  · cases hcall

/-- Whatever is called within the contract, the block storage does the same as the array. -/
theorem perform (hheader : 48 ≤ storage.blockHeaderSize)
    (hsize : 4096 ≤ storage.blockSize ∧ storage.blockSize ≤ 2 ^ 21)
    (call : ObjectCall) (h : Agrees storage s t) {reply : call.Reply}
    (hcall : OpenBlocks.perform (E := E) call t = .ok reply t') :
  ∃ s', ObjectStore.perform (E := E) storage call s = .ok reply s' ∧ Agrees storage s' t'
  := by
  cases call with
  | find blockId => exact h.find hcall
  | createNew => exact h.createNew hsize.2 hcall
  | getHeader block field => exact h.getHeader hheader hcall
  | setHeader block field value => exact h.setHeader hheader hcall
  | read block dst dstOffset srcOffset count => exact h.read hcall
  | write block src srcOffset dstOffset count => exact h.write hheader hcall
  | dispose block => exact h.dispose hsize.1 hcall

/-- Where no object is open, another block storage that is constructed over the same bytes
represents the same array. -/
theorem reopen (h : Agrees storage s t) (hclosed : t.serials = fun _ => none)
    {stream : DataFileStream} (hbytes : stream.bytes = s.storage.stream.bytes) :
  Agrees storage (ObjectStore.over stream) { t with serials := fun _ => none, made := 0 }
  := by
  have hnone : ∀ blockId, s.storage.blocks blockId = none := by
    intro blockId
    rw [← Option.not_isSome_iff_eq_none, h.inMemory, hclosed]
    exact Bool.false_ne_true
  constructor
  · constructor
    · dsimp only [ObjectStore.over]
      rw [hbytes]
      exact h.represents.length_eq
    · exact h.represents.count_le
    · intro blockId hcount
      have hholds := h.represents.holds blockId hcount
      rw [hnone] at hholds
      dsimp only [ObjectStore.over]
      rw [hbytes]
      exact hholds
    · intro blockId _
      rfl
  · rfl
  · rfl
  · intro blockId
    rfl

end Agrees

/-- A block storage over an empty stream represents the empty array. -/
theorem agrees_empty (storage : BlockStorage) (position : Nat) :
  Agrees storage (ObjectStore.over { bytes := [], position := position })
    ⟨[], fun _ h => absurd h List.not_mem_nil, fun _ => none, 0⟩
  := by
  constructor
  · constructor
    · exact (Nat.zero_mul _).symm
    · exact Nat.zero_le _
    · intro blockId hcount
      exact absurd hcount (Nat.not_lt_zero _)
    · intro blockId _
      rfl
  · rfl
  · rfl
  · intro blockId
    rfl

end Datatent.Records
