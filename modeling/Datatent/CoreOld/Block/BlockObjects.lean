import Datatent.CoreOld.Block.Block
import Datatent.Library.Program

/-!
# Block objects

The block storage as its clients see it, through the interfaces `IBlockStorage` and `IBlock`:
`Find` and `CreateNew` give objects, and the methods of a block are called on them. While an
object is in memory the storage gives the same one for the id; after it was disposed it throws,
and another one is made for the id. An object is told from the others for the same id by a
serial number.
-/

namespace Datatent.Blocks

/-- A block object: the id of its block, and which object it is. -/
structure BlockObject where
  id : UInt32
  serial : Nat
deriving DecidableEq

/-- What a client of the block storage may throw: an exception of the block storage or one of
its own. -/
inductive ClientException (E : Type) where
  | block (e : BlockException)
  | client (e : E)
deriving DecidableEq

/-- A call on the block storage or on one of its objects. -/
inductive ObjectCall where
  | find (blockId : UInt32)
  | createNew
  | getHeader (block : BlockObject) (field : Int)
  | setHeader (block : BlockObject) (field : Int) (value : Int64)
  | read (block : BlockObject) (dst : Bytes) (dstOffset srcOffset count : Int)
  | write (block : BlockObject) (src : Bytes) (srcOffset dstOffset count : Int)
  | dispose (block : BlockObject)

/-- What a call gives: an object or none, the value of a header field, the buffer read into. -/
abbrev ObjectCall.Reply : ObjectCall → Type
  | .find _ => Option BlockObject
  | .createNew => BlockObject
  | .getHeader _ _ => Int64
  | .setHeader _ _ _ => Unit
  | .read _ _ _ _ _ => Bytes
  | .write _ _ _ _ _ => Unit
  | .dispose _ => Unit

/-- Programs that use a block storage. -/
abbrev BlockProgram (E α : Type) : Type :=
  Program ObjectCall.Reply (ClientException E) α

/-! ### The objects of a block storage -/

/-- A block storage with its blocks in memory, and which objects these are. -/
structure ObjectStore where
  storage : StorageState
  serials : UInt32 → Option Nat
  made : Nat

/-- Computations that change the objects. -/
abbrev ObjectM (E α : Type) : Type :=
  EStateM (ClientException E) ObjectStore α

namespace ObjectStore

variable {E : Type}

/-- A method of the block storage. -/
def onStorage {α : Type} (method : StorageM α) : ObjectM E α :=
  fun s =>
    match method s.storage with
    | .ok a storage => .ok a { s with storage := storage }
    | .error e storage => .error (.block e) { s with storage := storage }

/-- A new object, which is the one in memory for its id. -/
def newObject (blockId : UInt32) : ObjectM E BlockObject := do
  let s ← get
  set { s with serials := Function.update s.serials blockId (some s.made), made := s.made + 1 }
  return { id := blockId, serial := s.made }

/-- The object for an id: the one in memory, or a new one over its part of the stream. -/
def find (storage : BlockStorage) (blockId : UInt32) : ObjectM E (Option BlockObject) := do
  let found ← onStorage (storage.find blockId)
  if found.isNone then return none
  else do
    let s ← get
    match s.serials blockId with
    | some serial => return some { id := blockId, serial := serial }
    | none => do
        let block ← newObject blockId
        return some block

/-- A new block, and its object. -/
def createNew (storage : BlockStorage) : ObjectM E BlockObject := do
  let blockId ← onStorage storage.createNew
  newObject blockId

/-- The object is the one in memory for its id. An object that is not was disposed. -/
def InMemory (s : ObjectStore) (block : BlockObject) : Prop :=
  s.serials block.id = some block.serial

instance (s : ObjectStore) (block : BlockObject) : Decidable (s.InMemory block) :=
  inferInstanceAs (Decidable (_ = _))

/-- A method of an object. -/
def onObject {α : Type} (block : BlockObject) (method : BlockM α) : ObjectM E α := do
  let s ← get
  if s.InMemory block then onStorage (BlockStorage.onBlock block.id method)
  else throw (.block .objectDisposed)

/-- Dispose an object. Nothing is done when it was disposed before. -/
def dispose (storage : BlockStorage) (block : BlockObject) : ObjectM E Unit := do
  let s ← get
  if s.InMemory block then do
    onStorage (storage.dispose block.id)
    modify fun s =>
      if (s.storage.blocks block.id).isNone then
        { s with serials := Function.update s.serials block.id none }
      else s
  else return

/-- What a call does. -/
def perform (storage : BlockStorage) : (call : ObjectCall) → ObjectM E call.Reply
  | .find blockId => find storage blockId
  | .createNew => createNew storage
  | .getHeader block field => onObject block (Block.getHeader storage field)
  | .setHeader block field value => onObject block (Block.setHeader field value)
  | .read block dst dstOffset srcOffset count =>
      onObject block (Block.read storage dst dstOffset srcOffset count)
  | .write block src srcOffset dstOffset count =>
      onObject block (Block.write storage src srcOffset dstOffset count)
  | .dispose block => dispose storage block

end ObjectStore

/-- The objects of a block storage that is constructed over a stream: none is in memory. -/
def ObjectStore.over (stream : DataFileStream) : ObjectStore where
  storage := { stream := stream, blocks := fun _ => none }
  serials := fun _ => none
  made := 0

end Datatent.Blocks
