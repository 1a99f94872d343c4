import Datatent.CoreOld.Tree.TreeDiskNodeSerializer
import Mathlib.Logic.Function.Basic

/-!
# The disk node manager

The manager that keeps the nodes in the records of a record storage. A node object is given by
a reference. The manager holds the objects it has made in a dictionary of weak references, the
latest of them in a queue of strong ones, and those that are to be written in a dictionary of
dirty nodes. An object that none of them, and nobody else, refers to may be collected at any
time, and its weak reference has no target then.
-/

namespace Datatent.BTree

/-- A record storage, as far as the manager relies on it: the bytes of its records, and the ids
that it hands out for the records to come. -/
structure NodeStorage where
  data : UInt32 → Option Bytes
  ids : List UInt32

/-- The fields of the manager that change, and the node objects, each with its id. -/
structure DiskNodeStore (K V : Type) where
  storage : NodeStorage
  objects : Nat → Option (UInt32 × DiskNode K V)
  objectCount : Nat
  dirtyNodes : List (UInt32 × Nat)
  nodeWeakRefs : UInt32 → Option (Option Nat)
  nodeStrongRefs : List Nat
  rootNode : Option Nat
  cleanupCounter : Nat

/-- Computations of the disk node manager. -/
abbrev DiskM (K V α : Type) : Type := EStateM DiskException (DiskNodeStore K V) α

namespace TreeDiskNodeManager

variable {K V : Type}

/-! ### The record storage -/

/-- `recordStorage.Find`. -/
def recordFind (recordId : UInt32) : DiskM K V (Option Bytes) := do
  let store ← get
  return store.storage.data recordId

/-- The id that `recordStorage.Create` hands out. -/
def recordAllocate : DiskM K V UInt32 := do
  let store ← get
  match store.storage.ids with
  | [] => throw .storageFull
  | recordId :: ids =>
      set { store with storage := { store.storage with ids := ids } }
      return recordId

/-- The bytes of a record are set. -/
def recordWrite (recordId : UInt32) (data : Bytes) : DiskM K V Unit :=
  modify (fun store =>
    { store with
      storage :=
        { store.storage with data := Function.update store.storage.data recordId (some data) } })

/-- `recordStorage.Update`. -/
def recordUpdate (recordId : UInt32) (data : Bytes) : DiskM K V Unit := do
  let store ← get
  match store.storage.data recordId with
  | some _ => recordWrite recordId data
  | none => throw .recordNotFound

/-- `recordStorage.Delete`. -/
def recordDelete (recordId : UInt32) : DiskM K V Unit := do
  let store ← get
  match store.storage.data recordId with
  | some _ =>
      set { store with
        storage :=
          { store.storage with data := Function.update store.storage.data recordId none } }
  | none => throw .recordNotFound

/-! ### Node objects -/

/-- A new node object. -/
def newObject (id : UInt32) (fields : DiskNode K V) : DiskM K V Nat := do
  let store ← get
  set { store with
    objects := Function.update store.objects store.objectCount (some (id, fields))
    objectCount := store.objectCount + 1 }
  return store.objectCount

/-- The id and the fields of a node object. -/
def object (node : Nat) : DiskM K V (UInt32 × DiskNode K V) := do
  let store ← get
  match store.objects node with
  | some fields => return fields
  | none => throw .nullReference

/-- Set the fields of a node object. -/
def setFields (node : Nat) (fields : DiskNode K V) : DiskM K V Unit := do
  let (id, _) ← object node
  modify (fun store =>
    { store with objects := Function.update store.objects node (some (id, fields)) })

/-- A computation of the serializer. -/
def liftSerializer {α : Type} (x : Except DiskException α) : DiskM K V α :=
  match x with
  | .ok a => pure a
  | .error e => throw e

/-! ### The cache -/

/-- Dequeue while there are at least half as many strong references as there may be. -/
def dequeue : List Nat → List Nat
  | [] => []
  | node :: nodes => if nodes.length + 1 ≥ 100 then dequeue nodes else node :: nodes

/-- The entries of weak references that have a target. -/
def cleanup (nodeWeakRefs : UInt32 → Option (Option Nat)) : UInt32 → Option (Option Nat) :=
  fun id =>
    match nodeWeakRefs id with
    | some none => none
    | entry => entry

/-- Keep references to a node object: a weak one under its id, which throws when there is one
already, and a strong one; clean up both now and then. -/
def onNodeInitialized (id : UInt32) (node : Nat) : DiskM K V Unit := do
  let store ← get
  if (store.nodeWeakRefs id).isSome then throw .argument
  else
    let nodeWeakRefs := Function.update store.nodeWeakRefs id (some (some node))
    let nodeStrongRefs := store.nodeStrongRefs ++ [node]
    set { store with
      nodeWeakRefs :=
        if store.cleanupCounter ≥ 1000 then cleanup nodeWeakRefs else nodeWeakRefs
      nodeStrongRefs :=
        if nodeStrongRefs.length ≥ 200 then dequeue nodeStrongRefs else nodeStrongRefs
      cleanupCounter := if store.cleanupCounter ≥ 1000 then 0 else store.cleanupCounter + 1 }

section Manager

variable (keySerializer : ISerializer K) (valueSerializer : ISerializer V)

/-- A new node with the given entries and children: the storage hands out an id, the node
object is made and kept, and what it is written as becomes the bytes of the record. -/
def create (entries : List (K × V)) (childrenIds : List UInt32) : DiskM K V Nat := do
  let nodeId ← recordAllocate
  let fields := { parentId := 0, entries := entries, childrenIds := childrenIds }
  let node ← newObject nodeId fields
  onNodeInitialized nodeId node
  let data ← liftSerializer
    (TreeDiskNodeSerializer.serialize keySerializer valueSerializer fields)
  recordWrite nodeId data
  return node

/-- Read a node from its record. -/
def load (id : UInt32) : DiskM K V (Option Nat) := do
  let data ← recordFind id
  match data with
  | none => return none
  | some data =>
      let fields ← liftSerializer
        (TreeDiskNodeSerializer.deserialize keySerializer valueSerializer data)
      let node ← newObject id fields
      onNodeInitialized id node
      return some node

/-- The node with an id: the one in memory, or the one read from its record. -/
def find (id : UInt32) : DiskM K V (Option Nat) := do
  let store ← get
  match store.nodeWeakRefs id with
  | some (some node) => return some node
  | some none =>
      set { store with nodeWeakRefs := Function.update store.nodeWeakRefs id none }
      load keySerializer valueSerializer id
  | none => load keySerializer valueSerializer id

/-- Remove a node: its record at once, and the object from the root and the dirty nodes. The
weak reference stays. -/
def delete (node : Nat) : DiskM K V Unit := do
  let store ← get
  if store.rootNode = some node then
    modify (fun store => { store with rootNode := none })
  let (id, _) ← object node
  recordDelete id
  modify (fun store =>
    { store with dirtyNodes := store.dirtyNodes.filter (fun entry => entry.1 ≠ id) })

/-- Mark a node as dirty, unless one with its id is. -/
def markAsChanged (node : Nat) : DiskM K V Unit := do
  let (id, _) ← object node
  modify (fun store =>
    { store with
      dirtyNodes :=
        if store.dirtyNodes.any (fun entry => entry.1 = id) then store.dirtyNodes
        else store.dirtyNodes ++ [(id, node)] })

/-- Write dirty nodes to their records. -/
def saveNodes : List (UInt32 × Nat) → DiskM K V Unit
  | [] => pure ()
  | (_, node) :: dirtyNodes => do
      let (id, fields) ← object node
      let data ← liftSerializer
        (TreeDiskNodeSerializer.serialize keySerializer valueSerializer fields)
      recordUpdate id data
      saveNodes dirtyNodes

/-- Write all dirty nodes. -/
def saveChanges : DiskM K V Unit := do
  let store ← get
  saveNodes keySerializer valueSerializer store.dirtyNodes
  modify (fun store => { store with dirtyNodes := [] })

/-- Make a node the root node: its id is written to the first record at once. -/
def makeRoot (node : Nat) : DiskM K V Unit := do
  modify (fun store => { store with rootNode := some node })
  let (id, _) ← object node
  recordUpdate 1 (Bytes.toLE 4 id.toNat)

/-- A new root node with one entry between two children. -/
def createNewRoot (entry : K × V) (leftNodeId rightNodeId : UInt32) : DiskM K V Nat := do
  let node ← create keySerializer valueSerializer [entry] [leftNodeId, rightNodeId]
  makeRoot node
  return node

/-- The first record, with the id that the root node will have, and an empty root node. -/
def createFirstRoot : DiskM K V Nat := do
  let recordId ← recordAllocate
  recordWrite recordId (Bytes.toLE 4 2)
  create keySerializer valueSerializer [] []

/-- What the constructor does: find the root node the first record refers to, or make one. -/
def openStorage : DiskM K V Unit := do
  let firstBlockData ← recordFind 1
  match firstBlockData with
  | some data =>
      let rootId ← liftSerializer (readUInt32 data 0)
      let rootNode ← find keySerializer valueSerializer rootId
      modify (fun store => { store with rootNode := rootNode })
  | none =>
      let rootNode ← createFirstRoot keySerializer valueSerializer
      modify (fun store => { store with rootNode := some rootNode })

end Manager

end TreeDiskNodeManager

/-- A manager over a record storage before its constructor has run. -/
def DiskNodeStore.over (K V : Type) (storage : NodeStorage) : DiskNodeStore K V where
  storage := storage
  objects := fun _ => none
  objectCount := 0
  dirtyNodes := []
  nodeWeakRefs := fun _ => none
  nodeStrongRefs := []
  rootNode := none
  cleanupCounter := 0

end Datatent.BTree
