import Datatent.CoreOld.Tree.Tree
import Datatent.Library.Heap
import Datatent.Library.Yields
import Mathlib.Algebra.Group.Nat.Defs

/-!
# The memory node manager

The manager that keeps all nodes in a dictionary. Its state is a heap of nodes. The counter of
ids has 32 bits (`treeMemoryNodeManager32`); for what does not come to the end of the ids the
same manager with a counter without a bound will do (`treeMemoryNodeManager`).
-/

namespace Datatent.BTree

/-- The fields of the manager that change. The counter counts on where the one of the source, an
`int`, starts anew: they are equal modulo `2 ^ 32`. -/
structure NodeStore (K V : Type) where
  nodes : Heap (TreeNode K V)
  idCounter : Nat
  rootNode : Option Nat

namespace TreeMemoryNodeManager

variable {K V : Type}

/-- A change of the state. -/
def change (f : NodeStore K V → NodeStore K V) : TreeM (NodeStore K V) Unit :=
  modify f

/-- A new node with the given entries and children, with an id that was never given to
another one. -/
def create (entries : List (K × V)) (childrenIds : List Nat) : TreeM (NodeStore K V) Nat := do
  let store ← get
  change (fun store =>
    { store with
      nodes := store.nodes.put store.idCounter
        { parentId := 0, entries := entries, childrenIds := childrenIds }
      idCounter := store.idCounter + 1 })
  return store.idCounter

/-- The id that the counter stands for, `(uint)idCounter`. -/
def idOf (idCounter : Nat) : Nat := idCounter % 2 ^ 32

/-- A new node with the given entries and children. Behind the last id of 32 bits the ids start
anew, and a node that has the id is overwritten. -/
def create32 (entries : List (K × V)) (childrenIds : List Nat) : TreeM (NodeStore K V) Nat := do
  let store ← get
  change (fun store =>
    { store with
      nodes := store.nodes.put (idOf store.idCounter)
        { parentId := 0, entries := entries, childrenIds := childrenIds }
      idCounter := store.idCounter + 1 })
  return idOf store.idCounter

/-- The node with the given id. -/
def find (id : Nat) : TreeM (NodeStore K V) (Option Nat) := do
  let store ← get
  match store.nodes id with
  | some _ => pure (some id)
  | none => throw .nodeNotFound

/-- A new root node with one entry between two children, with the ids of the given `create`. -/
def createNewRoot (create : List (K × V) → List Nat → TreeM (NodeStore K V) Nat) (entry : K × V)
    (leftNodeId rightNodeId : Nat) : TreeM (NodeStore K V) Nat := do
  let newNode ← create [entry] [leftNodeId, rightNodeId]
  change (fun store => { store with rootNode := some newNode })
  return newNode

/-- Remove a node from the dictionary. -/
def delete (target : Nat) : TreeM (NodeStore K V) Unit :=
  change (fun store =>
    { store with
      rootNode := if store.rootNode = some target then none else store.rootNode
      nodes := store.nodes.erase target })

/-- Make a node the root node. -/
def makeRoot (target : Nat) : TreeM (NodeStore K V) Unit :=
  change (fun store => { store with rootNode := some target })

/-- The fields of a node object. -/
def read (node : Nat) : TreeM (NodeStore K V) (TreeNode K V) := do
  let store ← get
  match store.nodes node with
  | some fields => pure fields
  | none => throw .nullReference

/-- Write the fields of a node object. -/
def write (node : Nat) (fields : TreeNode K V) : TreeM (NodeStore K V) Unit :=
  change (fun store => { store with nodes := store.nodes.put node fields })

end TreeMemoryNodeManager

open TreeMemoryNodeManager in
/-- The manager of nodes in memory with ids that do not come to an end. -/
def treeMemoryNodeManager {K V : Type} [LinearOrder K] (minEntriesCountPerNode : Nat)
    (entrySearch : EntrySearch K V) : ITreeNodeManager (NodeStore K V) K V where
  minEntriesPerNode := minEntriesCountPerNode
  entrySearch := entrySearch
  rootNode := NodeStore.rootNode <$> get
  create := create
  find := find
  createNewRoot := createNewRoot create
  makeRoot := makeRoot
  markAsChanged _ := pure ()
  delete := delete
  saveChanges := pure ()
  read := read
  write := write
  steps := NodeStore.idCounter <$> get

open TreeMemoryNodeManager in
/-- The manager of nodes in memory, with ids of 32 bits. -/
def treeMemoryNodeManager32 {K V : Type} [LinearOrder K] (minEntriesCountPerNode : Nat)
    (entrySearch : EntrySearch K V) : ITreeNodeManager (NodeStore K V) K V :=
  { treeMemoryNodeManager minEntriesCountPerNode entrySearch with
    create := create32
    createNewRoot := createNewRoot create32 }

section Fields

variable {K V : Type} [LinearOrder K] (m : Nat) (search : EntrySearch K V)

@[simp]
theorem minEntriesPerNode_eq :
  (treeMemoryNodeManager m search).minEntriesPerNode = m
  := rfl

@[simp]
theorem entrySearch_eq :
  (treeMemoryNodeManager m search).entrySearch = search
  := rfl

@[simp]
theorem entrySearch32_eq :
  (treeMemoryNodeManager32 m search).entrySearch = search
  := rfl

theorem isOverflow_iff (node : TreeNode K V) :
  TreeNode.isOverflow (treeMemoryNodeManager m search) node = true ↔ 2 * m < node.entries.length
  := by
  rw [TreeNode.isOverflow, minEntriesPerNode_eq, decide_eq_true_eq, Nat.mul_comm]

end Fields

/-- The state after the constructor: one empty root node. -/
def NodeStore.init {K V : Type} : NodeStore K V where
  nodes := Heap.put (fun _ => none) 1 { parentId := 0, entries := [], childrenIds := [] }
  idCounter := 2
  rootNode := some 1

end Datatent.BTree
