import Datatent.CoreOld.Tree.TreeHelper

/-!
# Tree nodes

The nodes of a tree are objects that refer to each other by their ids, through a node manager.
The operations of `TreeNode` are computations on the state of the manager; a node is given by
its id. A recursive operation is given a number of steps, and throws `endless` when it takes
more: the nodes on a way through a tree are different ones, so that as many steps as there are
nodes are enough.
-/

namespace Datatent.BTree

/-- The exceptions that an operation may end in. -/
inductive TreeException where
  | keyExists
  | nodeNotFound
  | nullReference
  | notInParent
  | argumentOutOfRange
  | invalidOperation
  | endless
deriving DecidableEq, Repr

/-- The fields of a node; its id is what the manager finds it under. -/
structure TreeNode (K V : Type) where
  parentId : Nat
  entries : List (K × V)
  childrenIds : List Nat

namespace TreeNode

variable {K V : Type}

def isEmpty (node : TreeNode K V) : Bool := node.entries.isEmpty

def isLeaf (node : TreeNode K V) : Bool := node.childrenIds.isEmpty

end TreeNode

/-- Computations on the state of a node manager. -/
abbrev TreeM (S α : Type) : Type := EStateM TreeException S α

/-- A node manager: what `ITreeNodeManager` offers, with the reading and the writing of the
fields of a node object. `steps` bounds the number of nodes on a way through a tree. -/
structure ITreeNodeManager (S K V : Type) [LinearOrder K] where
  minEntriesPerNode : Nat
  entrySearch : EntrySearch K V
  rootNode : TreeM S (Option Nat)
  create : List (K × V) → List Nat → TreeM S Nat
  find : Nat → TreeM S (Option Nat)
  createNewRoot : K × V → Nat → Nat → TreeM S Nat
  makeRoot : Nat → TreeM S Unit
  markAsChanged : Nat → TreeM S Unit
  delete : Nat → TreeM S Unit
  saveChanges : TreeM S Unit
  read : Nat → TreeM S (TreeNode K V)
  write : Nat → TreeNode K V → TreeM S Unit
  steps : TreeM S Nat

/-! ### Lists -/

section Lists

variable {S α : Type}

/-- `list[index]`. -/
def item (list : List α) (index : Nat) : TreeM S α :=
  match list[index]? with
  | some x => pure x
  | none => throw .argumentOutOfRange

/-- `list.GetRange`, as `CopyTo` with an array of the given length copies it. -/
def copyTo (list : List α) (index count : Nat) : TreeM S (List α) :=
  if index + count ≤ list.length then pure ((list.drop index).take count)
  else throw .argumentOutOfRange

/-- `list.Insert`. -/
def insert (list : List α) (index : Nat) (x : α) : TreeM S (List α) :=
  if index ≤ list.length then pure (list.take index ++ x :: list.drop index)
  else throw .argumentOutOfRange

/-- `list.RemoveAt`. -/
def removeAt (list : List α) (index : Nat) : TreeM S (List α) :=
  if index < list.length then pure (list.take index ++ list.drop (index + 1))
  else throw .argumentOutOfRange

/-- `list[index] = x`. -/
def setItem (list : List α) (index : Nat) (x : α) : TreeM S (List α) :=
  if index < list.length then pure (list.take index ++ x :: list.drop (index + 1))
  else throw .argumentOutOfRange

/-- `TreeHelper.RemoveRange`: the elements from an index on are removed. -/
def removeRange (list : List α) (index : Nat) : TreeM S (List α) :=
  if index ≤ list.length then pure (list.take index)
  else throw .argumentOutOfRange

variable {before after : List α} {index : Nat} {x y : α}

theorem item_append (h : before.length = index) :
  (item (before ++ x :: after) index : TreeM S α) = pure x
  := by
  subst h
  rw [item, List.getElem?_append_right (Nat.le_refl _), Nat.sub_self]
  rfl

theorem copyTo_append {count : Nat} (h : before.length = index) (h' : after.length = count) :
  (copyTo (before ++ after) index count : TreeM S (List α)) = pure after
  := by
  subst h h'
  rw [copyTo, if_pos (Nat.le_of_eq List.length_append.symm), List.drop_left, List.take_length]

theorem insert_append (h : before.length = index) :
  (insert (before ++ after) index x : TreeM S (List α)) = pure (before ++ x :: after)
  := by
  subst h
  rw [insert, if_pos (by rw [List.length_append]; omega), List.take_left, List.drop_left]

theorem removeAt_append (h : before.length = index) :
  (removeAt (before ++ x :: after) index : TreeM S (List α)) = pure (before ++ after)
  := by
  subst h
  rw [removeAt, if_pos (by rw [List.length_append, List.length_cons]; omega), List.take_left,
    List.drop_length_add_append]
  rfl

theorem setItem_append (h : before.length = index) :
  (setItem (before ++ x :: after) index y : TreeM S (List α)) = pure (before ++ y :: after)
  := by
  subst h
  rw [setItem, if_pos (by rw [List.length_append, List.length_cons]; omega), List.take_left,
    List.drop_length_add_append]
  rfl

theorem removeRange_append (h : before.length = index) :
  (removeRange (before ++ after) index : TreeM S (List α)) = pure before
  := by
  subst h
  rw [removeRange, if_pos (by rw [List.length_append]; omega), List.take_left]

end Lists

/-! ### Operations of a node -/

namespace TreeNode

variable {S K V : Type} [LinearOrder K] (manager : ITreeNodeManager S K V)

/-- The node found under an id, which is used without a test for null. -/
def found (id : Nat) : TreeM S Nat := do
  match ← manager.find id with
  | some node => pure node
  | none => throw .nullReference

/-- Whether the node has more than the maximal number of entries. -/
def isOverflow (node : TreeNode K V) : Bool :=
  manager.minEntriesPerNode * 2 < node.entries.length

/-- Set the parent of a node and mark the node as changed. -/
def setParentId (this parentId : Nat) : TreeM S Unit := do
  let node ← manager.read this
  manager.write this { node with parentId := parentId }
  manager.markAsChanged this

/-- Set the parent of the nodes with the given ids. -/
def setParentIds (parentId : Nat) : List Nat → TreeM S Unit
  | [] => pure ()
  | childId :: childrenIds => do
      let child ← found manager childId
      setParentId manager child parentId
      setParentIds parentId childrenIds

/-- The child of the node at a position. -/
def getChildNode (this atIndex : Nat) : TreeM S Nat := do
  let node ← manager.read this
  let childId ← item node.childrenIds atIndex
  found manager childId

/-- The entry of the node at a position. -/
def getEntry (this : Nat) (atIndex : Int) : TreeM S (K × V) := do
  let node ← manager.read this
  if atIndex < 0 then throw .argumentOutOfRange
  else item node.entries atIndex.toNat

/-- The position of the node in its parent. -/
def indexInParent (this : Nat) : TreeM S Nat := do
  let node ← manager.read this
  match ← manager.find node.parentId with
  | none => throw .notInParent
  | some parent =>
      let parentNode ← manager.read parent
      match parentNode.childrenIds.idxOf? this with
      | some i => pure i
      | none => throw .notInParent

/-- The node with the largest entry below the node, and the position of the entry. -/
def findLargest : Nat → Nat → TreeM S (Nat × Int)
  | 0, _ => throw .endless
  | steps + 1, this => do
      let node ← manager.read this
      if node.isLeaf then
        return (this, (node.entries.length : Int) - 1)
      else
        let childId ← item node.childrenIds (node.childrenIds.length - 1)
        let rightMostNode ← found manager childId
        findLargest steps rightMostNode

/-- Insert an entry to a leaf. -/
def insertAsLeaf (this : Nat) (entry : K × V) (insertPosition : Nat) : TreeM S Unit := do
  let node ← manager.read this
  let entries ← insert node.entries insertPosition entry
  manager.write this { node with entries := entries }
  manager.markAsChanged this

/-- Insert an entry between references to two children, the first of which the node has
already. -/
def insertAsParent (this : Nat) (entry : K × V) (leftReference rightReference : Nat) :
    TreeM S Nat := do
  let node ← manager.read this
  let insertPosition := (manager.entrySearch.search node.entries entry.1).position
  let entries ← insert node.entries insertPosition entry
  let childrenIds ← insert node.childrenIds insertPosition leftReference
  let childrenIds ← setItem childrenIds (insertPosition + 1) rightReference
  manager.write this { node with entries := entries, childrenIds := childrenIds }
  manager.markAsChanged this
  return insertPosition

/-- The children ids from a position on; a leaf has none. -/
def rightChildren (node : TreeNode K V) (halfCount : Nat) : TreeM S (List Nat) :=
  if node.isLeaf then pure [] else copyTo node.childrenIds (halfCount + 1) (halfCount + 1)

/-- The children ids up to a position; a leaf has none. -/
def leftChildren (node : TreeNode K V) (halfCount : Nat) : TreeM S (List Nat) :=
  if node.isLeaf then pure node.childrenIds else removeRange node.childrenIds (halfCount + 1)

/-- The first part of `Split`: move the entries after the middle one to a new node, and cut
the node off before the middle one. -/
def halve (this : Nat) : TreeM S ((K × V) × Nat) := do
  let node ← manager.read this
  let halfCount := manager.minEntriesPerNode
  let middleEntry ← item node.entries halfCount
  let rightEntries ← copyTo node.entries (halfCount + 1) halfCount
  let rightIds ← rightChildren node halfCount
  let newRightNode ← manager.create rightEntries rightIds
  setParentIds manager newRightNode rightIds
  let node ← manager.read this
  let leftEntries ← removeRange node.entries halfCount
  let leftIds ← leftChildren node halfCount
  manager.write this { node with entries := leftEntries, childrenIds := leftIds }
  return (middleEntry, newRightNode)

/-- Elevate the middle entry of a split node to its parent, and split the parent if it
overflows. -/
def elevate (splitParent : Nat → TreeM S (Nat × Nat)) (parent : Nat) (middleEntry : K × V)
    (this newRightNode : Nat) : TreeM S Unit := do
  let _ ← insertAsParent manager parent middleEntry this newRightNode
  setParentId manager newRightNode parent
  let parentNode ← manager.read parent
  if isOverflow manager parentNode then
    let _ ← splitParent parent
    pure ()
  else
    pure ()

/-- Split a node in half and elevate its middle entry to the parent, or to a new root. -/
def split : Nat → Nat → TreeM S (Nat × Nat)
  | 0, _ => throw .endless
  | steps + 1, this => do
      let (middleEntry, newRightNode) ← halve manager this
      let node ← manager.read this
      let parent ← if node.parentId = 0 then pure none else manager.find node.parentId
      match parent with
      | none =>
          let parent ← manager.createNewRoot middleEntry this newRightNode
          setParentId manager this parent
          setParentId manager newRightNode parent
      | some parent => elevate manager (split steps) parent middleEntry this newRightNode
      manager.markAsChanged this
      return (this, newRightNode)

/-! ### Rebalancing -/

/-- The sibling at a position of the parent, if there is one. -/
def sibling (parent : Nat) : Option Nat → TreeM S (Option Nat)
  | none => pure none
  | some i => do
      let parentNode ← manager.read parent
      let childId ← item parentNode.childrenIds i
      manager.find childId

/-- Whether there is a sibling with more than the minimal number of entries. -/
def canSpare : Option Nat → TreeM S Bool
  | none => pure false
  | some node => do
      let siblingNode ← manager.read node
      return manager.minEntriesPerNode < siblingNode.entries.length

/-- Move the first child of the right sibling to the end of the node. -/
def moveFirstChild (this rightSibling : Nat) : TreeM S Unit := do
  let siblingNode ← manager.read rightSibling
  if siblingNode.isLeaf then pure ()
  else
    let childId ← item siblingNode.childrenIds 0
    let child ← found manager childId
    setParentId manager child this
    let node ← manager.read this
    manager.write this { node with childrenIds := node.childrenIds ++ [childId] }
    let siblingNode ← manager.read rightSibling
    let siblingIds ← removeAt siblingNode.childrenIds 0
    manager.write rightSibling { siblingNode with childrenIds := siblingIds }

/-- Move the separator from the parent to the end of the node, and the first entry of the
right sibling to the parent. -/
def rotateLeft (this parent rightSibling indexInParent : Nat) : TreeM S Unit := do
  let separator ← getEntry manager parent indexInParent
  let node ← manager.read this
  manager.write this { node with entries := node.entries ++ [separator] }
  let siblingNode ← manager.read rightSibling
  let first ← item siblingNode.entries 0
  let parentNode ← manager.read parent
  let parentEntries ← setItem parentNode.entries indexInParent first
  manager.write parent { parentNode with entries := parentEntries }
  let siblingEntries ← removeAt siblingNode.entries 0
  manager.write rightSibling { siblingNode with entries := siblingEntries }
  moveFirstChild manager this rightSibling
  manager.markAsChanged this
  manager.markAsChanged parent
  manager.markAsChanged rightSibling

/-- Move the last child of the left sibling to the start of the node. -/
def moveLastChild (this leftSibling : Nat) : TreeM S Unit := do
  let node ← manager.read this
  if node.isLeaf then pure ()
  else
    let siblingNode ← manager.read leftSibling
    let childId ← item siblingNode.childrenIds (siblingNode.childrenIds.length - 1)
    let child ← found manager childId
    setParentId manager child this
    let node ← manager.read this
    manager.write this { node with childrenIds := childId :: node.childrenIds }
    let siblingNode ← manager.read leftSibling
    let siblingIds ← removeAt siblingNode.childrenIds (siblingNode.childrenIds.length - 1)
    manager.write leftSibling { siblingNode with childrenIds := siblingIds }

/-- Move the separator from the parent to the start of the node, and the last entry of the
left sibling to the parent. -/
def rotateRight (this parent leftSibling indexInParent : Nat) : TreeM S Unit := do
  let separator ← getEntry manager parent ((indexInParent : Int) - 1)
  let node ← manager.read this
  manager.write this { node with entries := separator :: node.entries }
  let siblingNode ← manager.read leftSibling
  let last ← item siblingNode.entries (siblingNode.entries.length - 1)
  let parentNode ← manager.read parent
  let parentEntries ← setItem parentNode.entries (indexInParent - 1) last
  manager.write parent { parentNode with entries := parentEntries }
  let siblingEntries ← removeAt siblingNode.entries (siblingNode.entries.length - 1)
  manager.write leftSibling { siblingNode with entries := siblingEntries }
  moveLastChild manager this leftSibling
  manager.markAsChanged this
  manager.markAsChanged parent
  manager.markAsChanged leftSibling

/-- Join the right child to the left child around their separator, which is taken off the
parent along with the right child. -/
def joinChildren (parent leftChild rightChild : Nat) (separatorParentIndex : Int) :
    TreeM S Unit := do
  let separator ← getEntry manager parent separatorParentIndex
  let leftNode ← manager.read leftChild
  let rightNode ← manager.read rightChild
  manager.write leftChild
    { leftNode with
      entries := (leftNode.entries ++ [separator]) ++ rightNode.entries
      childrenIds := leftNode.childrenIds ++ rightNode.childrenIds }
  setParentIds manager leftChild rightNode.childrenIds
  let parentNode ← manager.read parent
  let parentEntries ← removeAt parentNode.entries separatorParentIndex.toNat
  let parentIds ← removeAt parentNode.childrenIds (separatorParentIndex.toNat + 1)
  manager.write parent { parentNode with entries := parentEntries, childrenIds := parentIds }
  manager.delete rightChild

/-- Merge two children of a parent. A root left without entries makes way for the merged
child, and another parent with too few entries is rebalanced. -/
def merge (rebalanceParent : Nat → TreeM S Unit)
    (parent leftChild rightChild : Nat) (separatorParentIndex : Int) : TreeM S Unit := do
  joinChildren manager parent leftChild rightChild separatorParentIndex
  let parentNode ← manager.read parent
  if parentNode.parentId = 0 ∧ parentNode.entries.length = 0 then
    setParentId manager leftChild 0
    manager.markAsChanged leftChild
    manager.makeRoot leftChild
    manager.delete parent
  else if parentNode.parentId ≠ 0 ∧ parentNode.entries.length < manager.minEntriesPerNode then
    manager.markAsChanged leftChild
    manager.markAsChanged parent
    rebalanceParent parent
  else
    manager.markAsChanged leftChild
    manager.markAsChanged parent

/-- The last part of `Rebalance`: merge the node with the right sibling, or with the left one
if there is no right one. -/
def mergeWithSibling (rebalanceParent : Nat → TreeM S Unit) (this parent indexInParent : Nat) :
    Option Nat → Option Nat → TreeM S Unit
  | some rightSibling, _ => merge manager rebalanceParent parent this rightSibling indexInParent
  | none, some leftSibling =>
      merge manager rebalanceParent parent leftSibling this ((indexInParent : Int) - 1)
  | none, none => throw .nullReference

/-- The second part of `Rebalance`: take an entry from the left sibling if it can spare one,
and merge the node with a sibling otherwise. -/
def rotateRightOrMerge (rebalanceParent : Nat → TreeM S Unit) (this parent indexInParent : Nat)
    (rightSibling : Option Nat) : TreeM S Unit := do
  let leftSibling ← sibling manager parent
    (if 1 ≤ indexInParent then some (indexInParent - 1) else none)
  match leftSibling, ← canSpare manager leftSibling with
  | some leftSibling, true => rotateRight manager this parent leftSibling indexInParent
  | _, _ =>
      mergeWithSibling manager rebalanceParent this parent indexInParent rightSibling leftSibling

/-- Rebalance a node that has too few entries: take an entry from the right sibling if it can
spare one, and otherwise from the left one or merge. -/
def rebalance : Nat → Nat → TreeM S Unit
  | 0, _ => throw .endless
  | steps + 1, this => do
      let indexInParent ← indexInParent manager this
      let node ← manager.read this
      let parent ← found manager node.parentId
      let parentNode ← manager.read parent
      let rightSibling ← sibling manager parent
        (if indexInParent + 1 < parentNode.childrenIds.length then some (indexInParent + 1)
          else none)
      match rightSibling, ← canSpare manager rightSibling with
      | some rightSibling, true => rotateLeft manager this parent rightSibling indexInParent
      | _, _ =>
          rotateRightOrMerge manager (rebalance steps) this parent indexInParent rightSibling

/-- Remove an entry of the node. In a leaf the entry is taken out, and the leaf is rebalanced
if it has too few entries then; in another node the entry is replaced by the largest entry
below on its left, which is removed from its leaf. -/
def remove : Nat → Nat → Int → TreeM S Unit
  | 0, _, _ => throw .endless
  | steps + 1, this, index => do
      let node ← manager.read this
      if index < 0 ∧ index < node.entries.length then throw .argumentOutOfRange
      else if node.isLeaf then
        let entries ← removeAt node.entries index.toNat
        manager.write this { node with entries := entries }
        manager.markAsChanged this
        if manager.minEntriesPerNode ≤ entries.length ∨ node.parentId = 0 then pure ()
        else rebalance manager (steps + 1) this
      else
        let childId ← item node.childrenIds index.toNat
        let leftSubTree ← found manager childId
        let (largestNode, largestIndex) ← findLargest manager steps leftSubTree
        let replacementEntry ← getEntry manager largestNode largestIndex
        let entries ← setItem node.entries index.toNat replacementEntry
        manager.write this { node with entries := entries }
        manager.markAsChanged this
        remove steps largestNode largestIndex

end TreeNode

end Datatent.BTree
