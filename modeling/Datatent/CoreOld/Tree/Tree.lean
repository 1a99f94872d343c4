import Datatent.CoreOld.Tree.TreeNode

/-!
# Trees

A tree finds the node for a key from the root node on, inserts entries to leaves, enumerates
the entries from a key on in either direction, and deletes the first entry that its enumerator
comes to, or every entry with a key and a value.
-/

namespace Datatent.BTree

/-- A tree over a node manager. -/
structure Tree (S K V : Type) [LinearOrder K] where
  nodeManager : ITreeNodeManager S K V
  allowDuplicateKeys : Bool

/-- The direction of an enumeration. -/
inductive TreeTraverseDirection where
  | ascending
  | decending
deriving DecidableEq, Repr

/-- An enumerator through the entries of a tree. -/
structure TreeEnumerator (K V : Type) where
  currentNode : Nat
  currentEntry : Int
  current : Option (K × V)
  doneIterating : Bool

namespace TreeEnumerator

variable {S K V : Type} [LinearOrder K] (manager : ITreeNodeManager S K V)

/-- Stay at the current entry if there is one, and move up to the first parent that has a
next entry otherwise. -/
def moveUp : Nat → TreeEnumerator K V → TreeM S (Bool × TreeEnumerator K V)
  | 0, _ => throw .endless
  | steps + 1, enumerator => do
      let node ← manager.read enumerator.currentNode
      if enumerator.currentEntry < node.entries.length then
        let entry ← TreeNode.getEntry manager enumerator.currentNode enumerator.currentEntry
        return (true, { enumerator with current := some entry })
      else if node.parentId ≠ 0 then
        let index ← TreeNode.indexInParent manager enumerator.currentNode
        let parent ← TreeNode.found manager node.parentId
        moveUp steps { enumerator with currentEntry := index, currentNode := parent }
      else
        return (false, { enumerator with current := none, doneIterating := true })

/-- The first leaf below the child of a node at a position. -/
def moveDown : Nat → Nat → Nat → TreeM S Nat
  | 0, _, _ => throw .endless
  | steps + 1, node, atIndex => do
      let child ← TreeNode.getChildNode manager node atIndex
      let childNode ← manager.read child
      if childNode.isLeaf then return child
      else moveDown steps child 0

/-- Move to the next entry. -/
def moveForward (steps : Nat) (enumerator : TreeEnumerator K V) :
    TreeM S (Bool × TreeEnumerator K V) := do
  let node ← manager.read enumerator.currentNode
  if node.isLeaf then
    moveUp manager steps { enumerator with currentEntry := enumerator.currentEntry + 1 }
  else
    let leaf ← moveDown manager steps enumerator.currentNode (enumerator.currentEntry + 1).toNat
    let entry ← TreeNode.getEntry manager leaf 0
    return (true,
      { enumerator with currentNode := leaf, currentEntry := 0, current := some entry })

/-- `MoveNext` in ascending direction. -/
def moveNext (steps : Nat) (enumerator : TreeEnumerator K V) :
    TreeM S (Bool × TreeEnumerator K V) :=
  if enumerator.doneIterating then pure (false, enumerator)
  else moveForward manager steps enumerator

/-- Stay at the current entry if there is one, and move up to the first parent that has an
entry before otherwise. -/
def moveBackUp : Nat → TreeEnumerator K V → TreeM S (Bool × TreeEnumerator K V)
  | 0, _ => throw .endless
  | steps + 1, enumerator => do
      if 0 ≤ enumerator.currentEntry then
        let entry ← TreeNode.getEntry manager enumerator.currentNode enumerator.currentEntry
        return (true, { enumerator with current := some entry })
      else
        let node ← manager.read enumerator.currentNode
        if node.parentId ≠ 0 then
          let index ← TreeNode.indexInParent manager enumerator.currentNode
          let parent ← TreeNode.found manager node.parentId
          moveBackUp steps
            { enumerator with currentEntry := (index : Int) - 1, currentNode := parent }
        else
          return (false, { enumerator with current := none, doneIterating := true })

/-- The last leaf below the child of a node at a position, with the number of its entries. -/
def moveDownLast : Nat → Nat → Nat → TreeM S (Nat × Nat)
  | 0, _, _ => throw .endless
  | steps + 1, node, atIndex => do
      let child ← TreeNode.getChildNode manager node atIndex
      let childNode ← manager.read child
      if childNode.isLeaf then return (child, childNode.entries.length)
      else moveDownLast steps child childNode.entries.length

/-- Move to the entry before. -/
def moveBackward (steps : Nat) (enumerator : TreeEnumerator K V) :
    TreeM S (Bool × TreeEnumerator K V) := do
  let node ← manager.read enumerator.currentNode
  if node.isLeaf then
    moveBackUp manager steps { enumerator with currentEntry := enumerator.currentEntry - 1 }
  else if enumerator.currentEntry < 0 then throw .argumentOutOfRange
  else
    let (leaf, count) ←
      moveDownLast manager steps enumerator.currentNode enumerator.currentEntry.toNat
    let entry ← TreeNode.getEntry manager leaf ((count : Int) - 1)
    return (true,
      { enumerator with currentNode := leaf, currentEntry := (count : Int) - 1,
                        current := some entry })

/-- `MoveNext` of an enumerator in the given direction. -/
def moveIn (direction : TreeTraverseDirection) (steps : Nat) (enumerator : TreeEnumerator K V) :
    TreeM S (Bool × TreeEnumerator K V) :=
  match direction with
  | .ascending => moveNext manager steps enumerator
  | .decending =>
      if enumerator.doneIterating then pure (false, enumerator)
      else moveBackward manager steps enumerator

/-- The entries an enumerator comes to until there is no next one. The loop is given a number
of rounds. -/
def toList (direction : TreeTraverseDirection) (steps : Nat) :
    Nat → TreeEnumerator K V → TreeM S (List (K × V))
  | 0, _ => throw .endless
  | rounds + 1, enumerator => do
      let (moved, enumerator) ← moveIn manager direction steps enumerator
      if moved then
        match enumerator.current with
        | some entry => (entry :: ·) <$> toList direction steps rounds enumerator
        | none => throw .nullReference
      else return []

end TreeEnumerator

namespace Tree

variable {S K V : Type} [LinearOrder K] (tree : Tree S K V)

/-- The root node, which is used without a test for null. -/
def root : TreeM S Nat := do
  match ← tree.nodeManager.rootNode with
  | some node => pure node
  | none => throw .nullReference

/-- The node below a node to start iterating at from a key, and where in it; among entries
with the key the way goes to the left or to the right of all of them. -/
def findNodeForIteration (key : K) (moveLeft : Bool) :
    Nat → Nat → TreeM S (Nat × SearchResult)
  | 0, _ => throw .endless
  | steps + 1, node => do
      let treeNode ← tree.nodeManager.read node
      if treeNode.isEmpty then return (node, .missing 0)
      else
        let binarySearchResult :=
          if moveLeft then binarySearchFirst tree.nodeManager.entrySearch treeNode.entries key
          else binarySearchLast tree.nodeManager.entrySearch treeNode.entries key
        if treeNode.isLeaf then return (node, binarySearchResult)
        else
          let atIndex :=
            match binarySearchResult with
            | .found i => if moveLeft then i else i + 1
            | .missing i => i
          let child ← TreeNode.getChildNode tree.nodeManager node atIndex
          findNodeForIteration key moveLeft steps child

/-- The node below a node that holds a key, or the leaf to insert it to, and where in it. In a
tree with duplicate keys this is always a leaf. -/
def findNodeForInsertion (key : K) : Nat → Nat → TreeM S (Nat × SearchResult)
  | 0, _ => throw .endless
  | steps + 1, node => do
      let treeNode ← tree.nodeManager.read node
      if treeNode.isEmpty then return (node, .missing 0)
      else
        let binarySearchResult := tree.nodeManager.entrySearch.search treeNode.entries key
        match binarySearchResult with
        | .found i =>
            if tree.allowDuplicateKeys ∧ ¬ treeNode.isLeaf then
              let child ← TreeNode.getChildNode tree.nodeManager node i
              findNodeForInsertion key steps child
            else
              return (node, .found i)
        | .missing i =>
            if treeNode.isLeaf then return (node, .missing i)
            else
              let child ← TreeNode.getChildNode tree.nodeManager node i
              findNodeForInsertion key steps child

/-- Insert an entry to a leaf at a position and split the leaf if it overflows. -/
def insertToLeaf (steps leaf : Nat) (entry : K × V) (insertPosition : Nat) : TreeM S Unit := do
  TreeNode.insertAsLeaf tree.nodeManager leaf entry insertPosition
  let leafNode ← tree.nodeManager.read leaf
  if TreeNode.isOverflow tree.nodeManager leafNode then
    let _ ← TreeNode.split tree.nodeManager steps leaf
    tree.nodeManager.saveChanges
  else
    tree.nodeManager.saveChanges

/-- Insert an entry to the tree. -/
def insert (key : K) (value : V) : TreeM S Unit := do
  let steps ← tree.nodeManager.steps
  let root ← tree.root
  let (leafNode, insertionIndex) ← tree.findNodeForInsertion key steps root
  match insertionIndex with
  | .found i =>
      if tree.allowDuplicateKeys then tree.insertToLeaf steps leafNode (key, value) i
      else throw .keyExists
  | .missing i => tree.insertToLeaf steps leafNode (key, value) i

/-- The entry with the key, if there is one. -/
def get (key : K) : TreeM S (Option (K × V)) := do
  let steps ← tree.nodeManager.steps
  let root ← tree.root
  let (node, insertionIndex) ← tree.findNodeForInsertion key steps root
  match insertionIndex with
  | .found i => some <$> TreeNode.getEntry tree.nodeManager node i
  | .missing _ => return none

/-- The enumerator of the entries from a key on. -/
def largerThanOrEqualTo (key : K) : TreeM S (TreeEnumerator K V) := do
  let steps ← tree.nodeManager.steps
  let root ← tree.root
  let (node, startIterationIndex) ← tree.findNodeForIteration key true steps root
  return {
    currentNode := node
    currentEntry := (startIterationIndex.position : Int) - 1
    current := none
    doneIterating := false }

/-- The enumerator of the entries behind a key. -/
def largerThan (key : K) : TreeM S (TreeEnumerator K V) := do
  let steps ← tree.nodeManager.steps
  let root ← tree.root
  let (node, startIterationIndex) ← tree.findNodeForIteration key false steps root
  return {
    currentNode := node
    currentEntry :=
      match startIterationIndex with
      | .found i => (i : Int)
      | .missing i => (i : Int) - 1
    current := none
    doneIterating := false }

/-- The enumerator of the entries up to a key, in descending direction. -/
def lessThanOrEqualTo (key : K) : TreeM S (TreeEnumerator K V) := do
  let steps ← tree.nodeManager.steps
  let root ← tree.root
  let (node, startIterationIndex) ← tree.findNodeForIteration key false steps root
  return {
    currentNode := node
    currentEntry :=
      match startIterationIndex with
      | .found i => (i : Int) + 1
      | .missing i => (i : Int)
    current := none
    doneIterating := false }

/-- The enumerator of the entries before a key, in descending direction. -/
def lessThan (key : K) : TreeM S (TreeEnumerator K V) := do
  let steps ← tree.nodeManager.steps
  let root ← tree.root
  let (node, startIterationIndex) ← tree.findNodeForIteration key true steps root
  return {
    currentNode := node
    currentEntry := startIterationIndex.position
    current := none
    doneIterating := false }

/-- The entries of an enumeration. -/
def enumerate (direction : TreeTraverseDirection) (start : TreeM S (TreeEnumerator K V))
    (rounds : Nat) : TreeM S (List (K × V)) := do
  let enumerator ← start
  let steps ← tree.nodeManager.steps
  TreeEnumerator.toList tree.nodeManager direction steps rounds enumerator

/-- Remove the entry that an enumerator has moved to, if it has the key. -/
def removeCurrent (key : K) (steps : Nat) (moved : Bool) (enumerator : TreeEnumerator K V) :
    TreeM S Bool :=
  match moved, enumerator.current with
  | true, some entry =>
      if entry.1 = key then do
        TreeNode.remove tree.nodeManager steps enumerator.currentNode enumerator.currentEntry
        return true
      else return false
  | _, _ => return false

theorem removeCurrent_some {key : K} {steps : Nat} {enumerator : TreeEnumerator K V}
    {entry : K × V} (h : enumerator.current = some entry) :
  tree.removeCurrent key steps true enumerator
    = if entry.1 = key then do
        TreeNode.remove tree.nodeManager steps enumerator.currentNode enumerator.currentEntry
        return true
      else return false
  := by
  unfold removeCurrent
  rw [h]

/-- Delete the entry with the key from a tree without duplicate keys. -/
def delete (key : K) : TreeM S Bool := do
  if tree.allowDuplicateKeys then throw .invalidOperation
  else
    let enumerator ← tree.largerThanOrEqualTo key
    let steps ← tree.nodeManager.steps
    let (moved, enumerator) ← TreeEnumerator.moveNext tree.nodeManager steps enumerator
    tree.removeCurrent key steps moved enumerator

/-- Move through the entries that are not behind the key and remove the first one with the
value. The loop is given a number of rounds. -/
def removeNext (valueComparer : V → V → Int) (key : K) (value : V) (steps : Nat) :
    Nat → TreeEnumerator K V → TreeM S Bool
  | 0, _ => throw .endless
  | rounds + 1, enumerator => do
      let (moved, enumerator) ← TreeEnumerator.moveNext tree.nodeManager steps enumerator
      if moved then
        match enumerator.current with
        | some entry =>
            if key < entry.1 then return false
            else if valueComparer entry.2 value = 0 then
              TreeNode.remove tree.nodeManager steps enumerator.currentNode
                enumerator.currentEntry
              return true
            else removeNext valueComparer key value steps rounds enumerator
        | none => throw .nullReference
      else return false

/-- Remove the first entry with the key and the value. -/
def removeFirst (valueComparer : V → V → Int) (key : K) (value : V) (rounds : Nat) :
    TreeM S Bool := do
  let enumerator ← tree.largerThanOrEqualTo key
  let steps ← tree.nodeManager.steps
  tree.removeNext valueComparer key value steps rounds enumerator

/-- Start over with a new enumerator after every entry that is removed. -/
def removeAll (valueComparer : V → V → Int) (key : K) (value : V) (rounds : Nat) :
    Nat → Bool → TreeM S Bool
  | 0, _ => throw .endless
  | scans + 1, deleted => do
      let removed ← tree.removeFirst valueComparer key value rounds
      if removed then removeAll valueComparer key value rounds scans true
      else return deleted

/-- Delete the entries with the key and the value from a tree with duplicate keys. Both loops
are given the same number of rounds. -/
def deleteValue (valueComparer : V → V → Int) (rounds : Nat) (key : K) (value : V) :
    TreeM S Bool := do
  if tree.allowDuplicateKeys then
    let deleted ← tree.removeAll valueComparer key value rounds rounds false
    tree.nodeManager.saveChanges
    return deleted
  else throw .invalidOperation

end Tree

end Datatent.BTree
