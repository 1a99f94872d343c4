import Datatent.CoreOld.Tree.Removing
import Datatent.Library.Agreeing

/-!
# Ids of 32 bits

The manager of nodes in memory hands out ids of 32 bits, and starts anew when they come to an
end. Up to then a tree over it does what a tree over the manager without a bound on the ids does.
Operations that create no nodes do the same over both in any case; for an insertion it is enough
that the counter and the number of nodes it creates come to at most `2 ^ 32`.
-/

namespace Datatent.BTree

variable {K V : Type} [LinearOrder K]

/-- The tree over the memory node manager with ids of 32 bits. -/
abbrev memoryTree32 (m : Nat) (search : EntrySearch K V) (allow : Bool) :
    Tree (NodeStore K V) K V where
  nodeManager := treeMemoryNodeManager32 m search
  allowDuplicateKeys := allow

/-! ### Operations that create no nodes -/

section Same

open TreeNode TreeEnumerator

variable (m : Nat) (search : EntrySearch K V)

theorem setParentIds32 (parentId : Nat) :
  ∀ childrenIds, setParentIds (treeMemoryNodeManager32 m search) parentId childrenIds
    = setParentIds (treeMemoryNodeManager m search) parentId childrenIds
  | [] => rfl
  | childId :: childrenIds => by
      rw [setParentIds, setParentIds, setParentIds32 parentId childrenIds]
      rfl

theorem findNodeForInsertion32 (allow : Bool) (key : K) :
  ∀ steps node, (memoryTree32 m search allow).findNodeForInsertion key steps node
    = (memoryTree m search allow).findNodeForInsertion key steps node
  | 0, _ => rfl
  | steps + 1, node => by
      simp only [Tree.findNodeForInsertion, findNodeForInsertion32 allow key steps]
      rfl

theorem findNodeForIteration32 (allow : Bool) (key : K) (moveLeft : Bool) :
  ∀ steps node, (memoryTree32 m search allow).findNodeForIteration key moveLeft steps node
    = (memoryTree m search allow).findNodeForIteration key moveLeft steps node
  | 0, _ => rfl
  | steps + 1, node => by
      simp only [Tree.findNodeForIteration, findNodeForIteration32 allow key moveLeft steps]
      rfl

theorem moveUp32 :
  ∀ steps enumerator, moveUp (treeMemoryNodeManager32 m search) steps enumerator
    = moveUp (treeMemoryNodeManager m search) steps enumerator
  | 0, _ => rfl
  | steps + 1, enumerator => by
      simp only [moveUp, moveUp32 steps]
      rfl

theorem moveDown32 :
  ∀ steps node atIndex, moveDown (treeMemoryNodeManager32 m search) steps node atIndex
    = moveDown (treeMemoryNodeManager m search) steps node atIndex
  | 0, _, _ => rfl
  | steps + 1, node, atIndex => by
      simp only [moveDown, moveDown32 steps]
      rfl

theorem findLargest32 :
  ∀ steps this, findLargest (treeMemoryNodeManager32 m search) steps this
    = findLargest (treeMemoryNodeManager m search) steps this
  | 0, _ => rfl
  | steps + 1, this => by
      simp only [findLargest, findLargest32 steps]
      rfl

theorem rebalance32 :
  ∀ steps this, rebalance (treeMemoryNodeManager32 m search) steps this
    = rebalance (treeMemoryNodeManager m search) steps this
  | 0, _ => rfl
  | steps + 1, this => by
      simp only [rebalance, rotateRightOrMerge, mergeWithSibling, merge, joinChildren,
        setParentIds32, rebalance32 steps]
      rfl

theorem remove32 :
  ∀ steps this index, remove (treeMemoryNodeManager32 m search) steps this index
    = remove (treeMemoryNodeManager m search) steps this index
  | 0, _, _ => rfl
  | steps + 1, this, index => by
      simp only [remove, rebalance32, findLargest32, remove32 steps]
      rfl

/-- Getting a key. -/
theorem get32 (allow : Bool) (key : K) :
  (memoryTree32 m search allow).get key = (memoryTree m search allow).get key
  := by
  simp only [Tree.get, findNodeForInsertion32]
  rfl

/-- Deleting a key. -/
theorem delete32 (allow : Bool) (key : K) :
  (memoryTree32 m search allow).delete key = (memoryTree m search allow).delete key
  := by
  have hremove : ∀ steps moved enumerator,
      (memoryTree32 m search allow).removeCurrent key steps moved enumerator
        = (memoryTree m search allow).removeCurrent key steps moved enumerator := by
    intro steps moved enumerator
    simp only [Tree.removeCurrent, remove32]
  simp only [Tree.delete, Tree.largerThanOrEqualTo, findNodeForIteration32, moveNext, moveForward,
    moveUp32, moveDown32, hremove]
  rfl

end Same

/-! ### Insertions -/

/-- `insert` with the bound on the number of levels. -/
def Tree.insertWithin {S : Type} (tree : Tree S K V) (key : K) (value : V) (steps : Nat) :
    TreeM S Unit := do
  let root ← tree.root
  let (leafNode, insertionIndex) ← tree.findNodeForInsertion key steps root
  match insertionIndex with
  | .found i =>
      if tree.allowDuplicateKeys then tree.insertToLeaf steps leafNode (key, value) i
      else throw .keyExists
  | .missing i => tree.insertToLeaf steps leafNode (key, value) i

/-- Inserting bounds the number of levels by what the manager gives. -/
theorem Tree.insert_eq {S : Type} (tree : Tree S K V) (key : K) (value : V) :
  tree.insert key value = tree.nodeManager.steps >>= tree.insertWithin key value
  := rfl

/-- The second computation does what the first one does as long as the ids last. -/
abbrev SameIds {α : Type} (x y : TreeM (NodeStore K V) α) : Prop :=
  AgreesUpTo NodeStore.idCounter (2 ^ 32) x y

namespace SameIds

section Lists

omit [LinearOrder K]

variable {α : Type}

theorem item (list : List α) (index : Nat) :
  SameIds (K := K) (V := V) (BTree.item list index) (BTree.item list index)
  := by
  unfold BTree.item
  split
  · exact AgreesUpTo.pure _
  · exact AgreesUpTo.throw _

theorem copyTo (list : List α) (index count : Nat) :
  SameIds (K := K) (V := V) (BTree.copyTo list index count) (BTree.copyTo list index count)
  := AgreesUpTo.ite (AgreesUpTo.pure _) (AgreesUpTo.throw _)

theorem insert (list : List α) (index : Nat) (x : α) :
  SameIds (K := K) (V := V) (BTree.insert list index x) (BTree.insert list index x)
  := AgreesUpTo.ite (AgreesUpTo.pure _) (AgreesUpTo.throw _)

theorem setItem (list : List α) (index : Nat) (x : α) :
  SameIds (K := K) (V := V) (BTree.setItem list index x) (BTree.setItem list index x)
  := AgreesUpTo.ite (AgreesUpTo.pure _) (AgreesUpTo.throw _)

theorem removeRange (list : List α) (index : Nat) :
  SameIds (K := K) (V := V) (BTree.removeRange list index) (BTree.removeRange list index)
  := AgreesUpTo.ite (AgreesUpTo.pure _) (AgreesUpTo.throw _)

end Lists

section Nodes

variable (m : Nat) (search : EntrySearch K V)

open TreeNode

theorem read (node : Nat) :
  SameIds ((treeMemoryNodeManager m search).read node)
    ((treeMemoryNodeManager32 m search).read node)
  := by
  apply AgreesUpTo.bind (AgreesUpTo.refl fun _ => Nat.le_refl _)
  intro store
  split
  · exact AgreesUpTo.pure _
  · exact AgreesUpTo.throw _

theorem write (node : Nat) (fields : TreeNode K V) :
  SameIds ((treeMemoryNodeManager m search).write node fields)
    ((treeMemoryNodeManager32 m search).write node fields)
  := AgreesUpTo.refl fun _ => Nat.le_refl _

theorem markAsChanged (node : Nat) :
  SameIds ((treeMemoryNodeManager m search).markAsChanged node)
    ((treeMemoryNodeManager32 m search).markAsChanged node)
  := AgreesUpTo.pure _

theorem find (id : Nat) :
  SameIds ((treeMemoryNodeManager m search).find id) ((treeMemoryNodeManager32 m search).find id)
  := by
  apply AgreesUpTo.bind (AgreesUpTo.refl fun _ => Nat.le_refl _)
  intro store
  split
  · exact AgreesUpTo.pure _
  · exact AgreesUpTo.throw _

theorem found (id : Nat) :
  SameIds (TreeNode.found (treeMemoryNodeManager m search) id)
    (TreeNode.found (treeMemoryNodeManager32 m search) id)
  := by
  apply AgreesUpTo.bind (find m search id)
  intro node
  cases node with
  | none => exact AgreesUpTo.throw _
  | some node => exact AgreesUpTo.pure _

/-- Creating a node while there is an id left. -/
theorem create (entries : List (K × V)) (childrenIds : List Nat) :
  SameIds ((treeMemoryNodeManager m search).create entries childrenIds)
    ((treeMemoryNodeManager32 m search).create entries childrenIds)
  := by
  constructor
  · exact fun store => Nat.le_succ store.idCounter
  · intro store hbound
    have hlt : store.idCounter < 2 ^ 32 := hbound
    have hid : TreeMemoryNodeManager.idOf store.idCounter = store.idCounter := Nat.mod_eq_of_lt hlt
    have hcreate : (treeMemoryNodeManager32 m search).create entries childrenIds store
        = .ok (TreeMemoryNodeManager.idOf store.idCounter)
          { store with
            nodes := store.nodes.put (TreeMemoryNodeManager.idOf store.idCounter)
              { parentId := 0, entries := entries, childrenIds := childrenIds }
            idCounter := store.idCounter + 1 } := rfl
    rw [hcreate, hid]
    rfl

/-- Creating a new root node while there is an id left. -/
theorem createNewRoot (entry : K × V) (left right : Nat) :
  SameIds ((treeMemoryNodeManager m search).createNewRoot entry left right)
    ((treeMemoryNodeManager32 m search).createNewRoot entry left right)
  := by
  apply AgreesUpTo.bind (create m search [entry] [left, right])
  intro newNode
  apply AgreesUpTo.bind (AgreesUpTo.refl fun _ => Nat.le_refl _)
  exact fun _ => AgreesUpTo.pure _

theorem getChildNode (this atIndex : Nat) :
  SameIds (TreeNode.getChildNode (treeMemoryNodeManager m search) this atIndex)
    (TreeNode.getChildNode (treeMemoryNodeManager32 m search) this atIndex)
  := by
  apply AgreesUpTo.bind (read m search this)
  intro node
  apply AgreesUpTo.bind (item _ _)
  exact found m search

theorem setParentId (this parentId : Nat) :
  SameIds (TreeNode.setParentId (treeMemoryNodeManager m search) this parentId)
    (TreeNode.setParentId (treeMemoryNodeManager32 m search) this parentId)
  := by
  apply AgreesUpTo.bind (read m search this)
  intro node
  apply AgreesUpTo.bind (write m search this _)
  exact fun _ => markAsChanged m search this

theorem setParentIds (parentId : Nat) :
  ∀ childrenIds,
    SameIds (TreeNode.setParentIds (treeMemoryNodeManager m search) parentId childrenIds)
      (TreeNode.setParentIds (treeMemoryNodeManager32 m search) parentId childrenIds)
  | [] => AgreesUpTo.pure _
  | childId :: childrenIds => by
      apply AgreesUpTo.bind (found m search childId)
      intro child
      apply AgreesUpTo.bind (setParentId m search child parentId)
      exact fun _ => setParentIds parentId childrenIds

theorem insertAsLeaf (this : Nat) (entry : K × V) (insertPosition : Nat) :
  SameIds (TreeNode.insertAsLeaf (treeMemoryNodeManager m search) this entry insertPosition)
    (TreeNode.insertAsLeaf (treeMemoryNodeManager32 m search) this entry insertPosition)
  := by
  apply AgreesUpTo.bind (read m search this)
  intro node
  apply AgreesUpTo.bind (insert _ _ _)
  intro entries
  apply AgreesUpTo.bind (write m search this _)
  exact fun _ => markAsChanged m search this

theorem insertAsParent (this : Nat) (entry : K × V) (left right : Nat) :
  SameIds (TreeNode.insertAsParent (treeMemoryNodeManager m search) this entry left right)
    (TreeNode.insertAsParent (treeMemoryNodeManager32 m search) this entry left right)
  := by
  apply AgreesUpTo.bind (read m search this)
  intro node
  apply AgreesUpTo.bind (insert _ _ _)
  intro entries
  apply AgreesUpTo.bind (insert _ _ _)
  intro childrenIds
  apply AgreesUpTo.bind (setItem _ _ _)
  intro childrenIds
  apply AgreesUpTo.bind (write m search this _)
  intro _
  apply AgreesUpTo.bind (markAsChanged m search this)
  exact fun _ => AgreesUpTo.pure _

theorem halve (this : Nat) :
  SameIds (TreeNode.halve (treeMemoryNodeManager m search) this)
    (TreeNode.halve (treeMemoryNodeManager32 m search) this)
  := by
  apply AgreesUpTo.bind (read m search this)
  intro node
  apply AgreesUpTo.bind (item _ _)
  intro middleEntry
  apply AgreesUpTo.bind (copyTo _ _ _)
  intro rightEntries
  apply AgreesUpTo.bind (AgreesUpTo.ite (AgreesUpTo.pure _) (copyTo _ _ _))
  intro rightIds
  apply AgreesUpTo.bind (create m search rightEntries rightIds)
  intro newRightNode
  apply AgreesUpTo.bind (setParentIds m search newRightNode rightIds)
  intro _
  apply AgreesUpTo.bind (read m search this)
  intro node
  apply AgreesUpTo.bind (removeRange _ _)
  intro leftEntries
  apply AgreesUpTo.bind (AgreesUpTo.ite (AgreesUpTo.pure _) (removeRange _ _))
  intro leftIds
  apply AgreesUpTo.bind (write m search this _)
  exact fun _ => AgreesUpTo.pure _

theorem elevate {splitParent splitParent' : Nat → TreeM (NodeStore K V) (Nat × Nat)}
    (hsplit : ∀ parent, SameIds (splitParent parent) (splitParent' parent)) (parent : Nat)
    (middleEntry : K × V) (this newRightNode : Nat) :
  SameIds
    (TreeNode.elevate (treeMemoryNodeManager m search) splitParent parent middleEntry this
      newRightNode)
    (TreeNode.elevate (treeMemoryNodeManager32 m search) splitParent' parent middleEntry this
      newRightNode)
  := by
  apply AgreesUpTo.bind (insertAsParent m search parent middleEntry this newRightNode)
  intro _
  apply AgreesUpTo.bind (setParentId m search newRightNode parent)
  intro _
  apply AgreesUpTo.bind (read m search parent)
  intro parentNode
  apply AgreesUpTo.ite
  · apply AgreesUpTo.bind (hsplit parent)
    exact fun _ => AgreesUpTo.pure _
  · exact AgreesUpTo.pure _

/-- Splitting a node while there are ids left for the new ones. -/
theorem split :
  ∀ steps this, SameIds (TreeNode.split (treeMemoryNodeManager m search) steps this)
    (TreeNode.split (treeMemoryNodeManager32 m search) steps this)
  | 0, _ => AgreesUpTo.throw _
  | steps + 1, this => by
      rw [TreeNode.split, TreeNode.split]
      apply AgreesUpTo.bind (halve m search this)
      rintro ⟨middleEntry, newRightNode⟩
      apply AgreesUpTo.bind (read m search this)
      intro node
      have hmarked : ∀ _ : PUnit, SameIds
          (do (treeMemoryNodeManager m search).markAsChanged this; return (this, newRightNode))
          (do (treeMemoryNodeManager32 m search).markAsChanged this; return (this, newRightNode)) :=
        fun _ => AgreesUpTo.bind (markAsChanged m search this) fun _ => AgreesUpTo.pure _
      refine AgreesUpTo.ite (AgreesUpTo.bind (AgreesUpTo.pure none) ?rest)
        (AgreesUpTo.bind (find m search node.parentId) ?rest)
      intro parent
      cases parent with
      | none =>
          apply AgreesUpTo.bind (createNewRoot m search middleEntry this newRightNode)
          intro parent
          apply AgreesUpTo.bind (setParentId m search this parent)
          intro _
          exact AgreesUpTo.bind (setParentId m search newRightNode parent) hmarked
      | some parent =>
          have helevate := elevate m search (split steps) parent middleEntry this newRightNode
          exact AgreesUpTo.bind helevate hmarked

end Nodes

section Trees

variable (m : Nat) (search : EntrySearch K V) (allow : Bool)

theorem root :
  SameIds (memoryTree m search allow).root (memoryTree32 m search allow).root
  := by
  apply AgreesUpTo.bind (AgreesUpTo.refl fun _ => Nat.le_refl _)
  intro node
  cases node with
  | none => exact AgreesUpTo.throw _
  | some node => exact AgreesUpTo.pure _

theorem findNodeForInsertion (key : K) :
  ∀ steps node, SameIds ((memoryTree m search allow).findNodeForInsertion key steps node)
    ((memoryTree32 m search allow).findNodeForInsertion key steps node)
  | 0, _ => AgreesUpTo.throw _
  | steps + 1, node => by
      have hchild : ∀ i, SameIds
          (do
            let child ← TreeNode.getChildNode (treeMemoryNodeManager m search) node i
            (memoryTree m search allow).findNodeForInsertion key steps child)
          (do
            let child ← TreeNode.getChildNode (treeMemoryNodeManager32 m search) node i
            (memoryTree32 m search allow).findNodeForInsertion key steps child) := by
        intro i
        apply AgreesUpTo.bind (getChildNode m search node i)
        exact findNodeForInsertion key steps
      rw [Tree.findNodeForInsertion, Tree.findNodeForInsertion]
      apply AgreesUpTo.bind (read m search node)
      intro treeNode
      apply AgreesUpTo.ite (AgreesUpTo.pure _)
      simp only [entrySearch_eq, entrySearch32_eq]
      cases search.search treeNode.entries key with
      | found i => exact AgreesUpTo.ite (hchild i) (AgreesUpTo.pure _)
      | missing i => exact AgreesUpTo.ite (AgreesUpTo.pure _) (hchild i)

theorem insertToLeaf (steps leaf : Nat) (entry : K × V) (insertPosition : Nat) :
  SameIds ((memoryTree m search allow).insertToLeaf steps leaf entry insertPosition)
    ((memoryTree32 m search allow).insertToLeaf steps leaf entry insertPosition)
  := by
  apply AgreesUpTo.bind (insertAsLeaf m search leaf entry insertPosition)
  intro _
  apply AgreesUpTo.bind (read m search leaf)
  intro leafNode
  apply AgreesUpTo.ite
  · apply AgreesUpTo.bind (split m search steps leaf)
    exact fun _ => AgreesUpTo.pure _
  · exact AgreesUpTo.pure _

theorem insertWithin (key : K) (value : V) (steps : Nat) :
  SameIds ((memoryTree m search allow).insertWithin key value steps)
    ((memoryTree32 m search allow).insertWithin key value steps)
  := by
  apply AgreesUpTo.bind (root m search allow)
  intro node
  apply AgreesUpTo.bind (findNodeForInsertion m search allow key steps node)
  rintro ⟨leafNode, insertionIndex⟩
  cases insertionIndex with
  | found i =>
      exact AgreesUpTo.ite (insertToLeaf m search allow steps leafNode (key, value) i)
        (AgreesUpTo.throw _)
  | missing i => exact insertToLeaf m search allow steps leafNode (key, value) i

/-- Inserting a key while there are ids left for the new nodes. -/
theorem insertKey (key : K) (value : V) :
  SameIds ((memoryTree m search allow).insert key value)
    ((memoryTree32 m search allow).insert key value)
  := by
  rw [Tree.insert_eq, Tree.insert_eq]
  apply AgreesUpTo.bind (AgreesUpTo.refl fun _ => Nat.le_refl _)
  exact insertWithin m search allow key value

end Trees

end SameIds

end Datatent.BTree
