import Datatent.CoreOld.Tree.Tree
import Datatent.Library.Returns
import Mathlib.Data.Set.Basic

/-!
# What the operations of a tree do to a node manager

Two properties of the operations that hold over every manager. An insertion marks every node
that it changes before it saves the changes (`Tracks`): nodes whose fields were written wait to
be marked until then, and none is left when the changes are saved. An operation that only looks
for a key comes to nodes that are linked with the root node, and changes nothing (`Shows`).
-/

namespace Datatent.BTree

variable {S K V : Type} [LinearOrder K]

/-! ### Marking what is changed -/

/-- A manager keeps a property of its state and of the nodes that wait to be marked: the
fields of a node are written and the node waits, it is marked and waits no more. -/
structure Tracks (manager : ITreeNodeManager S K V) (I : Set Nat → S → Prop) : Prop where
  rootNode : ∀ P, Returns (I P) manager.rootNode (fun _ => I P)
  create : ∀ P entries childrenIds,
    Returns (I P) (manager.create entries childrenIds) (fun _ => I P)
  find : ∀ P id, Returns (I P) (manager.find id) (fun _ => I P)
  createNewRoot : ∀ P entry leftNodeId rightNodeId,
    Returns (I P) (manager.createNewRoot entry leftNodeId rightNodeId) (fun _ => I P)
  markAsChanged : ∀ P node,
    Returns (I (P ∪ {node})) (manager.markAsChanged node) (fun _ => I P)
  read : ∀ P node, Returns (I P) (manager.read node) (fun _ => I P)
  write : ∀ P node fields, Returns (I P) (manager.write node fields) (fun _ => I (P ∪ {node}))
  steps : ∀ P, Returns (I P) manager.steps (fun _ => I P)

/-! ### Lists -/

section Lists

variable {α : Type} (P : S → Prop)

/-- A computation on lists that returns leaves the state. -/
theorem returns_of_guard {c : Prop} [Decidable c] (x : α) (e : TreeException) :
  Returns P (if c then pure x else throw e : TreeM S α) (fun _ => P)
  := Returns.ite (fun _ => Returns.pure (fun _ h => h)) (fun _ => Returns.throw _ _ _)

/-- An element of a list. -/
theorem returns_item (list : List α) (index : Nat) :
  Returns P (item list index) (fun x s => P s ∧ x ∈ list)
  := by
  unfold item
  split
  · rename_i x hx
    exact Returns.pure (fun s h => ⟨h, List.mem_of_getElem? hx⟩)
  · exact Returns.throw _ _ _

/-- A part of a list. -/
theorem returns_copyTo (list : List α) (index count : Nat) :
  Returns P (copyTo list index count) (fun _ => P)
  := returns_of_guard P _ _

/-- Inserting to a list leaves the state. -/
theorem returns_insert (list : List α) (index : Nat) (x : α) :
  Returns P (insert list index x) (fun _ => P)
  := returns_of_guard P _ _

/-- Setting an element of a list leaves the state. -/
theorem returns_setItem (list : List α) (index : Nat) (x : α) :
  Returns P (setItem list index x) (fun _ => P)
  := returns_of_guard P _ _

/-- Cutting off a list leaves the state. -/
theorem returns_removeRange (list : List α) (index : Nat) :
  Returns P (removeRange list index) (fun _ => P)
  := returns_of_guard P _ _

end Lists

namespace Tracks

open TreeNode

section Nodes

variable {manager : ITreeNodeManager S K V} {I : Set Nat → S → Prop} (h : Tracks manager I)
  (P : Set Nat)

include h

/-- Finding a node changes none. -/
theorem found (id : Nat) :
  Returns (I P) (TreeNode.found manager id) (fun _ => I P)
  := by
  unfold TreeNode.found
  apply Returns.bind (h.find P id)
  intro node
  cases node with
  | none => exact Returns.throw _ _ _
  | some node => exact Returns.pure (fun _ hI => hI)

/-- A node whose parent is set is marked. -/
theorem setParentId (this parentId : Nat) :
  Returns (I P) (TreeNode.setParentId manager this parentId) (fun _ => I P)
  := by
  unfold TreeNode.setParentId
  apply Returns.bind (h.read P this)
  intro node
  apply Returns.bind (h.write P this _)
  intro _
  exact h.markAsChanged P this

/-- The nodes whose parent is set are marked. -/
theorem setParentIds (parentId : Nat) :
  ∀ childrenIds, Returns (I P) (TreeNode.setParentIds manager parentId childrenIds) (fun _ => I P)
  | [] => Returns.pure (fun _ hI => hI)
  | childId :: childrenIds => by
      rw [TreeNode.setParentIds]
      apply Returns.bind (h.found P childId)
      intro child
      apply Returns.bind (h.setParentId P child parentId)
      intro _
      exact setParentIds parentId childrenIds

/-- Finding a child changes no node. -/
theorem getChildNode (this atIndex : Nat) :
  Returns (I P) (TreeNode.getChildNode manager this atIndex) (fun _ => I P)
  := by
  unfold TreeNode.getChildNode
  apply Returns.bind (h.read P this)
  intro node
  apply Returns.bind_fact (returns_item (I P) node.childrenIds atIndex)
  intro childId _
  exact h.found P childId

/-- A leaf that an entry is inserted to is marked. -/
theorem insertAsLeaf (this : Nat) (entry : K × V) (insertPosition : Nat) :
  Returns (I P) (TreeNode.insertAsLeaf manager this entry insertPosition) (fun _ => I P)
  := by
  unfold TreeNode.insertAsLeaf
  apply Returns.bind (h.read P this)
  intro node
  apply Returns.bind (returns_insert (I P) _ _ _)
  intro entries
  apply Returns.bind (h.write P this _)
  intro _
  exact h.markAsChanged P this

/-- A parent that an entry is inserted to is marked. -/
theorem insertAsParent (this : Nat) (entry : K × V) (leftReference rightReference : Nat) :
  Returns (I P) (TreeNode.insertAsParent manager this entry leftReference rightReference)
    (fun _ => I P)
  := by
  unfold TreeNode.insertAsParent
  apply Returns.bind (h.read P this)
  intro node
  apply Returns.bind (returns_insert (I P) _ _ _)
  intro entries
  apply Returns.bind (returns_insert (I P) _ _ _)
  intro childrenIds
  apply Returns.bind (returns_setItem (I P) _ _ _)
  intro childrenIds'
  apply Returns.bind (h.write P this _)
  intro _
  apply Returns.bind (h.markAsChanged P this)
  intro _
  exact Returns.pure (fun _ hI => hI)

/-- The node that is cut off waits to be marked. -/
theorem halve (this : Nat) :
  Returns (I P) (TreeNode.halve manager this) (fun _ => I (P ∪ {this}))
  := by
  have hright : ∀ node : TreeNode K V, Returns (I P)
      (rightChildren node manager.minEntriesPerNode) (fun _ => I P) := by
    intro node
    exact Returns.ite (fun _ => Returns.pure (fun _ hI => hI)) (fun _ => returns_copyTo _ _ _ _)
  have hleft : ∀ node : TreeNode K V, Returns (I P)
      (leftChildren node manager.minEntriesPerNode) (fun _ => I P) := by
    intro node
    exact Returns.ite (fun _ => Returns.pure (fun _ hI => hI))
      (fun _ => returns_removeRange _ _ _)
  unfold TreeNode.halve
  apply Returns.bind (h.read P this)
  intro node
  apply Returns.bind_fact (returns_item (I P) _ _)
  intro middleEntry _
  apply Returns.bind (returns_copyTo (I P) _ _ _)
  intro rightEntries
  apply Returns.bind (hright node)
  intro rightIds
  apply Returns.bind (h.create P _ _)
  intro newRightNode
  apply Returns.bind (h.setParentIds P newRightNode rightIds)
  intro _
  apply Returns.bind (h.read P this)
  intro node
  apply Returns.bind (returns_removeRange (I P) _ _)
  intro leftEntries
  apply Returns.bind (hleft node)
  intro leftIds
  apply Returns.bind (h.write P this _)
  intro _
  exact Returns.pure (fun _ hI => hI)

/-- The parent that the middle entry goes to is marked. -/
theorem elevate {splitParent : Nat → TreeM S (Nat × Nat)}
    (hsplit : ∀ parent, Returns (I P) (splitParent parent) (fun _ => I P)) (parent : Nat)
    (middleEntry : K × V) (this newRightNode : Nat) :
  Returns (I P) (TreeNode.elevate manager splitParent parent middleEntry this newRightNode)
    (fun _ => I P)
  := by
  unfold TreeNode.elevate
  apply Returns.bind (h.insertAsParent P parent middleEntry this newRightNode)
  intro _
  apply Returns.bind (h.setParentId P newRightNode parent)
  intro _
  apply Returns.bind (h.read P parent)
  intro parentNode
  apply Returns.ite
  · intro _
    apply Returns.bind (hsplit parent)
    intro _
    exact Returns.pure (fun _ hI => hI)
  · intro _
    exact Returns.pure (fun _ hI => hI)

/-- A node that is split is marked, along with all the nodes on the way up that change. -/
theorem split :
  ∀ (steps : Nat) (P : Set Nat) (this : Nat),
    Returns (I P) (TreeNode.split manager steps this) (fun _ => I P)
  | 0, _, _ => Returns.throw _ _ _
  | steps + 1, P, this => by
      have hmark : ∀ newRightNode : Nat, Returns (I (P ∪ {this}))
          (do
            manager.markAsChanged this
            return (this, newRightNode)) (fun _ => I P) := by
        intro newRightNode
        apply Returns.bind (h.markAsChanged P this)
        intro _
        exact Returns.pure (fun _ hI => hI)
      rw [TreeNode.split]
      apply Returns.bind (h.halve P this)
      rintro ⟨middleEntry, newRightNode⟩
      apply Returns.bind (h.read _ this)
      intro node
      dsimp only
      apply Returns.ite_bind (T := fun _ => I (P ∪ {this})) (Returns.pure (fun _ hI => hI))
        (h.find _ _)
      intro parent
      cases parent with
      | none =>
          apply Returns.bind (h.createNewRoot _ middleEntry this newRightNode)
          intro parent
          apply Returns.bind (h.setParentId _ this parent)
          intro _
          apply Returns.bind (h.setParentId _ newRightNode parent)
          intro _
          exact hmark newRightNode
      | some parent =>
          apply Returns.bind (h.elevate _ (split steps (P ∪ {this})) parent middleEntry this
            newRightNode)
          intro _
          exact hmark newRightNode

end Nodes

section Tree

variable {tree : Tree S K V} {I : Set Nat → S → Prop} (h : Tracks tree.nodeManager I)
  (P : Set Nat)

include h

/-- Looking for the place of a key changes no node. -/
theorem findNodeForInsertion (key : K) :
  ∀ steps node, Returns (I P) (tree.findNodeForInsertion key steps node) (fun _ => I P)
  | 0, _ => Returns.throw _ _ _
  | steps + 1, node => by
      have hchild : ∀ i, Returns (I P) (do
          let child ← TreeNode.getChildNode tree.nodeManager node i
          tree.findNodeForInsertion key steps child) (fun _ => I P) := by
        intro i
        apply Returns.bind (h.getChildNode P node i)
        intro child
        exact findNodeForInsertion key steps child
      rw [Tree.findNodeForInsertion]
      apply Returns.bind (h.read P node)
      intro treeNode
      apply Returns.ite
      · intro _
        exact Returns.pure (fun _ hI => hI)
      · intro _
        dsimp only
        split
        · exact Returns.ite (fun _ => hchild _) (fun _ => Returns.pure (fun _ hI => hI))
        · exact Returns.ite (fun _ => Returns.pure (fun _ hI => hI)) (fun _ => hchild _)

/-- No node waits to be marked when the changes of an insertion to a leaf are saved. -/
theorem insertToLeaf {J : S → Prop}
    (hsave : Returns (I ∅) tree.nodeManager.saveChanges (fun _ => J)) (steps leaf : Nat)
    (entry : K × V) (insertPosition : Nat) :
  Returns (I ∅) (tree.insertToLeaf steps leaf entry insertPosition) (fun _ => J)
  := by
  unfold Tree.insertToLeaf
  apply Returns.bind (h.insertAsLeaf ∅ leaf entry insertPosition)
  intro _
  apply Returns.bind (h.read ∅ leaf)
  intro leafNode
  apply Returns.ite
  · intro _
    apply Returns.bind (h.split steps ∅ leaf)
    intro _
    exact hsave
  · intro _
    exact hsave

/-- No node waits to be marked when the changes of an insertion are saved. -/
theorem insert {J : S → Prop}
    (hsave : Returns (I ∅) tree.nodeManager.saveChanges (fun _ => J)) (key : K) (value : V) :
  Returns (I ∅) (tree.insert key value) (fun _ => J)
  := by
  have hroot : Returns (I ∅) tree.root (fun _ => I ∅) := by
    unfold Tree.root
    apply Returns.bind (h.rootNode ∅)
    intro root
    cases root with
    | none => exact Returns.throw _ _ _
    | some root => exact Returns.pure (fun _ hI => hI)
  unfold Tree.insert
  apply Returns.bind (h.steps ∅)
  intro steps
  apply Returns.bind hroot
  intro root
  apply Returns.bind (h.findNodeForInsertion ∅ key steps root)
  rintro ⟨leafNode, insertionIndex⟩
  cases insertionIndex with
  | found i =>
      exact Returns.ite (fun _ => h.insertToLeaf hsave steps leafNode (key, value) i)
        (fun _ => Returns.throw _ _ _)
  | missing i => exact h.insertToLeaf hsave steps leafNode (key, value) i

end Tree

end Tracks

/-! ### Looking for a key -/

/-- A manager shows nodes with `L`, from the root node on to the children and the parents of
such nodes, whose entries have `E`, and keeps a property of its state. -/
structure Shows (manager : ITreeNodeManager S K V) (L : Nat → Prop) (E : K × V → Prop)
    (R : S → Prop) : Prop where
  rootNode : Returns R manager.rootNode (fun root s => R s ∧ ∀ node ∈ root, L node)
  find : ∀ {id}, L id → Returns R (manager.find id) (fun found s => R s ∧ ∀ node ∈ found, L node)
  read : ∀ {node}, L node → Returns R (manager.read node) (fun fields s => R s
    ∧ ((∀ childId ∈ fields.childrenIds, L childId) ∧ L fields.parentId
      ∧ ∀ entry ∈ fields.entries, E entry))
  steps : Returns R manager.steps (fun _ => R)

namespace Shows

open TreeNode

/-- An enumerator that stands at a shown node, and at an entry with the property. -/
def Stands (L : Nat → Prop) (E : K × V → Prop) (enumerator : TreeEnumerator K V) : Prop :=
  L enumerator.currentNode ∧ ∀ entry ∈ enumerator.current, E entry

/-- An enumerator that moves comes to stand at a shown node. -/
abbrev Moves (L : Nat → Prop) (E : K × V → Prop) (R : S → Prop)
    (x : TreeM S (Bool × TreeEnumerator K V)) : Prop :=
  Returns R x (fun moved s => R s ∧ Stands L E moved.2)

section Nodes

variable {manager : ITreeNodeManager S K V} {L : Nat → Prop} {E : K × V → Prop} {R : S → Prop}
  (h : Shows manager L E R)

include h

/-- The node found under an id is shown. -/
theorem found {id : Nat} (hid : L id) :
  Returns R (TreeNode.found manager id) (fun node s => R s ∧ L node)
  := by
  unfold TreeNode.found
  apply Returns.bind_fact (h.find hid)
  intro node hnode
  cases node with
  | none => exact Returns.throw _ _ _
  | some node => exact Returns.pure (fun _ hR => ⟨hR, hnode node rfl⟩)

/-- A child of a node is shown. -/
theorem getChildNode {this : Nat} (hthis : L this) (atIndex : Nat) :
  Returns R (TreeNode.getChildNode manager this atIndex) (fun node s => R s ∧ L node)
  := by
  unfold TreeNode.getChildNode
  apply Returns.bind_fact (h.read hthis)
  rintro node ⟨hchildren, -, -⟩
  apply Returns.bind_fact (returns_item R _ _)
  intro childId hchildId
  exact h.found (hchildren childId hchildId)

/-- An entry of a node has the property. -/
theorem getEntry {this : Nat} (hthis : L this) (atIndex : Int) :
  Returns R (TreeNode.getEntry manager this atIndex) (fun entry s => R s ∧ E entry)
  := by
  unfold TreeNode.getEntry
  apply Returns.bind_fact (h.read hthis)
  rintro node ⟨-, -, hentries⟩
  apply Returns.ite
  · intro _
    exact Returns.throw _ _ _
  · intro _
    exact (returns_item R _ _).weaken (fun entry _ hentry => ⟨hentry.1, hentries entry hentry.2⟩)

/-- Looking for a node in its parent changes nothing. -/
theorem indexInParent {this : Nat} (hthis : L this) :
  Returns R (TreeNode.indexInParent manager this) (fun _ => R)
  := by
  unfold TreeNode.indexInParent
  apply Returns.bind_fact (h.read hthis)
  rintro node ⟨-, hparent, -⟩
  apply Returns.bind_fact (h.find hparent)
  intro parent hfound
  cases parent with
  | none => exact Returns.throw _ _ _
  | some parent =>
      apply Returns.bind_fact (h.read (hfound parent rfl))
      intro parentNode _
      split
      · exact Returns.pure (fun _ hR => hR)
      · exact Returns.throw _ _ _

/-- An enumerator moves up to a shown node. -/
theorem moveUp :
  ∀ (steps : Nat) {enumerator : TreeEnumerator K V}, Stands L E enumerator →
    Moves L E R (TreeEnumerator.moveUp manager steps enumerator)
  | 0, _, _ => Returns.throw _ _ _
  | steps + 1, enumerator, hstands => by
      rw [TreeEnumerator.moveUp]
      apply Returns.bind_fact (h.read hstands.1)
      rintro node ⟨-, hparent, -⟩
      apply Returns.ite
      · intro _
        apply Returns.bind_fact (h.getEntry hstands.1 _)
        intro entry hentry
        apply Returns.pure
        intro s hR
        refine ⟨hR, hstands.1, ?_⟩
        rintro _ ⟨⟩
        exact hentry
      · intro _
        apply Returns.ite
        · intro _
          apply Returns.bind (h.indexInParent hstands.1)
          intro index
          apply Returns.bind_fact (h.found hparent)
          intro parent hfound
          exact moveUp steps ⟨hfound, hstands.2⟩
        · intro _
          apply Returns.pure
          intro s hR
          exact ⟨hR, hstands.1, fun _ hentry => nomatch hentry⟩

/-- An enumerator moves down to a shown leaf. -/
theorem moveDown :
  ∀ (steps : Nat) {node : Nat} (atIndex : Nat), L node →
    Returns R (TreeEnumerator.moveDown manager steps node atIndex) (fun leaf s => R s ∧ L leaf)
  | 0, _, _, _ => Returns.throw _ _ _
  | steps + 1, node, atIndex, hnode => by
      rw [TreeEnumerator.moveDown]
      apply Returns.bind_fact (h.getChildNode hnode atIndex)
      intro child hchild
      apply Returns.bind_fact (h.read hchild)
      intro childNode _
      apply Returns.ite
      · intro _
        exact Returns.pure (fun _ hR => ⟨hR, hchild⟩)
      · intro _
        exact moveDown steps 0 hchild

/-- An enumerator moves to an entry with the property. -/
theorem moveNext (steps : Nat) {enumerator : TreeEnumerator K V}
    (hstands : Stands L E enumerator) :
  Moves L E R (TreeEnumerator.moveNext manager steps enumerator)
  := by
  unfold TreeEnumerator.moveNext
  apply Returns.ite
  · intro _
    exact Returns.pure (fun _ hR => ⟨hR, hstands⟩)
  · intro _
    unfold TreeEnumerator.moveForward
    apply Returns.bind_fact (h.read hstands.1)
    intro node _
    apply Returns.ite
    · intro _
      exact h.moveUp steps ⟨hstands.1, hstands.2⟩
    · intro _
      apply Returns.bind_fact (h.moveDown steps _ hstands.1)
      intro leaf hleaf
      apply Returns.bind_fact (h.getEntry hleaf 0)
      intro entry hentry
      apply Returns.pure
      intro s hR
      refine ⟨hR, hleaf, ?_⟩
      rintro _ ⟨⟩
      exact hentry

end Nodes

section Tree

variable {tree : Tree S K V} {L : Nat → Prop} {E : K × V → Prop} {R : S → Prop}
  (h : Shows tree.nodeManager L E R)

include h

/-- The node to start iterating at is shown. -/
theorem findNodeForIteration (key : K) (moveLeft : Bool) :
  ∀ (steps : Nat) {node : Nat}, L node →
    Returns R (tree.findNodeForIteration key moveLeft steps node)
      (fun found s => R s ∧ L found.1)
  | 0, _, _ => Returns.throw _ _ _
  | steps + 1, node, hnode => by
      rw [Tree.findNodeForIteration]
      apply Returns.bind_fact (h.read hnode)
      intro treeNode _
      apply Returns.ite
      · intro _
        exact Returns.pure (fun _ hR => ⟨hR, hnode⟩)
      · intro _
        apply Returns.ite
        · intro _
          exact Returns.pure (fun _ hR => ⟨hR, hnode⟩)
        · intro _
          apply Returns.bind_fact (h.getChildNode hnode _)
          intro child hchild
          exact findNodeForIteration key moveLeft steps hchild

/-- The enumerator of the entries from a key on stands at a shown node. -/
theorem largerThanOrEqualTo (key : K) :
  Returns R (tree.largerThanOrEqualTo key) (fun enumerator s => R s ∧ Stands L E enumerator)
  := by
  have hroot : Returns R tree.root (fun node s => R s ∧ L node) := by
    unfold Tree.root
    apply Returns.bind_fact h.rootNode
    intro root hroot
    cases root with
    | none => exact Returns.throw _ _ _
    | some root => exact Returns.pure (fun _ hR => ⟨hR, hroot root rfl⟩)
  unfold Tree.largerThanOrEqualTo
  apply Returns.bind h.steps
  intro steps
  apply Returns.bind_fact hroot
  intro root hroot
  apply Returns.bind_fact (h.findNodeForIteration key true steps hroot)
  rintro ⟨node, startIterationIndex⟩ hnode
  apply Returns.pure
  intro s hR
  exact ⟨hR, hnode, fun _ hentry => nomatch hentry⟩

end Tree

/-- A key that no node shows is not deleted. -/
theorem delete {tree : Tree S K V} {L : Nat → Prop} {R : S → Prop} {key : K}
    (h : Shows tree.nodeManager L (fun entry => entry.1 ≠ key) R) :
  Returns R (tree.delete key) (fun _ => R)
  := by
  unfold Tree.delete
  apply Returns.ite
  · intro _
    exact Returns.throw _ _ _
  · intro _
    apply Returns.bind_fact (h.largerThanOrEqualTo key)
    intro enumerator hstands
    apply Returns.bind h.steps
    intro steps
    apply Returns.bind_fact (h.moveNext steps hstands)
    rintro ⟨moved, enumerator⟩ ⟨-, hentry⟩
    unfold Tree.removeCurrent
    dsimp only
    split
    · rename_i entry hcurrent
      rw [if_neg (hentry entry hcurrent)]
      exact Returns.pure (fun _ hR => hR)
    · exact Returns.pure (fun _ hR => hR)

end Shows

end Datatent.BTree
