import Datatent.CoreOld.Tree.ReadingAlike

/-!
# Changing a tree through two managers

When a manager mirrors another one also as far as nodes are changed, inserting to a tree over the
first manager mirrors inserting to a tree over the second one, and so do the rotations and the
joining of nodes that a deletion needs. The relation of the states keeps track of the nodes at
hand, which are in the tree, and of the nodes that wait to be marked as changed.
-/

namespace Datatent.BTree

variable {S T K V : Type} [LinearOrder K]

/-- A manager mirrors another one as far as nodes that are there are changed. The fields of a node
at hand are written and the node waits, it is marked and waits no more, and a node that is deleted
is not at hand any more. -/
structure WritesAlike (n : Naming) (bound : Nat) (G : TreeException → Prop)
    (After : S → T → Prop) (x : ITreeNodeManager S K V) (y : ITreeNodeManager T K V)
    (R : Set Nat → Set Nat → S → T → Prop) : Prop where
  reads : ∀ W, ReadsAlike n bound G After x y (fun L => R L W)
  waits : ∀ {L W W' : Set Nat} {s t}, W ⊆ W' → R L W s t → R L W' s t
  after : ∀ {L s t}, R L ∅ s t → After s t
  makeRoot : ∀ {L this} W, this ∈ L →
    Mirrors (treeMirroring G After) (R L W) (x.makeRoot (n.name this)) (y.makeRoot this) id
      (fun _ => R L W)
  markAsChanged : ∀ {L this} W, this ∈ L →
    Mirrors (treeMirroring G After) (R L (W ∪ {this})) (x.markAsChanged (n.name this))
      (y.markAsChanged this) id (fun _ => R L W)
  delete : ∀ {L this} W, this ∈ L →
    Mirrors (treeMirroring G After) (R L (W ∪ {this})) (x.delete (n.name this)) (y.delete this) id
      (fun _ => R (L \ {this}) W)
  write : ∀ {L this} fields W, this ∈ L → fields.Within n.Named →
    Mirrors (treeMirroring G After) (R L W) (x.write (n.name this) (fields.named n.name))
      (y.write this fields) id (fun _ => R L (W ∪ {this}))

/-- A manager mirrors another one also as far as nodes are created and the changes are saved. -/
structure CreatesAlike (n : Naming) (bound : Nat) (G : TreeException → Prop)
    (After : S → T → Prop) (x : ITreeNodeManager S K V) (y : ITreeNodeManager T K V)
    (R : Set Nat → Set Nat → S → T → Prop) : Prop
    extends WritesAlike n bound G After x y R where
  create : ∀ L W entries {childrenIds}, (∀ id ∈ childrenIds, n.Named id) →
    Mirrors (treeMirroring G After) (R L W) (x.create entries (childrenIds.map n.name))
      (y.create entries childrenIds) n.name
      (fun node s t => R (L ∪ {node}) W s t ∧ n.Named node)
  createNewRoot : ∀ L W entry {leftNodeId rightNodeId}, n.Named leftNodeId →
    n.Named rightNodeId →
      Mirrors (treeMirroring G After) (R L W)
        (x.createNewRoot entry (n.name leftNodeId) (n.name rightNodeId))
        (y.createNewRoot entry leftNodeId rightNodeId) n.name
        (fun node s t => R (L ∪ {node}) W s t ∧ n.Named node)
  saveChanges : ∀ L, Mirrors (treeMirroring G After) (R L ∅) x.saveChanges y.saveChanges id
    (fun _ => R L ∅)

/-! ### Halves of a node -/

section Halves

omit [LinearOrder K]

variable {G : TreeException → Prop} {A : S → T → Prop} (R : S → T → Prop) (name : Nat → Nat)
  (node : TreeNode K V)
  (halfCount : Nat)

/-- The children of the right half of a node. -/
theorem mirrors_rightChildren :
  Mirrors (treeMirroring G A) R (TreeNode.rightChildren (node.named name) halfCount)
    (TreeNode.rightChildren node halfCount) (List.map name)
    (fun ids s t => R s t ∧ ∀ id ∈ ids, id ∈ node.childrenIds)
  := by
  apply Mirrors.ite
  · rw [TreeNode.isLeaf_named]
  · exact fun _ => Mirrors.pure rfl (fun _ _ hR => ⟨hR, fun _ hid => by cases hid⟩)
  · exact fun _ => mirrors_copyTo R name node.childrenIds _ _

/-- The children of the left half of a node. -/
theorem mirrors_leftChildren :
  Mirrors (treeMirroring G A) R (TreeNode.leftChildren (node.named name) halfCount)
    (TreeNode.leftChildren node halfCount) (List.map name)
    (fun ids s t => R s t ∧ ∀ id ∈ ids, id ∈ node.childrenIds)
  := by
  apply Mirrors.ite
  · rw [TreeNode.isLeaf_named]
  · exact fun _ => Mirrors.pure rfl (fun _ _ hR => ⟨hR, fun _ hid => hid⟩)
  · exact fun _ => mirrors_removeRange R name node.childrenIds _

end Halves

namespace WritesAlike

open TreeNode

variable {n : Naming} {bound : Nat} {G : TreeException → Prop} {After : S → T → Prop}
  {x : ITreeNodeManager S K V} {y : ITreeNodeManager T K V} {R : Set Nat → Set Nat → S → T → Prop}
  {L : Set Nat}

/-! ### Nodes -/

section Nodes

variable (h : WritesAlike n bound G After x y R) {W : Set Nat}

include h

/-- The fields of a node that waits already are written. -/
theorem write_waiting {this : Nat} (fields : TreeNode K V) (hthis : this ∈ L) (hwaits : this ∈ W)
    (hfields : fields.Within n.Named) :
  Mirrors (treeMirroring G After) (R L W) (x.write (n.name this) (fields.named n.name))
    (y.write this fields) id (fun _ => R L W)
  := by
  apply (h.write fields W hthis hfields).weaken
  · exact fun _ _ hR => hR
  · exact fun _ _ _ hR =>
      h.waits (Set.union_subset subset_rfl (Set.singleton_subset_iff.mpr hwaits)) hR

/-- Both managers find a node to overflow at the same number of entries. -/
theorem isOverflow_iff (W : Set Nat) (node : TreeNode K V) :
  TreeNode.isOverflow x (node.named n.name) = true ↔ TreeNode.isOverflow y node = true
  := by
  rw [TreeNode.isOverflow, TreeNode.isOverflow, (h.reads W).minEntriesPerNode]
  rfl

/-- Setting the parent of a node. -/
theorem setParentId {this parentId : Nat} (hthis : this ∈ L) (hparentId : n.Named parentId) :
  Mirrors (treeMirroring G After) (R L W) (TreeNode.setParentId x (n.name this) (n.name parentId))
    (TreeNode.setParentId y this parentId) id (fun _ => R L W)
  := by
  unfold TreeNode.setParentId
  apply Mirrors.bind_fact ((h.reads W).read hthis)
  intro node hnode
  apply Mirrors.bind (h.write { node with parentId := parentId } W hthis
    ⟨hparentId, hnode.2⟩)
  intro _
  exact h.markAsChanged W hthis

/-- Setting the parent of some nodes. -/
theorem setParentIds {parentId : Nat} (hparentId : n.Named parentId) :
  ∀ {childrenIds : List Nat}, (∀ id ∈ childrenIds, n.Named id) →
    Mirrors (treeMirroring G After) (R L W)
      (TreeNode.setParentIds x (n.name parentId) (childrenIds.map n.name))
      (TreeNode.setParentIds y parentId childrenIds) id (fun _ => R L W)
  | [], _ => Mirrors.pure rfl (fun _ _ hR => hR)
  | childId :: childrenIds, hids => by
      rw [List.map_cons, TreeNode.setParentIds, TreeNode.setParentIds]
      apply Mirrors.bind_fact ((h.reads W).found L (hids childId List.mem_cons_self))
      intro child _
      apply Mirrors.bind (h.setParentId (L := L ∪ {child}) (.inr rfl) hparentId)
      intro _
      apply (setParentIds hparentId
        (fun id hid => hids id (List.mem_cons_of_mem childId hid))).weaken
      · exact fun _ _ hR => (h.reads W).less Set.subset_union_left hR
      · exact fun _ _ _ hR => hR

/-- Inserting an entry to a leaf. -/
theorem insertAsLeaf {this : Nat} (hthis : this ∈ L) (entry : K × V) (insertPosition : Nat) :
  Mirrors (treeMirroring G After) (R L W)
    (TreeNode.insertAsLeaf x (n.name this) entry insertPosition)
    (TreeNode.insertAsLeaf y this entry insertPosition) id (fun _ => R L W)
  := by
  unfold TreeNode.insertAsLeaf
  apply Mirrors.bind_fact ((h.reads W).read hthis)
  intro node hnode
  have hinsert := mirrors_insert (G := G) (A := After) (R L W) id node.entries insertPosition entry
  rw [List.map_id] at hinsert
  apply Mirrors.bind_fact hinsert
  intro entries _
  rw [List.map_id]
  apply Mirrors.bind (h.write { node with entries := entries } W hthis hnode)
  intro _
  exact h.markAsChanged W hthis

/-- Inserting an entry between references to two children. -/
theorem insertAsParent {this leftReference rightReference : Nat} (hthis : this ∈ L)
    (hleft : n.Named leftReference) (hright : n.Named rightReference) (entry : K × V) :
  Mirrors (treeMirroring G After) (R L W)
    (TreeNode.insertAsParent x (n.name this) entry (n.name leftReference) (n.name rightReference))
    (TreeNode.insertAsParent y this entry leftReference rightReference) id (fun _ => R L W)
  := by
  unfold TreeNode.insertAsParent
  apply Mirrors.bind_fact ((h.reads W).read hthis)
  intro node hnode
  rw [(h.reads W).entrySearch]
  have hinsert := mirrors_insert (G := G) (A := After) (R L W) id node.entries
    (y.entrySearch.search node.entries entry.1).position entry
  rw [List.map_id] at hinsert
  apply Mirrors.bind_fact hinsert
  intro entries _
  rw [List.map_id]
  apply Mirrors.bind_fact (mirrors_insert (R L W) n.name node.childrenIds _ leftReference)
  intro childrenIds hchildrenIds
  apply Mirrors.bind_fact (mirrors_setItem (R L W) n.name childrenIds _ rightReference)
  intro childrenIds' hchildrenIds'
  have hnamed : ∀ id ∈ childrenIds', n.Named id := by
    intro id hid
    rcases hchildrenIds' id hid with rfl | hid
    · exact hright
    · rcases hchildrenIds id hid with rfl | hid
      · exact hleft
      · exact hnode.2 id hid
  apply Mirrors.bind (h.write
    { node with entries := entries, childrenIds := childrenIds' } W hthis
    ⟨hnode.1, hnamed⟩)
  intro _
  apply Mirrors.bind (h.markAsChanged W hthis)
  intro _
  exact Mirrors.pure rfl (fun _ _ hR => hR)

/-- Elevating the middle entry of a split node to its parent. -/
theorem elevate {splitParent : Nat → TreeM S (Nat × Nat)}
    {splitParent' : Nat → TreeM T (Nat × Nat)} {parent this newRightNode : Nat}
    (hsplit : Mirrors (treeMirroring G After) (R L W) (splitParent (n.name parent))
      (splitParent' parent) (Prod.map n.name n.name) (fun _ => R L W))
    (hparent : parent ∈ L) (hnamed : n.Named parent) (hthis : n.Named this)
    (hnew : newRightNode ∈ L) (hnewNamed : n.Named newRightNode) (middleEntry : K × V) :
  Mirrors (treeMirroring G After) (R L W)
    (TreeNode.elevate x splitParent (n.name parent) middleEntry (n.name this)
      (n.name newRightNode))
    (TreeNode.elevate y splitParent' parent middleEntry this newRightNode) id (fun _ => R L W)
  := by
  unfold TreeNode.elevate
  apply Mirrors.bind (h.insertAsParent hparent hthis hnewNamed middleEntry)
  intro _
  apply Mirrors.bind (h.setParentId hnew hnamed)
  intro _
  apply Mirrors.bind_fact ((h.reads W).read hparent)
  intro parentNode _
  apply Mirrors.ite (h.isOverflow_iff W parentNode)
  · intro _
    apply Mirrors.bind hsplit
    intro _
    exact Mirrors.pure rfl (fun _ _ hR => hR)
  · exact fun _ => Mirrors.pure rfl (fun _ _ hR => hR)

/-- The last part of splitting a node marks it. -/
theorem markAsChanged_return {this : Nat} (hthis : this ∈ L) (newRightNode : Nat) :
  Mirrors (treeMirroring G After) (R L (W ∪ {this}))
    (do x.markAsChanged (n.name this); return (n.name this, n.name newRightNode))
    (do y.markAsChanged this; return (this, newRightNode)) (Prod.map n.name n.name)
    (fun _ => R L W)
  := by
  apply Mirrors.bind (h.markAsChanged W hthis)
  intro _
  exact Mirrors.pure rfl (fun _ _ hR => hR)

end Nodes

/-! ### Moving entries between siblings -/

section Siblings

variable (h : WritesAlike n bound G After x y R) {W : Set Nat}

include h

/-- Moving the first child of the right sibling, where both nodes wait. -/
theorem moveFirstChild {this rightSibling : Nat} (hthis : this ∈ L) (hnamed : n.Named this)
    (hright : rightSibling ∈ L) (hwaits : this ∈ W) (hwaits' : rightSibling ∈ W) :
  Mirrors (treeMirroring G After) (R L W)
    (TreeNode.moveFirstChild x (n.name this) (n.name rightSibling))
    (TreeNode.moveFirstChild y this rightSibling) id (fun _ => R L W)
  := by
  unfold TreeNode.moveFirstChild
  apply Mirrors.bind_fact ((h.reads W).read hright)
  intro siblingNode hsibling
  apply Mirrors.ite
  · rw [isLeaf_named]
  · exact fun _ => Mirrors.pure rfl (fun _ _ hR => hR)
  · intro _
    apply Mirrors.bind_fact (mirrors_item (R L W) n.name siblingNode.childrenIds 0)
    intro childId hchildId
    have hchild := hsibling.2 childId hchildId
    apply Mirrors.bind_fact ((h.reads W).found L hchild)
    intro child _
    apply Mirrors.bind (h.setParentId (L := L ∪ {child}) (.inr rfl) hnamed)
    intro _
    apply Mirrors.bind_fact ((h.reads W).read (L := L ∪ {child}) (.inl hthis))
    intro node hnode
    have hnode' : ∀ id ∈ node.childrenIds ++ [childId], n.Named id := by
      intro id hid
      rcases List.mem_append.mp hid with hid | hid
      · exact hnode.2 id hid
      · rw [List.mem_singleton.mp hid]
        exact hchild
    have hwrite := h.write_waiting (L := L ∪ {child})
      { node with childrenIds := node.childrenIds ++ [childId] } (.inl hthis) hwaits
      ⟨hnode.1, hnode'⟩
    rw [TreeNode.named, List.map_append] at hwrite
    apply Mirrors.bind hwrite
    intro _
    apply Mirrors.bind_fact ((h.reads W).read (L := L ∪ {child}) (.inl hright))
    intro siblingNode' hsibling'
    apply Mirrors.bind_fact
      (mirrors_removeAt (R (L ∪ {child}) W) n.name siblingNode'.childrenIds 0)
    intro siblingIds hsiblingIds
    apply (h.write_waiting (L := L ∪ {child})
      { siblingNode' with childrenIds := siblingIds } (.inl hright) hwaits'
      ⟨hsibling'.1, fun id hid => hsibling'.2 id (hsiblingIds id hid)⟩).weaken
    · exact fun _ _ hR => hR
    · exact fun _ _ _ hR => (h.reads W).less Set.subset_union_left hR

/-- Moving the last child of the left sibling, where both nodes wait. -/
theorem moveLastChild {this leftSibling : Nat} (hthis : this ∈ L) (hnamed : n.Named this)
    (hleft : leftSibling ∈ L) (hwaits : this ∈ W) (hwaits' : leftSibling ∈ W) :
  Mirrors (treeMirroring G After) (R L W)
    (TreeNode.moveLastChild x (n.name this) (n.name leftSibling))
    (TreeNode.moveLastChild y this leftSibling) id (fun _ => R L W)
  := by
  unfold TreeNode.moveLastChild
  apply Mirrors.bind_fact ((h.reads W).read hthis)
  intro node hnode
  apply Mirrors.ite
  · rw [isLeaf_named]
  · exact fun _ => Mirrors.pure rfl (fun _ _ hR => hR)
  · intro _
    apply Mirrors.bind_fact ((h.reads W).read hleft)
    intro siblingNode hsibling
    dsimp only [TreeNode.named]
    rw [List.length_map]
    apply Mirrors.bind_fact (mirrors_item (R L W) n.name siblingNode.childrenIds _)
    intro childId hchildId
    have hchild := hsibling.2 childId hchildId
    apply Mirrors.bind_fact ((h.reads W).found L hchild)
    intro child _
    apply Mirrors.bind (h.setParentId (L := L ∪ {child}) (.inr rfl) hnamed)
    intro _
    apply Mirrors.bind_fact ((h.reads W).read (L := L ∪ {child}) (.inl hthis))
    intro node' hnode'
    apply Mirrors.bind (h.write_waiting (L := L ∪ {child})
      { node' with childrenIds := childId :: node'.childrenIds } (.inl hthis) hwaits
      ⟨hnode'.1, List.forall_mem_cons.mpr ⟨hchild, hnode'.2⟩⟩)
    intro _
    apply Mirrors.bind_fact ((h.reads W).read (L := L ∪ {child}) (.inl hleft))
    intro siblingNode' hsibling'
    dsimp only [TreeNode.named]
    rw [List.length_map]
    apply Mirrors.bind_fact
      (mirrors_removeAt (R (L ∪ {child}) W) n.name siblingNode'.childrenIds _)
    intro siblingIds hsiblingIds
    apply (h.write_waiting (L := L ∪ {child})
      { siblingNode' with childrenIds := siblingIds } (.inl hleft) hwaits'
      ⟨hsibling'.1, fun id hid => hsibling'.2 id (hsiblingIds id hid)⟩).weaken
    · exact fun _ _ hR => hR
    · exact fun _ _ _ hR => (h.reads W).less Set.subset_union_left hR

/-- Marking a node, its parent and a sibling. -/
theorem markThree {this parent other : Nat} (hthis : this ∈ L) (hparent : parent ∈ L)
    (hother : other ∈ L) :
  Mirrors (treeMirroring G After) (R L (W ∪ {other} ∪ {parent} ∪ {this}))
    (do
      x.markAsChanged (n.name this)
      x.markAsChanged (n.name parent)
      x.markAsChanged (n.name other))
    (do
      y.markAsChanged this
      y.markAsChanged parent
      y.markAsChanged other) id (fun _ => R L W)
  := by
  apply Mirrors.bind (h.markAsChanged (W ∪ {other} ∪ {parent}) hthis)
  intro _
  apply Mirrors.bind (h.markAsChanged (W ∪ {other}) hparent)
  intro _
  exact h.markAsChanged W hother

/-- Moving an entry from the right sibling. -/
theorem rotateLeft {this parent rightSibling : Nat} (hthis : this ∈ L) (hnamed : n.Named this)
    (hparent : parent ∈ L) (hright : rightSibling ∈ L) (indexInParent : Nat) :
  Mirrors (treeMirroring G After) (R L W)
    (TreeNode.rotateLeft x (n.name this) (n.name parent) (n.name rightSibling) indexInParent)
    (TreeNode.rotateLeft y this parent rightSibling indexInParent) id (fun _ => R L W)
  := by
  apply Mirrors.weaken (R := R L (W ∪ {rightSibling} ∪ {parent} ∪ {this})) (P := fun _ => R L W)
  · unfold TreeNode.rotateLeft
    have hwaits : this ∈ W ∪ {rightSibling} ∪ {parent} ∪ {this} := .inr rfl
    have hwaitsParent : parent ∈ W ∪ {rightSibling} ∪ {parent} ∪ {this} := .inl (.inr rfl)
    have hwaitsRight : rightSibling ∈ W ∪ {rightSibling} ∪ {parent} ∪ {this} :=
      .inl (.inl (.inr rfl))
    generalize hwaiting : W ∪ {rightSibling} ∪ {parent} ∪ {this} = waiting at *
    have hr := h.reads waiting
    apply Mirrors.bind (hr.getEntry hparent indexInParent)
    intro separator
    apply Mirrors.bind_fact (hr.read hthis)
    intro node hnode
    apply Mirrors.bind (h.write_waiting
      { node with entries := node.entries ++ [separator] } hthis hwaits hnode)
    intro _
    apply Mirrors.bind_fact (hr.read hright)
    intro siblingNode hsibling
    have hitem := mirrors_item (G := G) (A := After) (R L waiting) id siblingNode.entries 0
    rw [List.map_id] at hitem
    apply Mirrors.bind_fact hitem
    intro first _
    apply Mirrors.bind_fact (hr.read hparent)
    intro parentNode hparentNode
    have hset := mirrors_setItem (G := G) (A := After) (R L waiting) id parentNode.entries
      indexInParent first
    rw [List.map_id] at hset
    apply Mirrors.bind_fact hset
    intro parentEntries _
    rw [List.map_id]
    apply Mirrors.bind (h.write_waiting { parentNode with entries := parentEntries }
      hparent hwaitsParent hparentNode)
    intro _
    have hremove := mirrors_removeAt (G := G) (A := After) (R L waiting) id siblingNode.entries 0
    rw [List.map_id] at hremove
    apply Mirrors.bind_fact hremove
    intro siblingEntries _
    rw [List.map_id]
    apply Mirrors.bind (h.write_waiting
      { siblingNode with entries := siblingEntries } hright hwaitsRight hsibling)
    intro _
    apply Mirrors.bind (h.moveFirstChild hthis hnamed hright hwaits hwaitsRight)
    intro _
    rw [← hwaiting]
    exact h.markThree hthis hparent hright
  · exact fun _ _ hR => h.waits
      (Set.subset_union_left.trans (Set.subset_union_left.trans Set.subset_union_left)) hR
  · exact fun _ _ _ hR => hR

/-- Moving an entry from the left sibling. -/
theorem rotateRight {this parent leftSibling : Nat} (hthis : this ∈ L) (hnamed : n.Named this)
    (hparent : parent ∈ L) (hleft : leftSibling ∈ L) (indexInParent : Nat) :
  Mirrors (treeMirroring G After) (R L W)
    (TreeNode.rotateRight x (n.name this) (n.name parent) (n.name leftSibling) indexInParent)
    (TreeNode.rotateRight y this parent leftSibling indexInParent) id (fun _ => R L W)
  := by
  apply Mirrors.weaken (R := R L (W ∪ {leftSibling} ∪ {parent} ∪ {this})) (P := fun _ => R L W)
  · unfold TreeNode.rotateRight
    have hwaits : this ∈ W ∪ {leftSibling} ∪ {parent} ∪ {this} := .inr rfl
    have hwaitsParent : parent ∈ W ∪ {leftSibling} ∪ {parent} ∪ {this} := .inl (.inr rfl)
    have hwaitsLeft : leftSibling ∈ W ∪ {leftSibling} ∪ {parent} ∪ {this} :=
      .inl (.inl (.inr rfl))
    generalize hwaiting : W ∪ {leftSibling} ∪ {parent} ∪ {this} = waiting at *
    have hr := h.reads waiting
    apply Mirrors.bind (hr.getEntry hparent ((indexInParent : Int) - 1))
    intro separator
    apply Mirrors.bind_fact (hr.read hthis)
    intro node hnode
    apply Mirrors.bind (h.write_waiting
      { node with entries := separator :: node.entries } hthis hwaits hnode)
    intro _
    apply Mirrors.bind_fact (hr.read hleft)
    intro siblingNode hsibling
    have hitem := mirrors_item (G := G) (A := After) (R L waiting) id siblingNode.entries
      (siblingNode.entries.length - 1)
    rw [List.map_id] at hitem
    apply Mirrors.bind_fact hitem
    intro last _
    apply Mirrors.bind_fact (hr.read hparent)
    intro parentNode hparentNode
    have hset := mirrors_setItem (G := G) (A := After) (R L waiting) id parentNode.entries
      (indexInParent - 1) last
    rw [List.map_id] at hset
    apply Mirrors.bind_fact hset
    intro parentEntries _
    rw [List.map_id]
    apply Mirrors.bind (h.write_waiting { parentNode with entries := parentEntries }
      hparent hwaitsParent hparentNode)
    intro _
    have hremove := mirrors_removeAt (G := G) (A := After) (R L waiting) id siblingNode.entries
      (siblingNode.entries.length - 1)
    rw [List.map_id] at hremove
    apply Mirrors.bind_fact hremove
    intro siblingEntries _
    rw [List.map_id]
    apply Mirrors.bind (h.write_waiting
      { siblingNode with entries := siblingEntries } hleft hwaitsLeft hsibling)
    intro _
    apply Mirrors.bind (h.moveLastChild hthis hnamed hleft hwaits hwaitsLeft)
    intro _
    rw [← hwaiting]
    exact h.markThree hthis hparent hleft
  · exact fun _ _ hR => h.waits
      (Set.subset_union_left.trans (Set.subset_union_left.trans Set.subset_union_left)) hR
  · exact fun _ _ _ hR => hR

/-- Joining the right child to the left one: both the left child and the parent wait, and the
right child is not at hand any more. -/
theorem joinChildren {parent leftChild rightChild : Nat} (hparent : parent ∈ L)
    (hleft : leftChild ∈ L) (hnamed : n.Named leftChild) (hright : rightChild ∈ L)
    (hwaits : parent ∈ W) (hwaits' : leftChild ∈ W) (separatorParentIndex : Int) :
  Mirrors (treeMirroring G After) (R L W)
    (TreeNode.joinChildren x (n.name parent) (n.name leftChild) (n.name rightChild)
      separatorParentIndex)
    (TreeNode.joinChildren y parent leftChild rightChild separatorParentIndex) id
    (fun _ => R (L \ {rightChild}) W)
  := by
  unfold TreeNode.joinChildren
  have hr := h.reads W
  apply Mirrors.bind (hr.getEntry hparent separatorParentIndex)
  intro separator
  apply Mirrors.bind_fact (hr.read hleft)
  intro leftNode hleftNode
  apply Mirrors.bind_fact (hr.read hright)
  intro rightNode hrightNode
  have hids : ∀ id ∈ leftNode.childrenIds ++ rightNode.childrenIds, n.Named id := by
    intro id hid
    rcases List.mem_append.mp hid with hid | hid
    · exact hleftNode.2 id hid
    · exact hrightNode.2 id hid
  have hwrite := h.write_waiting
    { leftNode with
      entries := (leftNode.entries ++ [separator]) ++ rightNode.entries
      childrenIds := leftNode.childrenIds ++ rightNode.childrenIds } hleft hwaits'
    ⟨hleftNode.1, hids⟩
  rw [TreeNode.named, List.map_append] at hwrite
  apply Mirrors.bind hwrite
  intro _
  apply Mirrors.bind (h.setParentIds hnamed hrightNode.2)
  intro _
  apply Mirrors.bind_fact (hr.read hparent)
  intro parentNode hparentNode
  have hremove := mirrors_removeAt (G := G) (A := After) (R L W) id parentNode.entries
    separatorParentIndex.toNat
  rw [List.map_id] at hremove
  apply Mirrors.bind_fact hremove
  intro parentEntries _
  rw [List.map_id]
  apply Mirrors.bind_fact (mirrors_removeAt (R L W) n.name parentNode.childrenIds _)
  intro parentIds hparentIds
  apply Mirrors.bind (h.write_waiting
    { parentNode with entries := parentEntries, childrenIds := parentIds } hparent
    hwaits ⟨hparentNode.1, fun id hid => hparentNode.2 id (hparentIds id hid)⟩)
  intro _
  apply (h.delete W hright).weaken
  · exact fun _ _ hR => h.waits Set.subset_union_left hR
  · exact fun _ _ _ hR => hR

end Siblings

end WritesAlike

namespace CreatesAlike

open TreeNode

variable {n : Naming} {bound : Nat} {G : TreeException → Prop} {After : S → T → Prop}
  {x : ITreeNodeManager S K V} {y : ITreeNodeManager T K V} {R : Set Nat → Set Nat → S → T → Prop}
  {L : Set Nat}

/-! ### Splitting -/

section Splitting

variable (h : CreatesAlike n bound G After x y R) {W : Set Nat}

include h

/-- Halving a node: the node waits to be marked. -/
theorem halve {this : Nat} (hthis : this ∈ L) :
  Mirrors (treeMirroring G After) (R L W) (TreeNode.halve x (n.name this)) (TreeNode.halve y this)
    (Prod.map id n.name)
    (fun halves s t => R (L ∪ {halves.2}) (W ∪ {this}) s t ∧ n.Named halves.2)
  := by
  unfold TreeNode.halve
  rw [(h.reads W).minEntriesPerNode]
  apply Mirrors.bind_fact ((h.reads W).read hthis)
  intro node hnode
  have hitem := mirrors_item (G := G) (A := After) (R L W) id node.entries y.minEntriesPerNode
  rw [List.map_id] at hitem
  apply Mirrors.bind_fact hitem
  intro middleEntry _
  have hcopy := mirrors_copyTo (G := G) (A := After) (R L W) id node.entries
    (y.minEntriesPerNode + 1) y.minEntriesPerNode
  rw [List.map_id] at hcopy
  apply Mirrors.bind_fact hcopy
  intro rightEntries _
  rw [List.map_id]
  apply Mirrors.bind_fact (mirrors_rightChildren (R L W) n.name node y.minEntriesPerNode)
  intro rightIds hrightIds
  have hnamed : ∀ id ∈ rightIds, n.Named id := fun id hid => hnode.2 id (hrightIds id hid)
  apply Mirrors.bind_fact (h.create L W rightEntries hnamed)
  intro newRightNode hnew
  apply Mirrors.bind (h.setParentIds (L := L ∪ {newRightNode}) hnew hnamed)
  intro _
  have hthis' : this ∈ L ∪ {newRightNode} := .inl hthis
  apply Mirrors.bind_fact ((h.reads W).read hthis')
  intro node' hnode'
  have hcut := mirrors_removeRange (G := G) (A := After) (R (L ∪ {newRightNode}) W) id node'.entries
    y.minEntriesPerNode
  rw [List.map_id] at hcut
  apply Mirrors.bind_fact hcut
  intro leftEntries _
  rw [List.map_id]
  apply Mirrors.bind_fact
    (mirrors_leftChildren (R (L ∪ {newRightNode}) W) n.name node' y.minEntriesPerNode)
  intro leftIds hleftIds
  apply Mirrors.bind (h.write
    { node' with entries := leftEntries, childrenIds := leftIds } W hthis'
    ⟨hnode'.1, fun id hid => hnode'.2 id (hleftIds id hid)⟩)
  intro _
  exact Mirrors.pure rfl (fun _ _ hR => ⟨hR, hnew⟩)

/-- The last part of splitting the root node. -/
theorem split_root {this newRightNode : Nat} (hthis : this ∈ L) (hnamed : n.Named this)
    (hnew : newRightNode ∈ L) (hnewNamed : n.Named newRightNode) (middleEntry : K × V) :
  Mirrors (treeMirroring G After) (R L (W ∪ {this}))
    (do
      let parent ← x.createNewRoot middleEntry (n.name this) (n.name newRightNode)
      TreeNode.setParentId x (n.name this) parent
      TreeNode.setParentId x (n.name newRightNode) parent
      x.markAsChanged (n.name this)
      return (n.name this, n.name newRightNode))
    (do
      let parent ← y.createNewRoot middleEntry this newRightNode
      TreeNode.setParentId y this parent
      TreeNode.setParentId y newRightNode parent
      y.markAsChanged this
      return (this, newRightNode)) (Prod.map n.name n.name) (fun _ => R L W)
  := by
  apply Mirrors.bind_fact (h.createNewRoot L _ middleEntry hnamed hnewNamed)
  intro parent hparent
  apply Mirrors.bind (h.setParentId (L := L ∪ {parent}) (.inl hthis) hparent)
  intro _
  apply Mirrors.bind (h.setParentId (L := L ∪ {parent}) (.inl hnew) hparent)
  intro _
  apply (h.markAsChanged_return (L := L ∪ {parent}) (.inl hthis) newRightNode).weaken
  · exact fun _ _ hR => hR
  · exact fun _ _ _ hR => (h.reads W).less Set.subset_union_left hR

/-- Splitting a node. -/
theorem split :
  ∀ {steps steps' : Nat}, steps ≤ steps' → ∀ {L W : Set Nat} {this : Nat}, this ∈ L →
    n.Named this →
      Mirrors (treeMirroring G After) (R L W) (TreeNode.split x steps' (n.name this))
        (TreeNode.split y steps this) (Prod.map n.name n.name) (fun _ => R L W)
  | 0, _, _, _, _, _, _, _ => untold _ (by decide)
  | steps + 1, steps' + 1, hsteps, L, W, this, hthis, hnamed => by
      rw [TreeNode.split, TreeNode.split]
      apply Mirrors.bind_fact (h.halve hthis)
      rintro ⟨middleEntry, newRightNode⟩ hnew
      have hthis' : this ∈ L ∪ {newRightNode} := .inl hthis
      have hright : newRightNode ∈ L ∪ {newRightNode} := .inr rfl
      have hless : ∀ {s : S} {t : T}, R (L ∪ {newRightNode}) W s t → R L W s t :=
        (h.reads W).less Set.subset_union_left
      have hroot := (h.split_root (W := W) hthis' hnamed hright hnew middleEntry).weaken
        (fun _ _ hR => hR) (fun _ _ _ hR => hless hR)
      apply Mirrors.bind_fact ((h.reads _).read hthis')
      intro node hnode
      apply Mirrors.ite (n.name_eq_zero hnode.1)
      · exact fun _ => hroot
      · intro _
        apply Mirrors.bind_fact ((h.reads _).find _ hnode.1)
        intro parent hparent
        cases parent with
        | none =>
            apply hroot.weaken
            · exact fun _ _ hR => (h.reads _).less Set.subset_union_left hR
            · exact fun _ _ _ hR => hR
        | some parent =>
            have hparent' := hparent parent rfl
            have hstart : ∀ {s : S} {t : T},
                R (L ∪ {newRightNode} ∪ {node | some parent = some node}) (W ∪ {this}) s t →
                  R (L ∪ {newRightNode} ∪ {parent}) (W ∪ {this}) s t :=
              (h.reads _).atHand rfl
            apply Mirrors.weaken (R := R (L ∪ {newRightNode} ∪ {parent}) (W ∪ {this}))
              (P := fun _ => R (L ∪ {newRightNode} ∪ {parent}) W)
            · apply Mirrors.bind (h.elevate
                (split (Nat.le_of_succ_le_succ hsteps)
                  (L := L ∪ {newRightNode} ∪ {parent}) (.inr rfl) hparent') (.inr rfl) hparent'
                hnamed (.inl hright) hnew middleEntry)
              intro _
              exact h.markAsChanged_return (.inl hthis') newRightNode
            · exact fun _ _ hR => hstart hR
            · exact fun _ _ _ hR => hless ((h.reads W).less Set.subset_union_left hR)

end Splitting

/-! ### Insertion -/

section Insertion

variable (h : CreatesAlike n bound G After x y R) (allow : Bool)

include h

/-- Inserting an entry to a leaf, and splitting it. -/
theorem insertToLeaf {steps steps' : Nat} (hsteps : steps ≤ steps') {leaf : Nat}
    (hleaf : leaf ∈ L) (hnamed : n.Named leaf) (entry : K × V) (insertPosition : Nat) :
  Mirrors (treeMirroring G After) (R L ∅)
    (Tree.insertToLeaf ⟨x, allow⟩ steps' (n.name leaf) entry insertPosition)
    (Tree.insertToLeaf ⟨y, allow⟩ steps leaf entry insertPosition) id (fun _ => R L ∅)
  := by
  unfold Tree.insertToLeaf
  apply Mirrors.bind (h.insertAsLeaf hleaf entry insertPosition)
  intro _
  apply Mirrors.bind_fact ((h.reads ∅).read hleaf)
  intro leafNode _
  apply Mirrors.ite (h.isOverflow_iff ∅ leafNode)
  · intro _
    apply Mirrors.bind (h.split hsteps hleaf hnamed)
    intro _
    exact h.saveChanges L
  · exact fun _ => h.saveChanges L

/-- Inserting an entry. -/
theorem insert (key : K) (value : V) :
  Mirrors (treeMirroring G After) (R ∅ ∅) (Tree.insert ⟨x, allow⟩ key value)
    (Tree.insert ⟨y, allow⟩ key value) id (fun _ => R ∅ ∅)
  := by
  unfold Tree.insert
  apply Mirrors.bind_fact ((h.reads ∅).steps ∅)
  intro steps hsteps
  apply Mirrors.bind_fact ((h.reads ∅).root allow ∅)
  intro root hroot
  apply Mirrors.bind_fact
    ((h.reads ∅).findNodeForInsertion allow key hsteps (L := ∅ ∪ {root}) (.inr rfl) hroot)
  rintro ⟨leafNode, insertionIndex⟩ hleafNode
  have hleaf : ∀ i, Mirrors (treeMirroring G After) (R ((∅ ∪ {root}) ∪ {leafNode}) ∅)
      (Tree.insertToLeaf ⟨x, allow⟩ bound (n.name leafNode) (key, value) i)
      (Tree.insertToLeaf ⟨y, allow⟩ steps leafNode (key, value) i) id (fun _ => R ∅ ∅) := by
    intro i
    apply (h.insertToLeaf (L := (∅ ∪ {root}) ∪ {leafNode}) allow hsteps (.inr rfl) hleafNode
      (key, value) i).weaken
    · exact fun _ _ hR => hR
    · exact fun _ _ _ hR => (h.reads ∅).less (Set.empty_subset _) hR
  cases insertionIndex with
  | found i =>
      apply Mirrors.ite Iff.rfl
      · exact fun _ => hleaf i
      · exact fun _ => Mirrors.throw _ (fun _ _ hR => h.after hR)
  | missing i => exact hleaf i

end Insertion

end CreatesAlike

end Datatent.BTree
