import Datatent.CoreOld.Tree.Marking
import Datatent.CoreOld.Tree.Walking
import Datatent.CoreOld.Tree.WritingAlike

/-!
# Deleting from a tree through another manager

When a manager mirrors the memory node manager, deleting from a tree over it mirrors deleting from
a tree over the memory node manager. A node must not be merged with itself, or it would be marked
after it was deleted: no node is listed twice among the children of the nodes (`Apart`), and what
a deletion does before it merges two nodes keeps this.
-/

namespace Datatent.BTree

variable {S K V : Type} [LinearOrder K]

/-! ### Lists of children -/

/-- No id is listed twice, neither in one list nor in two, and none in its own list. -/
structure Apart (children : Nat → List Nat) : Prop where
  nodup : ∀ id, (children id).Nodup
  disjoint : ∀ {id id' childId}, childId ∈ children id → childId ∈ children id' → id = id'
  irrefl : ∀ id, id ∉ children id

namespace Apart

variable {children : Nat → List Nat} {left right parent : Nat}

/-- The lists with that of the right node behind that of the left one. -/
theorem nodup_joined (h : Apart children) (hne : left ≠ right) (id : Nat) :
  (Function.update children left (children left ++ children right) id).Nodup
  := by
  rw [Function.update_apply]
  split
  · rw [List.nodup_append']
    exact ⟨h.nodup left, h.nodup right, fun _ hl hr => hne (h.disjoint hl hr)⟩
  · exact h.nodup id

/-- An id in one of the lists with that of the right node behind that of the left one. -/
theorem mem_joined {id childId : Nat}
    (hmem : childId ∈ Function.update children left (children left ++ children right) id) :
  childId ∈ children id ∨ id = left ∧ childId ∈ children right
  := by
  rw [Function.update_apply] at hmem
  split at hmem
  · rename_i heq
    subst heq
    exact (List.mem_append.mp hmem).imp_right (fun h => ⟨rfl, h⟩)
  · exact .inl hmem

/-- Joining two children of a node, one of which is deleted. -/
theorem join (h : Apart children) (hne : left ≠ right) (hleft : left ∈ children parent)
    (hright : right ∈ children parent) {ids : List Nat}
    (hids : ids.Sublist
      (Function.update children left (children left ++ children right) parent)) :
  Apart (Function.update (Function.update
    (Function.update children left (children left ++ children right)) parent ids) right [])
  := by
  have hparent : right ≠ parent := fun heq => h.irrefl parent (heq ▸ hright)
  have hmem : ∀ {id childId}, childId ∈ Function.update (Function.update
      (Function.update children left (children left ++ children right)) parent ids) right [] id →
        id ≠ right ∧ (childId ∈ children id ∨ id = left ∧ childId ∈ children right) := by
    intro id childId hchild
    rw [Function.update_apply] at hchild
    split at hchild
    · cases hchild
    · rename_i hid
      refine ⟨hid, ?_⟩
      rw [Function.update_apply] at hchild
      split at hchild
      · rename_i heq
        subst heq
        exact mem_joined (hids.subset hchild)
      · exact mem_joined hchild
  constructor
  · intro id
    rw [Function.update_apply]
    split
    · exact List.nodup_nil
    · rw [Function.update_apply]
      split
      · exact (h.nodup_joined hne parent).sublist hids
      · exact h.nodup_joined hne id
  · intro id id' childId hchild hchild'
    obtain ⟨hid, hown | ⟨rfl, hmoved⟩⟩ := hmem hchild
    · obtain ⟨hid', hown' | ⟨rfl, hmoved'⟩⟩ := hmem hchild'
      · exact h.disjoint hown hown'
      · exact absurd (h.disjoint hown hmoved') hid
    · obtain ⟨hid', hown' | ⟨rfl, hmoved'⟩⟩ := hmem hchild'
      · exact absurd (h.disjoint hown' hmoved) hid'
      · rfl
  · intro id hchild
    obtain ⟨hid, hown | ⟨rfl, hmoved⟩⟩ := hmem hchild
    · exact h.irrefl id hown
    · exact hparent (h.disjoint hmoved hleft)

end Apart

/-! ### What the memory node manager does -/

section Memory

variable {m : Nat} {search : EntrySearch K V} (P : NodeStore K V → Prop)

/-- Reading the fields of a node. -/
theorem returns_read (this : Nat) :
  Returns P ((treeMemoryNodeManager m search).read this)
    (fun fields t => P t ∧ t.nodes this = some fields)
  := by
  constructor
  intro t fields t' h hrun
  change TreeMemoryNodeManager.read this t = .ok fields t' at hrun
  rw [TreeMemoryNodeManager.read, EStateM.get_bind_apply] at hrun
  cases hnode : t.nodes this with
  | none =>
      rw [hnode] at hrun
      cases hrun
  | some fields' =>
      rw [hnode] at hrun
      cases hrun
      exact ⟨h, hnode⟩

/-- Finding a node. -/
theorem returns_find (id : Nat) :
  Returns P ((treeMemoryNodeManager m search).find id) (fun found t => P t ∧ found = some id)
  := by
  constructor
  intro t found t' h hrun
  change TreeMemoryNodeManager.find id t = .ok found t' at hrun
  rw [TreeMemoryNodeManager.find, EStateM.get_bind_apply] at hrun
  cases hnode : t.nodes id with
  | none =>
      rw [hnode] at hrun
      cases hrun
  | some fields =>
      rw [hnode] at hrun
      cases hrun
      exact ⟨h, rfl⟩

omit [LinearOrder K] in
/-- A function of the state. -/
theorem returns_get {α : Type} (f : NodeStore K V → α) :
  Returns P (f <$> get : TreeM (NodeStore K V) α) (fun _ => P)
  := by
  constructor
  rintro t a t' h ⟨⟩
  exact h

/-- The node found under an id. -/
theorem returns_found (id : Nat) :
  Returns P (TreeNode.found (treeMemoryNodeManager m search) id) (fun node t => P t ∧ node = id)
  := by
  unfold TreeNode.found
  apply Returns.bind_fact (returns_find P id)
  rintro found rfl
  exact Returns.pure (fun _ h => ⟨h, rfl⟩)

omit [LinearOrder K] in
/-- A change of the state. -/
theorem returns_change {Q : NodeStore K V → Prop} {f : NodeStore K V → NodeStore K V}
    (h : ∀ t, P t → Q (f t)) :
  Returns P (TreeMemoryNodeManager.change f) (fun _ => Q)
  := by
  constructor
  rintro t _ t' ht ⟨⟩
  exact h t ht

omit [LinearOrder K] in
/-- The children of a node that is there. -/
theorem childrenOf_eq {t : NodeStore K V} {this : Nat} {node : TreeNode K V}
    (hnode : t.nodes this = some node) :
  t.childrenOf this = node.childrenIds
  := by
  rw [NodeStore.childrenOf, hnode]

omit [LinearOrder K] in
/-- A node that is written has the children in its fields. -/
theorem childrenOf_write (t : NodeStore K V) (this : Nat) (fields : TreeNode K V) :
  ({ t with nodes := t.nodes.put this fields } : NodeStore K V).childrenOf
    = Function.update t.childrenOf this fields.childrenIds
  := by
  funext id
  by_cases heq : id = this
  · subst heq
    rw [Function.update_self]
    exact childrenOf_eq (Function.update_self _ _ _)
  · rw [Function.update_of_ne heq, NodeStore.childrenOf, NodeStore.childrenOf]
    dsimp only [Heap.put]
    rw [Function.update_of_ne heq]

omit [LinearOrder K] in
/-- A node that is deleted has no children. -/
theorem childrenOf_delete (t : NodeStore K V) (this : Nat) (root : Option Nat) :
  ({ t with rootNode := root, nodes := t.nodes.erase this } : NodeStore K V).childrenOf
    = Function.update t.childrenOf this []
  := by
  funext id
  by_cases heq : id = this
  · subst heq
    rw [Function.update_self, NodeStore.childrenOf]
    dsimp only [Heap.erase]
    rw [Function.update_self]
  · rw [Function.update_of_ne heq, NodeStore.childrenOf, NodeStore.childrenOf]
    dsimp only [Heap.erase]
    rw [Function.update_of_ne heq]

omit [LinearOrder K] in
/-- Removing an element of a list. -/
theorem returns_removeAt {α : Type} (list : List α) (index : Nat) :
  Returns P (removeAt list index) (fun list' t => P t ∧ list'.Sublist list)
  := by
  apply Returns.ite
  · intro _
    apply Returns.pure
    intro t h
    refine ⟨h, ?_⟩
    have hsub := (List.Sublist.refl (list.take index)).append
      (List.drop_sublist_drop_left list (Nat.le_succ index))
    rwa [List.take_append_drop] at hsub
  · exact fun _ => Returns.throw _ _ _

/-- The entry of a node at a position. -/
theorem returns_getEntry (this : Nat) (atIndex : Int) :
  Returns P (TreeNode.getEntry (treeMemoryNodeManager m search) this atIndex) (fun _ => P)
  := by
  unfold TreeNode.getEntry
  apply Returns.bind (returns_read P this)
  intro node
  apply Returns.ite
  · exact fun _ => Returns.throw _ _ _
  · exact fun _ => (returns_item _ node.entries _).weaken (fun _ _ h => h.1.1)

variable {children : Nat → List Nat}

/-- Reading a node, whose children are known. -/
theorem returns_read_children (this : Nat) :
  Returns (fun t => t.childrenOf = children) ((treeMemoryNodeManager m search).read this)
    (fun fields t => t.childrenOf = children ∧ children this = fields.childrenIds)
  := by
  apply (returns_read _ this).weaken
  rintro fields t ⟨rfl, hnode⟩
  exact ⟨rfl, childrenOf_eq hnode⟩

/-- Writing a node, whose children are changed. -/
theorem returns_write_children (this : Nat) (fields : TreeNode K V) :
  Returns (fun t => t.childrenOf = children) ((treeMemoryNodeManager m search).write this fields)
    (fun _ t => t.childrenOf = Function.update children this fields.childrenIds)
  := by
  apply returns_change
  rintro t rfl
  exact childrenOf_write t this fields

/-- Setting the parent of a node leaves the children. -/
theorem returns_setParentId (this parentId : Nat) :
  Returns (fun t => t.childrenOf = children)
    (TreeNode.setParentId (treeMemoryNodeManager m search) this parentId)
    (fun _ t => t.childrenOf = children)
  := by
  unfold TreeNode.setParentId
  apply Returns.bind_fact (returns_read_children this)
  intro node hnode
  apply Returns.bind (returns_write_children this { node with parentId := parentId })
  intro _
  apply Returns.pure
  intro t h
  rw [h, ← hnode, Function.update_eq_self]

/-- Setting the parent of some nodes leaves the children. -/
theorem returns_setParentIds (parentId : Nat) :
  ∀ childrenIds, Returns (fun t => t.childrenOf = children)
    (TreeNode.setParentIds (treeMemoryNodeManager m search) parentId childrenIds)
    (fun _ t => t.childrenOf = children)
  | [] => Returns.pure (fun _ h => h)
  | childId :: childrenIds => by
      rw [TreeNode.setParentIds]
      apply Returns.bind_fact (returns_found _ childId)
      intro child _
      apply Returns.bind (returns_setParentId child parentId)
      intro _
      exact returns_setParentIds parentId childrenIds

/-- Joining two children of a node keeps the lists of children apart. -/
theorem returns_joinChildren {parent left right : Nat} (h : Apart children) (hne : left ≠ right)
    (hleft : left ∈ children parent) (hright : right ∈ children parent)
    (separatorParentIndex : Int) :
  Returns (fun t => t.childrenOf = children)
    (TreeNode.joinChildren (treeMemoryNodeManager m search) parent left right
      separatorParentIndex)
    (fun _ t => Apart t.childrenOf)
  := by
  unfold TreeNode.joinChildren
  apply Returns.bind (returns_getEntry _ parent separatorParentIndex)
  intro separator
  apply Returns.bind_fact (returns_read_children left)
  intro leftNode hleftNode
  apply Returns.bind_fact (returns_read_children right)
  intro rightNode hrightNode
  apply Returns.bind (returns_write_children left _)
  intro _
  rw [← hleftNode, ← hrightNode]
  apply Returns.bind (returns_setParentIds left _)
  intro _
  apply Returns.bind_fact (returns_read_children parent)
  intro parentNode hparentNode
  apply Returns.bind_fact (returns_removeAt _ parentNode.entries _)
  intro parentEntries _
  apply Returns.bind_fact (returns_removeAt _ parentNode.childrenIds _)
  intro parentIds hparentIds
  apply Returns.bind (returns_write_children parent _)
  intro _
  apply returns_change
  intro t ht
  rw [childrenOf_delete, ht]
  exact h.join hne hleft hright (hparentNode ▸ hparentIds)

end Memory

/-- Looking at nodes of the memory node manager keeps its state. -/
theorem ReadsAlike.keeping {n : Naming} {bound m : Nat} {search : EntrySearch K V}
    {G : TreeException → Prop} {After : S → NodeStore K V → Prop} {x : ITreeNodeManager S K V}
    {R : Set Nat → S → NodeStore K V → Prop}
    (h : ReadsAlike n bound G After x (treeMemoryNodeManager m search) R)
    (P : NodeStore K V → Prop) :
  ReadsAlike n bound G After x (treeMemoryNodeManager m search) (fun L s t => R L s t ∧ P t)
  where
  minEntriesPerNode := h.minEntriesPerNode
  entrySearch := h.entrySearch
  less := fun hsub hR => ⟨h.less hsub hR.1, hR.2⟩
  rootNode := fun L => (h.rootNode L).keep (returns_get P _)
  find := fun L _ hid =>
    (h.find L hid).keep ((returns_find P _).weaken (fun _ _ hP => hP.1))
  read := fun hthis => (h.read hthis).keep ((returns_read P _).weaken (fun _ _ hP => hP.1))
  steps := fun L => (h.steps L).keep (returns_get P _)

/-! ### Siblings -/

/-- Two different children of a node. -/
structure Siblings (children : Nat → List Nat) (parent left right : Nat) : Prop where
  left_mem : left ∈ children parent
  right_mem : right ∈ children parent
  ne : left ≠ right

/-- Children at different positions are different nodes. -/
theorem Apart.siblings {children : Nat → List Nat} (h : Apart children)
    {parent i j left right : Nat} (hij : i ≠ j) (hleft : (children parent)[i]? = some left)
    (hright : (children parent)[j]? = some right) :
  Siblings children parent left right
  where
  left_mem := List.mem_of_getElem? hleft
  right_mem := List.mem_of_getElem? hright
  ne := by
    rintro rfl
    obtain ⟨hi, hleft⟩ := List.getElem?_eq_some_iff.mp hleft
    obtain ⟨hj, hright⟩ := List.getElem?_eq_some_iff.mp hright
    exact hij ((h.nodup parent).getElem_inj_iff.mp (hleft.trans hright.symm))

section Looking

variable {m : Nat} {search : EntrySearch K V} {t₀ : NodeStore K V}

/-- Reading the fields of a node of a known state. -/
theorem returns_read_known (this : Nat) :
  Returns (fun t => t = t₀) ((treeMemoryNodeManager m search).read this)
    (fun node t => t = t₀ ∧ t₀.nodes this = some node)
  := by
  apply (returns_read (fun t => t = t₀) this).weaken
  rintro node t ⟨rfl, hnode⟩
  exact ⟨rfl, hnode⟩

/-- The position of a node is one where its parent lists it. -/
theorem returns_indexInParent (this : Nat) :
  Returns (fun t => t = t₀) (TreeNode.indexInParent (treeMemoryNodeManager m search) this)
    (fun i _ => ∃ node, t₀.nodes this = some node ∧
      (t₀.childrenOf node.parentId)[i]? = some this)
  := by
  unfold TreeNode.indexInParent
  apply Returns.bind_fact (returns_read_known this)
  intro node hnode
  apply Returns.bind_fact (returns_find (fun t => t = t₀) node.parentId)
  rintro found rfl
  apply Returns.bind_fact (returns_read_known node.parentId)
  intro parentNode hparent
  cases hindex : parentNode.childrenIds.idxOf? this with
  | none => exact Returns.throw _ _ _
  | some i =>
      apply Returns.pure
      intro t _
      refine ⟨node, hnode, ?_⟩
      rw [childrenOf_eq hparent]
      obtain ⟨hi, hget, _⟩ := List.idxOf?_eq_some_iff.mp hindex
      rw [List.getElem?_eq_getElem hi, hget]

/-- A sibling is listed by the parent at the position. -/
theorem returns_sibling (parent : Nat) (position : Option Nat) :
  Returns (fun t => t = t₀) (TreeNode.sibling (treeMemoryNodeManager m search) parent position)
    (fun found _ => ∀ node ∈ found, ∃ i ∈ position, (t₀.childrenOf parent)[i]? = some node)
  := by
  cases position with
  | none => exact Returns.pure (fun _ _ _ hnode => by cases hnode)
  | some i =>
      unfold TreeNode.sibling
      apply Returns.bind_fact (returns_read_known parent)
      intro parentNode hparent
      unfold item
      cases hitem : parentNode.childrenIds[i]? with
      | none => exact Returns.throw _ _ _
      | some childId =>
          rw [pure_bind]
          apply (returns_find (fun t => t = t₀) childId).weaken
          rintro found t ⟨-, rfl⟩ node hnode
          cases hnode
          exact ⟨i, rfl, (childrenOf_eq hparent) ▸ hitem⟩

end Looking

/-! ### Merging -/

namespace WritesAlike

variable {n : Naming} {bound m : Nat} {search : EntrySearch K V}
  {G : TreeException → Prop} {After : S → NodeStore K V → Prop} {x : ITreeNodeManager S K V}
  {R : Set Nat → Set Nat → S → NodeStore K V → Prop} {L : Set Nat}
  (h : WritesAlike n bound G After x (treeMemoryNodeManager m search) R)

include h

/-- Marking a node keeps the state of the memory node manager. -/
theorem markAsChanged_keeping (P : NodeStore K V → Prop) {W : Set Nat} {this : Nat}
    (hthis : this ∈ L) :
  Mirrors (treeMirroring G After) (fun s t => R L (W ∪ {this}) s t ∧ P t)
    (x.markAsChanged (n.name this)) ((treeMemoryNodeManager m search).markAsChanged this) id
    (fun _ s t => R L W s t ∧ P t)
  := by
  have hmark := (h.markAsChanged W hthis).weaken
    (U := fun s t => R L (W ∪ {this}) s t ∧ P t) (fun _ _ hR => hR.1) (fun _ _ _ hR => hR)
  exact hmark.and_returns (fun _ _ hR => hR.2) (Returns.pure (fun _ hR => hR))

/-- The merged child takes the place of a root node without entries. -/
theorem replaceRoot {parent left : Nat} (hparent : parent ∈ L) (hleft : left ∈ L) :
  Mirrors (treeMirroring G After) (R L (∅ ∪ {parent} ∪ {left}))
    (do
      TreeNode.setParentId x (n.name left) 0
      x.markAsChanged (n.name left)
      x.makeRoot (n.name left)
      x.delete (n.name parent))
    (do
      TreeNode.setParentId (treeMemoryNodeManager m search) left 0
      (treeMemoryNodeManager m search).markAsChanged left
      (treeMemoryNodeManager m search).makeRoot left
      (treeMemoryNodeManager m search).delete parent) id (fun _ => R ∅ ∅)
  := by
  have hset := h.setParentId (W := ∅ ∪ {parent} ∪ {left}) hleft n.named_zero
  rw [n.name_zero] at hset
  apply Mirrors.bind hset
  intro _
  apply Mirrors.bind (h.markAsChanged (∅ ∪ {parent}) hleft)
  intro _
  apply Mirrors.bind (h.makeRoot (∅ ∪ {parent}) hleft)
  intro _
  apply (h.delete ∅ hparent).weaken
  · exact fun _ _ hR => hR
  · exact fun _ _ _ hR => (h.reads ∅).less (Set.empty_subset _) hR

/-- Merging two children of a node. -/
theorem merge {rebalance : Nat → TreeM S Unit} {rebalance' : Nat → TreeM (NodeStore K V) Unit}
    (hrebalance : ∀ {L : Set Nat} {node}, node ∈ L → n.Named node →
      Mirrors (treeMirroring G After) (fun s t => R L ∅ s t ∧ Apart t.childrenOf)
        (rebalance (n.name node)) (rebalance' node) id (fun _ => R ∅ ∅))
    {children : Nat → List Nat} (hapart : Apart children) {parent left right : Nat}
    (hsiblings : Siblings children parent left right) (hparent : parent ∈ L)
    (hnamed : n.Named parent) (hleft : left ∈ L) (hnamed' : n.Named left) (hright : right ∈ L)
    (separatorParentIndex : Int) :
  Mirrors (treeMirroring G After) (fun s t => R L ∅ s t ∧ t.childrenOf = children)
    (TreeNode.merge x rebalance (n.name parent) (n.name left) (n.name right)
      separatorParentIndex)
    (TreeNode.merge (treeMemoryNodeManager m search) rebalance' parent left right
      separatorParentIndex) id (fun _ => R ∅ ∅)
  := by
  have hparent' : parent ∈ L \ {right} :=
    ⟨hparent, fun heq => hapart.irrefl parent (heq ▸ hsiblings.right_mem)⟩
  have hleft' : left ∈ L \ {right} := ⟨hleft, hsiblings.ne⟩
  unfold TreeNode.merge
  have hjoin := (h.joinChildren (W := ∅ ∪ {parent} ∪ {left}) hparent hleft hnamed' hright
    (.inl (.inr rfl)) (.inr rfl) separatorParentIndex).weaken
      (U := fun s t => R L ∅ s t ∧ t.childrenOf = children)
      (fun _ _ hR => h.waits (Set.empty_subset _) hR.1) (fun _ _ _ hR => hR)
  apply Mirrors.bind (hjoin.and_returns (fun _ _ hR => hR.2)
    (returns_joinChildren hapart hsiblings.ne hsiblings.left_mem hsiblings.right_mem
      separatorParentIndex))
  intro _
  apply Mirrors.bind_fact (((h.reads _).keeping (fun t => Apart t.childrenOf)).read hparent')
  intro parentNode hparentNode
  have hzero := n.name_eq_zero hparentNode.1
  apply Mirrors.ite (and_congr hzero Iff.rfl)
  · intro _
    exact (h.replaceRoot hparent' hleft').weaken (fun _ _ hR => hR.1) (fun _ _ _ hR => hR)
  · intro _
    rw [(h.reads ∅).minEntriesPerNode]
    apply Mirrors.ite (and_congr (not_congr hzero) Iff.rfl)
    · intro _
      apply Mirrors.bind (h.markAsChanged_keeping _ hleft')
      intro _
      apply Mirrors.bind (h.markAsChanged_keeping _ hparent')
      intro _
      exact hrebalance hparent' hnamed
    · intro _
      apply Mirrors.bind ((h.markAsChanged (∅ ∪ {parent}) hleft').weaken
        (fun _ _ hR => hR.1) (fun _ _ _ hR => hR))
      intro _
      apply (h.markAsChanged ∅ hparent').weaken
      · exact fun _ _ hR => hR
      · exact fun _ _ _ hR => (h.reads ∅).less (Set.empty_subset _) hR

/-- Merging a node with a sibling. -/
theorem mergeWithSibling {rebalance : Nat → TreeM S Unit}
    {rebalance' : Nat → TreeM (NodeStore K V) Unit}
    (hrebalance : ∀ {L : Set Nat} {node}, node ∈ L → n.Named node →
      Mirrors (treeMirroring G After) (fun s t => R L ∅ s t ∧ Apart t.childrenOf)
        (rebalance (n.name node)) (rebalance' node) id (fun _ => R ∅ ∅))
    {children : Nat → List Nat} (hapart : Apart children) {this parent i : Nat}
    (hthis : this ∈ L) (hnamed : n.Named this) (hparent : parent ∈ L)
    (hnamed' : n.Named parent) {right left : Option Nat}
    (hright : ∀ node ∈ right, node ∈ L ∧ Siblings children parent this node)
    (hleft : ∀ node ∈ left, (node ∈ L ∧ n.Named node) ∧ Siblings children parent node this) :
  Mirrors (treeMirroring G After) (fun s t => R L ∅ s t ∧ t.childrenOf = children)
    (TreeNode.mergeWithSibling x rebalance (n.name this) (n.name parent) i (right.map n.name)
      (left.map n.name))
    (TreeNode.mergeWithSibling (treeMemoryNodeManager m search) rebalance' this parent i right
      left) id (fun _ => R ∅ ∅)
  := by
  cases right with
  | some node =>
      obtain ⟨hnode, hsiblings⟩ := hright node rfl
      exact h.merge hrebalance hapart hsiblings hparent hnamed' hthis hnamed hnode i
  | none =>
      cases left with
      | some node =>
          obtain ⟨⟨hnode, hnodeNamed⟩, hsiblings⟩ := hleft node rfl
          exact h.merge hrebalance hapart hsiblings hparent hnamed' hnode hnodeNamed hthis _
      | none => exact untold _ (by decide)

/-- Moving an entry from the left sibling, or merging. -/
theorem rotateRightOrMerge {rebalance : Nat → TreeM S Unit}
    {rebalance' : Nat → TreeM (NodeStore K V) Unit}
    (hrebalance : ∀ {L : Set Nat} {node}, node ∈ L → n.Named node →
      Mirrors (treeMirroring G After) (fun s t => R L ∅ s t ∧ Apart t.childrenOf)
        (rebalance (n.name node)) (rebalance' node) id (fun _ => R ∅ ∅))
    {t₀ : NodeStore K V} (hapart : Apart t₀.childrenOf) {this parent i : Nat} (hthis : this ∈ L)
    (hnamed : n.Named this) (hparent : parent ∈ L) (hnamed' : n.Named parent)
    (hindex : (t₀.childrenOf parent)[i]? = some this) {right : Option Nat}
    (hright : ∀ node ∈ right, node ∈ L ∧ Siblings t₀.childrenOf parent this node) :
  Mirrors (treeMirroring G After) (fun s t => R L ∅ s t ∧ t = t₀)
    (TreeNode.rotateRightOrMerge x rebalance (n.name this) (n.name parent) i
      (right.map n.name))
    (TreeNode.rotateRightOrMerge (treeMemoryNodeManager m search) rebalance' this parent i
      right) id (fun _ => R ∅ ∅)
  := by
  have hr := (h.reads ∅).keeping (fun t => t = t₀)
  unfold TreeNode.rotateRightOrMerge
  have hfind := (hr.sibling hparent (if 1 ≤ i then some (i - 1) else none)).and_returns
    (fun _ _ hR => hR.2) (returns_sibling parent _)
  apply Mirrors.bind_fact (hfind.weaken (fun _ _ hR => hR)
    (Y := fun found s t => (R (L ∪ {node | found = some node}) ∅ s t ∧ t = t₀) ∧
      ((∀ node ∈ found, n.Named node) ∧ ∀ node ∈ found, ∃ j,
        j ∈ (if 1 ≤ i then some (i - 1) else none) ∧ (t₀.childrenOf parent)[j]? = some node))
    (fun _ _ _ hR => ⟨hR.1.1, hR.1.2, hR.2⟩))
  rintro left ⟨hleftNamed, hleftAt⟩
  have hleft : ∀ node ∈ left, (node ∈ L ∪ {node | left = some node} ∧ n.Named node) ∧
      Siblings t₀.childrenOf parent node this := by
    intro node hnode
    refine ⟨⟨.inr hnode, hleftNamed node hnode⟩, ?_⟩
    obtain ⟨j, hj, hnodeAt⟩ := hleftAt node hnode
    split at hj
    · cases hj
      exact hapart.siblings (by omega) hnodeAt hindex
    · cases hj
  have hmerge := h.mergeWithSibling (L := L ∪ {node | left = some node}) (i := i) hrebalance
    hapart (.inl hthis) hnamed (.inl hparent) hnamed'
    (fun node hnode => ⟨.inl (hright node hnode).1, (hright node hnode).2⟩) hleft
  have hmerge' := hmerge.weaken
    (U := fun s t => R (L ∪ {node | left = some node}) ∅ s t ∧ t = t₀)
    (fun _ _ hR => ⟨hR.1, congrArg NodeStore.childrenOf hR.2⟩) (fun _ _ _ hR => hR)
  apply Mirrors.bind (hr.canSpare left (fun node hnode => .inr hnode))
  intro spare
  cases left with
  | none => exact hmerge'
  | some node =>
      cases spare with
      | false => exact hmerge'
      | true =>
          apply (h.rotateRight (L := L ∪ {other | some node = some other}) (.inl hthis) hnamed
            (.inl hparent) (.inr rfl) i).weaken
          · exact fun _ _ hR => hR.1
          · exact fun _ _ _ hR => (h.reads ∅).less (Set.empty_subset _) hR

/-- Moving an entry from the right sibling, or from the left one, or merging. -/
theorem rebalanceWith {rebalance : Nat → TreeM S Unit}
    {rebalance' : Nat → TreeM (NodeStore K V) Unit}
    (hrebalance : ∀ {L : Set Nat} {node}, node ∈ L → n.Named node →
      Mirrors (treeMirroring G After) (fun s t => R L ∅ s t ∧ Apart t.childrenOf)
        (rebalance (n.name node)) (rebalance' node) id (fun _ => R ∅ ∅))
    {t₀ : NodeStore K V} (hapart : Apart t₀.childrenOf) {this parent i : Nat} (hthis : this ∈ L)
    (hnamed : n.Named this) (hparent : parent ∈ L) (hnamed' : n.Named parent)
    (hindex : (t₀.childrenOf parent)[i]? = some this) {position : Option Nat}
    (hposition : ∀ j ∈ position, j = i + 1) :
  Mirrors (treeMirroring G After) (fun s t => R L ∅ s t ∧ t = t₀)
    (do
      let right ← TreeNode.sibling x (n.name parent) position
      match right, ← TreeNode.canSpare x right with
      | some node, true => TreeNode.rotateLeft x (n.name this) (n.name parent) node i
      | _, _ => TreeNode.rotateRightOrMerge x rebalance (n.name this) (n.name parent) i right)
    (do
      let right ← TreeNode.sibling (treeMemoryNodeManager m search) parent position
      match right, ← TreeNode.canSpare (treeMemoryNodeManager m search) right with
      | some node, true =>
          TreeNode.rotateLeft (treeMemoryNodeManager m search) this parent node i
      | _, _ =>
          TreeNode.rotateRightOrMerge (treeMemoryNodeManager m search) rebalance' this parent i
            right) id (fun _ => R ∅ ∅)
  := by
  have hr := (h.reads ∅).keeping (fun t => t = t₀)
  apply Mirrors.bind_returns ((hr.sibling hparent position).weaken (fun _ _ hR => hR)
    (fun _ _ _ hR => hR.1)) (fun _ _ hR => hR.2) (returns_sibling parent position)
  intro right _ hrightAt
  have hright : ∀ node ∈ right, node ∈ L ∪ {node | right = some node} ∧
      Siblings t₀.childrenOf parent this node := by
    intro node hnode
    refine ⟨.inr hnode, ?_⟩
    obtain ⟨j, hj, hnodeAt⟩ := hrightAt node hnode
    obtain rfl := hposition j hj
    exact hapart.siblings (Nat.ne_of_lt (Nat.lt_succ_self i)) hindex hnodeAt
  have hmerge := h.rotateRightOrMerge (L := L ∪ {node | right = some node}) hrebalance hapart
    (.inl hthis) hnamed (.inl hparent) hnamed' hindex hright
  apply Mirrors.bind (hr.canSpare right (fun node hnode => (hright node hnode).1))
  intro spare
  cases right with
  | none => exact hmerge
  | some node =>
      cases spare with
      | false => exact hmerge
      | true =>
          apply (h.rotateLeft (L := L ∪ {other | some node = some other}) (.inl hthis) hnamed
            (.inl hparent) (.inr rfl) i).weaken
          · exact fun _ _ hR => hR.1
          · exact fun _ _ _ hR => (h.reads ∅).less (Set.empty_subset _) hR

/-- Rebalancing a node. -/
theorem rebalance :
  ∀ {steps steps' : Nat}, steps ≤ steps' → ∀ {L : Set Nat} {this : Nat}, this ∈ L →
    n.Named this →
      Mirrors (treeMirroring G After) (fun s t => R L ∅ s t ∧ Apart t.childrenOf)
        (TreeNode.rebalance x steps' (n.name this))
        (TreeNode.rebalance (treeMemoryNodeManager m search) steps this) id (fun _ => R ∅ ∅)
  | 0, _, _, _, _, _, _ => untold _ (by decide)
  | steps + 1, steps' + 1, hsteps, L, this, hthis, hnamed => by
      apply Mirrors.of_reference
      intro t₀ hapart
      have hr := (h.reads ∅).keeping (fun t => t = t₀)
      rw [TreeNode.rebalance, TreeNode.rebalance]
      apply Mirrors.bind_returns (hr.indexInParent hthis hnamed) (fun _ _ hR => hR.2)
        (returns_indexInParent this)
      rintro i - ⟨node', hnode', hindex⟩
      apply Mirrors.bind_returns (hr.read hthis) (fun _ _ hR => hR.2) (returns_read_known this)
      rintro node - ⟨-, hnode⟩
      obtain rfl := Option.some_injective _ (hnode.symm.trans hnode')
      apply Mirrors.of_fact (fun _ _ hR => hR.2)
      intro hids
      apply Mirrors.bind_returns ((hr.found L hids.1).weaken (fun _ _ hR => hR.1)
        (fun _ _ _ hR => hR)) (fun _ _ hR => hR.1.2)
        (returns_found (fun t => t = t₀) node.parentId)
      rintro parent - ⟨-, rfl⟩
      apply Mirrors.of_fact (fun _ _ hR => hR.2)
      intro hnamed'
      generalize node.parentId = parent at *
      have hparent : parent ∈ L ∪ {parent} := .inr rfl
      apply Mirrors.bind_returns ((hr.read hparent).weaken (fun _ _ hR => hR.1)
        (fun _ _ _ hR => hR)) (fun _ _ hR => hR.1.2) (returns_read_known parent)
      rintro parentNode - ⟨-, hparentNode⟩
      have hlength : (if id i + 1 < (parentNode.named n.name).childrenIds.length
          then some (id i + 1) else none)
            = if i + 1 < parentNode.childrenIds.length then some (i + 1) else none :=
        congrArg (fun count => if i + 1 < count then some (i + 1) else none)
          (List.length_map n.name)
      have hposition : ∀ j ∈ (if i + 1 < parentNode.childrenIds.length then some (i + 1)
          else none), j = i + 1 := by
        intro j hj
        split at hj
        · exact (Option.some_injective _ hj).symm
        · cases hj
      have hlast := h.rebalanceWith (L := L ∪ {parent})
        (rebalance (Nat.le_of_succ_le_succ hsteps)) hapart (.inl hthis) hnamed hparent hnamed'
        hindex hposition
      rw [hlength]
      exact hlast.weaken (fun _ _ hR => hR.1) (fun _ _ _ hR => hR)

/-! ### Deletion -/

/-- Writing the entries of a node and marking it keeps the children of all nodes. -/
theorem changeEntries {children : Nat → List Nat} {this : Nat} {node : TreeNode K V}
    (hthis : this ∈ L) (hids : node.Within n.Named) (hchildren : children this = node.childrenIds)
    (entries : List (K × V)) {k : TreeM S Unit} {l : TreeM (NodeStore K V) Unit}
    (hkl : Mirrors (treeMirroring G After) (fun s t => R L ∅ s t ∧ t.childrenOf = children) k l id
      (fun _ => R ∅ ∅)) :
  Mirrors (treeMirroring G After) (fun s t => R L ∅ s t ∧ t.childrenOf = children)
    (do
      x.write (n.name this) { node.named n.name with entries := entries }
      x.markAsChanged (n.name this)
      k)
    (do
      (treeMemoryNodeManager m search).write this { node with entries := entries }
      (treeMemoryNodeManager m search).markAsChanged this
      l) id (fun _ => R ∅ ∅)
  := by
  have hkeep : Returns (fun t => t.childrenOf = children)
      ((treeMemoryNodeManager m search).write this { node with entries := entries })
      (fun _ t => t.childrenOf = children) := by
    apply (returns_write_children this { node with entries := entries }).weaken
    intro _ t ht
    rw [ht, ← hchildren, Function.update_eq_self]
  have hwrite := (h.write { node with entries := entries } ∅ hthis hids).weaken
    (U := fun s t => R L ∅ s t ∧ t.childrenOf = children) (fun _ _ hR => hR.1)
    (fun _ _ _ hR => hR)
  apply Mirrors.bind (hwrite.and_returns (fun _ _ hR => hR.2) hkeep)
  intro _
  apply Mirrors.bind (h.markAsChanged_keeping _ hthis)
  intro _
  exact hkl

/-- Removing an entry of a node. -/
theorem remove :
  ∀ {steps steps' : Nat}, steps ≤ steps' → ∀ {L : Set Nat} {this : Nat}, this ∈ L →
    n.Named this → ∀ index,
      Mirrors (treeMirroring G After) (fun s t => R L ∅ s t ∧ Apart t.childrenOf)
        (TreeNode.remove x steps' (n.name this) index)
        (TreeNode.remove (treeMemoryNodeManager m search) steps this index) id
        (fun _ => R ∅ ∅)
  | 0, _, _, _, _, _, _, _ => untold _ (by decide)
  | steps + 1, steps' + 1, hsteps, L, this, hthis, hnamed, index => by
      apply Mirrors.of_reference
      intro t₀ hapart
      generalize hchildren₀ : t₀.childrenOf = children at hapart
      refine Mirrors.weaken (R := fun s t => R L ∅ s t ∧ t.childrenOf = children) ?_
        (fun _ _ hR => ⟨hR.1, hR.2.symm ▸ hchildren₀⟩) (fun _ _ _ hR => hR)
      have hr := (h.reads ∅).keeping (fun t => t.childrenOf = children)
      rw [TreeNode.remove, TreeNode.remove]
      apply Mirrors.bind_returns (hr.read hthis) (fun _ _ hR => hR.2)
        (returns_read_children this)
      rintro node - ⟨-, hchildren⟩
      apply Mirrors.of_fact (fun _ _ hR => hR.2)
      intro hids
      refine Mirrors.weaken (R := fun s t => R L ∅ s t ∧ t.childrenOf = children) ?_
        (fun _ _ hR => hR.1) (fun _ _ _ hR => hR)
      apply Mirrors.ite Iff.rfl
      · exact fun _ => untold _ (by decide)
      · intro _
        apply Mirrors.ite
        · rw [TreeNode.isLeaf_named]
        · intro _
          have hremove := mirrors_removeAt (G := G) (A := After)
            (fun s t => R L ∅ s t ∧ t.childrenOf = children) id node.entries index.toNat
          rw [List.map_id] at hremove
          apply Mirrors.bind_fact hremove
          intro entries _
          rw [List.map_id, hr.minEntriesPerNode]
          apply h.changeEntries hthis hids hchildren
          apply Mirrors.ite (or_congr Iff.rfl (n.name_eq_zero hids.1))
          · exact fun _ => Mirrors.pure rfl
              (fun _ _ hR => (h.reads ∅).less (Set.empty_subset _) hR.1)
          · exact fun _ => (h.rebalance hsteps hthis hnamed).weaken
              (fun _ _ hR => ⟨hR.1, hR.2 ▸ hapart⟩) (fun _ _ _ hR => hR)
        · intro _
          apply Mirrors.bind_fact (mirrors_item
            (fun s t => R L ∅ s t ∧ t.childrenOf = children) n.name node.childrenIds _)
          intro childId hchildId
          apply Mirrors.bind_fact (hr.found L (hids.2 childId hchildId))
          intro leftSubTree hleftNamed
          apply Mirrors.bind_fact (hr.findLargest (Nat.le_of_succ_le_succ hsteps)
            (L := L ∪ {leftSubTree}) (.inr rfl) hleftNamed)
          rintro ⟨largestNode, largestIndex⟩ hlargest
          apply Mirrors.bind (hr.getEntry (L := L ∪ {leftSubTree} ∪ {largestNode}) (.inr rfl)
            largestIndex)
          intro replacementEntry
          have hset := mirrors_setItem (G := G) (A := After)
            (fun s t => R (L ∪ {leftSubTree} ∪ {largestNode}) ∅ s t ∧ t.childrenOf = children)
            id node.entries index.toNat replacementEntry
          rw [List.map_id] at hset
          apply Mirrors.bind_fact hset
          intro entries _
          rw [List.map_id]
          apply h.changeEntries (L := L ∪ {leftSubTree} ∪ {largestNode}) (.inl (.inl hthis)) hids
            hchildren
          exact (remove (Nat.le_of_succ_le_succ hsteps) (.inr rfl) hlargest largestIndex).weaken
            (fun _ _ hR => ⟨hR.1, hR.2 ▸ hapart⟩) (fun _ _ _ hR => hR)

/-- Removing the entry that an enumerator has moved to. -/
theorem removeCurrent (allow : Bool) (key : K) {steps steps' : Nat} (hsteps : steps ≤ steps')
    (moved : Bool) (enumerator : TreeEnumerator K V) (hcurrent : enumerator.currentNode ∈ L)
    (hnamed : n.Named enumerator.currentNode) :
  Mirrors (treeMirroring G After) (fun s t => R L ∅ s t ∧ Apart t.childrenOf)
    (Tree.removeCurrent ⟨x, allow⟩ key steps' moved (enumerator.named n.name))
    (Tree.removeCurrent ⟨treeMemoryNodeManager m search, allow⟩ key steps moved enumerator) id
    (fun _ => R ∅ ∅)
  := by
  have hstay : Mirrors (treeMirroring G After) (fun s t => R L ∅ s t ∧ Apart t.childrenOf)
      (pure false : TreeM S Bool) (pure false : TreeM (NodeStore K V) Bool) id
      (fun _ => R ∅ ∅) :=
    Mirrors.pure rfl (fun _ _ hR => (h.reads ∅).less (Set.empty_subset _) hR.1)
  cases moved with
  | false => exact hstay
  | true =>
      cases hentry : enumerator.current with
      | none =>
          unfold Tree.removeCurrent
          dsimp only [TreeEnumerator.named]
          rw [hentry]
          exact hstay
      | some entry =>
          have hentry' : (enumerator.named n.name).current = some entry := hentry
          rw [Tree.removeCurrent_some ⟨treeMemoryNodeManager m search, allow⟩ hentry,
            Tree.removeCurrent_some ⟨x, allow⟩ hentry']
          apply Mirrors.ite Iff.rfl
          · intro _
            apply Mirrors.bind (h.remove hsteps hcurrent hnamed enumerator.currentEntry)
            intro _
            exact Mirrors.pure rfl (fun _ _ hR => hR)
          · exact fun _ => hstay

/-- Deleting a key. -/
theorem deleteKey (key : K) :
  Mirrors (treeMirroring G After) (fun s t => R ∅ ∅ s t ∧ Apart t.childrenOf)
    (Tree.delete ⟨x, false⟩ key) (Tree.delete ⟨treeMemoryNodeManager m search, false⟩ key) id
    (fun _ => R ∅ ∅)
  := by
  have hr := (h.reads ∅).keeping (fun t => Apart t.childrenOf)
  unfold Tree.delete
  apply Mirrors.ite Iff.rfl
  · exact fun _ => untold _ (by decide)
  · intro _
    apply Mirrors.bind_fact (hr.largerThanOrEqualTo false key)
    intro enumerator hnamed
    apply Mirrors.bind_fact (hr.steps {enumerator.currentNode})
    intro steps hsteps
    apply Mirrors.bind_fact
      (hr.moveNext (L := {enumerator.currentNode}) hsteps enumerator rfl hnamed)
    rintro ⟨moved, enumerator'⟩ hnamed'
    exact h.removeCurrent (L := {enumerator.currentNode} ∪ {enumerator'.currentNode}) false key
      hsteps moved enumerator' (.inr rfl) hnamed'

end WritesAlike

end Datatent.BTree
