import Datatent.CoreOld.Tree.Tree
import Datatent.Library.Mirroring
import Mathlib.Data.Set.Insert

/-!
# Looking at a tree through two managers

The operations of a tree are written over any node manager. When a manager mirrors another one,
whose nodes have other ids, every operation over the first manager mirrors the same operation over
the second one. Here are the operations that only look at nodes; the relation of the states keeps
track of the nodes that the operation has at hand.
-/

namespace Datatent.BTree

variable {S T K V : Type} [LinearOrder K]

/-! ### Names -/

/-- The ids that the nodes of one manager have for another one. -/
structure Naming where
  name : Nat → Nat
  Named : Nat → Prop
  named_zero : Named 0
  name_zero : name 0 = 0
  injective : ∀ {a b}, Named a → Named b → name a = name b → a = b

namespace Naming

variable (n : Naming)

/-- Only no node has the name of no node. -/
theorem name_eq_zero {a : Nat} (ha : n.Named a) :
  n.name a = 0 ↔ a = 0
  := by
  constructor
  · intro h
    exact n.injective ha n.named_zero (h.trans n.name_zero.symm)
  · rintro rfl
    exact n.name_zero

/-- The position of a name among names. -/
theorem idxOf?_map {a : Nat} (ha : n.Named a) :
  ∀ {ids : List Nat}, (∀ id ∈ ids, n.Named id) →
    (ids.map n.name).idxOf? (n.name a) = ids.idxOf? a
  | [], _ => rfl
  | id :: ids, h => by
      have ih := idxOf?_map ha (fun id' hid' => h id' (List.mem_cons_of_mem id hid'))
      rw [List.map_cons, List.idxOf?_cons, List.idxOf?_cons, ih]
      by_cases hid : id = a
      · rw [hid, beq_self_eq_true, beq_self_eq_true]
      · have hname : n.name id ≠ n.name a :=
          fun heq => hid (n.injective (h id List.mem_cons_self) ha heq)
        rw [beq_eq_false_iff_ne.mpr hid, beq_eq_false_iff_ne.mpr hname]

end Naming

namespace TreeNode

/-- The fields of a node under other ids. -/
def named (name : Nat → Nat) (node : TreeNode K V) : TreeNode K V where
  parentId := name node.parentId
  entries := node.entries
  childrenIds := node.childrenIds.map name

/-- All ids in the fields of a node have a property. -/
def Within (P : Nat → Prop) (node : TreeNode K V) : Prop :=
  P node.parentId ∧ ∀ id ∈ node.childrenIds, P id

omit [LinearOrder K] in
/-- A node is a leaf under all ids. -/
theorem isLeaf_named (name : Nat → Nat) (node : TreeNode K V) :
  (node.named name).isLeaf = node.isLeaf
  := List.isEmpty_map

end TreeNode

/-- An enumerator whose node has another id. -/
def TreeEnumerator.named (name : Nat → Nat) (enumerator : TreeEnumerator K V) :
    TreeEnumerator K V :=
  { enumerator with currentNode := name enumerator.currentNode }

/-! ### Managers -/

/-- An operation may give up with some exceptions, and it tells only of keys that are there
already. -/
def treeMirroring (G : TreeException → Prop) (After : S → T → Prop) :
    Mirroring TreeException S T where
  GivesUp := G
  Told e := e = .keyExists
  After := After

/-- A manager mirrors another one as far as nodes are looked at. The states are related while
some nodes are at hand, and each node that is found is one of them from then on. -/
structure ReadsAlike (n : Naming) (bound : Nat) (G : TreeException → Prop) (After : S → T → Prop)
    (x : ITreeNodeManager S K V) (y : ITreeNodeManager T K V) (R : Set Nat → S → T → Prop) :
    Prop where
  minEntriesPerNode : x.minEntriesPerNode = y.minEntriesPerNode
  entrySearch : x.entrySearch = y.entrySearch
  less : ∀ {L L' : Set Nat} {s t}, L ⊆ L' → R L' s t → R L s t
  rootNode : ∀ L, Mirrors (treeMirroring G After) (R L) x.rootNode y.rootNode (Option.map n.name)
    (fun root s t => R (L ∪ {node | root = some node}) s t ∧ ∀ node ∈ root, n.Named node)
  find : ∀ L {id}, n.Named id →
    Mirrors (treeMirroring G After) (R L) (x.find (n.name id)) (y.find id) (Option.map n.name)
      (fun found s t => R (L ∪ {node | found = some node}) s t ∧ ∀ node ∈ found, n.Named node)
  read : ∀ {L : Set Nat} {this}, this ∈ L →
    Mirrors (treeMirroring G After) (R L) (x.read (n.name this)) (y.read this)
      (TreeNode.named n.name) (fun fields s t => R L s t ∧ fields.Within n.Named)
  steps : ∀ L, Mirrors (treeMirroring G After) (R L) x.steps y.steps (fun _ => bound)
    (fun steps s t => R L s t ∧ steps ≤ bound)

/-! ### Lists -/

section Lists

variable {α β : Type} {G : TreeException → Prop} {A : S → T → Prop} (R : S → T → Prop)

/-- Nothing is asked where an operation throws another exception. -/
theorem untold {x : TreeM S α} {f : β → α} {Q : β → S → T → Prop} {e : TreeException}
    (he : e ≠ .keyExists) :
  Mirrors (treeMirroring G A) R x (throw e : TreeM T β) f Q
  := Mirrors.untold he

/-- A computation on lists that checks an index. -/
theorem mirrors_guard {c : Prop} [Decidable c] (f : β → α) (a : α) (b : β) (ha : a = f b)
    {F : β → Prop} (hF : F b) {e : TreeException} (he : e ≠ .keyExists) :
  Mirrors (treeMirroring G A) R (if c then pure a else throw e) (if c then pure b else throw e)
    f (fun b s t => R s t ∧ F b)
  := Mirrors.ite Iff.rfl (fun _ => Mirrors.pure ha (fun _ _ hR => ⟨hR, hF⟩))
      (fun _ => untold R he)

variable (g : β → α) (list : List β) (index : Nat)

/-- An element of a list. -/
theorem mirrors_item :
  Mirrors (treeMirroring G A) R (item (list.map g) index) (item list index) g
    (fun b s t => R s t ∧ b ∈ list)
  := by
  unfold item
  rw [List.getElem?_map]
  cases hget : list[index]? with
  | none => exact untold R (by decide)
  | some b => exact Mirrors.pure rfl (fun _ _ hR => ⟨hR, List.mem_of_getElem? hget⟩)

/-- A part of a list. -/
theorem mirrors_copyTo (count : Nat) :
  Mirrors (treeMirroring G A) R (copyTo (list.map g) index count) (copyTo list index count)
    (List.map g) (fun part s t => R s t ∧ ∀ b ∈ part, b ∈ list)
  := by
  unfold copyTo
  rw [List.length_map]
  apply mirrors_guard R
  · rw [List.map_take, List.map_drop]
  · exact fun b hb => List.mem_of_mem_drop (List.mem_of_mem_take hb)
  · decide

/-- Inserting to a list. -/
theorem mirrors_insert (b : β) :
  Mirrors (treeMirroring G A) R (insert (list.map g) index (g b)) (insert list index b)
    (List.map g) (fun list' s t => R s t ∧ ∀ b' ∈ list', b' = b ∨ b' ∈ list)
  := by
  unfold insert
  rw [List.length_map]
  apply mirrors_guard R
  · rw [List.map_append, List.map_cons, List.map_take, List.map_drop]
  · intro b' hb'
    rcases List.mem_append.mp hb' with hb' | hb'
    · exact .inr (List.mem_of_mem_take hb')
    · rcases List.mem_cons.mp hb' with rfl | hb'
      · exact .inl rfl
      · exact .inr (List.mem_of_mem_drop hb')
  · decide

/-- Removing an element of a list. -/
theorem mirrors_removeAt :
  Mirrors (treeMirroring G A) R (removeAt (list.map g) index) (removeAt list index)
    (List.map g) (fun list' s t => R s t ∧ ∀ b ∈ list', b ∈ list)
  := by
  unfold removeAt
  rw [List.length_map]
  apply mirrors_guard R
  · rw [List.map_append, List.map_take, List.map_drop]
  · intro b hb
    rcases List.mem_append.mp hb with hb | hb
    · exact List.mem_of_mem_take hb
    · exact List.mem_of_mem_drop hb
  · decide

/-- Setting an element of a list. -/
theorem mirrors_setItem (b : β) :
  Mirrors (treeMirroring G A) R (setItem (list.map g) index (g b)) (setItem list index b)
    (List.map g) (fun list' s t => R s t ∧ ∀ b' ∈ list', b' = b ∨ b' ∈ list)
  := by
  unfold setItem
  rw [List.length_map]
  apply mirrors_guard R
  · rw [List.map_append, List.map_cons, List.map_take, List.map_drop]
  · intro b' hb'
    rcases List.mem_append.mp hb' with hb' | hb'
    · exact .inr (List.mem_of_mem_take hb')
    · rcases List.mem_cons.mp hb' with rfl | hb'
      · exact .inl rfl
      · exact .inr (List.mem_of_mem_drop hb')
  · decide

/-- Cutting off a list. -/
theorem mirrors_removeRange :
  Mirrors (treeMirroring G A) R (removeRange (list.map g) index) (removeRange list index)
    (List.map g) (fun list' s t => R s t ∧ ∀ b ∈ list', b ∈ list)
  := by
  unfold removeRange
  rw [List.length_map]
  apply mirrors_guard R
  · rw [List.map_take]
  · exact fun b hb => List.mem_of_mem_take hb
  · decide

end Lists

namespace ReadsAlike

open TreeNode

variable {n : Naming} {bound : Nat} {G : TreeException → Prop} {After : S → T → Prop}
  {x : ITreeNodeManager S K V} {y : ITreeNodeManager T K V} {R : Set Nat → S → T → Prop}
  {L : Set Nat}

/-! ### Nodes -/

section Nodes

variable (h : ReadsAlike n bound G After x y R)

include h

/-- A node that is found is at hand. -/
theorem atHand {found : Option Nat} {node : Nat} (hfound : found = some node) {s : S} {t : T}
    (hR : R (L ∪ {node | found = some node}) s t) :
  R (L ∪ {node}) s t
  := by
  apply h.less _ hR
  rintro id (hid | rfl)
  · exact .inl hid
  · exact .inr hfound

/-- The node found under an id. -/
theorem found (L : Set Nat) {id : Nat} (hid : n.Named id) :
  Mirrors (treeMirroring G After) (R L) (TreeNode.found x (n.name id)) (TreeNode.found y id) n.name
    (fun node s t => R (L ∪ {node}) s t ∧ n.Named node)
  := by
  unfold TreeNode.found
  apply Mirrors.bind_fact (h.find L hid)
  intro node hnode
  cases node with
  | none => exact untold _ (by decide)
  | some node => exact Mirrors.pure rfl (fun _ _ hR => ⟨h.atHand rfl hR, hnode node rfl⟩)

/-- The child of a node at a position. -/
theorem getChildNode {this : Nat} (hthis : this ∈ L) (atIndex : Nat) :
  Mirrors (treeMirroring G After) (R L) (TreeNode.getChildNode x (n.name this) atIndex)
    (TreeNode.getChildNode y this atIndex) n.name
    (fun node s t => R (L ∪ {node}) s t ∧ n.Named node)
  := by
  unfold TreeNode.getChildNode
  apply Mirrors.bind_fact (h.read hthis)
  intro node hnode
  apply Mirrors.bind_fact (mirrors_item (R L) n.name node.childrenIds atIndex)
  intro childId hchildId
  exact h.found L (hnode.2 childId hchildId)

/-- The entry of a node at a position. -/
theorem getEntry {this : Nat} (hthis : this ∈ L) (atIndex : Int) :
  Mirrors (treeMirroring G After) (R L) (TreeNode.getEntry x (n.name this) atIndex)
    (TreeNode.getEntry y this atIndex) id (fun _ => R L)
  := by
  unfold TreeNode.getEntry
  apply Mirrors.bind_fact (h.read hthis)
  intro node _
  apply Mirrors.ite Iff.rfl
  · exact fun _ => untold _ (by decide)
  · intro _
    have hitem := mirrors_item (G := G) (A := After) (R L) id node.entries atIndex.toNat
    rw [List.map_id] at hitem
    exact hitem.weaken (fun _ _ hR => hR) (fun _ _ _ hR => hR.1)

/-- The position of a node in its parent. -/
theorem indexInParent {this : Nat} (hthis : this ∈ L) (hnamed : n.Named this) :
  Mirrors (treeMirroring G After) (R L) (TreeNode.indexInParent x (n.name this))
    (TreeNode.indexInParent y this) id (fun _ => R L)
  := by
  unfold TreeNode.indexInParent
  apply Mirrors.bind_fact (h.read hthis)
  intro node hnode
  apply Mirrors.bind_fact (h.find L hnode.1)
  intro parent _
  cases parent with
  | none => exact untold _ (by decide)
  | some parent =>
      apply Mirrors.bind_fact (h.read (L := L ∪ {node | some parent = some node}) (.inr rfl))
      intro parentNode hparentNode
      have hindex := n.idxOf?_map hnamed hparentNode.2
      dsimp only [TreeNode.named]
      rw [hindex]
      cases parentNode.childrenIds.idxOf? this with
      | none => exact untold _ (by decide)
      | some i => exact Mirrors.pure rfl (fun _ _ hR => h.less Set.subset_union_left hR)

/-- The node with the largest entry below a node. -/
theorem findLargest :
  ∀ {steps steps' : Nat}, steps ≤ steps' → ∀ {L : Set Nat} {this : Nat}, this ∈ L →
    n.Named this →
      Mirrors (treeMirroring G After) (R L) (TreeNode.findLargest x steps' (n.name this))
        (TreeNode.findLargest y steps this) (Prod.map n.name id)
        (fun found s t => R (L ∪ {found.1}) s t ∧ n.Named found.1)
  | 0, _, _, _, _, _, _ => untold _ (by decide)
  | steps + 1, steps' + 1, hsteps, L, this, hthis, hnamed => by
      rw [TreeNode.findLargest, TreeNode.findLargest]
      apply Mirrors.bind_fact (h.read hthis)
      intro node hnode
      apply Mirrors.ite
      · rw [isLeaf_named]
      · intro _
        exact Mirrors.pure rfl (fun _ _ hR =>
          ⟨h.less (Set.union_subset subset_rfl (Set.singleton_subset_iff.mpr hthis)) hR, hnamed⟩)
      · intro _
        dsimp only [TreeNode.named]
        rw [List.length_map]
        apply Mirrors.bind_fact (mirrors_item (R L) n.name node.childrenIds _)
        intro childId hchildId
        apply Mirrors.bind_fact (h.found L (hnode.2 childId hchildId))
        intro rightMostNode hrightMostNode
        apply (findLargest (Nat.le_of_succ_le_succ hsteps) (L := L ∪ {rightMostNode}) (.inr rfl)
          hrightMostNode).weaken
        · exact fun _ _ hR => hR
        · rintro found s t ⟨hR, hfound⟩
          exact ⟨h.less (Set.union_subset_union_left _ Set.subset_union_left) hR, hfound⟩

/-- The sibling at a position of the parent. -/
theorem sibling {parent : Nat} (hparent : parent ∈ L) (position : Option Nat) :
  Mirrors (treeMirroring G After) (R L) (TreeNode.sibling x (n.name parent) position)
    (TreeNode.sibling y parent position) (Option.map n.name)
    (fun found s t => R (L ∪ {node | found = some node}) s t ∧ ∀ node ∈ found, n.Named node)
  := by
  cases position with
  | none =>
      refine Mirrors.pure (a := none) (b := none) rfl ?_
      intro s t hR
      refine ⟨h.less ?_ hR, fun _ hnode => by cases hnode⟩
      rintro id (hid | hid)
      · exact hid
      · cases hid
  | some i =>
      unfold TreeNode.sibling
      apply Mirrors.bind_fact (h.read hparent)
      intro parentNode hparentNode
      apply Mirrors.bind_fact (mirrors_item (R L) n.name parentNode.childrenIds i)
      intro childId hchildId
      exact h.find L (hparentNode.2 childId hchildId)

/-- Whether there is a sibling that can spare an entry. -/
theorem canSpare (found : Option Nat) (hfound : ∀ node ∈ found, node ∈ L) :
  Mirrors (treeMirroring G After) (R L) (TreeNode.canSpare x (found.map n.name))
    (TreeNode.canSpare y found) id (fun _ => R L)
  := by
  cases found with
  | none => exact Mirrors.pure rfl (fun _ _ hR => hR)
  | some node =>
      apply Mirrors.bind_fact (h.read (hfound node rfl))
      intro siblingNode _
      apply Mirrors.pure
      · rw [h.minEntriesPerNode]
        rfl
      · exact fun _ _ hR => hR

end Nodes

/-! ### Enumerators -/

section Enumerators

variable (h : ReadsAlike n bound G After x y R)

include h

/-- Moving up to the first parent that has a next entry. -/
theorem moveUp :
  ∀ {steps steps' : Nat}, steps ≤ steps' → ∀ {L : Set Nat} (enumerator : TreeEnumerator K V),
    enumerator.currentNode ∈ L → n.Named enumerator.currentNode →
      Mirrors (treeMirroring G After) (R L)
        (TreeEnumerator.moveUp x steps' (enumerator.named n.name))
        (TreeEnumerator.moveUp y steps enumerator) (Prod.map id (TreeEnumerator.named n.name))
        (fun moved s t => R (L ∪ {moved.2.currentNode}) s t ∧ n.Named moved.2.currentNode)
  | 0, _, _, _, _, _, _ => untold _ (by decide)
  | steps + 1, steps' + 1, hsteps, L, enumerator, hcurrent, hnamed => by
      have hstay : ∀ {s : S} {t : T}, R L s t → R (L ∪ {enumerator.currentNode}) s t :=
        h.less (Set.union_subset subset_rfl (Set.singleton_subset_iff.mpr hcurrent))
      rw [TreeEnumerator.moveUp, TreeEnumerator.moveUp]
      apply Mirrors.bind_fact (h.read hcurrent)
      intro node hnode
      apply Mirrors.ite Iff.rfl
      · intro _
        apply Mirrors.bind (h.getEntry hcurrent enumerator.currentEntry)
        intro entry
        exact Mirrors.pure rfl (fun _ _ hR => ⟨hstay hR, hnamed⟩)
      · intro _
        apply Mirrors.ite (not_congr (n.name_eq_zero hnode.1))
        · intro _
          apply Mirrors.bind (h.indexInParent hcurrent hnamed)
          intro index
          apply Mirrors.bind_fact (h.found L hnode.1)
          intro parent hparent
          apply (moveUp (Nat.le_of_succ_le_succ hsteps) (L := L ∪ {parent})
            { enumerator with currentEntry := index, currentNode := parent } (.inr rfl)
            hparent).weaken
          · exact fun _ _ hR => hR
          · rintro moved s t ⟨hR, hmoved⟩
            exact ⟨h.less (Set.union_subset_union_left _ Set.subset_union_left) hR, hmoved⟩
        · intro _
          exact Mirrors.pure rfl (fun _ _ hR => ⟨hstay hR, hnamed⟩)

/-- The first leaf below the child of a node at a position. -/
theorem moveDown :
  ∀ {steps steps' : Nat}, steps ≤ steps' → ∀ {L : Set Nat} {node : Nat}, node ∈ L →
    ∀ atIndex, Mirrors (treeMirroring G After) (R L)
      (TreeEnumerator.moveDown x steps' (n.name node) atIndex)
      (TreeEnumerator.moveDown y steps node atIndex) n.name
      (fun leaf s t => R (L ∪ {leaf}) s t ∧ n.Named leaf)
  | 0, _, _, _, _, _, _ => untold _ (by decide)
  | steps + 1, steps' + 1, hsteps, L, node, hnode, atIndex => by
      rw [TreeEnumerator.moveDown, TreeEnumerator.moveDown]
      apply Mirrors.bind_fact (h.getChildNode hnode atIndex)
      intro child hchild
      apply Mirrors.bind_fact (h.read (L := L ∪ {child}) (.inr rfl))
      intro childNode _
      apply Mirrors.ite
      · rw [isLeaf_named]
      · exact fun _ => Mirrors.pure rfl (fun _ _ hR => ⟨hR, hchild⟩)
      · intro _
        apply (moveDown (Nat.le_of_succ_le_succ hsteps) (L := L ∪ {child}) (.inr rfl) 0).weaken
        · exact fun _ _ hR => hR
        · rintro leaf s t ⟨hR, hleaf⟩
          exact ⟨h.less (Set.union_subset_union_left _ Set.subset_union_left) hR, hleaf⟩

/-- Moving to the next entry. -/
theorem moveNext {steps steps' : Nat} (hsteps : steps ≤ steps')
    (enumerator : TreeEnumerator K V) (hcurrent : enumerator.currentNode ∈ L)
    (hnamed : n.Named enumerator.currentNode) :
  Mirrors (treeMirroring G After) (R L)
    (TreeEnumerator.moveNext x steps' (enumerator.named n.name))
    (TreeEnumerator.moveNext y steps enumerator) (Prod.map id (TreeEnumerator.named n.name))
    (fun moved s t => R (L ∪ {moved.2.currentNode}) s t ∧ n.Named moved.2.currentNode)
  := by
  apply Mirrors.ite Iff.rfl
  · intro _
    refine Mirrors.pure rfl (fun _ _ hR => ⟨?_, hnamed⟩)
    exact h.less (Set.union_subset subset_rfl (Set.singleton_subset_iff.mpr hcurrent)) hR
  · intro _
    apply Mirrors.bind_fact (h.read hcurrent)
    intro node _
    apply Mirrors.ite
    · rw [isLeaf_named]
    · intro _
      exact h.moveUp hsteps
        { enumerator with currentEntry := enumerator.currentEntry + 1 } hcurrent hnamed
    · intro _
      apply Mirrors.bind_fact (h.moveDown hsteps hcurrent _)
      intro leaf hleaf
      apply Mirrors.bind (h.getEntry (L := L ∪ {leaf}) (.inr rfl) 0)
      intro entry
      exact Mirrors.pure rfl (fun _ _ hR => ⟨hR, hleaf⟩)

/-- Moving up to the first parent that has an entry before. -/
theorem moveBackUp :
  ∀ {steps steps' : Nat}, steps ≤ steps' → ∀ {L : Set Nat} (enumerator : TreeEnumerator K V),
    enumerator.currentNode ∈ L → n.Named enumerator.currentNode →
      Mirrors (treeMirroring G After) (R L)
        (TreeEnumerator.moveBackUp x steps' (enumerator.named n.name))
        (TreeEnumerator.moveBackUp y steps enumerator) (Prod.map id (TreeEnumerator.named n.name))
        (fun moved s t => R (L ∪ {moved.2.currentNode}) s t ∧ n.Named moved.2.currentNode)
  | 0, _, _, _, _, _, _ => untold _ (by decide)
  | steps + 1, steps' + 1, hsteps, L, enumerator, hcurrent, hnamed => by
      have hstay : ∀ {s : S} {t : T}, R L s t → R (L ∪ {enumerator.currentNode}) s t :=
        h.less (Set.union_subset subset_rfl (Set.singleton_subset_iff.mpr hcurrent))
      rw [TreeEnumerator.moveBackUp, TreeEnumerator.moveBackUp]
      apply Mirrors.ite Iff.rfl
      · intro _
        apply Mirrors.bind (h.getEntry hcurrent enumerator.currentEntry)
        intro entry
        exact Mirrors.pure rfl (fun _ _ hR => ⟨hstay hR, hnamed⟩)
      · intro _
        apply Mirrors.bind_fact (h.read hcurrent)
        intro node hnode
        apply Mirrors.ite (not_congr (n.name_eq_zero hnode.1))
        · intro _
          apply Mirrors.bind (h.indexInParent hcurrent hnamed)
          intro index
          apply Mirrors.bind_fact (h.found L hnode.1)
          intro parent hparent
          apply (moveBackUp (Nat.le_of_succ_le_succ hsteps) (L := L ∪ {parent})
            { enumerator with currentEntry := (index : Int) - 1, currentNode := parent } (.inr rfl)
            hparent).weaken
          · exact fun _ _ hR => hR
          · rintro moved s t ⟨hR, hmoved⟩
            exact ⟨h.less (Set.union_subset_union_left _ Set.subset_union_left) hR, hmoved⟩
        · intro _
          exact Mirrors.pure rfl (fun _ _ hR => ⟨hstay hR, hnamed⟩)

/-- The last leaf below the child of a node at a position. -/
theorem moveDownLast :
  ∀ {steps steps' : Nat}, steps ≤ steps' → ∀ {L : Set Nat} {node : Nat}, node ∈ L →
    ∀ atIndex, Mirrors (treeMirroring G After) (R L)
      (TreeEnumerator.moveDownLast x steps' (n.name node) atIndex)
      (TreeEnumerator.moveDownLast y steps node atIndex) (Prod.map n.name id)
      (fun leaf s t => R (L ∪ {leaf.1}) s t ∧ n.Named leaf.1)
  | 0, _, _, _, _, _, _ => untold _ (by decide)
  | steps + 1, steps' + 1, hsteps, L, node, hnode, atIndex => by
      rw [TreeEnumerator.moveDownLast, TreeEnumerator.moveDownLast]
      apply Mirrors.bind_fact (h.getChildNode hnode atIndex)
      intro child hchild
      apply Mirrors.bind_fact (h.read (L := L ∪ {child}) (.inr rfl))
      intro childNode _
      apply Mirrors.ite
      · rw [isLeaf_named]
      · exact fun _ => Mirrors.pure rfl (fun _ _ hR => ⟨hR, hchild⟩)
      · intro _
        apply (moveDownLast (Nat.le_of_succ_le_succ hsteps) (L := L ∪ {child}) (.inr rfl)
          childNode.entries.length).weaken
        · exact fun _ _ hR => hR
        · rintro leaf s t ⟨hR, hleaf⟩
          exact ⟨h.less (Set.union_subset_union_left _ Set.subset_union_left) hR, hleaf⟩

/-- Moving to the entry before. -/
theorem moveBackward {steps steps' : Nat} (hsteps : steps ≤ steps')
    (enumerator : TreeEnumerator K V) (hcurrent : enumerator.currentNode ∈ L)
    (hnamed : n.Named enumerator.currentNode) :
  Mirrors (treeMirroring G After) (R L)
    (TreeEnumerator.moveBackward x steps' (enumerator.named n.name))
    (TreeEnumerator.moveBackward y steps enumerator) (Prod.map id (TreeEnumerator.named n.name))
    (fun moved s t => R (L ∪ {moved.2.currentNode}) s t ∧ n.Named moved.2.currentNode)
  := by
  unfold TreeEnumerator.moveBackward
  apply Mirrors.bind_fact (h.read hcurrent)
  intro node _
  apply Mirrors.ite
  · rw [isLeaf_named]
  · intro _
    exact h.moveBackUp hsteps
      { enumerator with currentEntry := enumerator.currentEntry - 1 } hcurrent hnamed
  · intro _
    apply Mirrors.ite Iff.rfl
    · exact fun _ => untold _ (by decide)
    · intro _
      apply Mirrors.bind_fact (h.moveDownLast hsteps hcurrent _)
      rintro ⟨leaf, count⟩ hleaf
      apply Mirrors.bind (h.getEntry (L := L ∪ {leaf}) (.inr rfl) ((count : Int) - 1))
      intro entry
      exact Mirrors.pure rfl (fun _ _ hR => ⟨hR, hleaf⟩)

/-- Moving in a direction. -/
theorem moveIn (direction : TreeTraverseDirection) {steps steps' : Nat} (hsteps : steps ≤ steps')
    (enumerator : TreeEnumerator K V) (hcurrent : enumerator.currentNode ∈ L)
    (hnamed : n.Named enumerator.currentNode) :
  Mirrors (treeMirroring G After) (R L)
    (TreeEnumerator.moveIn x direction steps' (enumerator.named n.name))
    (TreeEnumerator.moveIn y direction steps enumerator)
    (Prod.map id (TreeEnumerator.named n.name))
    (fun moved s t => R (L ∪ {moved.2.currentNode}) s t ∧ n.Named moved.2.currentNode)
  := by
  cases direction with
  | ascending => exact h.moveNext hsteps enumerator hcurrent hnamed
  | decending =>
      apply Mirrors.ite Iff.rfl
      · intro _
        refine Mirrors.pure rfl (fun _ _ hR => ⟨?_, hnamed⟩)
        exact h.less (Set.union_subset subset_rfl (Set.singleton_subset_iff.mpr hcurrent)) hR
      · exact fun _ => h.moveBackward hsteps enumerator hcurrent hnamed

/-- The entries that an enumerator comes to. -/
theorem toList (direction : TreeTraverseDirection) {steps steps' : Nat}
    (hsteps : steps ≤ steps') :
  ∀ (rounds : Nat) {L : Set Nat} (enumerator : TreeEnumerator K V),
    enumerator.currentNode ∈ L → n.Named enumerator.currentNode →
      Mirrors (treeMirroring G After) (R L)
        (TreeEnumerator.toList x direction steps' rounds (enumerator.named n.name))
        (TreeEnumerator.toList y direction steps rounds enumerator) id (fun _ => R ∅)
  | 0, _, _, _, _ => untold _ (by decide)
  | rounds + 1, L, enumerator, hcurrent, hnamed => by
      rw [TreeEnumerator.toList, TreeEnumerator.toList]
      apply Mirrors.bind_fact (h.moveIn direction hsteps enumerator hcurrent hnamed)
      rintro ⟨moved, ⟨node, index, current, done⟩⟩ hnamed'
      apply Mirrors.ite Iff.rfl
      · intro _
        cases current with
        | none => exact untold _ (by decide)
        | some entry =>
            apply Mirrors.map
            · exact toList direction hsteps rounds (L := L ∪ {node}) ⟨node, index, some entry, done⟩
                (.inr rfl) hnamed'
            · exact fun _ => rfl
      · exact fun _ => Mirrors.pure rfl (fun _ _ hR => h.less (Set.empty_subset _) hR)

end Enumerators

/-! ### Trees -/

section Trees

variable (h : ReadsAlike n bound G After x y R) (allow : Bool)

include h

/-- The root node. -/
theorem root (L : Set Nat) :
  Mirrors (treeMirroring G After) (R L) (Tree.root ⟨x, allow⟩) (Tree.root ⟨y, allow⟩) n.name
    (fun root s t => R (L ∪ {root}) s t ∧ n.Named root)
  := by
  apply Mirrors.bind_fact (h.rootNode L)
  intro root hroot
  cases root with
  | none => exact untold _ (by decide)
  | some root => exact Mirrors.pure rfl (fun _ _ hR => ⟨h.atHand rfl hR, hroot root rfl⟩)

/-- The node below a node to start iterating at. -/
theorem findNodeForIteration (key : K) (moveLeft : Bool) :
  ∀ {steps steps' : Nat}, steps ≤ steps' → ∀ {L : Set Nat} {node : Nat}, node ∈ L →
    n.Named node →
      Mirrors (treeMirroring G After) (R L)
        (Tree.findNodeForIteration ⟨x, allow⟩ key moveLeft steps' (n.name node))
        (Tree.findNodeForIteration ⟨y, allow⟩ key moveLeft steps node) (Prod.map n.name id)
        (fun found s t => R (L ∪ {found.1}) s t ∧ n.Named found.1)
  | 0, _, _, _, _, _, _ => untold _ (by decide)
  | steps + 1, steps' + 1, hsteps, L, node, hnode, hnamed => by
      have hstay : ∀ {s : S} {t : T}, R L s t → R (L ∪ {node}) s t :=
        h.less (Set.union_subset subset_rfl (Set.singleton_subset_iff.mpr hnode))
      rw [Tree.findNodeForIteration, Tree.findNodeForIteration]
      apply Mirrors.bind_fact (h.read hnode)
      intro treeNode _
      apply Mirrors.ite Iff.rfl
      · exact fun _ => Mirrors.pure rfl (fun _ _ hR => ⟨hstay hR, hnamed⟩)
      · intro _
        dsimp only [TreeNode.named]
        rw [h.entrySearch]
        apply Mirrors.ite
        · exact Iff.of_eq (congrArg (· = true) (isLeaf_named n.name treeNode))
        · exact fun _ => Mirrors.pure rfl (fun _ _ hR => ⟨hstay hR, hnamed⟩)
        · intro _
          apply Mirrors.bind_fact (h.getChildNode hnode _)
          intro child hchild
          apply (findNodeForIteration key moveLeft (Nat.le_of_succ_le_succ hsteps)
            (L := L ∪ {child}) (.inr rfl) hchild).weaken
          · exact fun _ _ hR => hR
          · rintro found s t ⟨hR, hfound⟩
            exact ⟨h.less (Set.union_subset_union_left _ Set.subset_union_left) hR, hfound⟩

/-- The node below a node that holds a key, or the leaf to insert it to. -/
theorem findNodeForInsertion (key : K) :
  ∀ {steps steps' : Nat}, steps ≤ steps' → ∀ {L : Set Nat} {node : Nat}, node ∈ L →
    n.Named node →
      Mirrors (treeMirroring G After) (R L)
        (Tree.findNodeForInsertion ⟨x, allow⟩ key steps' (n.name node))
        (Tree.findNodeForInsertion ⟨y, allow⟩ key steps node) (Prod.map n.name id)
        (fun found s t => R (L ∪ {found.1}) s t ∧ n.Named found.1)
  | 0, _, _, _, _, _, _ => untold _ (by decide)
  | steps + 1, steps' + 1, hsteps, L, node, hnode, hnamed => by
      have hstay : ∀ {s : S} {t : T}, R L s t → R (L ∪ {node}) s t :=
        h.less (Set.union_subset subset_rfl (Set.singleton_subset_iff.mpr hnode))
      have hdown : ∀ i, Mirrors (treeMirroring G After) (R L)
          (do
            let child ← TreeNode.getChildNode x (n.name node) i
            Tree.findNodeForInsertion ⟨x, allow⟩ key steps' child)
          (do
            let child ← TreeNode.getChildNode y node i
            Tree.findNodeForInsertion ⟨y, allow⟩ key steps child) (Prod.map n.name id)
          (fun found s t => R (L ∪ {found.1}) s t ∧ n.Named found.1) := by
        intro i
        apply Mirrors.bind_fact (h.getChildNode hnode i)
        intro child hchild
        apply (findNodeForInsertion key (Nat.le_of_succ_le_succ hsteps) (L := L ∪ {child})
          (.inr rfl) hchild).weaken
        · exact fun _ _ hR => hR
        · rintro found s t ⟨hR, hfound⟩
          exact ⟨h.less (Set.union_subset_union_left _ Set.subset_union_left) hR, hfound⟩
      rw [Tree.findNodeForInsertion, Tree.findNodeForInsertion]
      apply Mirrors.bind_fact (h.read hnode)
      intro treeNode _
      have hleaf := isLeaf_named n.name treeNode
      apply Mirrors.ite Iff.rfl
      · exact fun _ => Mirrors.pure rfl (fun _ _ hR => ⟨hstay hR, hnamed⟩)
      · intro _
        rw [hleaf]
        dsimp only [TreeNode.named]
        rw [h.entrySearch]
        cases y.entrySearch.search treeNode.entries key with
        | found i =>
            apply Mirrors.ite Iff.rfl
            · exact fun _ => hdown i
            · exact fun _ => Mirrors.pure rfl (fun _ _ hR => ⟨hstay hR, hnamed⟩)
        | missing i =>
            apply Mirrors.ite Iff.rfl
            · exact fun _ => Mirrors.pure rfl (fun _ _ hR => ⟨hstay hR, hnamed⟩)
            · exact fun _ => hdown i

/-- Getting a key. -/
theorem get (key : K) :
  Mirrors (treeMirroring G After) (R ∅) (Tree.get ⟨x, allow⟩ key) (Tree.get ⟨y, allow⟩ key) id
    (fun _ => R ∅)
  := by
  unfold Tree.get
  apply Mirrors.bind_fact (h.steps ∅)
  intro steps hsteps
  apply Mirrors.bind_fact (h.root allow ∅)
  intro root hroot
  apply Mirrors.bind_fact
    (h.findNodeForInsertion allow key hsteps (L := ∅ ∪ {root}) (.inr rfl) hroot)
  rintro ⟨node, insertionIndex⟩ _
  cases insertionIndex with
  | found i =>
      apply Mirrors.map
      · apply (h.getEntry (L := (∅ ∪ {root}) ∪ {node}) (.inr rfl) i).weaken
        · exact fun _ _ hR => hR
        · exact fun _ _ _ hR => h.less (Set.empty_subset _) hR
      · exact fun _ => rfl
  | missing i => exact Mirrors.pure rfl (fun _ _ hR => h.less (Set.empty_subset _) hR)

/-- What is done with the place that the search for a key comes to. -/
theorem start (key : K) (moveLeft : Bool) {α β : Type} {f : β → α} {Q : β → S → T → Prop}
    {k : Nat × SearchResult → TreeM S α} {l : Nat × SearchResult → TreeM T β}
    (hkl : ∀ node index, n.Named node →
      Mirrors (treeMirroring G After) (R {node}) (k (n.name node, index)) (l (node, index)) f Q) :
  Mirrors (treeMirroring G After) (R ∅)
    (do
      let steps ← x.steps
      let root ← Tree.root ⟨x, allow⟩
      let found ← Tree.findNodeForIteration ⟨x, allow⟩ key moveLeft steps root
      k found)
    (do
      let steps ← y.steps
      let root ← Tree.root ⟨y, allow⟩
      let found ← Tree.findNodeForIteration ⟨y, allow⟩ key moveLeft steps root
      l found) f Q
  := by
  apply Mirrors.bind_fact (h.steps ∅)
  intro steps hsteps
  apply Mirrors.bind_fact (h.root allow ∅)
  intro root hroot
  apply Mirrors.bind_fact
    (h.findNodeForIteration allow key moveLeft hsteps (L := ∅ ∪ {root}) (.inr rfl) hroot)
  rintro ⟨node, index⟩ hnode
  exact (hkl node index hnode).weaken (fun _ _ hR => h.less Set.subset_union_right hR)
    (fun _ _ _ hQ => hQ)

/-- The enumerator of the entries from a key on. -/
theorem largerThanOrEqualTo (key : K) :
  Mirrors (treeMirroring G After) (R ∅) (Tree.largerThanOrEqualTo ⟨x, allow⟩ key)
    (Tree.largerThanOrEqualTo ⟨y, allow⟩ key) (TreeEnumerator.named n.name)
    (fun enumerator s t => R {enumerator.currentNode} s t ∧ n.Named enumerator.currentNode)
  := by
  apply h.start allow key true
  intro node index hnode
  exact Mirrors.pure rfl (fun _ _ hR => ⟨hR, hnode⟩)

/-- The enumerator of the entries behind a key. -/
theorem largerThan (key : K) :
  Mirrors (treeMirroring G After) (R ∅) (Tree.largerThan ⟨x, allow⟩ key)
    (Tree.largerThan ⟨y, allow⟩ key) (TreeEnumerator.named n.name)
    (fun enumerator s t => R {enumerator.currentNode} s t ∧ n.Named enumerator.currentNode)
  := by
  apply h.start allow key false
  intro node index hnode
  exact Mirrors.pure rfl (fun _ _ hR => ⟨hR, hnode⟩)

/-- The enumerator of the entries up to a key. -/
theorem lessThanOrEqualTo (key : K) :
  Mirrors (treeMirroring G After) (R ∅) (Tree.lessThanOrEqualTo ⟨x, allow⟩ key)
    (Tree.lessThanOrEqualTo ⟨y, allow⟩ key) (TreeEnumerator.named n.name)
    (fun enumerator s t => R {enumerator.currentNode} s t ∧ n.Named enumerator.currentNode)
  := by
  apply h.start allow key false
  intro node index hnode
  exact Mirrors.pure rfl (fun _ _ hR => ⟨hR, hnode⟩)

/-- The enumerator of the entries before a key. -/
theorem lessThan (key : K) :
  Mirrors (treeMirroring G After) (R ∅) (Tree.lessThan ⟨x, allow⟩ key)
    (Tree.lessThan ⟨y, allow⟩ key) (TreeEnumerator.named n.name)
    (fun enumerator s t => R {enumerator.currentNode} s t ∧ n.Named enumerator.currentNode)
  := by
  apply h.start allow key true
  intro node index hnode
  exact Mirrors.pure rfl (fun _ _ hR => ⟨hR, hnode⟩)

/-- The entries of an enumeration. -/
theorem enumerate (direction : TreeTraverseDirection) {start : TreeM S (TreeEnumerator K V)}
    {start' : TreeM T (TreeEnumerator K V)}
    (hstart : Mirrors (treeMirroring G After) (R ∅) start start' (TreeEnumerator.named n.name)
      (fun enumerator s t => R {enumerator.currentNode} s t ∧ n.Named enumerator.currentNode))
    (rounds : Nat) :
  Mirrors (treeMirroring G After) (R ∅) (Tree.enumerate ⟨x, allow⟩ direction start rounds)
    (Tree.enumerate ⟨y, allow⟩ direction start' rounds) id (fun _ => R ∅)
  := by
  unfold Tree.enumerate
  apply Mirrors.bind_fact hstart
  intro enumerator hnamed
  apply Mirrors.bind_fact (h.steps {enumerator.currentNode})
  intro steps hsteps
  exact h.toList direction hsteps rounds (L := {enumerator.currentNode}) enumerator rfl hnamed

end Trees

end ReadsAlike

end Datatent.BTree
