import Datatent.CoreOld.Tree.NodeCells

/-!
# Walks through the nodes

The nodes of a state may be walked through from the root node on: in the order of the entries
(`walk`), over the ids (`reached`), or to the leaves (`leafDepths`). In a state that stores a
tree the walks come to the nodes of that tree.
-/

namespace Datatent.BTree

variable {K V : Type}

/-! ### Walks -/

/-- The entries below a node in order, down to a number of levels. -/
def walkBelow (nodes : Heap (TreeNode K V)) : Nat → Nat → List (K × V)
  | 0, _ => []
  | steps + 1, id =>
      match nodes id with
      | none => []
      | some node => interleave (node.childrenIds.map (walkBelow nodes steps)) node.entries

/-- The ids reached from a node, down to a number of levels. -/
def reachedBelow (nodes : Heap (TreeNode K V)) : Nat → Nat → List Nat
  | 0, _ => []
  | steps + 1, id =>
      match nodes id with
      | none => [id]
      | some node => id :: (node.childrenIds.map (reachedBelow nodes steps)).flatten

/-- The depths of the leaves below a node, down to a number of levels. -/
def leafDepthsBelow (nodes : Heap (TreeNode K V)) : Nat → Nat → List Nat
  | 0, _ => []
  | steps + 1, id =>
      match nodes id with
      | none => []
      | some node =>
          if node.isLeaf then [0]
          else ((node.childrenIds.map (leafDepthsBelow nodes steps)).flatten).map (· + 1)

namespace NodeStore

variable (store : NodeStore K V)

/-- The entries in the order of the walk from the root node. -/
def walk : List (K × V) :=
  match store.rootNode with
  | none => []
  | some root => walkBelow store.nodes store.idCounter root

/-- The ids reached from the root node, as often as they are. -/
def reached : List Nat :=
  match store.rootNode with
  | none => []
  | some root => reachedBelow store.nodes store.idCounter root

/-- The depths of the leaves. -/
def leafDepths : List Nat :=
  match store.rootNode with
  | none => []
  | some root => leafDepthsBelow store.nodes store.idCounter root

/-- The ids of the children of a node. -/
def childrenOf (id : Nat) : List Nat :=
  match store.nodes id with
  | none => []
  | some node => node.childrenIds

/-- The ids that the nodes list as those of their children, as often as they do. -/
def listed : List Nat :=
  (List.range store.idCounter).flatMap store.childrenOf

end NodeStore

/-! ### Walks through stored trees -/

section Stored

variable {nodes : Heap (TreeNode K V)}

/-- A cell of a tree is that of the top node or one of a child. -/
theorem mem_cells {n parentId : Nat} {t : UTree (K × V) (n + 1)} {c : Nat × TreeNode K V} :
  c ∈ cells parentId t ↔ c = (t.id, ⟨parentId, t.entries, t.children.map (·.id)⟩)
    ∨ ∃ d ∈ t.children, c ∈ cells t.id d
  := by
  rw [cells_eq, cell, Multiset.mem_add, Multiset.mem_singleton, mem_forest]

/-- The nodes of a tree are found under their ids. -/
def Has (nodes : Heap (TreeNode K V)) {n : Nat} (parentId : Nat) (t : UTree (K × V) n) : Prop :=
  ∀ c ∈ cells parentId t, nodes c.1 = some c.2

variable {n parentId steps : Nat}

theorem Has.node {t : UTree (K × V) (n + 1)} (h : Has nodes parentId t) :
  nodes t.id = some ⟨parentId, t.entries, t.children.map (·.id)⟩
  := h _ (mem_cells.mpr (.inl rfl))

theorem Has.child {t : UTree (K × V) (n + 1)} (h : Has nodes parentId t) {d : UTree (K × V) n}
    (hd : d ∈ t.children) :
  Has nodes t.id d
  := fun c hc => h c (mem_cells.mpr (.inr ⟨d, hd, hc⟩))

/-- The walk through a tree comes to its contents. -/
theorem Has.walkBelow_eq :
  ∀ {n parentId steps : Nat} {t : UTree (K × V) n}, Has nodes parentId t → n ≤ steps →
    walkBelow nodes steps t.id = t.contents
  | 0, _, _, t, _, _ => t.elim
  | n + 1, parentId, steps + 1, t, h, hsteps => by
      have hchildren : (t.children.map (·.id)).map (walkBelow nodes steps)
          = t.children.map UTree.contents := by
        rw [List.map_map]
        apply List.map_congr_left
        intro d hd
        exact (h.child hd).walkBelow_eq (Nat.le_of_succ_le_succ hsteps)
      rw [walkBelow, h.node]
      dsimp only
      rw [hchildren]
      rfl

/-- The ids reached in a tree are those of its nodes. -/
theorem Has.reachedBelow_eq :
  ∀ {n parentId steps : Nat} {t : UTree (K × V) n}, Has nodes parentId t → n ≤ steps →
    reachedBelow nodes steps t.id = t.ids
  | 0, _, _, t, _, _ => t.elim
  | n + 1, parentId, steps + 1, t, h, hsteps => by
      have hchildren : (t.children.map (·.id)).map (reachedBelow nodes steps)
          = t.children.map UTree.ids := by
        rw [List.map_map]
        apply List.map_congr_left
        intro d hd
        exact (h.child hd).reachedBelow_eq (Nat.le_of_succ_le_succ hsteps)
      rw [reachedBelow, h.node]
      dsimp only
      rw [hchildren]
      rfl

/-- All leaves of a tree are at the depth of its height. -/
theorem Has.leafDepthsBelow_eq {m : Nat} :
  ∀ {n parentId steps : Nat} {t : UTree (K × V) (n + 1)}, Has nodes parentId t → t.Grown m →
    n + 1 ≤ steps → ∀ depth ∈ leafDepthsBelow nodes steps t.id, depth = n
  | 0, parentId, steps + 1, t, h, ht, hsteps, depth, hdepth => by
      rw [leafDepthsBelow, h.node] at hdepth
      dsimp only at hdepth
      rw [if_pos (isLeaf_of_one parentId t.entries t), List.mem_singleton] at hdepth
      exact hdepth
  | n + 1, parentId, steps + 1, t, h, ht, hsteps, depth, hdepth => by
      rw [leafDepthsBelow, h.node] at hdepth
      dsimp only at hdepth
      rw [if_neg (not_isLeaf parentId t.entries ht.linked), List.mem_map] at hdepth
      obtain ⟨below, hbelow, rfl⟩ := hdepth
      rw [List.map_map, List.mem_flatten] at hbelow
      obtain ⟨depths, hdepths, hmem⟩ := hbelow
      obtain ⟨d, hd, rfl⟩ := List.mem_map.mp hdepths
      have hgrown := (UTree.full_iff.mp (ht.full d hd)).2.2
      rw [(h.child hd).leafDepthsBelow_eq hgrown (Nat.le_of_succ_le_succ hsteps) below hmem]

/-- The ids of the cells of a tree are those of its nodes. -/
theorem ids_of_cells :
  ∀ {n : Nat} (parentId : Nat) (t : UTree (K × V) n),
    (cells parentId t).map Prod.fst = (t.ids : Multiset Nat)
  | 0, _, t => t.elim
  | n + 1, parentId, t => by
      have hforest : ∀ ts : List (UTree (K × V) n), (forest t.id ts).map Prod.fst
          = (((ts.map UTree.ids).flatten : List Nat) : Multiset Nat) := by
        intro ts
        induction ts with
        | nil => rfl
        | cons d ts ih =>
            rw [forest_cons, Multiset.map_add, ih, ids_of_cells t.id d, Multiset.coe_add]
            rfl
      rw [cells_eq, cell, Multiset.map_add, Multiset.map_singleton, hforest, UTree.ids_eq,
        Multiset.singleton_add, Multiset.cons_coe]

/-- A cell of a tree is that of the top node of a subtree. -/
theorem exists_subtree :
  ∀ {n parentId : Nat} {t : UTree (K × V) n} {c : Nat × TreeNode K V}, c ∈ cells parentId t →
    ∃ (k q : Nat) (u : UTree (K × V) (k + 1)),
      c = (u.id, ⟨q, u.entries, u.children.map (·.id)⟩)
        ∧ (∀ c' ∈ cells q u, c' ∈ cells parentId t) ∧ ∀ {m : Nat}, t.Full m → u.Full m
  | 0, _, t, _, _ => t.elim
  | n + 1, parentId, t, c, hc => by
      rcases mem_cells.mp hc with rfl | ⟨d, hd, hc⟩
      · exact ⟨n, parentId, t, rfl, fun _ h => h, fun h => h⟩
      · obtain ⟨k, q, u, heq, hsub, hfull⟩ := exists_subtree hc
        refine ⟨k, q, u, heq, ?_, ?_⟩
        · exact fun c' hc' => mem_cells.mpr (.inr ⟨d, hd, hsub c' hc'⟩)
        · exact fun ht => hfull (ht.2.2.2 d hd)

/-- The children that a node lists have it as their parent. -/
theorem exists_child_cell {t : UTree (K × V) n} {c : Nat × TreeNode K V}
    (hc : c ∈ cells parentId t) {childId : Nat} (hchild : childId ∈ c.2.childrenIds) :
  ∃ child, (childId, child) ∈ cells parentId t ∧ child.parentId = c.1
  := by
  obtain ⟨k, q, u, rfl, hsub, -⟩ := exists_subtree hc
  obtain ⟨d, hd, rfl⟩ := List.mem_map.mp hchild
  obtain ⟨es, ids, below, hcells⟩ := exists_cells d
  refine ⟨⟨u.id, es, ids⟩, hsub _ (mem_cells.mpr (.inr ⟨d, hd, ?_⟩)), rfl⟩
  rw [hcells, cell]
  exact Multiset.mem_add.mpr (.inl (Multiset.mem_singleton_self _))

/-- A node lists every child once. -/
theorem childrenIds_nodup :
  ∀ {n parentId : Nat} {t : UTree (K × V) n} {c : Nat × TreeNode K V}, t.ids.Nodup →
    c ∈ cells parentId t → c.2.childrenIds.Nodup
  | 0, _, t, _, _, _ => t.elim
  | n + 1, parentId, t, c, hnodup, hc => by
      rw [UTree.ids_eq, List.nodup_cons] at hnodup
      rcases mem_cells.mp hc with rfl | ⟨d, hd, hc⟩
      · exact hnodup.2.sublist (UTree.map_id_sublist t.children)
      · have hids : d.ids ∈ t.children.map UTree.ids := List.mem_map_of_mem hd
        exact childrenIds_nodup (hnodup.2.sublist (List.sublist_flatten_of_mem hids)) hc

/-- A node that is not the top node of a tree is full and linked when the tree is grown. -/
theorem size_of_mem {m : Nat} {t : UTree (K × V) (n + 1)} (ht : t.Grown m)
    {c : Nat × TreeNode K V} (hc : c ∈ cells parentId t) :
  c = (t.id, ⟨parentId, t.entries, t.children.map (·.id)⟩)
    ∨ m ≤ c.2.entries.length ∧ c.2.entries.length ≤ 2 * m
  := by
  rcases mem_cells.mp hc with heq | ⟨d, hd, hc⟩
  · exact .inl heq
  · obtain ⟨k, q, u, rfl, -, hfull⟩ := exists_subtree hc
    obtain ⟨hmin, hmax, -⟩ := hfull (ht.full d hd)
    exact .inr ⟨hmin, hmax⟩

/-- A node that lists children lists one more than it has entries. -/
theorem linked_of_mem {m : Nat} {t : UTree (K × V) (n + 1)} (ht : t.Grown m)
    {c : Nat × TreeNode K V} (hc : c ∈ cells parentId t) (hne : c.2.childrenIds ≠ []) :
  c.2.childrenIds.length = c.2.entries.length + 1
  := by
  have hlinked : ∀ {k q : Nat} {u : UTree (K × V) (k + 1)}, u.Linked →
      c = (u.id, ⟨q, u.entries, u.children.map (·.id)⟩) →
        c.2.childrenIds.length = c.2.entries.length + 1 := by
    rintro (_ | k) q u hu rfl
    · rw [UTree.children_leaf] at hne
      exact absurd rfl hne
    · rw [List.length_map]
      exact hu (Nat.succ_ne_zero k)
  rcases mem_cells.mp hc with heq | ⟨d, hd, hc⟩
  · exact hlinked ht.linked heq
  · obtain ⟨k, q, u, heq, -, hfull⟩ := exists_subtree hc
    exact hlinked (hfull (ht.full d hd)).2.2.1 heq

end Stored

end Datatent.BTree
