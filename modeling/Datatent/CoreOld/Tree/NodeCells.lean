import Datatent.CoreOld.Tree.TreeMemoryNodeManager
import Datatent.Library.UTree
import Mathlib.Algebra.BigOperators.Group.List.Basic
import Mathlib.Algebra.Order.Group.Multiset
import Mathlib.Order.Interval.Finset.Nat
import Mathlib.Tactic.Abel

/-!
# Cells of trees

A tree of uniform height is stored as one cell for each of its nodes. The rules say what the
operations of the memory node manager do when the cells of the heap are those of a tree with
a focus: the tree in the hole of a path and the nodes of the path.
-/

namespace Datatent.BTree

variable {K V : Type}

/-! ### Cells -/

/-- The cell of one node. -/
def cell (id parentId : Nat) (entries : List (K × V)) (childrenIds : List Nat) :
    Multiset (Nat × TreeNode K V) :=
  {(id, { parentId := parentId, entries := entries, childrenIds := childrenIds })}

/-- The cells of a tree whose top node has the given parent. -/
def cells : {n : Nat} → Nat → UTree (K × V) n → Multiset (Nat × TreeNode K V)
  | 0, _, _ => 0
  | _ + 1, parentId, t =>
      cell t.id parentId t.entries (t.children.map (·.id)) + (t.children.map (cells t.id)).sum

/-- The cells of trees with the same parent. -/
def forest {n : Nat} (parentId : Nat) (ts : List (UTree (K × V) n)) :
    Multiset (Nat × TreeNode K V) :=
  (ts.map (cells parentId)).sum

/-- The cells of the nodes of a path, with the given id of the node in the hole. -/
def pathCells {h : Nat} :
    {n : Nat} → UPath (K × V) n h → Nat → Multiset (Nat × TreeNode K V)
  | _, .root, _ => 0
  | _, .down above id es es' ls rs, focus =>
      cell id above.parentId (es ++ es') (ls.map (·.id) ++ focus :: rs.map (·.id))
        + (forest id ls + forest id rs + pathCells above id)

/-- The cells of a tree with a focus. -/
def allCells {n h : Nat} (path : UPath (K × V) n h) (t : UTree (K × V) n) :
    Multiset (Nat × TreeNode K V) :=
  cells path.parentId t + pathCells path t.id

section Forest

variable {n : Nat} (parentId : Nat) (t : UTree (K × V) n) (ts ts' : List (UTree (K × V) n))

@[simp]
theorem forest_nil :
  forest parentId ([] : List (UTree (K × V) n)) = 0
  := rfl

@[simp]
theorem forest_cons :
  forest parentId (t :: ts) = cells parentId t + forest parentId ts
  := rfl

@[simp]
theorem forest_append :
  forest parentId (ts ++ ts') = forest parentId ts + forest parentId ts'
  := by
  rw [forest, List.map_append, List.sum_append]
  rfl

/-- The cells of trees with the same parent are those of one of them. -/
theorem mem_forest {c : Nat × TreeNode K V} :
  c ∈ forest parentId ts ↔ ∃ t ∈ ts, c ∈ cells parentId t
  := by
  induction ts with
  | nil => simp
  | cons t ts ih => rw [forest_cons, Multiset.mem_add, ih, List.exists_mem_cons_iff]

/-- The cell of the top node and the cells below it. -/
theorem cells_eq (t : UTree (K × V) (n + 1)) :
  cells parentId t
    = cell t.id parentId t.entries (t.children.map (·.id)) + forest t.id t.children
  := rfl

/-- The cells of a node with given entries and children. -/
theorem cells_node (id : Nat) (es : List (K × V)) (ts : List (UTree (K × V) n)) :
  cells parentId (.node id es ts) = cell id parentId es (ts.map (·.id)) + forest id ts
  := rfl

/-- The cell of the top node has the parent of the tree, and the other cells do not depend
on it. -/
theorem exists_cells :
  ∀ {n : Nat} (t : UTree (K × V) n), ∃ (es : List (K × V)) (ids : List Nat) (below : _),
    ∀ parentId, cells parentId t = cell t.id parentId es ids + below
  | 0, t => t.elim
  | _ + 1, t =>
      ⟨t.entries, t.children.map (·.id), forest t.id t.children,
        fun parentId => cells_eq parentId t⟩

end Forest

/-- A tree of height one is stored as a leaf. -/
theorem isLeaf_of_one (parentId : Nat) (entries : List (K × V)) (t : UTree (K × V) 1) :
  TreeNode.isLeaf
    { parentId := parentId, entries := entries, childrenIds := t.children.map (·.id) } = true
  := by
  rw [UTree.children_leaf]
  rfl

/-- A tree of a larger height is not stored as a leaf. -/
theorem not_isLeaf (parentId : Nat) (entries : List (K × V)) {n : Nat} {t : UTree (K × V) (n + 2)}
    (ht : t.Linked) :
  ¬ TreeNode.isLeaf
    { parentId := parentId, entries := entries, childrenIds := t.children.map (·.id) } = true
  := by
  rw [TreeNode.isLeaf, List.isEmpty_iff, List.map_eq_nil_iff]
  intro hnil
  have hlength := ht (Nat.succ_ne_zero n)
  rw [hnil] at hlength
  cases hlength

section Focus

variable {n h : Nat}

/-- The cells around a focus are those around any of its children. -/
theorem allCells_down (above : UPath (K × V) (n + 1) h) (id : Nat) (es es' : List (K × V))
    (ls rs : List (UTree (K × V) n)) (c : UTree (K × V) n) :
  allCells (.down above id es es' ls rs) c
    = allCells above (.node id (es ++ es') (ls ++ c :: rs))
  := by
  simp only [allCells, pathCells, cells_node, UPath.parentId, UTree.id_node, forest_append,
    forest_cons, List.map_append, List.map_cons]
  abel

/-- The cells of the tree with a tree put into the hole. -/
theorem allCells_plug :
  ∀ {n : Nat} (path : UPath (K × V) n h) (t : UTree (K × V) n),
    allCells .root (path.plug t) = allCells path t
  | _, .root, _ => rfl
  | _, .down above id es es' ls rs, t => by
      rw [allCells_down]
      exact allCells_plug above _

/-- The cell of the focus and the other cells. -/
theorem allCells_eq (path : UPath (K × V) (n + 1) h) (t : UTree (K × V) (n + 1)) :
  allCells path t
    = cell t.id path.parentId t.entries (t.children.map (·.id))
      + (forest t.id t.children + pathCells path t.id)
  := by
  rw [allCells, cells_eq, add_assoc]

/-- The cells of two neighbouring children, of their parent and the other cells. -/
theorem allCells_pair (above : UPath (K × V) (n + 1) h) (id : Nat) (es : List (K × V))
    (ls rs : List (UTree (K × V) n)) (l r : UTree (K × V) n) :
  allCells above (.node id es (ls ++ l :: r :: rs))
    = cells id l + cells id r
      + (cell id above.parentId es (ls.map (·.id) ++ l.id :: r.id :: rs.map (·.id))
        + (forest id ls + forest id rs + pathCells above id))
  := by
  simp only [allCells, cells_node, forest_append, forest_cons, List.map_append, List.map_cons,
    UTree.id_node]
  abel

/-- The cell of the node above the hole and the other cells. -/
theorem allCells_above (above : UPath (K × V) (n + 1) h) (id : Nat) (es es' : List (K × V))
    (ls rs : List (UTree (K × V) n)) (c : UTree (K × V) n) :
  allCells (.down above id es es' ls rs) c
    = cell id above.parentId (es ++ es') (ls.map (·.id) ++ c.id :: rs.map (·.id))
      + (cells id c + (forest id ls + forest id rs + pathCells above id))
  := by
  rw [allCells, pathCells, UPath.parentId]
  abel

/-- A node at a position of its parent, with the other cells. -/
theorem allCells_child {p : UTree (K × V) (n + 2)} {us vs : List (UTree (K × V) (n + 1))}
    {c : UTree (K × V) (n + 1)} (above : UPath (K × V) (n + 2) h)
    (hp : p.children = us ++ c :: vs) :
  allCells above p = cells p.id c
    + (cell p.id above.parentId p.entries (p.children.map (·.id)) + forest p.id us
      + forest p.id vs + pathCells above p.id)
  := by
  rw [allCells_eq, hp, forest_append, forest_cons]
  abel

/-- The id of the top node is among those of its cells. -/
theorem id_mem_cells (parentId : Nat) (t : UTree (K × V) n) :
  t.id ∈ (cells parentId t).map Prod.fst
  := by
  obtain ⟨es, ids, below, hcells⟩ := exists_cells t
  rw [hcells, cell, Multiset.map_add, Multiset.map_singleton]
  exact Multiset.mem_add.mpr (.inl (Multiset.mem_singleton_self _))

/-- The ids of the top nodes of trees are among those of their cells. -/
theorem id_mem_forest (parentId : Nat) {t : UTree (K × V) n} {ts : List (UTree (K × V) n)}
    (ht : t ∈ ts) :
  t.id ∈ (forest parentId ts).map Prod.fst
  := by
  obtain ⟨ls, rs, rfl⟩ := List.append_of_mem ht
  rw [forest_append, forest_cons, Multiset.map_add, Multiset.map_add, Multiset.mem_add,
    Multiset.mem_add]
  exact .inr (.inl (id_mem_cells parentId t))

/-- The id of the root node is among those of the nodes on the path. -/
theorem rootId_mem :
  ∀ {n : Nat} (path : UPath (K × V) n h) (id parentId : Nat) (es : List (K × V)) (ids : List Nat),
    path.rootId id ∈ (cell id parentId es ids + pathCells path id).map Prod.fst
  | _, .root, id, parentId, es, ids => by
      rw [cell, Multiset.map_add, Multiset.map_singleton]
      exact Multiset.mem_add.mpr (.inl (Multiset.mem_singleton_self _))
  | _, .down above id es es' ls rs, focus, parentId, fs, ids => by
      have hmem := rootId_mem above id above.parentId (es ++ es')
        (ls.map (·.id) ++ focus :: rs.map (·.id))
      rw [Multiset.map_add, Multiset.mem_add] at hmem
      simp only [pathCells, Multiset.map_add, Multiset.mem_add]
      rcases hmem with hmem | hmem
      · exact .inr (.inl hmem)
      · exact .inr (.inr (.inr hmem))

end Focus

/-! ### States with known cells -/

/-- The state has exactly the given cells, root node and next id. -/
structure At (cs : Multiset (Nat × TreeNode K V)) (root next : Nat)
    (store : NodeStore K V) : Prop where
  holds : store.nodes.Holds cs
  rootNode : store.rootNode = some root
  idCounter : store.idCounter = next
  ids : ∀ c ∈ cs, 0 < c.1 ∧ c.1 < next
  next_pos : 0 < next

section Rules

variable {m : Nat} {cs cs' : Multiset (Nat × TreeNode K V)} {root next id parentId : Nat}
  {entries : List (K × V)} {childrenIds : List Nat} {node' : TreeNode K V}

/-- The next id is not that of a cell. -/
theorem At.next_notMem {store : NodeStore K V} (h : At cs root next store) :
  next ∉ cs.map Prod.fst
  := by
  intro hmem
  obtain ⟨c, hc, heq⟩ := Multiset.mem_map.mp hmem
  have hlt := (h.ids c hc).2
  omega

/-- The cells in another order. -/
theorem At.congr {store : NodeStore K V} (h : At cs root next store) (hcs : cs = cs') :
  At cs' root next store
  := hcs ▸ h

/-- The node of a cell. -/
theorem At.node_eq {store : NodeStore K V} (hat : At cs root next store)
    (h : cs = cell id parentId entries childrenIds + cs') :
  store.nodes id
    = some { parentId := parentId, entries := entries, childrenIds := childrenIds }
  := by
  apply (hat.holds.cell id _).mpr
  rw [h]
  exact Multiset.mem_add.mpr (.inl (Multiset.mem_singleton_self _))

/-- The id of a cell is not zero. -/
theorem At.id_pos {store : NodeStore K V} (hat : At cs root next store)
    (h : cs = cell id parentId entries childrenIds + cs') :
  0 < id
  := by
  have hmem : (id, ({ parentId := parentId, entries := entries, childrenIds := childrenIds }
      : TreeNode K V)) ∈ cs := by
    rw [h]
    exact Multiset.mem_add.mpr (.inl (Multiset.mem_singleton_self _))
  exact (hat.ids _ hmem).1

/-- The states with given cells, root node and next id are the same. -/
theorem At.unique {store store' : NodeStore K V} (h : At cs root next store)
    (h' : At cs root next store') :
  store = store'
  := by
  have hnodes : store.nodes = store'.nodes := by
    funext id
    apply Option.ext
    intro node
    rw [h.holds.cell, h'.holds.cell]
  cases store
  cases store'
  simp only [NodeStore.mk.injEq]
  exact ⟨hnodes, h.idCounter.trans h'.idCounter.symm, h.rootNode.trans h'.rootNode.symm⟩

/-- Different cells have different ids. -/
theorem At.ne_of_mem {a b c : Multiset (Nat × TreeNode K V)} {id id' : Nat}
    {store : NodeStore K V} (hat : At cs root next store) (h : cs = a + (b + c))
    (ha : id ∈ a.map Prod.fst) (hb : id' ∈ b.map Prod.fst) :
  id ≠ id'
  := by
  have hnodup := hat.holds.nodup
  rw [h, Multiset.map_add, Multiset.nodup_add] at hnodup
  apply Multiset.disjoint_iff_ne.mp hnodup.2.2 id ha
  rw [Multiset.map_add]
  exact Multiset.mem_add.mpr (.inl hb)

/-- The node in the hole is not one of its siblings. -/
theorem At.hole_notMem {n h : Nat} {above : UPath (K × V) (n + 1) h} {es es' : List (K × V)}
    {ls rs : List (UTree (K × V) n)} {t : UTree (K × V) n} {store : NodeStore K V}
    (hat : At (allCells (.down above id es es' ls rs) t) root next store) :
  t.id ∉ ls.map (·.id)
  := by
  intro hmem
  obtain ⟨l, hl, hid⟩ := List.mem_map.mp hmem
  have hleft : allCells (.down above id es es' ls rs) t
      = forest id ls + (cells id t
        + (cell id above.parentId (es ++ es') (ls.map (·.id) ++ t.id :: rs.map (·.id))
          + forest id rs + pathCells above id)) := by
    rw [allCells_above]
    abel
  exact hat.ne_of_mem hleft (id_mem_forest id hl) (id_mem_cells id t) hid

/-- There are fewer cells than the next id. -/
theorem At.card_lt {store : NodeStore K V} (h : At cs root next store) :
  Multiset.card cs < next
  := by
  let ids : Finset Nat := ⟨cs.map Prod.fst, h.holds.nodup⟩
  have hsub : ids ⊆ Finset.Ico 1 next := by
    intro id hid
    obtain ⟨c, hc, rfl⟩ := Multiset.mem_map.mp hid
    exact Finset.mem_Ico.mpr (h.ids c hc)
  have hcard := Finset.card_le_card hsub
  rw [Nat.card_Ico] at hcard
  have hids : ids.card = Multiset.card cs := Multiset.card_map Prod.fst cs
  have hpos := h.next_pos
  omega

/-- A tree has at least as many cells as nodes on a way down. -/
theorem height_le_card :
  ∀ {n : Nat} (parentId : Nat) {t : UTree (K × V) (n + 1)}, t.Joined →
    n + 1 ≤ Multiset.card (cells parentId t)
  | 0, parentId, t, _ => by
      rw [cells_eq, Multiset.card_add, cell, Multiset.card_singleton]
      exact Nat.le_add_right 1 _
  | n + 1, parentId, t, ht => by
      obtain ⟨ls, c, rs, heq, -, -⟩ :=
        ht.1.exists_child (List.nil_append t.entries).symm
      have hc : c ∈ t.children := by
        rw [heq, UTree.children_node]
        exact List.mem_append_right ls List.mem_cons_self
      have hle := height_le_card t.id (ht.2 c hc)
      rw [heq, cells_node, forest_append, forest_cons, Multiset.card_add, Multiset.card_add,
        Multiset.card_add, cell, Multiset.card_singleton]
      omega

/-- Every way down a stored tree is shorter than the next id. -/
theorem At.joined_lt {n : Nat} {t : UTree (K × V) (n + 1)} {store : NodeStore K V}
    (h : At (allCells .root t) root next store) (ht : t.Joined) :
  n + 1 < next
  := by
  have hle := height_le_card 0 ht
  have hlt := h.card_lt
  rw [allCells, UPath.parentId, pathCells, add_zero] at hlt
  exact Nat.lt_of_le_of_lt hle hlt

theorem At.height_lt {n : Nat} {t : UTree (K × V) n} {store : NodeStore K V}
    (h : At (allCells .root t) root next store) (ht : t.Rooted m) :
  n < next
  := by
  cases n with
  | zero => exact h.next_pos
  | succ n => exact h.joined_lt ht.2.2.joined

variable [LinearOrder K] {search : EntrySearch K V}

/-- Reading a node. -/
theorem yields_read (h : cs = cell id parentId entries childrenIds + cs') :
  Yields (At cs root next) ((treeMemoryNodeManager m search).read id)
    { parentId := parentId, entries := entries, childrenIds := childrenIds }
    (At cs root next)
  := by
  apply Yields.get_bind
  intro store hat
  refine ⟨store, ?_, hat⟩
  rw [hat.node_eq h]
  rfl

/-- Finding a node. -/
theorem yields_find (h : cs = cell id parentId entries childrenIds + cs') :
  Yields (At cs root next) ((treeMemoryNodeManager m search).find id) (some id)
    (At cs root next)
  := by
  apply Yields.get_bind
  intro store hat
  refine ⟨store, ?_, hat⟩
  rw [hat.node_eq h]
  rfl

/-- Writing a node. -/
theorem yields_write (h : cs = cell id parentId entries childrenIds + cs') :
  Yields (At cs root next) ((treeMemoryNodeManager m search).write id node') ()
    (At (cell id node'.parentId node'.entries node'.childrenIds + cs') root next)
  := by
  intro store hat
  rw [cell, Multiset.singleton_add] at h ⊢
  subst h
  refine ⟨{ store with nodes := store.nodes.put id node' }, rfl, hat.holds.put, hat.rootNode,
    hat.idCounter, ?_, hat.next_pos⟩
  intro c hc
  rw [Multiset.mem_cons] at hc
  rcases hc with rfl | hc
  · have hid := hat.ids _ (Multiset.mem_cons_self _ _)
    exact hid
  · exact hat.ids c (Multiset.mem_cons_of_mem hc)

/-- Creating a node. -/
theorem yields_create (es : List (K × V)) (ids : List Nat) :
  Yields (At cs root next) ((treeMemoryNodeManager m search).create es ids) next
    (At (cell next 0 es ids + cs) root (next + 1))
  := by
  intro store hat
  obtain rfl := hat.idCounter
  let node : TreeNode K V := { parentId := 0, entries := es, childrenIds := ids }
  refine ⟨
    { store with
      nodes := store.nodes.put store.idCounter node
      idCounter := store.idCounter + 1 }, rfl, ?_, hat.rootNode, rfl, ?_, Nat.succ_pos _⟩
  · rw [cell, Multiset.singleton_add]
    exact hat.holds.put_new hat.next_notMem
  · intro c hc
    rw [cell, Multiset.singleton_add, Multiset.mem_cons] at hc
    rcases hc with rfl | hc
    · exact ⟨hat.next_pos, Nat.lt_succ_self _⟩
    · obtain ⟨hpos, hlt⟩ := hat.ids c hc
      exact ⟨hpos, Nat.lt_succ_of_lt hlt⟩

/-- Making a node the root node. -/
theorem yields_makeRoot :
  Yields (At cs root next) ((treeMemoryNodeManager m search).makeRoot id) () (At cs id next)
  := by
  intro store hat
  exact ⟨{ store with rootNode := some id }, rfl, hat.holds, rfl, hat.idCounter, hat.ids,
    hat.next_pos⟩

/-- Creating a new root node. -/
theorem yields_createNewRoot (entry : K × V) (left right : Nat) :
  Yields (At cs root next) ((treeMemoryNodeManager m search).createNewRoot entry left right)
    next (At (cell next 0 [entry] [left, right] + cs) next (next + 1))
  := by
  apply Yields.bind
    (@yields_create K V m cs root next _ search [entry] [left, right])
  intro store hat
  exact ⟨{ store with rootNode := some next }, rfl, hat.holds, rfl, hat.idCounter, hat.ids,
    hat.next_pos⟩

/-- Deleting a node other than the root node. -/
theorem yields_delete (h : cs = cell id parentId entries childrenIds + cs')
    (hne : root ≠ id) :
  Yields (At cs root next) ((treeMemoryNodeManager m search).delete id) () (At cs' root next)
  := by
  intro store hat
  rw [cell, Multiset.singleton_add] at h
  subst h
  refine ⟨
    { store with
      rootNode := if store.rootNode = some id then none else store.rootNode
      nodes := store.nodes.erase id }, rfl, hat.holds.erase, ?_, hat.idCounter, ?_,
    hat.next_pos⟩
  · dsimp only
    rw [hat.rootNode, if_neg]
    rintro heq
    exact hne (Option.some.inj heq)
  · intro c hc
    exact hat.ids c (Multiset.mem_cons_of_mem hc)

end Rules

/-! ### Operations of nodes -/

namespace TreeNode

variable [LinearOrder K] {m : Nat} {search : EntrySearch K V}
  {cs cs' : Multiset (Nat × TreeNode K V)} {root next id parentId : Nat}
  {entries : List (K × V)} {childrenIds : List Nat}

/-- Finding a node that is used without a test. -/
theorem yields_found (h : cs = cell id parentId entries childrenIds + cs') :
  Yields (At cs root next) (found (treeMemoryNodeManager m search) id) id (At cs root next)
  := Yields.bind (yields_find h) (Yields.pure _ _)

/-- Getting an entry of a node. -/
theorem yields_getEntry {before after : List (K × V)} {e : K × V} {i : Int}
    (h : cs = cell id parentId (before ++ e :: after) childrenIds + cs')
    (hi : (before.length : Int) = i) :
  Yields (At cs root next) (getEntry (treeMemoryNodeManager m search) id i) e (At cs root next)
  := by
  subst hi
  apply Yields.bind (yields_read h)
  apply Yields.ite_neg (Int.not_lt.mpr (Int.natCast_nonneg _))
  rw [Int.toNat_natCast, item_append rfl]
  exact Yields.pure _ e

/-- Finding the top node of a tree. -/
theorem yields_found_cells {n p : Nat} {t : UTree (K × V) n} (h : cs = cells p t + cs') :
  Yields (At cs root next) (found (treeMemoryNodeManager m search) t.id) t.id (At cs root next)
  := by
  obtain ⟨es, ids, below, hcells⟩ := exists_cells t
  rw [hcells, add_assoc] at h
  exact yields_found h

/-- Setting the parent of a node. -/
theorem yields_setParentId (h : cs = cell id parentId entries childrenIds + cs')
    (newParentId : Nat) :
  Yields (At cs root next) (setParentId (treeMemoryNodeManager m search) id newParentId) ()
    (At (cell id newParentId entries childrenIds + cs') root next)
  := by
  apply Yields.bind (yields_read h)
  exact Yields.bind (yields_write h) (Yields.pure _ _)

/-- Setting the parent of the top node of a tree. -/
theorem yields_setParentId_cells {n p : Nat} {t : UTree (K × V) n} (h : cs = cells p t + cs')
    (q : Nat) :
  Yields (At cs root next) (setParentId (treeMemoryNodeManager m search) t.id q) ()
    (At (cells q t + cs') root next)
  := by
  obtain ⟨es, ids, below, hcells⟩ := exists_cells t
  rw [hcells, add_assoc] at h ⊢
  exact yields_setParentId h q

/-- Setting the parent of the top nodes of trees. -/
theorem yields_setParentIds {n : Nat} (p q : Nat) (ts : List (UTree (K × V) n))
    (h : cs = forest p ts + cs') :
  Yields (At cs root next) (setParentIds (treeMemoryNodeManager m search) q (ts.map (·.id))) ()
    (At (forest q ts + cs') root next)
  := by
  induction ts generalizing cs cs' with
  | nil =>
      subst h
      exact Yields.pure _ _
  | cons t ts ih =>
      have hfirst : cs = cells p t + (forest p ts + cs') := by
        rw [h, forest_cons, add_assoc]
      have hrest : cells q t + (forest p ts + cs') = forest p ts + (cells q t + cs') := by
        abel
      apply Yields.bind (yields_found_cells hfirst)
      apply Yields.bind (yields_setParentId_cells hfirst q)
      apply (ih hrest).weaken
      intro store hat
      apply hat.congr
      rw [forest_cons]
      abel

end TreeNode

end Datatent.BTree
