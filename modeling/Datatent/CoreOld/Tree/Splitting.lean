import Datatent.CoreOld.Tree.NodeCells

/-!
# Splitting nodes

A node with one entry too many is split in half, and its middle entry moves up to the parent,
where `InsertAsParent` looks for its place by its key. As long as that is the place of the
split child (`Placed`), the entries of the tree stay the same and in order, and the tree is
one of uniform height again.
-/

namespace Datatent.BTree

variable {K V : Type} [LinearOrder K] {m : Nat} {search : EntrySearch K V}
  {cs cs' : Multiset (Nat × TreeNode K V)} {root next : Nat}

/-- The search for an entry that moves up finds the place of the split child, in the parent
and in every node above that has to be split in turn. -/
def Placed (search : EntrySearch K V) (m : Nat) {h : Nat} :
    {n : Nat} → UPath (K × V) n h → K × V → Prop
  | _, .root, _ => True
  | _, .down above _ es es' _ _, entry =>
      (search.search (es ++ es') entry.1).position = es.length
        ∧ (es.length + es'.length = 2 * m →
            ∀ middle, (es ++ entry :: es')[m]? = some middle → Placed search m above middle)

/-- The number of nodes created when the node in the hole is split: one for it and one for every
node that is split in turn, and a new root node above a root node that is split. -/
def splitNodes (m : Nat) {h : Nat} : {n : Nat} → UPath (K × V) n h → Nat
  | _, .root => 2
  | _, .down above _ es es' _ _ =>
      (if es.length + es'.length = 2 * m then splitNodes m above else 0) + 1

namespace TreeNode

/-- Inserting an entry at the place of a child puts a new child next to it. -/
theorem yields_insertAsParent {id parentId left right : Nat} {es es' : List (K × V)}
    {ids ids' : List Nat} {entry : K × V}
    (h : cs = cell id parentId (es ++ es') (ids ++ left :: ids') + cs')
    (hids : ids.length = es.length)
    (hplace : (search.search (es ++ es') entry.1).position = es.length) :
  Yields (At cs root next)
    (insertAsParent (treeMemoryNodeManager m search) id entry left right) es.length
    (At (cell id parentId (es ++ entry :: es') (ids ++ left :: right :: ids') + cs') root next)
  := by
  have hset : (setItem (ids ++ left :: left :: ids') (es.length + 1) right
      : TreeM (NodeStore K V) (List Nat)) = pure (ids ++ left :: right :: ids') := by
    have hlength : (ids ++ [left]).length = es.length + 1 := by
      rw [List.length_append, List.length_singleton, hids]
    have happend := @setItem_append (NodeStore K V) Nat (ids ++ [left]) ids' _ left right hlength
    simpa using happend
  apply Yields.bind (yields_read h)
  dsimp only
  rw [entrySearch_eq, hplace]
  apply Yields.bind_eq (insert_append rfl)
  apply Yields.bind_eq (insert_append hids)
  apply Yields.bind_eq hset
  exact Yields.bind (yields_write h) (Yields.pure _ _)

omit [LinearOrder K] in
/-- The children of the right half of a node. -/
theorem rightChildren_append {S : Type} {parentId : Nat} {entries : List (K × V)}
    {ids ids' : List Nat}
    (h : ids = [] ∧ ids' = [] ∨ ids.length = m + 1 ∧ ids'.length = m + 1) :
  (rightChildren { parentId := parentId, entries := entries, childrenIds := ids ++ ids' } m
    : TreeM S (List Nat)) = pure ids'
  := by
  rcases h with ⟨rfl, rfl⟩ | ⟨hleft, hright⟩
  · rfl
  · rw [rightChildren, if_neg]
    · exact copyTo_append hleft hright
    · rw [isLeaf, List.isEmpty_iff]
      rintro hnil
      rw [(List.append_eq_nil_iff.mp hnil).1] at hleft
      cases hleft

omit [LinearOrder K] in
/-- The children of the left half of a node. -/
theorem leftChildren_append {S : Type} {parentId : Nat} {entries : List (K × V)}
    {ids ids' : List Nat}
    (h : ids = [] ∧ ids' = [] ∨ ids.length = m + 1 ∧ ids'.length = m + 1) :
  (leftChildren { parentId := parentId, entries := entries, childrenIds := ids ++ ids' } m
    : TreeM S (List Nat)) = pure ids
  := by
  rcases h with ⟨rfl, rfl⟩ | ⟨hleft, hright⟩
  · rfl
  · rw [leftChildren, if_neg]
    · exact removeRange_append hleft
    · rw [isLeaf, List.isEmpty_iff]
      rintro hnil
      rw [(List.append_eq_nil_iff.mp hnil).1] at hleft
      cases hleft

/-- Halving a node makes it the left half and creates the right half. -/
theorem yields_halve {n parentId : Nat} {t l r : UTree (K × V) (n + 1)} {e : K × V}
    (h : cs = cells parentId t + cs') (hhalves : UTree.Halves m t l r e) (hl : l.id = t.id) :
  Yields (At cs root r.id) (halve (treeMemoryNodeManager m search) t.id) (e, r.id)
    (At (cells parentId l + cells 0 r + cs') root (r.id + 1))
  := by
  have hids : l.children.map (·.id) = [] ∧ r.children.map (·.id) = []
      ∨ (l.children.map (·.id)).length = m + 1 ∧ (r.children.map (·.id)).length = m + 1 := by
    cases n with
    | zero =>
        rw [UTree.children_leaf l, UTree.children_leaf r]
        exact .inl ⟨rfl, rfl⟩
    | succ n =>
        rw [List.length_map, List.length_map, hhalves.left.2.2.1 (Nat.succ_ne_zero n),
          hhalves.right.2.2.1 (Nat.succ_ne_zero n), hhalves.leftLength, hhalves.rightLength]
        exact .inr ⟨rfl, rfl⟩
  have hcells : cs = cell l.id parentId (l.entries ++ e :: r.entries)
      (l.children.map (·.id) ++ r.children.map (·.id))
      + (forest l.id l.children + forest l.id r.children + cs') := by
    rw [h, cells_eq, hhalves.entries, hhalves.children, List.map_append, forest_append, hl,
      add_assoc]
  have hnew : cell r.id 0 r.entries (r.children.map (·.id)) + cs = forest l.id r.children
      + (cell l.id parentId (l.entries ++ e :: r.entries)
          (l.children.map (·.id) ++ r.children.map (·.id))
        + (cell r.id 0 r.entries (r.children.map (·.id)) + forest l.id l.children + cs')) := by
    rw [hcells]
    abel
  have hmoved : forest r.id r.children
      + (cell l.id parentId (l.entries ++ e :: r.entries)
          (l.children.map (·.id) ++ r.children.map (·.id))
        + (cell r.id 0 r.entries (r.children.map (·.id)) + forest l.id l.children + cs'))
      = cell l.id parentId (l.entries ++ e :: r.entries)
          (l.children.map (·.id) ++ r.children.map (·.id))
        + (forest l.id l.children + cells 0 r + cs') := by
    rw [cells_eq]
    abel
  have hmiddle : (l.entries ++ [e]).length = m + 1 := by
    rw [List.length_append, List.length_singleton, hhalves.leftLength]
  rw [← hl]
  apply Yields.bind (yields_read hcells)
  simp only [minEntriesPerNode_eq]
  apply Yields.bind_eq (item_append hhalves.leftLength)
  apply Yields.bind_eq
    (List.append_cons l.entries e r.entries ▸ copyTo_append hmiddle hhalves.rightLength)
  apply Yields.bind_eq (rightChildren_append hids)
  apply Yields.bind (yields_create r.entries _)
  apply Yields.bind (yields_setParentIds l.id r.id r.children hnew)
  apply Yields.bind (yields_read hmoved)
  apply Yields.bind_eq (removeRange_append hhalves.leftLength)
  apply Yields.bind_eq (leftChildren_append hids)
  apply Yields.bind (yields_write hmoved)
  apply (Yields.pure _ _).weaken
  intro store hat
  apply hat.congr
  simp only [cells_eq]
  abel

/-- Splitting the root node puts a new root node above the halves. -/
theorem yields_split_root (hm : 1 ≤ m) {n : Nat} {t : UTree (K × V) (n + 1)} (steps next : Nat)
    (ht : t.Grown m) (hover : t.entries.length = 2 * m + 1) :
  ∃ t' : UTree (K × V) (n + 2), t'.Rooted m ∧ t'.contents = t.contents
    ∧ Yields (At (allCells .root t) t.id next)
        (split (treeMemoryNodeManager m search) (steps + 1) t.id) (t.id, next)
        (At (allCells .root t') t'.id (next + 2))
  := by
  obtain ⟨l, r, e, hhalves, hl, rfl⟩ := ht.exists_halves hover t.id next
  refine ⟨.node (r.id + 1) [e] [l, r], ?_, ?_, ?_⟩
  · refine ⟨Nat.le_refl 1, ?_, fun _ => rfl, ?_⟩
    · rw [UTree.entries_node, List.length_singleton]
      omega
    · intro c hc
      rw [UTree.children_node, List.mem_pair] at hc
      rcases hc with rfl | rfl
      · exact hhalves.left
      · exact hhalves.right
  · rw [hhalves.contents]
    simp [UTree.contents_eq (n := n + 1), interleave]
  · have hcells : allCells UPath.root t = cells 0 t + 0 := rfl
    have hread : cells 0 l + cells 0 r + 0
        = cell l.id 0 l.entries (l.children.map (·.id))
          + (forest l.id l.children + cells 0 r) := by
      rw [cells_eq 0 l]
      abel
    have hthis : cell (r.id + 1) 0 [e] [l.id, r.id] + (cells 0 l + cells 0 r + 0)
        = cells 0 l + (cell (r.id + 1) 0 [e] [l.id, r.id] + cells 0 r) := by
      abel
    have hnew : cells (r.id + 1) l + (cell (r.id + 1) 0 [e] [l.id, r.id] + cells 0 r)
        = cells 0 r + (cells (r.id + 1) l + cell (r.id + 1) 0 [e] [l.id, r.id]) := by
      abel
    rw [split]
    apply Yields.bind (yields_halve hcells hhalves hl)
    rw [← hl]
    apply Yields.bind (yields_read hread)
    apply Yields.ite_pos rfl
    apply Yields.bind (Yields.pure _ none)
    apply Yields.bind (yields_createNewRoot e l.id r.id)
    apply Yields.bind (yields_setParentId_cells hthis (r.id + 1))
    apply Yields.bind (yields_setParentId_cells hnew (r.id + 1))
    apply Yields.bind (Yields.pure _ ())
    apply (Yields.pure _ _).weaken
    intro store hat
    apply hat.congr
    simp only [allCells, pathCells, UPath.parentId, cells_node (n := n + 1), forest_cons,
      forest_nil, List.map_cons, List.map_nil]
    abel

section Elevate

variable {n h : Nat} {above : UPath (K × V) (n + 2) h} {id : Nat} {es es' : List (K × V)}
  {e : K × V} {ls rs : List (UTree (K × V) (n + 1))} {l r : UTree (K × V) (n + 1)}
  {splitParent : Nat → TreeM (NodeStore K V) (Nat × Nat)} {Q : NodeStore K V → Prop}

/-- Elevating the entry between two halves puts them next to each other into the parent. What
is left to do is to split the parent if it has one entry too many. -/
theorem yields_elevate (hpath : (UPath.down above id es es' ls rs).Full m)
    (hplace : (search.search (es ++ es') e.1).position = es.length)
    (hover : es.length + es'.length = 2 * m →
      ∃ ids, Yields
        (At (allCells above (.node id (es ++ e :: es') (ls ++ l :: r :: rs))) root next)
        (splitParent id) ids Q)
    (hfits : es.length + es'.length < 2 * m →
      ∀ store, At (allCells above (.node id (es ++ e :: es') (ls ++ l :: r :: rs))) root next
        store → Q store) :
  Yields (At (cells id l + cells 0 r + pathCells (.down above id es es' ls rs) l.id) root next)
    (elevate (treeMemoryNodeManager m search) splitParent id e l.id r.id) () Q
  := by
  have hids : (ls.map (·.id)).length = es.length := by
    rw [List.length_map]
    exact hpath.1
  have hparent : cells id l + cells 0 r + pathCells (.down above id es es' ls rs) l.id
      = cell id above.parentId (es ++ es') (ls.map (·.id) ++ l.id :: rs.map (·.id))
        + (cells id l + cells 0 r + (forest id ls + forest id rs + pathCells above id)) := by
    rw [pathCells]
    abel
  have hnew : cell id above.parentId (es ++ e :: es')
        (ls.map (·.id) ++ l.id :: r.id :: rs.map (·.id))
        + (cells id l + cells 0 r + (forest id ls + forest id rs + pathCells above id))
      = cells 0 r
        + (cell id above.parentId (es ++ e :: es')
            (ls.map (·.id) ++ l.id :: r.id :: rs.map (·.id))
          + (cells id l + (forest id ls + forest id rs + pathCells above id))) := by
    abel
  have hraised : cells id r
        + (cell id above.parentId (es ++ e :: es')
            (ls.map (·.id) ++ l.id :: r.id :: rs.map (·.id))
          + (cells id l + (forest id ls + forest id rs + pathCells above id)))
      = allCells above (.node id (es ++ e :: es') (ls ++ l :: r :: rs)) := by
    simp only [allCells, cells_node (n := n + 1), forest_append, forest_cons, List.map_append,
      List.map_cons, UTree.id_node]
    abel
  apply Yields.bind (yields_insertAsParent hparent hids hplace)
  apply Yields.bind (yields_setParentId_cells hnew id)
  rw [hraised]
  apply Yields.bind (yields_read (allCells_eq above _))
  by_cases hlength : es.length + es'.length = 2 * m
  · apply Yields.ite_pos
    · rw [isOverflow_iff, UTree.entries_node, List.length_append, List.length_cons]
      omega
    · obtain ⟨ids, hsplit⟩ := hover hlength
      exact Yields.bind hsplit (Yields.pure _ ())
  · have hlt : es.length + es'.length < 2 * m := Nat.lt_of_le_of_ne hpath.2.2.2.1 hlength
    apply Yields.ite_neg
    · rw [isOverflow_iff, UTree.entries_node, List.length_append, List.length_cons]
      omega
    · exact (Yields.pure _ ()).weaken (hfits hlt)

/-- Splitting a node below another one comes down to elevating the entry between its halves. -/
theorem yields_split_down {t : UTree (K × V) (n + 1)} {steps : Nat}
    (hhalves : UTree.Halves m t l r e) (hl : l.id = t.id)
    (helevate : Yields
      (At (cells id l + cells 0 r + pathCells (.down above id es es' ls rs) l.id) root
        (r.id + 1))
      (elevate (treeMemoryNodeManager m search) (split (treeMemoryNodeManager m search) steps)
        id e l.id r.id) () Q) :
  Yields (At (allCells (.down above id es es' ls rs) t) root r.id)
    (split (treeMemoryNodeManager m search) (steps + 1) t.id) (t.id, r.id) Q
  := by
  have hcells : allCells (.down above id es es' ls rs) t
      = cells id t + pathCells (.down above id es es' ls rs) l.id := by
    rw [hl]
    rfl
  have hread : cells id l + cells 0 r + pathCells (.down above id es es' ls rs) l.id
      = cell l.id id l.entries (l.children.map (·.id))
        + (forest l.id l.children + cells 0 r
          + pathCells (.down above id es es' ls rs) l.id) := by
    rw [cells_eq]
    abel
  have hparent : cells id l + cells 0 r + pathCells (.down above id es es' ls rs) l.id
      = cell id above.parentId (es ++ es') (ls.map (·.id) ++ l.id :: rs.map (·.id))
        + (cells id l + cells 0 r + (forest id ls + forest id rs + pathCells above id)) := by
    rw [pathCells]
    abel
  rw [split]
  apply Yields.bind (yields_halve hcells hhalves hl)
  rw [← hl]
  apply Yields.bind (yields_read hread)
  apply Yields.of_fact (fun store hat => hat.id_pos hparent)
  intro hpos
  apply Yields.ite_neg (Nat.ne_of_gt hpos)
  apply Yields.bind (yields_find hparent)
  apply Yields.bind helevate
  exact Yields.bind (Yields.pure _ ()) (Yields.pure _ _)

end Elevate

/-- Splitting a node with one entry too many leaves a tree with the same entries in order. -/
theorem yields_split (hm : 1 ≤ m) {h : Nat} :
  ∀ {n : Nat} (path : UPath (K × V) (n + 1) h) {t : UTree (K × V) (n + 1)} {steps next : Nat},
    path.Full m → t.Grown m → t.entries.length = 2 * m + 1 →
      (∀ middle, t.entries[m]? = some middle → Placed search m path middle) →
        path.length < steps →
          ∃ (h' : Nat) (t' : UTree (K × V) h'), t'.Rooted m
            ∧ t'.contents = path.around t.contents
            ∧ Yields (At (allCells path t) (path.rootId t.id) next)
                (split (treeMemoryNodeManager m search) steps t.id) (t.id, next)
                (At (allCells .root t') t'.id (next + splitNodes m path))
  | n, .root, t, steps + 1, next, _, ht, hover, _, _ => by
      obtain ⟨t', hrooted, hcontents, hyields⟩ := yields_split_root hm steps next ht hover
      refine ⟨_, t', hrooted, ?_, hyields⟩
      simp [hcontents, UPath.around, UPath.before, UPath.after]
  | n, .down above id es es' ls rs, t, steps + 1, next, hpath, ht, hover, hplaced, hsteps => by
      obtain ⟨l, r, e, hhalves, hl, rfl⟩ := ht.exists_halves hover t.id next
      have hmiddle : t.entries[m]? = some e := by
        rw [hhalves.entries, List.getElem?_append_right (Nat.le_of_eq hhalves.leftLength),
          hhalves.leftLength, Nat.sub_self]
        rfl
      obtain ⟨hplace, hcascade⟩ := hplaced e hmiddle
      have hgrown := hpath.pair_grown hhalves.left hhalves.right e
      have haround := UPath.around_pair above id e l r hpath.1 hpath.2.1
      rw [← hhalves.contents] at haround
      have habove := hpath.2.2.2.2.2.2
      by_cases hlength : es.length + es'.length = 2 * m
      · have hsize : (UTree.node id (es ++ e :: es') (ls ++ l :: r :: rs)).entries.length
            = 2 * m + 1 := by
          rw [UTree.entries_node, List.length_append, List.length_cons]
          omega
        obtain ⟨h', t', hrooted, hcontents, hsplit⟩ :=
          yields_split hm above habove hgrown hsize (hcascade hlength)
            (Nat.lt_of_succ_lt_succ hsteps)
        refine ⟨h', t', hrooted, hcontents.trans haround.symm, ?_⟩
        rw [splitNodes, if_pos hlength, Nat.add_comm (splitNodes m above), ← Nat.add_assoc]
        apply yields_split_down hhalves hl
        apply yields_elevate hpath hplace
        · intro _
          exact ⟨_, hsplit⟩
        · intro hlt
          omega
      · have hfits : above.Fits m (.node id (es ++ e :: es') (ls ++ l :: r :: rs)) := by
          have hleast := hpath.2.2.1
          have hmost := hpath.2.2.2.1
          refine ⟨?_, ?_, hgrown⟩
          · rw [UTree.entries_node, List.length_append, List.length_cons]
            omega
          · rw [UTree.entries_node, List.length_append, List.length_cons]
            omega
        refine ⟨_, above.plug _, hfits.rooted habove, ?_, ?_⟩
        · rw [UPath.contents_plug _ habove, haround]
        · rw [splitNodes, if_neg hlength, Nat.zero_add]
          apply yields_split_down hhalves hl
          apply yields_elevate hpath hplace
          · intro heq
            exact absurd heq hlength
          · intro _ store hat
            rw [allCells_plug, UPath.id_plug]
            exact hat

end TreeNode

end Datatent.BTree
