import Datatent.CoreOld.Tree.Searching

/-!
# Rebalancing nodes

A node that has lost an entry too many takes one from a sibling over the separator in the
parent, or is merged with a sibling around the separator; then the parent has lost an entry.
The steps are stated for two neighbouring children of the parent and the separator between
them.
-/

namespace Datatent.BTree

variable {K V : Type} [LinearOrder K] {m h root next : Nat} {search : EntrySearch K V}
  {cs cs' : Multiset (Nat × TreeNode K V)}

namespace TreeNode

section Pair

variable {n p q : Nat} {l r : UTree (K × V) (n + 1)} {es es' : List (K × V)} {e : K × V}
  {ids : List Nat}

/-- Moving the first child of a node to the node before. -/
theorem yields_moveFirstChild {first rest : List (UTree (K × V) n)}
    (h : cs = cells p l + cells p r + cs') (hr : r.children = first ++ rest)
    (hfirst : n ≠ 0 → ∃ c, first = [c]) :
  Yields (At cs root next) (moveFirstChild (treeMemoryNodeManager m search) l.id r.id) ()
    (At (cells p (.node l.id l.entries (l.children ++ first))
      + cells p (.node r.id r.entries rest) + cs') root next)
  := by
  have hcells : cs = cell r.id p r.entries ((first ++ rest).map (·.id))
      + (cells p l + forest r.id (first ++ rest) + cs') := by
    rw [h, cells_eq p r, hr]
    abel
  apply Yields.bind (yields_read hcells)
  cases n with
  | zero =>
      obtain rfl := UTree.eq_nil first
      obtain rfl := UTree.eq_nil rest
      apply Yields.ite_pos rfl
      apply (Yields.pure _ ()).weaken
      intro store hat
      apply hat.congr
      rw [h, List.append_nil, UTree.node_eta, ← List.append_nil [], ← hr, UTree.node_eta]
  | succ n =>
      obtain ⟨c, rfl⟩ := hfirst (Nat.succ_ne_zero n)
      rw [List.singleton_append, List.map_cons, forest_cons] at hcells
      have hchild : cs = cells r.id c
          + (cells p l + cell r.id p r.entries (c.id :: rest.map (·.id)) + forest r.id rest
            + cs') := by
        rw [hcells]
        abel
      have hleft : cells l.id c
          + (cells p l + cell r.id p r.entries (c.id :: rest.map (·.id)) + forest r.id rest
            + cs')
          = cell l.id p l.entries (l.children.map (·.id))
            + (cells l.id c + forest l.id l.children
              + cell r.id p r.entries (c.id :: rest.map (·.id)) + forest r.id rest + cs') := by
        rw [cells_eq p l]
        abel
      have hright : cell l.id p l.entries (l.children.map (·.id) ++ [c.id])
            + (cells l.id c + forest l.id l.children
              + cell r.id p r.entries (c.id :: rest.map (·.id)) + forest r.id rest + cs')
          = cell r.id p r.entries (c.id :: rest.map (·.id))
            + (cell l.id p l.entries (l.children.map (·.id) ++ [c.id])
              + cells l.id c + forest l.id l.children + forest r.id rest + cs') := by
        abel
      apply Yields.ite_neg
      · exact Bool.false_ne_true
      apply Yields.bind_eq (item_append (List.length_nil))
      apply Yields.bind (yields_found_cells hchild)
      apply Yields.bind (yields_setParentId_cells hchild l.id)
      apply Yields.bind (yields_read hleft)
      apply Yields.bind (yields_write hleft)
      apply Yields.bind (yields_read hright)
      apply Yields.bind_eq (removeAt_append (List.length_nil))
      apply (yields_write hright).weaken
      intro store hat
      apply hat.congr
      simp only [cells_node, forest_append, forest_cons, forest_nil, List.map_append,
        List.map_cons, List.map_nil, List.nil_append]
      abel

/-- Moving the last child of a node to the node after. -/
theorem yields_moveLastChild {rest last : List (UTree (K × V) n)}
    (h : cs = cells p l + cells p r + cs') (hl : l.children = rest ++ last)
    (hlast : n ≠ 0 → ∃ c, last = [c]) (hr : n ≠ 0 → r.children ≠ []) :
  Yields (At cs root next) (moveLastChild (treeMemoryNodeManager m search) r.id l.id) ()
    (At (cells p (.node l.id l.entries rest)
      + cells p (.node r.id r.entries (last ++ r.children)) + cs') root next)
  := by
  have hread : cs = cell r.id p r.entries (r.children.map (·.id))
      + (cells p l + forest r.id r.children + cs') := by
    rw [h, cells_eq p r]
    abel
  apply Yields.bind (yields_read hread)
  cases n with
  | zero =>
      obtain rfl := UTree.eq_nil last
      obtain rfl := UTree.eq_nil rest
      apply Yields.ite_pos (isLeaf_of_one p r.entries r)
      apply (Yields.pure _ ()).weaken
      intro store hat
      apply hat.congr
      rw [h, List.nil_append, UTree.node_eta, ← List.append_nil [], ← hl, UTree.node_eta]
  | succ n =>
      obtain ⟨c, rfl⟩ := hlast (Nat.succ_ne_zero n)
      have hcells : cs = cell l.id p l.entries (rest.map (·.id) ++ [c.id])
          + (cells p r + cells l.id c + forest l.id rest + cs') := by
        rw [h, cells_eq p l, hl, List.map_append, forest_append, forest_cons, forest_nil]
        simp only [List.map_cons, List.map_nil]
        abel
      have hchild : cs = cells l.id c
          + (cell l.id p l.entries (rest.map (·.id) ++ [c.id]) + cells p r + forest l.id rest
            + cs') := by
        rw [hcells]
        abel
      have hright : cells r.id c
          + (cell l.id p l.entries (rest.map (·.id) ++ [c.id]) + cells p r + forest l.id rest
            + cs')
          = cell r.id p r.entries (r.children.map (·.id))
            + (cell l.id p l.entries (rest.map (·.id) ++ [c.id]) + cells r.id c
              + forest r.id r.children + forest l.id rest + cs') := by
        rw [cells_eq p r]
        abel
      have hleft : cell r.id p r.entries (c.id :: r.children.map (·.id))
            + (cell l.id p l.entries (rest.map (·.id) ++ [c.id]) + cells r.id c
              + forest r.id r.children + forest l.id rest + cs')
          = cell l.id p l.entries (rest.map (·.id) ++ [c.id])
            + (cell r.id p r.entries (c.id :: r.children.map (·.id)) + cells r.id c
              + forest r.id r.children + forest l.id rest + cs') := by
        abel
      have hposition : (rest.map (·.id)).length = (rest.map (·.id) ++ [c.id]).length - 1 := by
        rw [List.length_append, List.length_singleton, Nat.add_sub_cancel]
      apply Yields.ite_neg
      · rw [isLeaf, List.isEmpty_iff, List.map_eq_nil_iff]
        exact hr (Nat.succ_ne_zero n)
      apply Yields.bind (yields_read hcells)
      apply Yields.bind_eq (item_append hposition)
      apply Yields.bind (yields_found_cells hchild)
      apply Yields.bind (yields_setParentId_cells hchild r.id)
      apply Yields.bind (yields_read hright)
      apply Yields.bind (yields_write hright)
      apply Yields.bind (yields_read hleft)
      apply Yields.bind_eq (removeAt_append hposition)
      apply (yields_write hleft).weaken
      intro store hat
      apply hat.congr
      simp only [cells_node, forest_cons, List.map_cons, List.nil_append, List.cons_append,
        List.append_nil]
      abel

/-- Rotating left over the separator of two neighbouring nodes. -/
theorem yields_rotateLeft {first : K × V} {tail : List (K × V)}
    {children rest : List (UTree (K × V) n)} {i : Nat}
    (h : cs = cells p l + cells p r + (cell p q (es ++ e :: es') ids + cs'))
    (hi : es.length = i) (hentries : r.entries = first :: tail)
    (hr : r.children = children ++ rest) (hchildren : n ≠ 0 → ∃ c, children = [c]) :
  Yields (At cs root next) (rotateLeft (treeMemoryNodeManager m search) l.id p r.id i) ()
    (At (cells p (.node l.id (l.entries ++ [e]) (l.children ++ children))
      + cells p (.node r.id tail rest) + (cell p q (es ++ first :: es') ids + cs')) root next)
  := by
  have hparent : cs = cell p q (es ++ e :: es') ids + (cells p l + cells p r + cs') := by
    rw [h]
    abel
  have hleft : cs = cell l.id p l.entries (l.children.map (·.id))
      + (cell p q (es ++ e :: es') ids + forest l.id l.children + cells p r + cs') := by
    rw [h, cells_eq p l]
    abel
  have hright : cell l.id p (l.entries ++ [e]) (l.children.map (·.id))
      + (cell p q (es ++ e :: es') ids + forest l.id l.children + cells p r + cs')
      = cell r.id p (first :: tail) (r.children.map (·.id))
        + (cell l.id p (l.entries ++ [e]) (l.children.map (·.id))
          + cell p q (es ++ e :: es') ids + forest l.id l.children + forest r.id r.children
          + cs') := by
    rw [cells_eq p r, hentries]
    abel
  have hseparator : cell l.id p (l.entries ++ [e]) (l.children.map (·.id))
      + (cell p q (es ++ e :: es') ids + forest l.id l.children + cells p r + cs')
      = cell p q (es ++ e :: es') ids
        + (cell l.id p (l.entries ++ [e]) (l.children.map (·.id)) + forest l.id l.children
          + cells p r + cs') := by
    abel
  have hright' : cell p q (es ++ first :: es') ids
        + (cell l.id p (l.entries ++ [e]) (l.children.map (·.id)) + forest l.id l.children
          + cells p r + cs')
      = cell r.id p (first :: tail) (r.children.map (·.id))
        + (cell p q (es ++ first :: es') ids
          + cell l.id p (l.entries ++ [e]) (l.children.map (·.id)) + forest l.id l.children
          + forest r.id r.children + cs') := by
    rw [cells_eq p r, hentries]
    abel
  have hchild : cell r.id p tail (r.children.map (·.id))
        + (cell p q (es ++ first :: es') ids
          + cell l.id p (l.entries ++ [e]) (l.children.map (·.id)) + forest l.id l.children
          + forest r.id r.children + cs')
      = cells p (.node l.id (l.entries ++ [e]) l.children)
        + cells p (.node r.id tail r.children) + (cell p q (es ++ first :: es') ids + cs') := by
    simp only [cells_node]
    abel
  apply Yields.bind (yields_getEntry hparent (congrArg Nat.cast hi))
  apply Yields.bind (yields_read hleft)
  apply Yields.bind (yields_write hleft)
  apply Yields.bind (yields_read hright)
  apply Yields.bind_eq (item_append List.length_nil)
  apply Yields.bind (yields_read hseparator)
  apply Yields.bind_eq (setItem_append hi)
  apply Yields.bind (yields_write hseparator)
  apply Yields.bind_eq (removeAt_append List.length_nil)
  apply Yields.bind (yields_write hright')
  apply Yields.bind (yields_moveFirstChild hchild hr hchildren)
  exact Yields.bind (Yields.pure _ ()) (Yields.bind (Yields.pure _ ()) (Yields.pure _ ()))

/-- Rotating right over the separator of two neighbouring nodes. -/
theorem yields_rotateRight {init : List (K × V)} {last : K × V}
    {rest children : List (UTree (K × V) n)} {i : Nat}
    (h : cs = cells p l + cells p r + (cell p q (es ++ e :: es') ids + cs'))
    (hi : es.length + 1 = i) (hentries : l.entries = init ++ [last])
    (hl : l.children = rest ++ children) (hchildren : n ≠ 0 → ∃ c, children = [c])
    (hr : n ≠ 0 → r.children ≠ []) :
  Yields (At cs root next) (rotateRight (treeMemoryNodeManager m search) r.id p l.id i) ()
    (At (cells p (.node l.id init rest)
      + cells p (.node r.id (e :: r.entries) (children ++ r.children))
      + (cell p q (es ++ last :: es') ids + cs')) root next)
  := by
  have hparent : cs = cell p q (es ++ e :: es') ids + (cells p l + cells p r + cs') := by
    rw [h]
    abel
  have hright : cs = cell r.id p r.entries (r.children.map (·.id))
      + (cell p q (es ++ e :: es') ids + forest r.id r.children + cells p l + cs') := by
    rw [h, cells_eq p r]
    abel
  have hleft : cell r.id p (e :: r.entries) (r.children.map (·.id))
      + (cell p q (es ++ e :: es') ids + forest r.id r.children + cells p l + cs')
      = cell l.id p (init ++ [last]) (l.children.map (·.id))
        + (cell r.id p (e :: r.entries) (r.children.map (·.id))
          + cell p q (es ++ e :: es') ids + forest r.id r.children + forest l.id l.children
          + cs') := by
    rw [cells_eq p l, hentries]
    abel
  have hseparator : cell r.id p (e :: r.entries) (r.children.map (·.id))
      + (cell p q (es ++ e :: es') ids + forest r.id r.children + cells p l + cs')
      = cell p q (es ++ e :: es') ids
        + (cell r.id p (e :: r.entries) (r.children.map (·.id)) + forest r.id r.children
          + cells p l + cs') := by
    abel
  have hleft' : cell p q (es ++ last :: es') ids
        + (cell r.id p (e :: r.entries) (r.children.map (·.id)) + forest r.id r.children
          + cells p l + cs')
      = cell l.id p (init ++ [last]) (l.children.map (·.id))
        + (cell p q (es ++ last :: es') ids
          + cell r.id p (e :: r.entries) (r.children.map (·.id)) + forest r.id r.children
          + forest l.id l.children + cs') := by
    rw [cells_eq p l, hentries]
    abel
  have hchild : cell l.id p (init ++ []) (l.children.map (·.id))
        + (cell p q (es ++ last :: es') ids
          + cell r.id p (e :: r.entries) (r.children.map (·.id)) + forest r.id r.children
          + forest l.id l.children + cs')
      = cells p (.node l.id init l.children) + cells p (.node r.id (e :: r.entries) r.children)
        + (cell p q (es ++ last :: es') ids + cs') := by
    rw [List.append_nil]
    simp only [cells_node]
    abel
  have hposition : init.length = (init ++ [last]).length - 1 := by
    rw [List.length_append, List.length_singleton, Nat.add_sub_cancel]
  have hprevious : (es.length : Int) = (i : Int) - 1 := by omega
  have hindex : es.length = i - 1 := by omega
  apply Yields.bind (yields_getEntry hparent hprevious)
  apply Yields.bind (yields_read hright)
  apply Yields.bind (yields_write hright)
  apply Yields.bind (yields_read hleft)
  apply Yields.bind_eq (item_append hposition)
  apply Yields.bind (yields_read hseparator)
  apply Yields.bind_eq (setItem_append hindex)
  apply Yields.bind (yields_write hseparator)
  apply Yields.bind_eq (removeAt_append hposition)
  apply Yields.bind (yields_write hleft')
  apply Yields.bind (yields_moveLastChild hchild hl hchildren hr)
  exact Yields.bind (Yields.pure _ ()) (Yields.bind (Yields.pure _ ()) (Yields.pure _ ()))

/-- Joining two neighbouring nodes around their separator. -/
theorem yields_joinChildren {ids' : List Nat} {i : Int}
    (h : cs = cells p l + cells p r
      + (cell p q (es ++ e :: es') (ids ++ l.id :: r.id :: ids') + cs'))
    (hi : (es.length : Int) = i) (hids : ids.length = es.length) (hroot : root ≠ r.id) :
  Yields (At cs root next) (joinChildren (treeMemoryNodeManager m search) p l.id r.id i) ()
    (At (cells p (UTree.joined l r e) + (cell p q (es ++ es') (ids ++ l.id :: ids') + cs')) root
      next)
  := by
  have hparent : cs = cell p q (es ++ e :: es') (ids ++ l.id :: r.id :: ids')
      + (cells p l + cells p r + cs') := by
    rw [h]
    abel
  have hleft : cs = cell l.id p l.entries (l.children.map (·.id))
      + (cell p q (es ++ e :: es') (ids ++ l.id :: r.id :: ids') + forest l.id l.children
        + cells p r + cs') := by
    rw [h, cells_eq p l]
    abel
  have hright : cs = cell r.id p r.entries (r.children.map (·.id))
      + (cell p q (es ++ e :: es') (ids ++ l.id :: r.id :: ids') + forest r.id r.children
        + cells p l + cs') := by
    rw [h, cells_eq p r]
    abel
  have hmoved : cell l.id p (l.entries ++ [e] ++ r.entries)
        (l.children.map (·.id) ++ r.children.map (·.id))
      + (cell p q (es ++ e :: es') (ids ++ l.id :: r.id :: ids') + forest l.id l.children
        + cells p r + cs')
      = forest r.id r.children
        + (cell l.id p (l.entries ++ [e] ++ r.entries)
            (l.children.map (·.id) ++ r.children.map (·.id))
          + cell p q (es ++ e :: es') (ids ++ l.id :: r.id :: ids') + forest l.id l.children
          + cell r.id p r.entries (r.children.map (·.id)) + cs') := by
    rw [cells_eq p r]
    abel
  have hseparator : forest l.id r.children
        + (cell l.id p (l.entries ++ [e] ++ r.entries)
            (l.children.map (·.id) ++ r.children.map (·.id))
          + cell p q (es ++ e :: es') (ids ++ l.id :: r.id :: ids') + forest l.id l.children
          + cell r.id p r.entries (r.children.map (·.id)) + cs')
      = cell p q (es ++ e :: es') (ids ++ l.id :: r.id :: ids')
        + (cells p (UTree.joined l r e) + cell r.id p r.entries (r.children.map (·.id)) + cs') := by
    rw [UTree.joined, cells_node, List.map_append, forest_append, List.append_assoc,
      List.singleton_append]
    abel
  have hdelete : cell p q (es ++ es') (ids ++ l.id :: ids')
        + (cells p (UTree.joined l r e) + cell r.id p r.entries (r.children.map (·.id)) + cs')
      = cell r.id p r.entries (r.children.map (·.id))
        + (cells p (UTree.joined l r e) + (cell p q (es ++ es') (ids ++ l.id :: ids') + cs')) := by
    abel
  have hremove : (removeAt (ids ++ l.id :: r.id :: ids') (es.length + 1)
      : TreeM (NodeStore K V) (List Nat)) = pure (ids ++ l.id :: ids') := by
    have hlength : (ids ++ [l.id]).length = es.length + 1 := by
      rw [List.length_append, List.length_singleton, hids]
    have happend := @removeAt_append (NodeStore K V) Nat (ids ++ [l.id]) ids' _ r.id hlength
    simpa using happend
  subst hi
  apply Yields.bind (yields_getEntry hparent rfl)
  apply Yields.bind (yields_read hleft)
  apply Yields.bind (yields_read hright)
  apply Yields.bind (yields_write hleft)
  apply Yields.bind (yields_setParentIds r.id l.id r.children hmoved)
  apply Yields.bind (yields_read hseparator)
  rw [Int.toNat_natCast]
  apply Yields.bind_eq (removeAt_append rfl)
  apply Yields.bind_eq hremove
  apply Yields.bind (yields_write hseparator)
  exact yields_delete hdelete hroot

end Pair

section Merge

variable {n id : Nat} {above : UPath (K × V) (n + 2) h} {es es' : List (K × V)} {e : K × V}
  {ls rs : List (UTree (K × V) (n + 1))} {l r : UTree (K × V) (n + 1)} {i : Int}
  {rebalanceParent : Nat → TreeM (NodeStore K V) Unit}

/-- Joining two neighbouring children on a path. -/
theorem yields_join (above : UPath (K × V) (n + 2) h) (id : Nat) (es es' : List (K × V))
    (e : K × V) (ls rs : List (UTree (K × V) (n + 1))) (l r : UTree (K × V) (n + 1))
    (hl : ls.length = es.length) (hi : (es.length : Int) = i) :
  Yields (At (allCells above (.node id (es ++ e :: es') (ls ++ l :: r :: rs))) (above.rootId id)
      next)
    (joinChildren (treeMemoryNodeManager m search) id l.id r.id i) ()
    (At (allCells above (.node id (es ++ es') (ls ++ UTree.joined l r e :: rs)))
      (above.rootId id) next)
  := by
  have hids : (ls.map (·.id)).length = es.length := by rw [List.length_map, hl]
  have hcells := allCells_pair above id (es ++ e :: es') ls rs l r
  have hsplit : allCells above (.node id (es ++ e :: es') (ls ++ l :: r :: rs))
      = (cell id above.parentId (es ++ e :: es')
          (ls.map (·.id) ++ l.id :: r.id :: rs.map (·.id)) + pathCells above id)
        + (cells id r + (cells id l + forest id ls + forest id rs)) := by
    rw [hcells]
    abel
  apply Yields.of_fact (fun store hat =>
    hat.ne_of_mem hsplit (rootId_mem above id _ _ _) (id_mem_cells id r))
  intro hroot
  apply (yields_joinChildren hcells hi hids hroot).weaken
  intro store hat
  apply hat.congr
  simp only [allCells, cells_node (n := n + 1), forest_append, forest_cons, List.map_append,
    List.map_cons, UTree.id_node, UTree.joined]
  abel

/-- Merging the children of a root node with one entry leaves the merged child as the root. -/
theorem yields_merge_last :
  Yields (At (allCells .root (.node id [e] [l, r])) id next)
    (merge (treeMemoryNodeManager m search) rebalanceParent id l.id r.id 0) ()
    (At (allCells .root (UTree.joined l r e)) l.id next)
  := by
  have hjoin : Yields (At (allCells .root (.node id [e] [l, r])) id next)
      (joinChildren (treeMemoryNodeManager m search) id l.id r.id 0) ()
      (At (allCells .root (.node id [] [UTree.joined l r e])) id next) :=
    yields_join .root id [] [] e [] [] l r rfl rfl
  have hcells : allCells .root (.node id [] [UTree.joined l r e])
      = cells id (UTree.joined l r e) + cell id 0 [] [l.id] := by
    simp only [allCells, UPath.parentId, pathCells, cells_node (n := n + 1), forest_cons,
      forest_nil, List.map_cons, List.map_nil, UTree.joined, UTree.id_node]
    abel
  have hdelete : cells 0 (UTree.joined l r e) + cell id 0 [] [l.id]
      = cell id 0 [] [l.id] + allCells .root (UTree.joined l r e) := by
    rw [allCells, UPath.parentId, pathCells]
    abel
  have hne : cells 0 (UTree.joined l r e) + cell id 0 [] [l.id]
      = cells 0 (UTree.joined l r e) + (cell id 0 [] [l.id] + 0) := by
    abel
  apply Yields.bind hjoin
  apply Yields.bind (yields_read_focus .root _)
  apply Yields.ite_pos ⟨rfl, rfl⟩
  apply Yields.bind (yields_setParentId_cells hcells 0)
  apply Yields.bind (Yields.pure _ ())
  apply Yields.bind yields_makeRoot
  apply Yields.of_fact (fun store hat => hat.ne_of_mem hne (id_mem_cells 0 _)
    (rootId_mem (.root : UPath (K × V) (n + 2) (n + 2)) id 0 [] [l.id]))
  intro hroot
  exact yields_delete hdelete hroot

/-- Merging two neighbouring children that have together one entry less than a full node. -/
theorem yields_merge (hneighbours : UPath.Neighbours m above es es' ls rs)
    (hl : l.Grown m) (hr : r.Grown m)
    (hlength : l.entries.length + r.entries.length + 1 = 2 * m)
    (hi : (es.length : Int) = i)
    (hup : ∀ t : UTree (K × V) (n + 2), above.length ≠ 0 → t.id = id → t.Grown m →
      t.entries.length + 1 = m →
        ∃ (h' : Nat) (t' : UTree (K × V) h'), t'.Rooted m
          ∧ t'.contents = above.around t.contents
          ∧ Yields (At (allCells above t) (above.rootId id) next) (rebalanceParent id) ()
              (At (allCells .root t') t'.id next)) :
  ∃ (h' : Nat) (t' : UTree (K × V) h'), t'.Rooted m
    ∧ t'.contents
      = above.around (UTree.node id (es ++ e :: es') (ls ++ l :: r :: rs)).contents
    ∧ Yields (At (allCells above (.node id (es ++ e :: es') (ls ++ l :: r :: rs)))
        (above.rootId id) next)
        (merge (treeMemoryNodeManager m search) rebalanceParent id l.id r.id i) ()
        (At (allCells .root t') t'.id next)
  := by
  have hjoined := UTree.full_joined hl hr e hlength
  have hgrown := hneighbours.grown hjoined id
  have hleast := hneighbours.least
  have hmost := hneighbours.most
  have habove := hneighbours.fullAbove
  have hsize : (UTree.node id (es ++ es') (ls ++ UTree.joined l r e :: rs)).entries.length
      = es.length + es'.length := by
    rw [UTree.entries_node, List.length_append]
  rw [← hneighbours.around_joined hl.linked hr.linked]
  have hplug : above.least m ≤ es.length + es'.length →
      ¬ (above.parentId = 0 ∧ es.length + es'.length = 0) →
      ¬ (above.parentId ≠ 0 ∧ es.length + es'.length < m) →
        ∃ (h' : Nat) (t' : UTree (K × V) h'), t'.Rooted m
          ∧ t'.contents = above.around
            (UTree.node id (es ++ es') (ls ++ UTree.joined l r e :: rs)).contents
          ∧ Yields (At (allCells above (.node id (es ++ e :: es') (ls ++ l :: r :: rs)))
              (above.rootId id) next)
              (merge (treeMemoryNodeManager m search) rebalanceParent id l.id r.id i) ()
              (At (allCells .root t') t'.id next) := by
    intro hfit hroot hunder
    have hfits : above.Fits m (.node id (es ++ es') (ls ++ UTree.joined l r e :: rs)) :=
      ⟨by omega, by omega, hgrown⟩
    refine ⟨h, above.plug (.node id (es ++ es') (ls ++ UTree.joined l r e :: rs)),
      hfits.rooted habove, UPath.contents_plug _ habove, ?_⟩
    rw [allCells_plug, UPath.id_plug]
    apply Yields.bind (yields_join above id es es' e ls rs l r hneighbours.left hi)
    apply Yields.bind (yields_read_focus above _)
    rw [← hsize] at hroot hunder
    apply Yields.ite_neg hroot
    apply Yields.ite_neg hunder
    exact Yields.bind (Yields.pure _ ()) (Yields.pure _ ())
  cases above with
  | root =>
      by_cases hempty : es.length + es'.length = 0
      · obtain rfl : es = [] := List.eq_nil_of_length_eq_zero (by omega)
        obtain rfl : es' = [] := List.eq_nil_of_length_eq_zero (by omega)
        obtain rfl : ls = [] := List.eq_nil_of_length_eq_zero hneighbours.left
        obtain rfl : rs = [] := List.eq_nil_of_length_eq_zero hneighbours.right.symm
        subst hi
        refine ⟨n + 1, UTree.joined l r e, ?_, ?_, yields_merge_last⟩
        · obtain ⟨hleast', hmost', hgrown'⟩ := UTree.full_iff.mp hjoined
          refine ⟨?_, hmost', hgrown'⟩
          rw [UPath.least]
          omega
        · rw [UPath.around_root, UTree.contents_node _ rfl rfl]
          simp
      · apply hplug
        · rw [UPath.least]
          omega
        · exact fun hroot => hempty hroot.2
        · exact fun hunder => hunder.1 rfl
  | down top topId fs fs' us us' =>
      by_cases hunder : es.length + es'.length < m
      · obtain ⟨h', t', hrooted, hcontents, hyields⟩ :=
          hup _ (Nat.succ_ne_zero _) (UTree.id_node id _ _) hgrown (by
            rw [UPath.least] at hleast
            omega)
        refine ⟨h', t', hrooted, hcontents, ?_⟩
        have hcells : allCells (.down top topId fs fs' us us')
            (.node id (es ++ es') (ls ++ UTree.joined l r e :: rs))
            = cell topId top.parentId (fs ++ fs')
                (us.map (·.id) ++ id :: us'.map (·.id))
              + (cells topId (.node id (es ++ es') (ls ++ UTree.joined l r e :: rs))
                + (forest topId us + forest topId us' + pathCells top topId)) := by
          rw [allCells, pathCells, UPath.parentId, UTree.id_node]
          abel
        apply Yields.bind (yields_join _ id es es' e ls rs l r hneighbours.left hi)
        apply Yields.of_fact (fun store hat => hat.id_pos hcells)
        intro hpos
        apply Yields.bind (yields_read_focus _ _)
        apply Yields.ite_neg
        · exact fun hroot => Nat.ne_of_gt hpos hroot.1
        · apply Yields.ite_pos
          · exact ⟨Nat.ne_of_gt hpos, by rw [hsize]; exact hunder⟩
          · exact Yields.bind (Yields.pure _ ()) (Yields.bind (Yields.pure _ ()) hyields)
      · apply hplug
        · exact Nat.le_of_not_lt hunder
        · omega
        · exact fun h => hunder h.2

end Merge

section Siblings

variable {n : Nat} {above : UPath (K × V) (n + 2) h} {p : UTree (K × V) (n + 2)}
  {us vs : List (UTree (K × V) (n + 1))} {c : UTree (K × V) (n + 1)}

/-- The sibling at a position of the parent. -/
theorem yields_sibling {i : Nat} (hp : p.children = us ++ c :: vs) (hi : us.length = i) :
  Yields (At (allCells above p) root next)
    (sibling (treeMemoryNodeManager m search) p.id (some i)) (some c.id)
    (At (allCells above p) root next)
  := by
  have hchild : allCells above p = cell c.id p.id c.entries (c.children.map (·.id))
      + (forest c.id c.children
        + (cell p.id above.parentId p.entries (p.children.map (·.id)) + forest p.id us
          + forest p.id vs + pathCells above p.id)) := by
    rw [allCells_child above hp, cells_eq]
    abel
  have hitem : (item (p.children.map (·.id)) i : TreeM (NodeStore K V) Nat) = pure c.id := by
    rw [hp, List.map_append, List.map_cons]
    apply item_append
    rw [List.length_map, hi]
  apply Yields.bind (yields_read_focus above p)
  apply Yields.bind_eq hitem
  exact yields_find hchild

/-- Whether a sibling can spare an entry. -/
theorem yields_canSpare (hp : p.children = us ++ c :: vs) :
  Yields (At (allCells above p) root next)
    (canSpare (treeMemoryNodeManager m search) (some c.id)) (decide (m < c.entries.length))
    (At (allCells above p) root next)
  := by
  have hchild : allCells above p = cell c.id p.id c.entries (c.children.map (·.id))
      + (forest c.id c.children
        + (cell p.id above.parentId p.entries (p.children.map (·.id)) + forest p.id us
          + forest p.id vs + pathCells above p.id)) := by
    rw [allCells_child above hp, cells_eq]
    abel
  exact Yields.bind (yields_read hchild) (Yields.pure _ _)

end Siblings

/-! ### Rebalancing -/

section Rebalance

variable {n id : Nat} {above : UPath (K × V) (n + 2) h} {es es' : List (K × V)}
  {ls rs : List (UTree (K × V) (n + 1))} {t : UTree (K × V) (n + 1)}
  {rebalanceParent : Nat → TreeM (NodeStore K V) Unit}

/-- Rotating left on a path. -/
theorem exists_rotateLeft {l r : UTree (K × V) (n + 1)} {e : K × V} {i : Nat}
    (hneighbours : UPath.Neighbours m above es es' ls rs) (hl : l.Grown m) (hr : r.Full m)
    (hunder : l.entries.length + 1 = m) (hspare : m < r.entries.length) (hi : es.length = i) :
  ∃ (h' : Nat) (t' : UTree (K × V) h'), t'.Rooted m
    ∧ t'.contents
      = above.around (UTree.node id (es ++ e :: es') (ls ++ l :: r :: rs)).contents
    ∧ Yields (At (allCells above (.node id (es ++ e :: es') (ls ++ l :: r :: rs)))
        (above.rootId id) next)
        (rotateLeft (treeMemoryNodeManager m search) l.id id r.id i) ()
        (At (allCells .root t') t'.id next)
  := by
  obtain ⟨first, tail, children, rest, hentries, hsplit, hchildren⟩ :=
    hr.2.2.1.exists_first (Nat.zero_lt_of_lt hspare)
  obtain ⟨hl', hr', hcontents⟩ :=
    hl.rotateLeft hr hunder hspare hentries hsplit hchildren e
  have hfits := hneighbours.fits hl' hr' id first
  refine ⟨h, _, hfits.rooted hneighbours.fullAbove, ?_, ?_⟩
  · rw [UPath.contents_plug _ hneighbours.fullAbove,
      UTree.contents_pair _ _ hneighbours.left hneighbours.right, hcontents,
      UTree.contents_pair _ _ hneighbours.left hneighbours.right]
  · rw [allCells_plug, UPath.id_plug, allCells_pair above id (es ++ first :: es')]
    exact yields_rotateLeft (allCells_pair above id (es ++ e :: es') ls rs l r) hi hentries
      hsplit hchildren

/-- Rotating right on a path. -/
theorem exists_rotateRight {l r : UTree (K × V) (n + 1)} {e : K × V} {i : Nat}
    (hneighbours : UPath.Neighbours m above es es' ls rs) (hl : l.Full m) (hr : r.Grown m)
    (hunder : r.entries.length + 1 = m) (hspare : m < l.entries.length)
    (hi : es.length + 1 = i) :
  ∃ (h' : Nat) (t' : UTree (K × V) h'), t'.Rooted m
    ∧ t'.contents
      = above.around (UTree.node id (es ++ e :: es') (ls ++ l :: r :: rs)).contents
    ∧ Yields (At (allCells above (.node id (es ++ e :: es') (ls ++ l :: r :: rs)))
        (above.rootId id) next)
        (rotateRight (treeMemoryNodeManager m search) r.id id l.id i) ()
        (At (allCells .root t') t'.id next)
  := by
  obtain ⟨init, last, rest, children, hentries, hsplit, hchildren⟩ :=
    hl.2.2.1.exists_last (Nat.zero_lt_of_lt hspare)
  obtain ⟨hl', hr', hcontents⟩ :=
    hr.rotateRight hl hunder hspare hentries hsplit hchildren e
  have hfits := hneighbours.fits hl' hr' id last
  have hne : n ≠ 0 → r.children ≠ [] := by
    intro hn
    exact List.ne_nil_of_length_eq_add_one (hr.linked hn)
  refine ⟨h, _, hfits.rooted hneighbours.fullAbove, ?_, ?_⟩
  · rw [UPath.contents_plug _ hneighbours.fullAbove,
      UTree.contents_pair _ _ hneighbours.left hneighbours.right, hcontents,
      UTree.contents_pair _ _ hneighbours.left hneighbours.right]
  · rw [allCells_plug, UPath.id_plug, allCells_pair above id (es ++ last :: es')]
    exact yields_rotateRight (allCells_pair above id (es ++ e :: es') ls rs l r) hi hentries
      hsplit hchildren hne

/-- Merging a node with a sibling, none of which can spare an entry. -/
theorem exists_mergeWithSibling (hm : 1 ≤ m) (hpath : (UPath.down above id es es' ls rs).Full m)
    (ht : t.Grown m) (hunder : t.entries.length + 1 = m)
    (hright : ∀ r ∈ rs.head?, r.entries.length ≤ m)
    (hleft : ∀ l ∈ ls.getLast?, l.entries.length ≤ m)
    (hup : ∀ t : UTree (K × V) (n + 2), above.length ≠ 0 → t.id = id → t.Grown m →
      t.entries.length + 1 = m →
        ∃ (h' : Nat) (t' : UTree (K × V) h'), t'.Rooted m
          ∧ t'.contents = above.around t.contents
          ∧ Yields (At (allCells above t) (above.rootId id) next) (rebalanceParent id) ()
              (At (allCells .root t') t'.id next)) :
  ∃ (h' : Nat) (t' : UTree (K × V) h'), t'.Rooted m
    ∧ t'.contents = above.around (UTree.node id (es ++ es') (ls ++ t :: rs)).contents
    ∧ Yields (At (allCells above (.node id (es ++ es') (ls ++ t :: rs))) (above.rootId id) next)
        (mergeWithSibling (treeMemoryNodeManager m search) rebalanceParent t.id id ls.length
          (rs.head?.map (·.id)) (ls.getLast?.map (·.id))) ()
        (At (allCells .root t') t'.id next)
  := by
  have hl : ls.length = es.length := hpath.1
  have hr : es'.length = rs.length := hpath.2.1
  cases rs with
  | cons r rs =>
      obtain ⟨e, es', rfl⟩ := List.exists_cons_of_length_eq_add_one hr
      obtain ⟨hneighbours, hfull⟩ := hpath.neighbours_right
      obtain ⟨hmin, -, hgrown⟩ := UTree.full_iff.mp hfull
      have hmost := hright r rfl
      exact yields_merge hneighbours ht hgrown (by omega) (congrArg Nat.cast hl.symm) hup
  | nil =>
      rcases ls.eq_nil_or_concat with rfl | ⟨ls, l, rfl⟩
      · have hleast := hpath.2.2.1
        have hone := above.one_le_least hm
        rw [← hl, hr] at hleast
        exact absurd (Nat.le_trans hone hleast) (Nat.not_succ_le_zero 0)
      · rw [List.concat_eq_append] at *
        rw [List.length_append, List.length_singleton] at hl
        obtain ⟨es, e, rfl⟩ := (List.eq_nil_or_concat es).resolve_left
          (List.ne_nil_of_length_eq_add_one hl.symm)
        rw [List.concat_eq_append] at *
        obtain ⟨hneighbours, hfull⟩ := hpath.neighbours_left
        obtain ⟨hmin, -, hgrown⟩ := UTree.full_iff.mp hfull
        have hmost := hleft l (by simp)
        have hi : (es.length : Int) = ((ls ++ [l]).length : Int) - 1 := by
          rw [List.length_append, List.length_singleton, hneighbours.left]
          omega
        obtain ⟨h', t', hrooted, hcontents, hyields⟩ :=
          yields_merge hneighbours hgrown ht (by omega) hi hup
        refine ⟨h', t', hrooted, ?_, ?_⟩
        · simpa using hcontents
        · simpa [mergeWithSibling] using hyields

/-- What is done with a left sibling. -/
theorem yields_rotateRightOrMerge_left {p : UTree (K × V) (n + 2)}
    {us vs : List (UTree (K × V) (n + 1))} {l : UTree (K × V) (n + 1)} {this i : Nat}
    {rightSibling : Option Nat} {Q : NodeStore K V → Prop} (hp : p.children = us ++ l :: vs)
    (hi : us.length + 1 = i)
    (hrest : Yields (At (allCells above p) root next)
      (if m < l.entries.length then
        rotateRight (treeMemoryNodeManager m search) this p.id l.id i
      else
        mergeWithSibling (treeMemoryNodeManager m search) rebalanceParent this p.id i
          rightSibling (some l.id)) () Q) :
  Yields (At (allCells above p) root next)
    (rotateRightOrMerge (treeMemoryNodeManager m search) rebalanceParent this p.id i
      rightSibling) () Q
  := by
  have hposition : us.length = i - 1 := by omega
  rw [rotateRightOrMerge, if_pos (by omega)]
  apply Yields.bind (yields_sibling hp hposition)
  apply Yields.bind (yields_canSpare hp)
  by_cases hspare : m < l.entries.length
  · rw [if_pos hspare] at hrest
    rw [decide_eq_true hspare]
    exact hrest
  · rw [if_neg hspare] at hrest
    rw [decide_eq_false hspare]
    exact hrest

/-- Taking an entry from the left sibling or merging, when the right sibling cannot spare an
entry. -/
theorem exists_rotateRightOrMerge (hm : 1 ≤ m) (hpath : (UPath.down above id es es' ls rs).Full m)
    (ht : t.Grown m) (hunder : t.entries.length + 1 = m)
    (hright : ∀ r ∈ rs.head?, r.entries.length ≤ m)
    (hup : ∀ t : UTree (K × V) (n + 2), above.length ≠ 0 → t.id = id → t.Grown m →
      t.entries.length + 1 = m →
        ∃ (h' : Nat) (t' : UTree (K × V) h'), t'.Rooted m
          ∧ t'.contents = above.around t.contents
          ∧ Yields (At (allCells above t) (above.rootId id) next) (rebalanceParent id) ()
              (At (allCells .root t') t'.id next)) :
  ∃ (h' : Nat) (t' : UTree (K × V) h'), t'.Rooted m
    ∧ t'.contents = above.around (UTree.node id (es ++ es') (ls ++ t :: rs)).contents
    ∧ Yields (At (allCells above (.node id (es ++ es') (ls ++ t :: rs))) (above.rootId id) next)
        (rotateRightOrMerge (treeMemoryNodeManager m search) rebalanceParent t.id id ls.length
          (rs.head?.map (·.id))) ()
        (At (allCells .root t') t'.id next)
  := by
  have hl : ls.length = es.length := hpath.1
  rcases ls.eq_nil_or_concat with rfl | ⟨ls, l, rfl⟩
  · obtain ⟨h', t', hrooted, hcontents, hyields⟩ :=
      exists_mergeWithSibling hm hpath ht hunder hright (by simp) hup
    refine ⟨h', t', hrooted, hcontents, ?_⟩
    apply Yields.bind (Yields.pure _ none)
    apply Yields.bind (Yields.pure _ false)
    exact hyields
  · rw [List.concat_eq_append] at *
    have hchildren : (UTree.node id (es ++ es') ((ls ++ [l]) ++ t :: rs)).children
        = ls ++ l :: t :: rs := by
      rw [UTree.children_node, List.append_assoc, List.singleton_append]
    have hi : ls.length + 1 = (ls ++ [l]).length := by
      rw [List.length_append, List.length_singleton]
    by_cases hspare : m < l.entries.length
    · obtain ⟨es, e, rfl⟩ := (List.eq_nil_or_concat es).resolve_left
        (List.ne_nil_of_length_eq_add_one (hl.symm.trans hi.symm))
      rw [List.concat_eq_append] at *
      obtain ⟨hneighbours, hfull⟩ := hpath.neighbours_left
      have hindex : es.length + 1 = (ls ++ [l]).length := by rw [← hi, hneighbours.left]
      obtain ⟨h', t', hrooted, hcontents, hyields⟩ :=
        exists_rotateRight hneighbours hfull ht hunder hspare hindex
      refine ⟨h', t', hrooted, ?_, ?_⟩
      · simpa using hcontents
      · apply yields_rotateRightOrMerge_left hchildren hi
        rw [if_pos hspare]
        simpa using hyields
    · have hlast : ∀ l' ∈ (ls ++ [l]).getLast?, l'.entries.length ≤ m := by
        intro l' hl'
        rw [List.getLast?_concat, Option.mem_some] at hl'
        subst hl'
        exact Nat.le_of_not_lt hspare
      obtain ⟨h', t', hrooted, hcontents, hyields⟩ :=
        exists_mergeWithSibling hm hpath ht hunder hright hlast hup
      refine ⟨h', t', hrooted, hcontents, ?_⟩
      apply yields_rotateRightOrMerge_left hchildren hi
      rw [if_neg hspare]
      rw [List.getLast?_concat] at hyields
      exact hyields

/-- What is done without a right sibling. -/
theorem yields_rebalance_last {steps : Nat} {Q : NodeStore K V → Prop}
    (hrest : Yields (At (allCells (.down above id es es' ls []) t) root next)
      (rotateRightOrMerge (treeMemoryNodeManager m search)
        (rebalance (treeMemoryNodeManager m search) steps) t.id id ls.length none) () Q) :
  Yields (At (allCells (.down above id es es' ls []) t) root next)
    (rebalance (treeMemoryNodeManager m search) (steps + 1) t.id) () Q
  := by
  have hparent := allCells_above above id es es' ls [] t
  rw [List.map_nil] at hparent
  have hlast : ¬ ls.length + 1 < (ls.map (·.id) ++ [t.id]).length := by
    rw [List.length_append, List.length_map, List.length_singleton]
    exact Nat.lt_irrefl _
  rw [rebalance]
  apply Yields.bind yields_indexInParent
  apply Yields.bind (yields_read_focus _ t)
  apply Yields.bind (yields_found hparent)
  apply Yields.bind (yields_read hparent)
  rw [if_neg hlast]
  apply Yields.bind (Yields.pure _ none)
  apply Yields.bind (Yields.pure _ false)
  exact hrest

/-- What is done with a right sibling. -/
theorem yields_rebalance_right {steps : Nat} {r : UTree (K × V) (n + 1)}
    {Q : NodeStore K V → Prop}
    (hrest : Yields (At (allCells above (.node id (es ++ es') (ls ++ t :: r :: rs))) root next)
      (if m < r.entries.length then
        rotateLeft (treeMemoryNodeManager m search) t.id id r.id ls.length
      else
        rotateRightOrMerge (treeMemoryNodeManager m search)
          (rebalance (treeMemoryNodeManager m search) steps) t.id id ls.length (some r.id)) () Q) :
  Yields (At (allCells (.down above id es es' ls (r :: rs)) t) root next)
    (rebalance (treeMemoryNodeManager m search) (steps + 1) t.id) () Q
  := by
  have hcells := allCells_down above id es es' ls (r :: rs) t
  have hparent := hcells.trans (allCells_eq above _)
  have hchildren : (UTree.node id (es ++ es') (ls ++ t :: r :: rs)).children
      = (ls ++ [t]) ++ r :: rs := by
    rw [UTree.children_node, List.append_assoc, List.singleton_append]
  have hposition : (ls ++ [t]).length = ls.length + 1 := by
    rw [List.length_append, List.length_singleton]
  have hnext : ls.length + 1 < ((ls ++ t :: r :: rs).map (·.id)).length := by
    rw [List.length_map, List.length_append, List.length_cons, List.length_cons]
    omega
  rw [rebalance]
  apply Yields.bind yields_indexInParent
  apply Yields.bind (yields_read_focus _ t)
  apply Yields.bind (yields_found hparent)
  apply Yields.bind (yields_read hparent)
  dsimp only
  rw [UTree.children_node, if_pos hnext, hcells]
  apply Yields.bind (yields_sibling hchildren hposition)
  apply Yields.bind (yields_canSpare hchildren)
  by_cases hspare : m < r.entries.length
  · rw [if_pos hspare] at hrest
    rw [decide_eq_true hspare]
    exact hrest
  · rw [if_neg hspare] at hrest
    rw [decide_eq_false hspare]
    exact hrest

end Rebalance

/-- Rebalancing a node with one entry too few leaves a tree with the same entries in order. -/
theorem yields_rebalance (hm : 1 ≤ m) {h : Nat} :
  ∀ {n : Nat} (path : UPath (K × V) (n + 1) h) (t : UTree (K × V) (n + 1)) {steps : Nat},
    path.length ≠ 0 → path.Full m → t.Grown m → t.entries.length + 1 = m →
      path.length ≤ steps →
        ∃ (h' : Nat) (t' : UTree (K × V) h'), t'.Rooted m
          ∧ t'.contents = path.around t.contents
          ∧ Yields (At (allCells path t) (path.rootId t.id) next)
              (rebalance (treeMemoryNodeManager m search) steps t.id) ()
              (At (allCells .root t') t'.id next)
  | n, .root, t, steps, hlength, _, _, _, _ => absurd rfl hlength
  | n, .down above id es es' ls rs, t, steps + 1, _, hpath, ht, hunder, hsteps => by
      have habove := hpath.2.2.2.2.2.2
      have hup : ∀ u : UTree (K × V) (n + 2), above.length ≠ 0 → u.id = id → u.Grown m →
          u.entries.length + 1 = m →
            ∃ (h' : Nat) (t' : UTree (K × V) h'), t'.Rooted m
              ∧ t'.contents = above.around u.contents
              ∧ Yields (At (allCells above u) (above.rootId id) next)
                  (rebalance (treeMemoryNodeManager m search) steps id) ()
                  (At (allCells .root t') t'.id next) := by
        rintro u hlength rfl hu hunder'
        exact yields_rebalance hm above u hlength habove hu hunder' (Nat.le_of_succ_le_succ hsteps)
      rw [UPath.around_down above id t hpath.1 hpath.2.1]
      cases rs with
      | nil =>
          obtain ⟨h', t', hrooted, hcontents, hyields⟩ :=
            exists_rotateRightOrMerge hm hpath ht hunder (by simp) hup
          refine ⟨h', t', hrooted, hcontents, ?_⟩
          rw [← allCells_down] at hyields
          exact yields_rebalance_last hyields
      | cons r rs =>
          by_cases hspare : m < r.entries.length
          · obtain ⟨e, es', rfl⟩ := List.exists_cons_of_length_eq_add_one hpath.2.1
            obtain ⟨hneighbours, hfull⟩ := hpath.neighbours_right
            obtain ⟨h', t', hrooted, hcontents, hyields⟩ :=
              exists_rotateLeft hneighbours ht hfull hunder hspare hneighbours.left.symm
            refine ⟨h', t', hrooted, hcontents, ?_⟩
            apply yields_rebalance_right
            rw [if_pos hspare]
            exact hyields
          · have hfirst : ∀ r' ∈ (r :: rs).head?, r'.entries.length ≤ m := by
              intro r' hr'
              rw [List.head?_cons, Option.mem_some] at hr'
              subst hr'
              exact Nat.le_of_not_lt hspare
            obtain ⟨h', t', hrooted, hcontents, hyields⟩ :=
              exists_rotateRightOrMerge hm hpath ht hunder hfirst hup
            refine ⟨h', t', hrooted, hcontents, ?_⟩
            apply yields_rebalance_right
            rw [if_neg hspare]
            exact hyields

end TreeNode

end Datatent.BTree
