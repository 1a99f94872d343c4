import Datatent.CoreOld.Tree.Inserting
import Datatent.CoreOld.Tree.Rebalancing
import Datatent.CoreOld.Tree.Scanning

/-!
# Removing entries

`Tree.Delete` lets an enumerator find the first entry from a key on, and removes it. The entry
is in a leaf or above the end of a child (`Located`); in the second case the largest entry
below on its left takes its place.
-/

namespace Datatent.BTree

variable {K V : Type} {m h root next : Nat}

/-! ### The largest entry below a node -/

/-- A way down from any place of a tree that has the given subtree: it ends in a leaf, and
nothing of the subtree comes after the leaf. -/
structure RightWay (m : Nat) {n : Nat} (c : UTree (K × V) (n + 1)) (leaf : UTree (K × V) 1)
    (before : List (K × V)) (path : UPath (K × V) (n + 1) h) (path' : UPath (K × V) 1 h) :
    Prop where
  full : path'.Full m
  fits : path'.Fits m leaf
  plug : path'.plug leaf = path.plug c
  before : path'.before = path.before ++ before
  after : path'.after = path.after

/-- The end of a way from a node down is stored as the node is. -/
theorem RightWay.allCells_eq {n : Nat} {c : UTree (K × V) (n + 1)} {leaf : UTree (K × V) 1}
    {before : List (K × V)} {path : UPath (K × V) (n + 1) h} {path' : UPath (K × V) 1 h}
    (h : RightWay m c leaf before path path') :
  allCells path' leaf = allCells path c
  := by
  rw [← allCells_plug, h.plug, allCells_plug]

/-- The end of a way from a node down is below the same root node. -/
theorem RightWay.rootId_eq {n : Nat} {c : UTree (K × V) (n + 1)} {leaf : UTree (K × V) 1}
    {before : List (K × V)} {path : UPath (K × V) (n + 1) h} {path' : UPath (K × V) 1 h}
    (h : RightWay m c leaf before path path') :
  path'.rootId leaf.id = path.rootId c.id
  := by
  rw [← UPath.id_plug, h.plug, UPath.id_plug]

variable [LinearOrder K] {search : EntrySearch K V}

namespace TreeNode

/-- The largest entry below a node is the last entry of a leaf. -/
theorem exists_largest (search : EntrySearch K V) (hm : 1 ≤ m) {h : Nat} :
  ∀ {n : Nat} (c : UTree (K × V) (n + 1)), c.Grown m →
    ∃ (leaf : UTree (K × V) 1) (before : List (K × V)), c.contents = before ++ leaf.entries
      ∧ ∃ extend : UPath (K × V) (n + 1) h → UPath (K × V) 1 h,
        ∀ path, path.Full m → path.Fits m c → RightWay m c leaf before path (extend path)
          ∧ ∀ {steps root next : Nat}, n < steps → Yields (At (allCells path c) root next)
              (findLargest (treeMemoryNodeManager m search) steps c.id)
              (leaf.id, (leaf.entries.length : Int) - 1) (At (allCells path c) root next)
  | 0, c, _ => by
      refine ⟨c, [], UTree.contents_leaf c, fun path => path, ?_⟩
      intro path hpath hfits
      refine ⟨⟨hpath, hfits, rfl, (List.append_nil _).symm, rfl⟩, ?_⟩
      rintro (_ | steps) root next hsteps
      · exact absurd hsteps (Nat.not_lt_zero 0)
      · rw [findLargest]
        apply Yields.bind (yields_read_focus path c)
        apply Yields.ite_pos (isLeaf_of_one _ _ c)
        exact Yields.pure _ _
  | n + 1, c, hc => by
      obtain ⟨ls, d, rs, heq, hl, hr⟩ := hc.linked.exists_child (List.append_nil c.entries).symm
      obtain rfl := List.eq_nil_of_length_eq_zero hr.symm
      have hd : d ∈ c.children := by
        rw [heq, UTree.children_node]
        exact List.mem_append_right ls List.mem_cons_self
      obtain ⟨leaf, before, hcontents, extend, hextend⟩ :=
        exists_largest search hm d (UTree.full_iff.mp (hc.full d hd)).2.2
      refine ⟨leaf, followed (ls.map UTree.contents) c.entries ++ before, ?_,
        fun path => extend (path.down c.id c.entries [] ls []), ?_⟩
      · have hnode := congrArg UTree.contents heq
        rw [UTree.contents_node d hl hr, hcontents] at hnode
        simpa using hnode
      · intro path hpath hfits
        have hbelow := hfits
        rw [heq] at hbelow
        obtain ⟨hfull, hfulld⟩ := hbelow.below hpath hl hr
        obtain ⟨hway, hyields⟩ := hextend _ hfull (UPath.full_fits hfulld)
        have hcells := allCells_down path c.id c.entries [] ls [] d
        rw [← heq] at hcells
        refine ⟨⟨hway.full, hway.fits, ?_, ?_, ?_⟩, ?_⟩
        · rw [hway.plug, UPath.plug, ← heq]
        · rw [hway.before, UPath.before, List.append_assoc]
        · rw [hway.after, UPath.after, List.map_nil, preceded_nil, List.nil_append]
        · rintro (_ | steps) root next hsteps
          · exact absurd hsteps (Nat.not_lt_zero _)
          · have hlast : (item (c.children.map (·.id)) ((c.children.map (·.id)).length - 1)
                : TreeM (NodeStore K V) Nat) = pure d.id := by
              rw [heq, UTree.children_node, List.map_append, List.map_cons, List.map_nil]
              apply item_append
              rw [List.length_append, List.length_singleton, Nat.add_sub_cancel]
            have hchild : allCells path c = cells c.id d
                + pathCells (path.down c.id c.entries [] ls []) d.id := hcells.symm
            rw [findLargest]
            apply Yields.bind (yields_read_focus path c)
            apply Yields.ite_neg (not_isLeaf _ _ hc.linked)
            apply Yields.bind_eq hlast
            apply Yields.bind (yields_found_cells hchild)
            rw [← hcells]
            exact hyields (Nat.lt_of_succ_lt_succ hsteps)

/-! ### Removing an entry -/

/-- Removing an entry of a leaf. -/
theorem yields_remove_leaf (hm : 1 ≤ m) {path : UPath (K × V) 1 h} {t : UTree (K × V) 1}
    {steps : Nat} {before after : List (K × V)} {e : K × V} (hpath : path.Full m)
    (hfits : path.Fits m t) (hentries : t.entries = before ++ e :: after)
    (hsteps : path.length ≤ steps + 1) :
  ∃ (h' : Nat) (t' : UTree (K × V) h'), t'.Rooted m
    ∧ t'.contents = (path.before ++ before) ++ (after ++ path.after)
    ∧ Yields (At (allCells path t) (path.rootId t.id) next)
        (remove (treeMemoryNodeManager m search) (steps + 1) t.id before.length) ()
        (At (allCells .root t') t'.id next)
  := by
  let leaf : UTree (K × V) 1 := .node t.id (before ++ after) t.children
  have hcells : allCells path t = cell t.id path.parentId (before ++ e :: after)
      (t.children.map (·.id)) + (forest t.id t.children + pathCells path t.id) := by
    rw [allCells_eq, hentries]
  have hafter : cell t.id path.parentId (before ++ after) (t.children.map (·.id))
      + (forest t.id t.children + pathCells path t.id) = allCells path leaf :=
    (allCells_eq path leaf).symm
  have hgrown : leaf.Grown m := ⟨fun h => absurd rfl h, hfits.2.2.full⟩
  have hcontents : path.around leaf.contents
      = (path.before ++ before) ++ (after ++ path.after) := by
    rw [UTree.contents_leaf]
    simp [leaf, UPath.around]
  have hsize : leaf.entries.length = (before ++ after).length := rfl
  have hlength : t.entries.length = (before ++ after).length + 1 := by
    rw [hentries, List.length_append, List.length_append, List.length_cons]
    rfl
  have hstart : ∀ {Q : NodeStore K V → Prop},
      Yields (At (allCells path leaf) (path.rootId t.id) next)
        (if m ≤ (before ++ after).length ∨ path.parentId = 0 then pure ()
          else rebalance (treeMemoryNodeManager m search) (steps + 1) t.id) () Q →
      Yields (At (allCells path t) (path.rootId t.id) next)
        (remove (treeMemoryNodeManager m search) (steps + 1) t.id before.length) () Q := by
    intro Q hrest
    rw [remove]
    apply Yields.bind (yields_read hcells)
    apply Yields.ite_neg
    · exact fun hnegative => absurd hnegative.1 (Int.not_lt.mpr (Int.natCast_nonneg _))
    · apply Yields.ite_pos (isLeaf_of_one _ _ t)
      rw [Int.toNat_natCast]
      apply Yields.bind_eq (removeAt_append rfl)
      apply Yields.bind (yields_write hcells)
      apply Yields.bind (Yields.pure _ ())
      rw [hafter]
      exact hrest
  have hkeep : path.least m ≤ leaf.entries.length →
      (m ≤ (before ++ after).length ∨ path.parentId = 0) →
        ∃ (h' : Nat) (t' : UTree (K × V) h'), t'.Rooted m
          ∧ t'.contents = (path.before ++ before) ++ (after ++ path.after)
          ∧ Yields (At (allCells path t) (path.rootId t.id) next)
              (remove (treeMemoryNodeManager m search) (steps + 1) t.id before.length) ()
              (At (allCells .root t') t'.id next) := by
    intro hleast henough
    have hmost := hfits.2.1
    have hfits' : path.Fits m leaf := ⟨hleast, by omega, hgrown⟩
    refine ⟨h, path.plug leaf, hfits'.rooted hpath, ?_, ?_⟩
    · rw [UPath.contents_plug leaf hpath, hcontents]
    · rw [allCells_plug, UPath.id_plug]
      apply hstart
      exact (Yields.pure _ ()).ite_pos henough
  cases path with
  | root => exact hkeep (Nat.zero_le _) (.inr rfl)
  | down above id es es' ls rs =>
      by_cases henough : m ≤ (before ++ after).length
      · exact hkeep henough (.inl henough)
      · have hleast : m ≤ t.entries.length := hfits.1
        have hunder : leaf.entries.length + 1 = m := by omega
        obtain ⟨h', t', hrooted, ht', hyields⟩ :=
          yields_rebalance hm (.down above id es es' ls rs) leaf (Nat.succ_ne_zero _) hpath
            hgrown hunder hsteps
        have hparent := allCells_above above id es es' ls rs leaf
        refine ⟨h', t', hrooted, ht'.trans hcontents, ?_⟩
        apply hstart
        apply Yields.of_fact (fun store hat => hat.id_pos hparent)
        intro hpos
        apply Yields.ite_neg
        · rintro (hle | hzero)
          · exact henough hle
          · exact absurd hzero (Nat.ne_of_gt hpos)
        · exact hyields

/-- Removing an entry above the end of a child. -/
theorem yields_remove_inner (hm : 1 ≤ m) {n id steps : Nat} {above : UPath (K × V) (n + 2) h}
    {es es' rest : List (K × V)} {e : K × V} {ls rs : List (UTree (K × V) (n + 1))}
    {c : UTree (K × V) (n + 1)} (hpath : (UPath.down above id es (e :: es') ls rs).Full m)
    (hc : c.Full m) (hafter : (UPath.down above id es (e :: es') ls rs).after = e :: rest)
    (hsteps : h ≤ steps) :
  ∃ (h' : Nat) (t' : UTree (K × V) h'), t'.Rooted m
    ∧ t'.contents
      = ((UPath.down above id es (e :: es') ls rs).before ++ c.contents) ++ rest
    ∧ Yields (At (allCells (.down above id es (e :: es') ls rs) c) (above.rootId id) next)
        (remove (treeMemoryNodeManager m search) (steps + 1) id es.length) ()
        (At (allCells .root t') t'.id next)
  := by
  obtain ⟨leaf, before, hcontents, extend, hextend⟩ :=
    exists_largest search hm c (UTree.full_iff.mp hc).2.2
  have hchange : ∀ x : K × V, (UPath.down above id es (x :: es') ls rs).Full m
      ∧ (UPath.down above id es (x :: es') ls rs).after = x :: rest := by
    intro x
    obtain ⟨r, rs, rfl⟩ := List.exists_cons_of_length_eq_add_one hpath.2.1.symm
    refine ⟨hpath, ?_⟩
    rw [UPath.after, List.map_cons, preceded_cons, List.cons_append, List.cons.injEq] at hafter ⊢
    exact ⟨rfl, hafter.2⟩
  obtain ⟨hway, hlargest⟩ := hextend _ hpath (UPath.full_fits hc)
  have hlong : ∀ path : UPath (K × V) 1 h, path.length ≠ 0 := by
    intro path
    have hlength := path.length_add
    have hlength' := above.length_add
    omega
  have hpos : 0 < leaf.entries.length := by
    have hleast := hway.fits.1
    rw [UPath.least_eq (hlong _)] at hleast
    omega
  obtain ⟨init, last, hentries⟩ :=
    (List.eq_nil_or_concat leaf.entries).resolve_left (List.ne_nil_of_length_pos hpos)
  rw [List.concat_eq_append] at hentries
  obtain ⟨hpath', hafter'⟩ := hchange last
  obtain ⟨hway', -⟩ := hextend _ hpath' (UPath.full_fits hc)
  obtain ⟨steps, rfl⟩ : ∃ s, steps = s + 1 := by
    have hlength := above.length_add
    exact ⟨steps - 1, by omega⟩
  have hbound : (extend (.down above id es (last :: es') ls rs)).length ≤ steps + 1 := by
    have hlength := (extend (.down above id es (last :: es') ls rs)).length_add
    omega
  obtain ⟨h', t', hrooted, ht', hremove⟩ :=
    yields_remove_leaf hm hway'.full hway'.fits hentries hbound
  refine ⟨h', t', hrooted, ?_, ?_⟩
  · rw [ht', hway'.before, hway'.after, hafter', hcontents, hentries]
    simp [UPath.before]
  · have hnode := (allCells_down above id es (e :: es') ls rs c).trans (allCells_eq above _)
    have hfits := hpath.node_fits hc
    rw [UTree.children_node, UTree.entries_node] at hnode
    have hitem : (item ((ls ++ c :: rs).map (·.id)) es.length : TreeM (NodeStore K V) Nat)
        = pure c.id := by
      rw [List.map_append, List.map_cons]
      apply item_append
      rw [List.length_map]
      exact hpath.1
    have hchild : allCells (.down above id es (e :: es') ls rs) c
        = cells id c + pathCells (.down above id es (e :: es') ls rs) c.id := rfl
    have hleaf : allCells (.down above id es (e :: es') ls rs) c
        = cell leaf.id (extend (.down above id es (e :: es') ls rs)).parentId (init ++ [last])
            (leaf.children.map (·.id))
          + (forest leaf.id leaf.children
            + pathCells (extend (.down above id es (e :: es') ls rs)) leaf.id) := by
      rw [← hway.allCells_eq, allCells_eq, hentries]
    have hindex : (init.length : Int) = (leaf.entries.length : Int) - 1 := by
      rw [hentries, List.length_append, List.length_singleton]
      omega
    have hwrite : cell id above.parentId (es ++ last :: es') ((ls ++ c :: rs).map (·.id))
          + (forest id (ls ++ c :: rs) + pathCells above id)
        = allCells (extend (.down above id es (last :: es') ls rs)) leaf := by
      rw [hway'.allCells_eq, allCells_down, allCells_eq]
      rfl
    have hroot : (extend (.down above id es (last :: es') ls rs)).rootId leaf.id
        = above.rootId id := hway'.rootId_eq
    have hdown : n < steps + 1 := by
      have hlength := above.length_add
      omega
    rw [hroot, ← hwrite, hindex] at hremove
    rw [remove]
    apply Yields.bind (yields_read hnode)
    apply Yields.ite_neg
    · exact fun hnegative => absurd hnegative.1 (Int.not_lt.mpr (Int.natCast_nonneg _))
    · apply Yields.ite_neg (not_isLeaf _ _ hfits.2.2.linked)
      rw [Int.toNat_natCast]
      apply Yields.bind_eq hitem
      apply Yields.bind (yields_found_cells hchild)
      apply Yields.bind (hlargest hdown)
      apply Yields.bind (yields_getEntry hleaf hindex)
      apply Yields.bind_eq (setItem_append rfl)
      apply Yields.bind (yields_write hnode)
      apply Yields.bind (Yields.pure _ ())
      exact hremove

end TreeNode

/-! ### The first entry from a key on -/

/-- Where an entry of a tree is, with the entries before and after it: in a leaf, or above the
end of a child. -/
inductive Located (m : Nat) (t : UTree (K × V) h) :
    Nat → Nat → List (K × V) → K × V → List (K × V) → Prop where
  | leaf {path : UPath (K × V) 1 h} {leaf : UTree (K × V) 1} {before after : List (K × V)}
      {e : K × V} (full : path.Full m) (fits : path.Fits m leaf) (plug : path.plug leaf = t)
      (entries : leaf.entries = before ++ e :: after) :
      Located m t leaf.id before.length (path.before ++ before) e (after ++ path.after)
  | inner {n id : Nat} {above : UPath (K × V) (n + 2) h} {es es' rest : List (K × V)} {e : K × V}
      {ls rs : List (UTree (K × V) (n + 1))} {c : UTree (K × V) (n + 1)}
      (full : (UPath.down above id es (e :: es') ls rs).Full m) (child : c.Full m)
      (plug : (UPath.down above id es (e :: es') ls rs).plug c = t)
      (after : (UPath.down above id es (e :: es') ls rs).after = e :: rest) :
      Located m t id es.length ((UPath.down above id es (e :: es') ls rs).before ++ c.contents) e
        rest

/-- Removing a located entry leaves the entries before and after it. -/
theorem Located.yields_remove (hm : 1 ≤ m) {t : UTree (K × V) h} {id i steps : Nat}
    {before after : List (K × V)} {e : K × V} (hlocated : Located m t id i before e after)
    (hsteps : h < steps) :
  ∃ (h' : Nat) (t' : UTree (K × V) h'), t'.Rooted m ∧ t'.contents = before ++ after
    ∧ Yields (At (allCells .root t) t.id next)
        (TreeNode.remove (treeMemoryNodeManager m search) steps id i) ()
        (At (allCells .root t') t'.id next)
  := by
  obtain ⟨steps, rfl⟩ : ∃ s, steps = s + 1 := ⟨steps - 1, by omega⟩
  cases hlocated with
  | @leaf path leaf before after e hpath hfits hplug hentries =>
      have hlength := path.length_add
      subst hplug
      rw [allCells_plug, UPath.id_plug]
      exact TreeNode.yields_remove_leaf hm hpath hfits hentries (by omega)
  | inner hpath hc hplug hafter =>
      subst hplug
      rw [allCells_plug, UPath.id_plug]
      exact TreeNode.yields_remove_inner hm hpath hc hafter (Nat.le_of_lt_succ hsteps)

/-- What a move to the next entry comes to, with the entries of the tree that are passed and
those that are not: the enumerator is at the first of these, if there is one. -/
def AtFirst (m : Nat) (t : UTree (K × V) h) (before : List (K × V)) :
    List (K × V) → Bool × TreeEnumerator K V → Prop
  | [], result => result.1 = false
  | e :: after, result => result.1 = true ∧ result.2.current = some e
      ∧ ∃ i : Nat, result.2.currentEntry = i ∧ Located m t result.2.currentNode i before e after

omit [LinearOrder K] in
/-- A place in a tree whose nodes are full. -/
theorem Located.of_place {t : UTree (K × V) h} {id i : Nat} {before after : List (K × V)}
    {e : K × V} (ht : t.Rooted m) (hplace : Place t id i before e after) :
  Located m t id i before e after
  := by
  cases hplace with
  | leaf hpath hplug hentries =>
      rw [← hplug] at ht
      obtain ⟨hfull, hfits⟩ := UPath.of_rooted hpath ht
      exact .leaf hfull hfits hplug hentries
  | @inner n id above es es' e ls rs l r hpath hl hplug =>
      have hplug : (UPath.down above id es (e :: es') ls (r :: rs)).plug l = t := hplug
      rw [← hplug] at ht
      obtain ⟨hfull, hfits⟩ := UPath.of_rooted hpath ht
      exact .inner hfull hfits.full hplug (Place.after_cons above id es es' e ls rs l r)

omit [LinearOrder K] in
/-- The first entry that a move forward comes to. -/
theorem AtFirst.of_atNext {t : UTree (K × V) h} (ht : t.Rooted m) {before : List (K × V)} :
  ∀ {after : List (K × V)} {result : Bool × TreeEnumerator K V}, AtNext t before after result →
    AtFirst m t before after result
  | [], _, hnext => hnext
  | _ :: _, _, ⟨hmoved, hcurrent, _, i, hentry, hplace⟩ =>
      ⟨hmoved, hcurrent, i, hentry, .of_place ht hplace⟩

/-! ### Deleting from a tree -/

/-- The enumerator finds the first entry from a key on. -/
theorem Stores.exists_first {allow : Bool} {contents : List (K × V)} {store : NodeStore K V}
    (search : EntrySearch K V) (hm : 1 ≤ m) (hstore : Stores m allow contents store) (key : K) :
  ∃ (h next : Nat) (t : UTree (K × V) h) (before after : List (K × V))
    (enumerator : TreeEnumerator K V) (result : Bool × TreeEnumerator K V), t.contents = contents
    ∧ t.Rooted m ∧ h < next ∧ At (allCells .root t) t.id next store
    ∧ contents = before ++ after ∧ (∀ e ∈ before, e.1 < key) ∧ (∀ e ∈ after, key ≤ e.1)
    ∧ AtNext t before after result
    ∧ Yields (At (allCells .root t) t.id next)
        ((memoryTree m search allow).largerThanOrEqualTo key) enumerator
        (At (allCells .root t) t.id next)
    ∧ Yields (At (allCells .root t) t.id next)
        (TreeEnumerator.moveNext (treeMemoryNodeManager m search) next enumerator) result
        (At (allCells .root t) t.id next)
  := by
  obtain ⟨hinOrder, h, next, t, ht, rfl, hat⟩ := hstore
  have hnext := hat.height_lt ht
  cases h with
  | zero => exact t.elim
  | succ n =>
      have hordered : Ordered ((UPath.root : UPath (K × V) (n + 1) (n + 1)).around t.contents) := by
        rw [UPath.around_root]
        exact hinOrder.ordered
      obtain ⟨path, leaf, result, before, after, hplug, hstarts, hfind⟩ :=
        exists_findNodeForIteration search allow true key m t.id next .root t trivial
          (UPath.Fits.soundTop hm ht) (fun hne => absurd rfl hne) hordered
          (UPath.root_surrounded _ _) (Nat.lt_of_succ_lt hnext)
      have htree : path.plug leaf = t := hplug
      have hsteps : path.length < next := by
        have hlength := path.length_add
        omega
      have hcells : allCells path leaf = allCells .root t := by rw [← allCells_plug, htree]
      obtain ⟨moved, hfirst, hmove⟩ := exists_moveForward_leaf search m t.id next none
        hstarts.sound hstarts.leafSound hstarts.entries hsteps
      rw [htree] at hfirst
      rw [hcells] at hmove
      refine ⟨n + 1, next, t, path.before ++ before, after ++ path.after, _, moved, rfl, ht, hnext,
        hat, ?_, hstarts.left, hstarts.right, hfirst, ?_, hmove⟩
      · rw [← htree, hstarts.contents_eq]
      · apply Yields.bind (yields_steps _)
        apply Yields.bind (yields_root _)
        apply Yields.bind hfind
        rw [hstarts.position]
        exact Yields.pure _ _

/-- Deleting the entry with a key: `true` is returned when there was one. No node is created. -/
theorem Stores.delete {contents : List (K × V)} {store : NodeStore K V}
    (search : EntrySearch K V) (hm : 1 ≤ m) (hstore : Stores m false contents store) (key : K) :
  (∃ before e after store', contents = before ++ e :: after ∧ e.1 = key
      ∧ (memoryTree m search false).delete key store = .ok true store'
      ∧ Stores m false (before ++ after) store' ∧ store'.idCounter = store.idCounter)
    ∨ ((∀ e ∈ contents, e.1 ≠ key)
      ∧ (memoryTree m search false).delete key store = .ok false store)
  := by
  have hinOrder := hstore.1
  obtain ⟨h, next, t, before, after, enumerator, ⟨moved, reached⟩, rfl, ht, hnext, hat, hsplit,
    hbefore, hafter, hmoved, hlarger, hmove⟩ := hstore.exists_first search hm key
  have hfirst := AtFirst.of_atNext ht hmoved
  have hprefix : ∀ {found : Bool} {Q : NodeStore K V → Prop},
      Yields (At (allCells .root t) t.id next)
        ((memoryTree m search false).removeCurrent key next moved reached) found Q →
      Yields (At (allCells .root t) t.id next) ((memoryTree m search false).delete key) found
        Q := by
    intro found Q hrest
    apply Yields.ite_neg Bool.false_ne_true
    apply Yields.bind hlarger
    apply Yields.bind (yields_steps _)
    exact Yields.bind hmove hrest
  rw [hsplit] at hinOrder ⊢
  cases after with
  | nil =>
      right
      constructor
      · intro e he
        rw [List.append_nil] at he
        exact ne_of_lt (hbefore e he)
      · obtain rfl : moved = false := hfirst
        obtain ⟨store', heq, hat'⟩ := hprefix (Yields.pure _ false) store hat
        rw [heq, hat.unique hat']
  | cons e after =>
      obtain ⟨rfl, hcurrent, i, hentry, hlocated⟩ := hfirst
      by_cases hkey : e.1 = key
      · left
        obtain ⟨h', t', hrooted, hcontents, hremove⟩ := hlocated.yields_remove hm hnext
        have hremoved : Yields (At (allCells .root t) t.id next)
            ((memoryTree m search false).removeCurrent key next true reached) true
            (At (allCells .root t') t'.id next) := by
          rw [Tree.removeCurrent_some _ hcurrent]
          apply Yields.ite_pos hkey
          rw [← hentry] at hremove
          exact Yields.bind hremove (Yields.pure _ true)
        obtain ⟨store', heq, hat'⟩ := hprefix hremoved store hat
        refine ⟨before, e, after, store', rfl, hkey, heq, ⟨?_, h', next, t', hrooted, hcontents,
          hat'⟩, hat'.idCounter.trans hat.idCounter.symm⟩
        exact List.Pairwise.sublist ((List.sublist_cons_self e after).append_left before) hinOrder
      · right
        constructor
        · intro e' he'
          rcases List.mem_append.mp he' with he' | he'
          · exact ne_of_lt (hbefore e' he')
          · have hlt : key < e.1 := lt_of_le_of_ne (hafter e List.mem_cons_self) (Ne.symm hkey)
            rcases List.mem_cons.mp he' with rfl | he'
            · exact hkey
            · rw [InOrder, List.pairwise_append, List.pairwise_cons] at hinOrder
              exact ne_of_gt (lt_trans hlt (hinOrder.2.1.1 e' he'))
        · have hkept : Yields (At (allCells .root t) t.id next)
              ((memoryTree m search false).removeCurrent key next true reached) false
              (At (allCells .root t) t.id next) := by
            rw [Tree.removeCurrent_some _ hcurrent]
            apply Yields.ite_neg hkey
            exact Yields.pure _ false
          obtain ⟨store', heq, hat'⟩ := hprefix hkept store hat
          rw [heq, hat.unique hat']

end Datatent.BTree
