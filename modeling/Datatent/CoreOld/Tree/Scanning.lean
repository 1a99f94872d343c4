import Datatent.CoreOld.Tree.Searching

/-!
# Scans of a tree

An enumerator moves from an entry of a sound tree to the next one or to the one before: in the
leaf it is in, up to the first node above with a further entry, or down to the first or the
last leaf below a child. So the enumerations from a key on give the entries on one side of the
key, each of them once and in order, and come to an end.
-/

namespace Datatent.BTree

variable {K V : Type} [LinearOrder K] {m h root next : Nat} {search : EntrySearch K V}

/-! ### Moving forward -/

/-- What a move forward comes to, with the entries of the tree that are passed and those that
are not: the enumerator is at the first of these, if there is one. -/
def AtNext (t : UTree (K × V) h) (passed : List (K × V)) :
    List (K × V) → Bool × TreeEnumerator K V → Prop
  | [], result => result.1 = false
  | e :: rest, result => result.1 = true ∧ result.2.current = some e
      ∧ result.2.doneIterating = false
      ∧ ∃ i : Nat, result.2.currentEntry = i ∧ Place t result.2.currentNode i passed e rest

/-- Moving up from a node whose entries are passed. -/
theorem exists_moveUp (search : EntrySearch K V) (m root next : Nat) {h : Nat} :
  ∀ {n : Nat} (path : UPath (K × V) (n + 1) h) (c : UTree (K × V) (n + 1)) {steps k : Nat}
    {current : Option (K × V)}, path.Sound → (path.length ≠ 0 → c.Sound) → c.entries.length ≤ k →
      path.length < steps →
        ∃ result, AtNext (path.plug c) (path.before ++ c.contents) path.after result
          ∧ Yields (At (allCells path c) root next)
              (TreeEnumerator.moveUp (treeMemoryNodeManager m search) steps
                { currentNode := c.id, currentEntry := (k : Int), current := current,
                  doneIterating := false }) result (At (allCells path c) root next)
  | n, .root, c, steps + 1, k, current, _, _, hk, _ => by
      refine ⟨(false, { currentNode := c.id, currentEntry := (k : Int), current := none,
                        doneIterating := true }), rfl, ?_⟩
      rw [TreeEnumerator.moveUp]
      apply Yields.bind (yields_read_focus _ c)
      apply Yields.ite_neg
      · exact Int.not_lt.mpr (Int.ofNat_le.mpr hk)
      · apply Yields.ite_neg
        · exact fun hne => hne rfl
        · exact Yields.pure _ _
  | n, .down above id es es' ls rs, c, steps + 1, k, current, hpath, hc, hk, hsteps => by
      have hsound : c.Sound := hc (Nat.succ_ne_zero _)
      have hcells := allCells_down above id es es' ls rs c
      have hnode := hcells.trans (allCells_eq above _)
      rw [UTree.children_node, UTree.entries_node] at hnode
      have hup : ∀ {result : Bool × TreeEnumerator K V},
          Yields (At (allCells (.down above id es es' ls rs) c) root next)
            (TreeEnumerator.moveUp (treeMemoryNodeManager m search) steps
              { currentNode := id, currentEntry := (ls.length : Int), current := current,
                doneIterating := false })
            result (At (allCells (.down above id es es' ls rs) c) root next) →
          Yields (At (allCells (.down above id es es' ls rs) c) root next)
            (TreeEnumerator.moveUp (treeMemoryNodeManager m search) (steps + 1)
              { currentNode := c.id, currentEntry := (k : Int), current := current,
                doneIterating := false })
            result (At (allCells (.down above id es es' ls rs) c) root next) := by
        intro result hrest
        rw [TreeEnumerator.moveUp]
        apply Yields.bind (yields_read_focus _ c)
        apply Yields.ite_neg
        · exact Int.not_lt.mpr (Int.ofNat_le.mpr hk)
        · apply Yields.of_fact (fun store hat => hat.id_pos hnode)
          intro hpos
          apply Yields.ite_pos (Nat.ne_of_gt hpos)
          apply Yields.bind yields_indexInParent
          apply Yields.bind (TreeNode.yields_found hnode)
          exact hrest
      have hbound : above.length < steps := Nat.lt_of_succ_lt_succ hsteps
      have hl := hpath.1
      have hr := hpath.2.1
      cases es' with
      | nil =>
          obtain rfl := List.eq_nil_of_length_eq_zero hr.symm
          have hpassed : (UTree.node id (es ++ []) (ls ++ [c])).entries.length ≤ ls.length := by
            rw [UTree.entries_node, List.append_nil, hl]
          obtain ⟨result, hfirst, hyields⟩ :=
            exists_moveUp search m root next above (.node id (es ++ []) (ls ++ [c]))
              hpath.2.2.2.2.2 (fun _ => hpath.node hsound) hpassed hbound
          refine ⟨result, ?_, ?_⟩
          · rw [UTree.contents_node c hl hr] at hfirst
            simpa [UPath.before, UPath.after, UPath.plug] using hfirst
          · apply hup
            rw [hcells]
            exact hyields
      | cons e es' =>
          obtain ⟨r, rs, rfl⟩ := List.exists_cons_of_length_eq_add_one hr.symm
          obtain ⟨steps, rfl⟩ : ∃ s, steps = s + 1 := ⟨steps - 1, by omega⟩
          refine ⟨(true, { currentNode := id, currentEntry := (ls.length : Int),
                           current := some e, doneIterating := false }), ?_, ?_⟩
          · rw [Place.after_cons above id es es' e ls rs c r]
            refine ⟨rfl, rfl, rfl, es.length, congrArg Nat.cast hl, ?_⟩
            exact .inner hpath hsound rfl
          · apply hup
            rw [TreeEnumerator.moveUp]
            apply Yields.bind (yields_read hnode)
            apply Yields.ite_pos
            · dsimp only
              rw [List.length_append, List.length_cons, hl]
              omega
            · apply Yields.bind (TreeNode.yields_getEntry hnode (congrArg Nat.cast hl.symm))
              exact Yields.pure _ _

/-- Moving forward from before a position in a leaf. -/
theorem exists_moveForward_leaf (search : EntrySearch K V) (m root next : Nat)
    (current : Option (K × V)) {path : UPath (K × V) 1 h} {leaf : UTree (K × V) 1} {steps : Nat}
    {before after : List (K × V)} (hpath : path.Sound)
    (hleaf : path.length ≠ 0 → leaf.Sound) (hentries : leaf.entries = before ++ after)
    (hsteps : path.length < steps) :
  ∃ result, AtNext (path.plug leaf) (path.before ++ before) (after ++ path.after) result
    ∧ Yields (At (allCells path leaf) root next)
        (TreeEnumerator.moveNext (treeMemoryNodeManager m search) steps
          { currentNode := leaf.id, currentEntry := (before.length : Int) - 1,
            current := current, doneIterating := false })
        result (At (allCells path leaf) root next)
  := by
  have hforward : ∀ {result : Bool × TreeEnumerator K V},
      Yields (At (allCells path leaf) root next)
        (TreeEnumerator.moveUp (treeMemoryNodeManager m search) steps
          { currentNode := leaf.id, currentEntry := (before.length : Int), current := current,
            doneIterating := false }) result (At (allCells path leaf) root next) →
      Yields (At (allCells path leaf) root next)
        (TreeEnumerator.moveNext (treeMemoryNodeManager m search) steps
          { currentNode := leaf.id, currentEntry := (before.length : Int) - 1,
            current := current, doneIterating := false })
        result (At (allCells path leaf) root next) := by
    intro result hrest
    apply Yields.ite_neg Bool.false_ne_true
    apply Yields.bind (yields_read_focus path leaf)
    apply Yields.ite_pos (isLeaf_of_one _ _ leaf)
    dsimp only
    rw [Int.sub_add_cancel]
    exact hrest
  cases after with
  | nil =>
      rw [List.append_nil] at hentries
      have hpassed : leaf.entries.length ≤ before.length := by rw [hentries]
      obtain ⟨result, hfirst, hyields⟩ :=
        exists_moveUp search m root next path leaf hpath hleaf hpassed hsteps
      rw [UTree.contents_leaf, hentries] at hfirst
      exact ⟨result, hfirst, hforward hyields⟩
  | cons e after =>
      have hcells := allCells_eq path leaf
      rw [hentries] at hcells
      obtain ⟨steps, rfl⟩ : ∃ s, steps = s + 1 := ⟨steps - 1, by omega⟩
      refine ⟨(true, { currentNode := leaf.id, currentEntry := (before.length : Int),
                       current := some e, doneIterating := false }), ?_, ?_⟩
      · exact ⟨rfl, rfl, rfl, before.length, rfl, .leaf hpath rfl hentries⟩
      · apply hforward
        rw [TreeEnumerator.moveUp]
        apply Yields.bind (yields_read hcells)
        apply Yields.ite_pos
        · dsimp only
          rw [List.length_append, List.length_cons]
          omega
        · apply Yields.bind (TreeNode.yields_getEntry hcells rfl)
          exact Yields.pure _ _

/-- Moving down to the first leaf below a child. -/
theorem exists_moveDown (search : EntrySearch K V) (m root next : Nat) {h : Nat} :
  ∀ {n id : Nat} (above : UPath (K × V) (n + 2) h) (es es' : List (K × V))
    (ls rs : List (UTree (K × V) (n + 1))) (c : UTree (K × V) (n + 1)) {steps : Nat},
    (UPath.down above id es es' ls rs).Sound → c.Sound → n < steps →
      ∃ (path : UPath (K × V) 1 h) (leaf : UTree (K × V) 1), path.Sound ∧ leaf.Sound
        ∧ path.plug leaf = (UPath.down above id es es' ls rs).plug c
        ∧ path.before = (UPath.down above id es es' ls rs).before
        ∧ leaf.entries ++ path.after
          = c.contents ++ (UPath.down above id es es' ls rs).after
        ∧ Yields (At (allCells (.down above id es es' ls rs) c) root next)
            (TreeEnumerator.moveDown (treeMemoryNodeManager m search) steps id es.length)
            leaf.id (At (allCells (.down above id es es' ls rs) c) root next)
  | 0, id, above, es, es', ls, rs, c, steps + 1, hpath, hc, _ => by
      refine ⟨_, c, hpath, hc, rfl, rfl, ?_, ?_⟩
      · rw [UTree.contents_leaf]
      · rw [TreeEnumerator.moveDown]
        apply Yields.bind (yields_getChildNode hpath.1)
        apply Yields.bind (yields_read_focus _ c)
        apply Yields.ite_pos (isLeaf_of_one _ _ c)
        exact Yields.pure _ _
  | n + 1, id, above, es, es', ls, rs, c, steps + 1, hpath, hc, hsteps => by
      obtain ⟨ls', d, rs', heq, hbelow, hd⟩ :=
        hpath.exists_below hc.top (List.nil_append c.entries).symm
      obtain rfl := List.eq_nil_of_length_eq_zero hbelow.1
      obtain ⟨path, leaf, hsound, hleaf, hplug, hbefore, hafter, hyields⟩ :=
        exists_moveDown search m root next _ [] c.entries [] rs' d hbelow hd
          (Nat.lt_of_succ_lt_succ hsteps)
      have hcells := allCells_down (.down above id es es' ls rs) c.id [] c.entries [] rs' d
      rw [← heq] at hcells
      have hcontents := congrArg UTree.contents heq
      rw [UTree.contents_node d hbelow.1 hbelow.2.1] at hcontents
      refine ⟨path, leaf, hsound, hleaf, ?_, ?_, ?_, ?_⟩
      · rw [hplug, UPath.plug, ← heq]
      · rw [hbefore, UPath.before]
        simp
      · rw [hafter, hcontents, UPath.after]
        simp
      · rw [TreeEnumerator.moveDown]
        apply Yields.bind (yields_getChildNode hpath.1)
        apply Yields.bind (yields_read_focus _ c)
        apply Yields.ite_neg (not_isLeaf _ _ hc.top.linked)
        rw [← hcells]
        exact hyields

/-- Moving forward from a place comes to the next entry. -/
theorem exists_moveNext_of_place (search : EntrySearch K V) (m root next : Nat)
    (current : Option (K × V)) {t : UTree (K × V) h} {id i steps : Nat}
    {before after : List (K × V)} {e : K × V} (hplace : Place t id i before e after)
    (hsteps : h < steps) :
  ∃ result, AtNext t (before ++ [e]) after result
    ∧ Yields (At (allCells .root t) root next)
        (TreeEnumerator.moveNext (treeMemoryNodeManager m search) steps
          { currentNode := id, currentEntry := i, current := current, doneIterating := false })
        result (At (allCells .root t) root next)
  := by
  cases hplace with
  | @leaf path leaf before after e hpath hplug hentries =>
      subst hplug
      have hlength := path.length_add
      have hsound : leaf.Sound := UTree.sound_leaf (by rw [hentries]; simp)
      have hsplit : leaf.entries = (before ++ [e]) ++ after := by
        rw [hentries, List.append_assoc]
        rfl
      have hbound : path.length < steps := by omega
      obtain ⟨result, hnext, hyields⟩ :=
        exists_moveForward_leaf search m root next current hpath (fun _ => hsound) hsplit hbound
      rw [List.length_append, List.length_singleton, Nat.cast_add, Nat.cast_one,
        Int.add_sub_cancel] at hyields
      rw [← List.append_assoc] at hnext
      rw [allCells_plug]
      exact ⟨result, hnext, hyields⟩
  | @inner n id above es es' e ls rs l r hpath hl hplug =>
      subst hplug
      have hlength := above.length_add
      have hright : (UPath.down above id (es ++ [e]) es' (ls ++ [l]) rs).Sound ∧ r.Sound := by
        obtain ⟨hls, hrs, hsl, hsr, -, habove⟩ := hpath
        rw [List.length_cons, List.length_cons] at hrs
        refine ⟨⟨?_, Nat.succ.inj hrs, ?_, ?_, by simp, habove⟩, hsr r List.mem_cons_self⟩
        · rw [List.length_append, List.length_append, hls, List.length_singleton,
            List.length_singleton]
        · intro c hc
          rcases List.mem_append.mp hc with hc | hc
          · exact hsl c hc
          · cases List.mem_singleton.mp hc
            exact hl
        · exact fun c hc => hsr c (List.mem_cons_of_mem r hc)
      have hbound : n < steps := by omega
      obtain ⟨path, leaf, hsound, hleaf, hplug, hbefore, hafter, hyields⟩ :=
        exists_moveDown search m root next above (es ++ [e]) es' (ls ++ [l]) rs r hright.1 hright.2
          hbound
      obtain ⟨first, tail, hentries⟩ := List.exists_cons_of_ne_nil hleaf.1
      have hcells : allCells (.down above id (es ++ [e]) es' (ls ++ [l]) rs) r
          = allCells .root (above.plug (.node id (es ++ e :: es') (ls ++ l :: r :: rs))) := by
        rw [allCells_plug, allCells_down, List.append_assoc, List.append_assoc]
        rfl
      have htree : path.plug leaf
          = above.plug (.node id (es ++ e :: es') (ls ++ l :: r :: rs)) := by
        rw [hplug, UPath.plug, List.append_assoc, List.append_assoc]
        rfl
      rw [hcells] at hyields
      rw [hentries, List.cons_append] at hafter
      have hnode := allCells_eq above (.node id (es ++ e :: es') (ls ++ l :: r :: rs))
      rw [← allCells_plug] at hnode
      have hfirst := allCells_eq path leaf
      rw [← allCells_plug, htree, hentries, ← List.nil_append (first :: tail)] at hfirst
      refine ⟨(true, { currentNode := leaf.id, currentEntry := 0, current := some first,
                       doneIterating := false }), ?_, ?_⟩
      · rw [← hafter, ← Place.before_append above id es' e rs l r hpath.1, ← hbefore,
          ← List.append_nil path.before]
        have hplace : Place (above.plug (.node id (es ++ e :: es') (ls ++ l :: r :: rs))) leaf.id
            ([] : List (K × V)).length (path.before ++ []) first (tail ++ path.after) :=
          .leaf hsound htree hentries
        exact ⟨rfl, rfl, rfl, 0, rfl, hplace⟩
      · apply Yields.ite_neg Bool.false_ne_true
        apply Yields.bind (yields_read hnode)
        apply Yields.ite_neg
        · apply not_isLeaf
          intro _
          have hr := hpath.2.1
          rw [List.length_cons, List.length_cons] at hr
          rw [UTree.children_node, UTree.entries_node, List.length_append, List.length_append,
            hpath.1, List.length_cons, List.length_cons, List.length_cons]
          omega
        · rw [List.length_append, List.length_singleton] at hyields
          apply Yields.bind hyields
          apply Yields.bind (TreeNode.yields_getEntry hfirst rfl)
          exact Yields.pure _ _

/-! ### Moving backward -/

/-- What a move backward comes to, with the entries of the tree that are not passed, from the
last one on, and those that are: the enumerator is at the first of the former, if there is
one. -/
def AtPrevious (t : UTree (K × V) h) (passed : List (K × V)) :
    List (K × V) → Bool × TreeEnumerator K V → Prop
  | [], result => result.1 = false
  | e :: rest, result => result.1 = true ∧ result.2.current = some e
      ∧ result.2.doneIterating = false
      ∧ ∃ i : Nat, result.2.currentEntry = i
        ∧ Place t result.2.currentNode i rest.reverse e passed

/-- Moving up from before the first entry of a node. -/
theorem exists_moveBackUp (search : EntrySearch K V) (m root next : Nat) {h : Nat} :
  ∀ {n : Nat} (path : UPath (K × V) (n + 1) h) (c : UTree (K × V) (n + 1)) {steps : Nat}
    {current : Option (K × V)}, path.Sound → (path.length ≠ 0 → c.Sound) →
      path.length < steps →
        ∃ result, AtPrevious (path.plug c) (c.contents ++ path.after) path.before.reverse result
          ∧ Yields (At (allCells path c) root next)
              (TreeEnumerator.moveBackUp (treeMemoryNodeManager m search) steps
                { currentNode := c.id, currentEntry := -1, current := current,
                  doneIterating := false }) result (At (allCells path c) root next)
  | n, .root, c, steps + 1, current, _, _, _ => by
      refine ⟨(false, { currentNode := c.id, currentEntry := -1, current := none,
                        doneIterating := true }), rfl, ?_⟩
      rw [TreeEnumerator.moveBackUp]
      apply Yields.ite_neg
      · change ¬ (0 : Int) ≤ -1
        decide
      · apply Yields.bind (yields_read_focus _ c)
        apply Yields.ite_neg
        · exact fun hne => hne rfl
        · exact Yields.pure _ _
  | n, .down above id es es' ls rs, c, steps + 1, current, hpath, hc, hsteps => by
      have hsound : c.Sound := hc (Nat.succ_ne_zero _)
      have hcells := allCells_down above id es es' ls rs c
      have hnode := hcells.trans (allCells_eq above _)
      rw [UTree.children_node, UTree.entries_node] at hnode
      have hup : ∀ {result : Bool × TreeEnumerator K V},
          Yields (At (allCells (.down above id es es' ls rs) c) root next)
            (TreeEnumerator.moveBackUp (treeMemoryNodeManager m search) steps
              { currentNode := id, currentEntry := (ls.length : Int) - 1, current := current,
                doneIterating := false })
            result (At (allCells (.down above id es es' ls rs) c) root next) →
          Yields (At (allCells (.down above id es es' ls rs) c) root next)
            (TreeEnumerator.moveBackUp (treeMemoryNodeManager m search) (steps + 1)
              { currentNode := c.id, currentEntry := -1, current := current,
                doneIterating := false })
            result (At (allCells (.down above id es es' ls rs) c) root next) := by
        intro result hrest
        rw [TreeEnumerator.moveBackUp]
        apply Yields.ite_neg
        · change ¬ (0 : Int) ≤ -1
          decide
        · apply Yields.bind (yields_read_focus _ c)
          apply Yields.of_fact (fun store hat => hat.id_pos hnode)
          intro hpos
          apply Yields.ite_pos (Nat.ne_of_gt hpos)
          apply Yields.bind yields_indexInParent
          apply Yields.bind (TreeNode.yields_found hnode)
          exact hrest
      have hbound : above.length < steps := Nat.lt_of_succ_lt_succ hsteps
      have hl := hpath.1
      have hr := hpath.2.1
      rcases List.eq_nil_or_concat es with rfl | ⟨init, e, rfl⟩
      · obtain rfl := List.eq_nil_of_length_eq_zero hl
        obtain ⟨result, hlast, hyields⟩ :=
          exists_moveBackUp search m root next above (.node id ([] ++ es') ([] ++ c :: rs))
            hpath.2.2.2.2.2 (fun _ => hpath.node hsound) hbound
        refine ⟨result, ?_, ?_⟩
        · rw [UTree.contents_node c hl hr] at hlast
          simpa [UPath.before, UPath.after, UPath.plug] using hlast
        · apply hup
          rw [hcells]
          exact hyields
      · rw [List.concat_eq_append] at *
        obtain ⟨ls, l, rfl⟩ : ∃ ls' l, ls = ls' ++ [l] := by
          rcases List.eq_nil_or_concat ls with rfl | ⟨ls', l, rfl⟩
          · simp at hl
          · exact ⟨ls', l, List.concat_eq_append⟩
        simp only [List.length_append, List.length_singleton] at hl
        obtain ⟨steps, rfl⟩ : ∃ s, steps = s + 1 := ⟨steps - 1, by omega⟩
        obtain ⟨-, -, hsl, hsr, -, habove⟩ := hpath
        have hplace : (UPath.down above id init (e :: es') ls (c :: rs)).Sound := by
          refine ⟨Nat.succ.inj hl, by rw [List.length_cons, List.length_cons, hr], ?_, ?_, by simp,
            habove⟩
          · exact fun d hd => hsl d (List.mem_append_left _ hd)
          · intro d hd
            rcases List.mem_cons.mp hd with rfl | hd
            · exact hsound
            · exact hsr d hd
        refine ⟨(true, { currentNode := id, currentEntry := (init.length : Int),
                         current := some e, doneIterating := false }), ?_, ?_⟩
        · rw [Place.before_append above id es' e rs l c (Nat.succ.inj hl), List.reverse_concat]
          refine ⟨rfl, rfl, rfl, init.length, rfl, ?_⟩
          rw [List.reverse_reverse, UPath.plug]
          apply Place.inner hplace (hsl l (by simp))
          rw [List.append_assoc, List.append_assoc]
          rfl
        · apply hup
          rw [TreeEnumerator.moveBackUp]
          have hentry : (((ls ++ [l]).length : Nat) : Int) - 1 = (init.length : Int) := by
            rw [List.length_append, List.length_singleton]
            omega
          rw [hentry]
          apply Yields.ite_pos (Int.natCast_nonneg _)
          rw [List.append_assoc] at hnode
          apply Yields.bind (TreeNode.yields_getEntry hnode rfl)
          exact Yields.pure _ _

/-- Moving backward from behind a position in a leaf. -/
theorem exists_moveBackward_leaf (search : EntrySearch K V) (m root next : Nat)
    (current : Option (K × V)) {path : UPath (K × V) 1 h} {leaf : UTree (K × V) 1} {steps : Nat}
    {before after : List (K × V)} (hpath : path.Sound)
    (hleaf : path.length ≠ 0 → leaf.Sound) (hentries : leaf.entries = before ++ after)
    (hsteps : path.length < steps) :
  ∃ result, AtPrevious (path.plug leaf) (after ++ path.after) (path.before ++ before).reverse result
    ∧ Yields (At (allCells path leaf) root next)
        (TreeEnumerator.moveBackward (treeMemoryNodeManager m search) steps
          { currentNode := leaf.id, currentEntry := before.length, current := current,
            doneIterating := false })
        result (At (allCells path leaf) root next)
  := by
  have hbackward : ∀ {result : Bool × TreeEnumerator K V},
      Yields (At (allCells path leaf) root next)
        (TreeEnumerator.moveBackUp (treeMemoryNodeManager m search) steps
          { currentNode := leaf.id, currentEntry := (before.length : Int) - 1,
            current := current, doneIterating := false })
        result (At (allCells path leaf) root next) →
      Yields (At (allCells path leaf) root next)
        (TreeEnumerator.moveBackward (treeMemoryNodeManager m search) steps
          { currentNode := leaf.id, currentEntry := before.length, current := current,
            doneIterating := false })
        result (At (allCells path leaf) root next) := by
    intro result hrest
    apply Yields.bind (yields_read_focus path leaf)
    exact Yields.ite_pos (isLeaf_of_one _ _ leaf) hrest
  rcases List.eq_nil_or_concat before with rfl | ⟨init, e, rfl⟩
  · rw [List.nil_append] at hentries
    obtain ⟨result, hlast, hyields⟩ :=
      exists_moveBackUp search m root next path leaf hpath hleaf hsteps
    rw [UTree.contents_leaf, hentries] at hlast
    refine ⟨result, ?_, hbackward hyields⟩
    rw [List.append_nil]
    exact hlast
  · rw [List.concat_eq_append] at *
    rw [List.append_assoc] at hentries
    have hcells := allCells_eq path leaf
    rw [hentries] at hcells
    obtain ⟨steps, rfl⟩ : ∃ s, steps = s + 1 := ⟨steps - 1, by omega⟩
    refine ⟨(true, { currentNode := leaf.id, currentEntry := (init.length : Int),
                     current := some e, doneIterating := false }), ?_, ?_⟩
    · rw [← List.append_assoc, List.reverse_concat]
      refine ⟨rfl, rfl, rfl, init.length, rfl, ?_⟩
      rw [List.reverse_reverse]
      exact .leaf hpath rfl hentries
    · apply hbackward
      rw [TreeEnumerator.moveBackUp]
      have hentry : (((init ++ [e]).length : Nat) : Int) - 1 = (init.length : Int) := by
        rw [List.length_append, List.length_singleton]
        omega
      rw [hentry]
      apply Yields.ite_pos (Int.natCast_nonneg _)
      apply Yields.bind (TreeNode.yields_getEntry hcells rfl)
      exact Yields.pure _ _

/-- Moving down to the last leaf below a child. -/
theorem exists_moveDownLast (search : EntrySearch K V) (m root next : Nat) {h : Nat} :
  ∀ {n id : Nat} (above : UPath (K × V) (n + 2) h) (es es' : List (K × V))
    (ls rs : List (UTree (K × V) (n + 1))) (c : UTree (K × V) (n + 1)) {steps : Nat},
    (UPath.down above id es es' ls rs).Sound → c.Sound → n < steps →
      ∃ (path : UPath (K × V) 1 h) (leaf : UTree (K × V) 1), path.Sound ∧ leaf.Sound
        ∧ path.plug leaf = (UPath.down above id es es' ls rs).plug c
        ∧ path.after = (UPath.down above id es es' ls rs).after
        ∧ path.before ++ leaf.entries
          = (UPath.down above id es es' ls rs).before ++ c.contents
        ∧ Yields (At (allCells (.down above id es es' ls rs) c) root next)
            (TreeEnumerator.moveDownLast (treeMemoryNodeManager m search) steps id es.length)
            (leaf.id, leaf.entries.length) (At (allCells (.down above id es es' ls rs) c) root next)
  | 0, id, above, es, es', ls, rs, c, steps + 1, hpath, hc, _ => by
      refine ⟨_, c, hpath, hc, rfl, rfl, ?_, ?_⟩
      · rw [UTree.contents_leaf]
      · rw [TreeEnumerator.moveDownLast]
        apply Yields.bind (yields_getChildNode hpath.1)
        apply Yields.bind (yields_read_focus _ c)
        apply Yields.ite_pos (isLeaf_of_one _ _ c)
        exact Yields.pure _ _
  | n + 1, id, above, es, es', ls, rs, c, steps + 1, hpath, hc, hsteps => by
      obtain ⟨ls', d, rs', heq, hbelow, hd⟩ :=
        hpath.exists_below hc.top (List.append_nil c.entries).symm
      obtain rfl := List.eq_nil_of_length_eq_zero hbelow.2.1.symm
      obtain ⟨path, leaf, hsound, hleaf, hplug, hafter, hbefore, hyields⟩ :=
        exists_moveDownLast search m root next _ c.entries [] ls' [] d hbelow hd
          (Nat.lt_of_succ_lt_succ hsteps)
      have hcells := allCells_down (.down above id es es' ls rs) c.id c.entries [] ls' [] d
      rw [← heq] at hcells
      have hcontents := congrArg UTree.contents heq
      rw [UTree.contents_node d hbelow.1 hbelow.2.1] at hcontents
      refine ⟨path, leaf, hsound, hleaf, ?_, ?_, ?_, ?_⟩
      · rw [hplug, UPath.plug, ← heq]
      · rw [hafter, UPath.after]
        simp
      · rw [hbefore, hcontents, UPath.before]
        simp
      · rw [TreeEnumerator.moveDownLast]
        apply Yields.bind (yields_getChildNode hpath.1)
        apply Yields.bind (yields_read_focus _ c)
        apply Yields.ite_neg (not_isLeaf _ _ hc.top.linked)
        rw [← hcells]
        exact hyields

/-- Moving backward from a place comes to the entry before. -/
theorem exists_moveBackward_of_place (search : EntrySearch K V) (m root next : Nat)
    (current : Option (K × V)) {t : UTree (K × V) h} {id i steps : Nat}
    {before after : List (K × V)} {e : K × V} (hplace : Place t id i before e after)
    (hsteps : h < steps) :
  ∃ result, AtPrevious t (e :: after) before.reverse result
    ∧ Yields (At (allCells .root t) root next)
        (TreeEnumerator.moveBackward (treeMemoryNodeManager m search) steps
          { currentNode := id, currentEntry := i, current := current, doneIterating := false })
        result (At (allCells .root t) root next)
  := by
  cases hplace with
  | @leaf path leaf before after e hpath hplug hentries =>
      subst hplug
      have hlength := path.length_add
      have hsound : leaf.Sound := UTree.sound_leaf (by rw [hentries]; simp)
      have hbound : path.length < steps := by omega
      rw [allCells_plug]
      exact exists_moveBackward_leaf search m root next current hpath (fun _ => hsound) hentries
        hbound
  | @inner n id above es es' e ls rs l r hpath hl hplug =>
      subst hplug
      have hlength := above.length_add
      have hbound : n < steps := by omega
      obtain ⟨path, leaf, hsound, hleaf, hplug, hafter, hbefore, hyields⟩ :=
        exists_moveDownLast search m root next above es (e :: es') ls (r :: rs) l hpath hl hbound
      obtain ⟨init, last, hentries⟩ :=
        (List.eq_nil_or_concat leaf.entries).resolve_left hleaf.1
      rw [List.concat_eq_append] at hentries
      have hcells : allCells (.down above id es (e :: es') ls (r :: rs)) l
          = allCells .root (above.plug (.node id (es ++ e :: es') (ls ++ l :: r :: rs))) := by
        rw [allCells_plug, allCells_down]
      rw [hcells] at hyields
      rw [hentries, ← List.append_assoc] at hbefore
      have hnode := allCells_eq above (.node id (es ++ e :: es') (ls ++ l :: r :: rs))
      rw [← allCells_plug] at hnode
      have hlast := allCells_eq path leaf
      rw [← allCells_plug, hplug, hentries] at hlast
      refine ⟨(true, { currentNode := leaf.id, currentEntry := (init.length : Int),
                       current := some last, doneIterating := false }), ?_, ?_⟩
      · rw [← hbefore, List.reverse_concat, ← Place.after_cons above id es es' e ls rs l r,
          ← hafter]
        refine ⟨rfl, rfl, rfl, init.length, rfl, ?_⟩
        rw [List.reverse_reverse]
        exact .leaf hsound hplug hentries
      · apply Yields.bind (yields_read hnode)
        apply Yields.ite_neg
        · apply not_isLeaf
          exact (hpath.node hl).top.linked
        · apply Yields.ite_neg
          · exact Int.not_lt.mpr (Int.natCast_nonneg _)
          · apply Yields.bind hyields
            have hentry : ((leaf.entries.length : Nat) : Int) - 1 = (init.length : Int) := by
              rw [hentries, List.length_append, List.length_singleton]
              omega
            dsimp only
            rw [hentry]
            apply Yields.bind (TreeNode.yields_getEntry hlast rfl)
            exact Yields.pure _ _

/-! ### Enumerations -/

section Enumerations

variable {t : UTree (K × V) h}

/-- An enumerator that comes to the given entries, one after the other, and no others. -/
def Comes (m root next : Nat) (search : EntrySearch K V) (t : UTree (K × V) h)
    (direction : TreeTraverseDirection) (steps : Nat) :
    List (K × V) → TreeEnumerator K V → Prop
  | [], enumerator => ∃ enumerator', Yields (At (allCells .root t) root next)
      (TreeEnumerator.moveIn (treeMemoryNodeManager m search) direction steps enumerator)
      (false, enumerator') (At (allCells .root t) root next)
  | e :: entries, enumerator => ∃ enumerator' : TreeEnumerator K V,
      enumerator'.current = some e
      ∧ Yields (At (allCells .root t) root next)
          (TreeEnumerator.moveIn (treeMemoryNodeManager m search) direction steps enumerator)
          (true, enumerator') (At (allCells .root t) root next)
      ∧ Comes m root next search t direction steps entries enumerator'

/-- With more rounds than entries the loop gives all of them. -/
theorem Comes.toList {direction : TreeTraverseDirection} {steps : Nat} :
  ∀ {entries : List (K × V)} {enumerator : TreeEnumerator K V} {rounds : Nat},
    Comes m root next search t direction steps entries enumerator → entries.length < rounds →
      Yields (At (allCells .root t) root next)
        (TreeEnumerator.toList (treeMemoryNodeManager m search) direction steps rounds enumerator)
        entries (At (allCells .root t) root next)
  | [], enumerator, rounds + 1, ⟨enumerator', hmove⟩, _ => by
      rw [TreeEnumerator.toList]
      apply Yields.bind hmove
      exact Yields.pure _ _
  | e :: entries, enumerator, rounds + 1, ⟨enumerator', hcurrent, hmove, hcomes⟩, hrounds => by
      rw [TreeEnumerator.toList]
      apply Yields.bind hmove
      dsimp only
      rw [if_pos rfl, hcurrent]
      exact (hcomes.toList (Nat.lt_of_succ_lt_succ hrounds)).map _

/-- An enumerator that has moved forward comes to the later entries. -/
theorem comes_of_atNext (search : EntrySearch K V) (m root next : Nat) {steps : Nat}
    (hsteps : h < steps) :
  ∀ {rest passed : List (K × V)} {start : TreeEnumerator K V}
    {result : Bool × TreeEnumerator K V}, AtNext t passed rest result →
      Yields (At (allCells .root t) root next)
        (TreeEnumerator.moveIn (treeMemoryNodeManager m search) .ascending steps start) result
        (At (allCells .root t) root next) →
      Comes m root next search t .ascending steps rest start
  | [], passed, start, ⟨moved, enumerator⟩, hnext, hyields => by
      obtain rfl : moved = false := hnext
      exact ⟨enumerator, hyields⟩
  | e :: rest, passed, start, ⟨moved, ⟨node, entry, current, done⟩⟩, hnext, hyields => by
      obtain ⟨rfl, rfl, rfl, i, rfl, hplace⟩ := hnext
      obtain ⟨result, hnext', hyields'⟩ :=
        exists_moveNext_of_place search m root next (some e) hplace hsteps
      exact ⟨_, rfl, hyields, comes_of_atNext search m root next hsteps hnext' hyields'⟩

/-- An enumerator that has moved backward comes to the entries before. -/
theorem comes_of_atPrevious (search : EntrySearch K V) (m root next : Nat) {steps : Nat}
    (hsteps : h < steps) :
  ∀ {rest passed : List (K × V)} {start : TreeEnumerator K V}
    {result : Bool × TreeEnumerator K V}, AtPrevious t passed rest result →
      Yields (At (allCells .root t) root next)
        (TreeEnumerator.moveIn (treeMemoryNodeManager m search) .decending steps start) result
        (At (allCells .root t) root next) →
      Comes m root next search t .decending steps rest start
  | [], passed, start, ⟨moved, enumerator⟩, hnext, hyields => by
      obtain rfl : moved = false := hnext
      exact ⟨enumerator, hyields⟩
  | e :: rest, passed, start, ⟨moved, ⟨node, entry, current, done⟩⟩, hnext, hyields => by
      obtain ⟨rfl, rfl, rfl, i, rfl, hplace⟩ := hnext
      obtain ⟨result, hnext', hyields'⟩ :=
        exists_moveBackward_of_place search m root next (some e) hplace hsteps
      rw [List.reverse_reverse] at hnext'
      have hmove : Yields (At (allCells .root t) root next)
          (TreeEnumerator.moveIn (treeMemoryNodeManager m search) .decending steps
            { currentNode := node, currentEntry := (i : Int), current := some e,
              doneIterating := false }) result (At (allCells .root t) root next) :=
        hyields'
      exact ⟨_, rfl, hyields, comes_of_atPrevious search m root next hsteps hnext' hmove⟩

end Enumerations

end Datatent.BTree
