import Datatent.CoreOld.Tree.NodeCells
import Datatent.Library.Places

/-!
# Ways down a tree

The descents from the root node read nodes only. Each of them is followed on the paths of a
sound tree: it ends at a node that the tree has at the end of a path, and the entries before
and after that place are known to be on their sides of the key.
-/

namespace Datatent.BTree

variable {K V : Type} [LinearOrder K]

/-! ### The order of entries -/

/-- The order of neighbouring keys; with duplicate keys they may be equal. -/
def KeyOrder (allowDuplicateKeys : Bool) (a b : K) : Prop :=
  if allowDuplicateKeys then a ≤ b else a < b

/-- Entries whose keys are in order. -/
def InOrder (allowDuplicateKeys : Bool) (entries : List (K × V)) : Prop :=
  entries.Pairwise (fun e e' => KeyOrder allowDuplicateKeys e.1 e'.1)

instance decidableKeyOrder (allow : Bool) (a b : K) :
    Decidable (KeyOrder allow a b) :=
  inferInstanceAs (Decidable (if allow then a ≤ b else a < b))

instance decidableInOrder (allow : Bool) (entries : List (K × V)) :
    Decidable (InOrder allow entries) :=
  inferInstanceAs (Decidable (entries.Pairwise (fun e e' => KeyOrder allow e.1 e'.1)))

section Order

variable {allow : Bool} {a b c : K}

theorem KeyOrder.of_lt (h : a < b) :
  KeyOrder allow a b
  := by
  cases allow with
  | false => exact h
  | true => exact le_of_lt h

theorem KeyOrder.le (h : KeyOrder allow a b) :
  a ≤ b
  := by
  cases allow with
  | false => exact le_of_lt h
  | true => exact h

theorem KeyOrder.trans (h : KeyOrder allow a b) (h' : KeyOrder allow b c) :
  KeyOrder allow a c
  := by
  cases allow with
  | false => exact lt_trans (α := K) h h'
  | true => exact le_trans (α := K) h h'

/-- Entries in order are ordered by their keys. -/
theorem InOrder.ordered {entries : List (K × V)} (h : InOrder allow entries) :
  Ordered entries
  := h.imp KeyOrder.le

end Order

/-! ### Nodes on a path -/

section Focus

variable {m n h root next : Nat} {search : EntrySearch K V}

/-- The tree over the memory node manager. -/
abbrev memoryTree (m : Nat) (search : EntrySearch K V) (allow : Bool) :
    Tree (NodeStore K V) K V where
  nodeManager := treeMemoryNodeManager m search
  allowDuplicateKeys := allow

/-- The root node of a stored tree. -/
theorem yields_root {allow : Bool} (cs : Multiset (Nat × TreeNode K V)) :
  Yields (At cs root next) (memoryTree m search allow).root root (At cs root next)
  := by
  have hroot : Yields (At cs root next) (memoryTree m search allow).nodeManager.rootNode
      (some root) (At cs root next) := Yields.map_get (fun _ hat => hat.rootNode)
  exact Yields.bind hroot (Yields.pure _ root)

/-- The bound on the number of nodes on a way. -/
theorem yields_steps (cs : Multiset (Nat × TreeNode K V)) :
  Yields (At cs root next) (treeMemoryNodeManager m search).steps next (At cs root next)
  := Yields.map_get (fun _ hat => hat.idCounter)

/-- Reading the node in the hole of a path. -/
theorem yields_read_focus (path : UPath (K × V) (n + 1) h) (t : UTree (K × V) (n + 1)) :
  Yields (At (allCells path t) root next) ((treeMemoryNodeManager m search).read t.id)
    { parentId := path.parentId, entries := t.entries, childrenIds := t.children.map (·.id) }
    (At (allCells path t) root next)
  := yields_read (allCells_eq path t)

/-- The child of the node above the hole at the place of the hole. -/
theorem yields_getChildNode {above : UPath (K × V) (n + 1) h} {id : Nat} {es es' : List (K × V)}
    {ls rs : List (UTree (K × V) n)} {c : UTree (K × V) n} {i : Nat} (hl : ls.length = i) :
  Yields (At (allCells (.down above id es es' ls rs) c) root next)
    (TreeNode.getChildNode (treeMemoryNodeManager m search) id i) c.id
    (At (allCells (.down above id es es' ls rs) c) root next)
  := by
  have hcells : allCells (.down above id es es' ls rs) c = cells id c
      + pathCells (.down above id es es' ls rs) c.id := rfl
  apply Yields.bind (yields_read (allCells_above above id es es' ls rs c))
  apply Yields.bind_eq (item_append (by rw [List.length_map, hl]))
  exact TreeNode.yields_found_cells hcells

/-- The first position of an element. -/
theorem idxOf?_append_cons {a : Nat} :
  ∀ {before : List Nat} (after : List Nat), a ∉ before →
    (before ++ a :: after).idxOf? a = some before.length
  | [], after, _ => by
      rw [List.nil_append, List.idxOf?_cons, if_pos (beq_self_eq_true a)]
      rfl
  | b :: before, after, h => by
      rw [List.mem_cons, not_or] at h
      rw [List.cons_append, List.idxOf?_cons, if_neg, idxOf?_append_cons after h.2]
      · rfl
      · rw [beq_iff_eq]
        exact fun heq => h.1 heq.symm

/-- The position of the node in the hole in its parent. -/
theorem yields_indexInParent {above : UPath (K × V) (n + 2) h} {id : Nat} {es es' : List (K × V)}
    {ls rs : List (UTree (K × V) (n + 1))} {t : UTree (K × V) (n + 1)} :
  Yields (At (allCells (.down above id es es' ls rs) t) root next)
    (TreeNode.indexInParent (treeMemoryNodeManager m search) t.id) ls.length
    (At (allCells (.down above id es es' ls rs) t) root next)
  := by
  have hparent := allCells_above above id es es' ls rs t
  apply Yields.of_fact (fun _ hat => hat.hole_notMem)
  intro hmem
  apply Yields.bind (yields_read_focus _ t)
  apply Yields.bind (yields_find hparent)
  apply Yields.bind (yields_read hparent)
  dsimp only
  rw [idxOf?_append_cons _ hmem, List.length_map]
  exact Yields.pure _ _

/-- The child between two parts of the entries of a node, in the hole of a path one node
down. -/
theorem exists_child {r : K × V → K × V → Prop} {P Q : K × V → Prop}
    {path : UPath (K × V) (n + 2) h} {t : UTree (K × V) (n + 2)} {es es' : List (K × V)}
    (hpath : path.Sound) (ht : t.SoundTop)
    (hpairwise : (path.around t.contents).Pairwise r) (hsurrounded : path.Surrounded P Q)
    (hP : ∀ a b, r a b → P b → P a) (hQ : ∀ a b, r a b → Q a → Q b)
    (hentries : t.entries = es ++ es') (hes : ∀ e ∈ es, P e) (hes' : ∀ e ∈ es', Q e) :
  ∃ (path' : UPath (K × V) (n + 1) h) (c : UTree (K × V) (n + 1)), path'.Sound ∧ c.Sound
    ∧ path'.plug c = path.plug t ∧ path'.Surrounded P Q
    ∧ path'.around c.contents = path.around t.contents ∧ allCells path' c = allCells path t
    ∧ Yields (At (allCells path t) root next)
        (TreeNode.getChildNode (treeMemoryNodeManager m search) t.id es.length) c.id
        (At (allCells path t) root next)
  := by
  obtain ⟨ls, c, rs, heq, hsound, hc⟩ := hpath.exists_below ht hentries
  have hl := hsound.1
  have hr := hsound.2.1
  have hcells := allCells_down path t.id es es' ls rs c
  rw [← heq] at hcells
  have haround := UPath.around_down path t.id c hl hr
  rw [← heq] at haround
  refine ⟨path.down t.id es es' ls rs, c, hsound, hc, ?_, ?_, haround, hcells, ?_⟩
  · rw [UPath.plug, ← heq]
  · rw [← haround] at hpairwise
    exact hsurrounded.below hP hQ hpairwise hl hr hes hes'
  · rw [← hcells]
    exact yields_getChildNode hl

end Focus

/-! ### Descents -/

section Insertion

variable {m h root next : Nat} {search : EntrySearch K V} {allow : Bool} {key : K}

/-- Where the descent for an insertion ends: at an entry with the key, or in a leaf between
the entries before and those after the key. -/
def Lands (allow : Bool) (key : K) {n : Nat} (path : UPath (K × V) (n + 1) h)
    (t : UTree (K × V) (n + 1)) : SearchResult → Prop
  | .found i => (allow = true → n = 0)
      ∧ ∃ before e after, t.entries = before ++ e :: after ∧ before.length = i ∧ e.1 = key
  | .missing i => n = 0 ∧ ∃ before after, t.entries = before ++ after ∧ before.length = i
      ∧ (∀ e ∈ path.before ++ before, KeyOrder allow e.1 key)
      ∧ ∀ e ∈ after ++ path.after, KeyOrder allow key e.1

/-- A search among the entries of a leaf ends the descent. -/
theorem lands_leaf {path : UPath (K × V) 1 h} {t : UTree (K × V) 1}
    (hordered : Ordered t.entries)
    (hsurrounded : path.Surrounded (fun e => KeyOrder allow e.1 key)
      (fun e => KeyOrder allow key e.1)) :
  Lands allow key path t (search.search t.entries key)
  := by
  cases hsearch : search.search t.entries key with
  | found i => exact ⟨fun _ => rfl, EntrySearch.split_of_found hordered hsearch⟩
  | missing i =>
      obtain ⟨before, after, hentries, hi, hbefore, hafter⟩ :=
        EntrySearch.split_of_missing hordered hsearch
      refine ⟨rfl, before, after, hentries, hi, ?_, ?_⟩
      · intro e he
        rcases List.mem_append.mp he with he | he
        · exact hsurrounded.before e he
        · exact KeyOrder.of_lt (hbefore e he)
      · intro e he
        rcases List.mem_append.mp he with he | he
        · exact KeyOrder.of_lt (hafter e he)
        · exact hsurrounded.after e he

/-- In a leaf the way for an insertion ends with the search among its entries. -/
theorem yields_findNodeForInsertion_leaf (search : EntrySearch K V) (allow : Bool) (key : K)
    (m root next steps : Nat) (path : UPath (K × V) 1 h) (t : UTree (K × V) 1) :
  Yields (At (allCells path t) root next)
    ((memoryTree m search allow).findNodeForInsertion key (steps + 1) t.id)
    (t.id, search.search t.entries key) (At (allCells path t) root next)
  := by
  rw [Tree.findNodeForInsertion]
  apply Yields.bind (yields_read_focus path t)
  by_cases hempty : t.entries = []
  · apply Yields.ite_pos
    · rw [TreeNode.isEmpty, hempty]
      rfl
    · rw [hempty, EntrySearch.search_nil]
      exact Yields.pure _ _
  · apply Yields.ite_neg
    · rw [TreeNode.isEmpty, List.isEmpty_iff]
      exact hempty
    · simp only [entrySearch_eq]
      cases hsearch : search.search t.entries key with
      | found i =>
          apply Yields.ite_neg
          · rintro ⟨-, hleaf⟩
            exact hleaf (isLeaf_of_one _ _ t)
          · exact Yields.pure _ _
      | missing i => exact (Yields.pure _ _).ite_pos (isLeaf_of_one _ _ t)

/-- The descent for an insertion, from a node of a sound tree on. -/
theorem exists_findNodeForInsertion (search : EntrySearch K V) (allow : Bool) (key : K)
    (m root next : Nat) :
  ∀ {n : Nat} (path : UPath (K × V) (n + 1) h) (t : UTree (K × V) (n + 1)) {steps : Nat},
    path.Sound → t.SoundTop → InOrder allow (path.around t.contents) →
      path.Surrounded (fun e => KeyOrder allow e.1 key) (fun e => KeyOrder allow key e.1) →
        n < steps →
          ∃ (n' : Nat) (path' : UPath (K × V) (n' + 1) h) (t' : UTree (K × V) (n' + 1))
            (result : SearchResult), path'.plug t' = path.plug t ∧ path'.Sound
            ∧ t'.SoundTop ∧ Lands allow key path' t' result
            ∧ Yields (At (allCells path t) root next)
                ((memoryTree m search allow).findNodeForInsertion key steps t.id) (t'.id, result)
                (At (allCells path t) root next)
  | 0, path, t, steps + 1, hpath, ht, hinOrder, hsurrounded, _ => by
      have hordered : Ordered t.entries := hinOrder.ordered.sublist (UPath.entries_sublist ht)
      refine ⟨0, path, t, search.search t.entries key, rfl, hpath, ht,
        lands_leaf hordered hsurrounded, ?_⟩
      exact yields_findNodeForInsertion_leaf search allow key m root next steps path t
  | n + 1, path, t, steps + 1, hpath, ht, hinOrder, hsurrounded, hsteps => by
      have hordered : Ordered t.entries := hinOrder.ordered.sublist (UPath.entries_sublist ht)
      have hchild : ∀ {es es' : List (K × V)}, t.entries = es ++ es' →
          (∀ e ∈ es, KeyOrder allow e.1 key) → (∀ e ∈ es', KeyOrder allow key e.1) →
          ∃ (n' : Nat) (path' : UPath (K × V) (n' + 1) h) (t' : UTree (K × V) (n' + 1))
            (result : SearchResult), path'.plug t' = path.plug t ∧ path'.Sound
            ∧ t'.SoundTop ∧ Lands allow key path' t' result
            ∧ Yields (At (allCells path t) root next)
                (do
                  let child ← TreeNode.getChildNode (treeMemoryNodeManager m search) t.id es.length
                  (memoryTree m search allow).findNodeForInsertion key steps child)
                (t'.id, result) (At (allCells path t) root next) := by
        intro es es' hentries hes hes'
        obtain ⟨path', c, hpath', hc, hplug, hsurrounded', haround, hcells, hget⟩ :=
          exists_child hpath ht hinOrder hsurrounded (fun _ _ => KeyOrder.trans)
            (fun _ _ h h' => KeyOrder.trans h' h) hentries hes hes'
        obtain ⟨n', path'', t', result, hplug', hsound, ht', hlands, hyields⟩ :=
          exists_findNodeForInsertion search allow key m root next path' c hpath' hc.top
            (haround ▸ hinOrder) hsurrounded' (Nat.lt_of_succ_lt_succ hsteps)
        rw [hcells] at hyields
        exact ⟨n', path'', t', result, hplug'.trans hplug, hsound, ht', hlands,
          hget.bind hyields⟩
      rw [Tree.findNodeForInsertion]
      have hempty : ¬ TreeNode.isEmpty
          { parentId := path.parentId, entries := t.entries,
            childrenIds := t.children.map (·.id) : TreeNode K V } = true := by
        rw [TreeNode.isEmpty, List.isEmpty_iff]
        exact ht.nonempty (Nat.succ_ne_zero n)
      cases hsearch : search.search t.entries key with
      | missing i =>
          obtain ⟨es, es', hentries, rfl, hes, hes'⟩ :=
            EntrySearch.split_of_missing hordered hsearch
          obtain ⟨n', path', t', result, hplug, hsound, ht', hlands, hyields⟩ :=
            hchild hentries (fun e he => KeyOrder.of_lt (hes e he))
              (fun e he => KeyOrder.of_lt (hes' e he))
          refine ⟨n', path', t', result, hplug, hsound, ht', hlands, ?_⟩
          apply Yields.bind (yields_read_focus path t)
          apply Yields.ite_neg hempty
          simp only [entrySearch_eq, hsearch]
          exact Yields.ite_neg (not_isLeaf _ _ ht.linked) hyields
      | found i =>
          obtain ⟨es, e, es', hentries, rfl, hkey⟩ :=
            EntrySearch.split_of_found hordered hsearch
          cases allow with
          | false =>
              refine ⟨n + 1, path, t, .found es.length, rfl, hpath, ht,
                ⟨fun h => Bool.noConfusion h, es, e, es', hentries, rfl, hkey⟩, ?_⟩
              apply Yields.bind (yields_read_focus path t)
              apply Yields.ite_neg hempty
              simp only [entrySearch_eq, hsearch]
              apply Yields.ite_neg
              · rintro ⟨hallow, -⟩
                exact Bool.noConfusion hallow
              · exact Yields.pure _ _
          | true =>
              rw [hentries, Ordered, List.pairwise_append, List.pairwise_cons] at hordered
              obtain ⟨-, ⟨hafter, -⟩, hbefore⟩ := hordered
              have hes : ∀ x ∈ es, KeyOrder true x.1 key := by
                intro x hx
                exact hkey ▸ hbefore x hx e List.mem_cons_self
              have hes' : ∀ x ∈ e :: es', KeyOrder true key x.1 := by
                intro x hx
                rcases List.mem_cons.mp hx with rfl | hx
                · exact le_of_eq (α := K) hkey.symm
                · exact hkey ▸ hafter x hx
              obtain ⟨n', path', t', result, hplug, hsound, ht', hlands, hyields⟩ :=
                hchild hentries hes hes'
              refine ⟨n', path', t', result, hplug, hsound, ht', hlands, ?_⟩
              apply Yields.bind (yields_read_focus path t)
              apply Yields.ite_neg hempty
              simp only [entrySearch_eq, hsearch]
              exact hyields.ite_pos ⟨trivial, not_isLeaf _ _ ht.linked⟩

/-- The descent for an insertion, from a fitting node on. -/
theorem yields_findNodeForInsertion (search : EntrySearch K V) (root next : Nat) (hm : 1 ≤ m)
    {n : Nat} (path : UPath (K × V) (n + 1) h)
    (t : UTree (K × V) (n + 1)) {steps : Nat} (hpath : path.Full m) (hfits : path.Fits m t)
    (hinOrder : InOrder allow (path.around t.contents))
    (hsurrounded : path.Surrounded (fun e => KeyOrder allow e.1 key)
      (fun e => KeyOrder allow key e.1)) (hsteps : n < steps) :
  ∃ (n' : Nat) (path' : UPath (K × V) (n' + 1) h) (t' : UTree (K × V) (n' + 1))
    (result : SearchResult), path'.plug t' = path.plug t ∧ path'.Full m
    ∧ path'.Fits m t' ∧ Lands allow key path' t' result
    ∧ Yields (At (allCells path t) root next)
        ((memoryTree m search allow).findNodeForInsertion key steps t.id) (t'.id, result)
        (At (allCells path t) root next)
  := by
  obtain ⟨n', path', t', result, hplug, hsound, -, hlands, hyields⟩ :=
    exists_findNodeForInsertion search allow key m root next path t (hpath.sound hm)
      (hfits.soundTop hm) hinOrder hsurrounded hsteps
  have hrooted := hfits.rooted hpath
  rw [← hplug] at hrooted
  obtain ⟨hfull, hfits'⟩ := UPath.of_rooted hsound hrooted
  exact ⟨n', path', t', result, hplug, hfull, hfits', hlands, hyields⟩

end Insertion

section Iteration

variable {m h : Nat}

/-- An entry on the left of the place where an iteration from a key starts; among the entries
with the key the place is to the left or to the right of all of them. -/
def OnLeft (moveLeft : Bool) (key : K) (e : K × V) : Prop :=
  if moveLeft then e.1 < key else e.1 ≤ key

/-- An entry on the right of that place. -/
def OnRight (moveLeft : Bool) (key : K) (e : K × V) : Prop :=
  if moveLeft then key ≤ e.1 else key < e.1

section Sides

variable {moveLeft : Bool} {key : K} {a b : K × V}

/-- What comes before an entry on the left is on the left. -/
theorem OnLeft.of_le (hle : a.1 ≤ b.1) (h : OnLeft moveLeft key b) :
  OnLeft moveLeft key a
  := by
  cases moveLeft with
  | true => exact lt_of_le_of_lt (α := K) hle h
  | false => exact le_trans (α := K) hle h

/-- What comes after an entry on the right is on the right. -/
theorem OnRight.of_le (hle : a.1 ≤ b.1) (h : OnRight moveLeft key a) :
  OnRight moveLeft key b
  := by
  cases moveLeft with
  | true => exact le_trans (α := K) h hle
  | false => exact lt_of_lt_of_le (α := K) h hle

/-- The number of entries before the place a search gives. -/
def SearchResult.start (moveLeft : Bool) (result : SearchResult) : Nat :=
  if moveLeft then result.position else result.passed

/-- The search of an iteration splits ordered entries at the place. -/
theorem iterationSearch_spec (search : EntrySearch K V) {entries : List (K × V)}
    (hordered : Ordered entries) (moveLeft : Bool) (key : K) :
  ∃ before after, entries = before ++ after
    ∧ before.length = (if moveLeft then binarySearchFirst search entries key
        else binarySearchLast search entries key).start moveLeft
    ∧ (∀ e ∈ before, OnLeft moveLeft key e) ∧ ∀ e ∈ after, OnRight moveLeft key e
  := by
  cases moveLeft with
  | true => exact binarySearchFirst_spec search hordered key
  | false => exact binarySearchLast_spec search hordered key

end Sides

/-- Where the descent of an iteration ends: in a leaf, at the place between the entries on the
left and those on the right. -/
structure Starts (moveLeft : Bool) (key : K) (path : UPath (K × V) 1 h) (leaf : UTree (K × V) 1)
    (result : SearchResult) (before after : List (K × V)) : Prop where
  sound : path.Sound
  leafSound : path.length ≠ 0 → leaf.Sound
  entries : leaf.entries = before ++ after
  position : before.length = result.start moveLeft
  left : ∀ e ∈ path.before ++ before, OnLeft moveLeft key e
  right : ∀ e ∈ after ++ path.after, OnRight moveLeft key e

/-- The place splits the entries of the tree. -/
theorem Starts.contents_eq {moveLeft : Bool} {key : K} {path : UPath (K × V) 1 h}
    {leaf : UTree (K × V) 1} {result : SearchResult} {before after : List (K × V)}
    (hstarts : Starts moveLeft key path leaf result before after) :
  (path.plug leaf).contents = (path.before ++ before) ++ (after ++ path.after)
  := by
  rw [hstarts.sound.contents_plug, UPath.around, UTree.contents_leaf, hstarts.entries]
  simp

/-- A search among the entries of a leaf ends the descent. -/
theorem starts_leaf {moveLeft : Bool} {key : K} {path : UPath (K × V) 1 h}
    {leaf : UTree (K × V) 1} {result : SearchResult} {before after : List (K × V)}
    (hpath : path.Sound) (hleaf : path.length ≠ 0 → leaf.Sound)
    (hsurrounded : path.Surrounded (OnLeft moveLeft key) (OnRight moveLeft key))
    (hentries : leaf.entries = before ++ after) (hposition : before.length = result.start moveLeft)
    (hbefore : ∀ e ∈ before, OnLeft moveLeft key e)
    (hafter : ∀ e ∈ after, OnRight moveLeft key e) :
  Starts moveLeft key path leaf result before after
  := by
  refine ⟨hpath, hleaf, hentries, hposition, ?_, ?_⟩
  · intro e he
    rcases List.mem_append.mp he with he | he
    · exact hsurrounded.before e he
    · exact hbefore e he
  · intro e he
    rcases List.mem_append.mp he with he | he
    · exact hafter e he
    · exact hsurrounded.after e he

/-- The descent of an iteration, from a node of a sound tree on. -/
theorem exists_findNodeForIteration (search : EntrySearch K V) (allow moveLeft : Bool) (key : K)
    (m root next : Nat) :
  ∀ {n : Nat} (path : UPath (K × V) (n + 1) h) (t : UTree (K × V) (n + 1)) {steps : Nat},
    path.Sound → t.SoundTop → (path.length ≠ 0 → t.Sound) →
      Ordered (path.around t.contents) →
      path.Surrounded (OnLeft moveLeft key) (OnRight moveLeft key) → n < steps →
        ∃ (path' : UPath (K × V) 1 h) (leaf : UTree (K × V) 1) (result : SearchResult)
          (before after : List (K × V)), path'.plug leaf = path.plug t
          ∧ Starts moveLeft key path' leaf result before after
          ∧ Yields (At (allCells path t) root next)
              ((memoryTree m search allow).findNodeForIteration key moveLeft steps t.id)
              (leaf.id, result) (At (allCells path t) root next)
  | 0, path, t, steps + 1, hpath, ht, hsound, hordered, hsurrounded, _ => by
      have hentries : Ordered t.entries := hordered.sublist (UPath.entries_sublist ht)
      by_cases hempty : t.entries = []
      · refine ⟨path, t, .missing 0, [], [], rfl, ?_, ?_⟩
        · apply starts_leaf hpath hsound hsurrounded hempty
          · cases moveLeft with
            | true => rfl
            | false => rfl
          · simp
          · simp
        · rw [Tree.findNodeForIteration]
          apply Yields.bind (yields_read_focus path t)
          apply Yields.ite_pos
          · rw [TreeNode.isEmpty, hempty]
            rfl
          · exact Yields.pure _ _
      · obtain ⟨before, after, hsplit, hlength, hbefore, hafter⟩ :=
          iterationSearch_spec search hentries moveLeft key
        refine ⟨path, t, _, before, after, rfl,
          starts_leaf hpath hsound hsurrounded hsplit hlength hbefore hafter, ?_⟩
        rw [Tree.findNodeForIteration]
        apply Yields.bind (yields_read_focus path t)
        apply Yields.ite_neg
        · rw [TreeNode.isEmpty, List.isEmpty_iff]
          exact hempty
        · simp only [entrySearch_eq]
          apply Yields.ite_pos (isLeaf_of_one _ _ t)
          exact Yields.pure _ _
  | n + 1, path, t, steps + 1, hpath, ht, _, hordered, hsurrounded, hsteps => by
      have hentries : Ordered t.entries := hordered.sublist (UPath.entries_sublist ht)
      obtain ⟨es, es', hsplit, hlength, hes, hes'⟩ :=
        iterationSearch_spec search hentries moveLeft key
      obtain ⟨path', c, hpath', hc, hplug, hsurrounded', haround, hcells, hget⟩ :=
        exists_child hpath ht hordered hsurrounded (fun _ _ => OnLeft.of_le)
          (fun _ _ => OnRight.of_le) hsplit hes hes'
      obtain ⟨path'', leaf, result, before, after, hplug', hstarts, hyields⟩ :=
        exists_findNodeForIteration search allow moveLeft key m root next path' c hpath' hc.top
          (fun _ => hc) (haround ▸ hordered) hsurrounded' (Nat.lt_of_succ_lt_succ hsteps)
      rw [hcells] at hyields
      refine ⟨path'', leaf, result, before, after, hplug'.trans hplug, hstarts, ?_⟩
      rw [Tree.findNodeForIteration]
      apply Yields.bind (yields_read_focus path t)
      apply Yields.ite_neg
      · rw [TreeNode.isEmpty, List.isEmpty_iff]
        exact ht.nonempty (Nat.succ_ne_zero n)
      · simp only [entrySearch_eq]
        apply Yields.ite_neg (not_isLeaf _ _ ht.linked)
        rw [hlength] at hget
        cases hsearch : (if moveLeft then binarySearchFirst search t.entries key
            else binarySearchLast search t.entries key) with
        | found i =>
            rw [hsearch] at hget
            cases moveLeft with
            | true => exact hget.bind hyields
            | false => exact hget.bind hyields
        | missing i =>
            rw [hsearch] at hget
            cases moveLeft with
            | true => exact hget.bind hyields
            | false => exact hget.bind hyields

end Iteration

end Datatent.BTree
