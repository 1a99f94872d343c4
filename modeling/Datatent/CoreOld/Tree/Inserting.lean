import Datatent.CoreOld.Tree.Searching
import Datatent.CoreOld.Tree.Splitting

/-!
# Inserting and getting entries

What `Tree.Insert` and `Tree.Get` do to a state that stores a tree (`Stores`). In a tree with
keys in strict order every entry that moves up finds the place of the split child.
-/

namespace Datatent.BTree

variable {K V : Type} [LinearOrder K] {m h root next : Nat} {search : EntrySearch K V}
  {allow : Bool}

/-- The state stores a tree with the given entries in order. -/
def Stores (m : Nat) (allow : Bool) (contents : List (K × V)) (store : NodeStore K V) : Prop :=
  InOrder allow contents ∧ ∃ (h next : Nat) (t : UTree (K × V) h), t.Rooted m
    ∧ t.contents = contents ∧ At (allCells .root t) t.id next store

/-- Putting an entry between those below and those above it keeps the order. -/
theorem InOrder.insert {before after : List (K × V)} {entry : K × V}
    (hinOrder : InOrder allow (before ++ after))
    (hbefore : ∀ e ∈ before, KeyOrder allow e.1 entry.1)
    (hafter : ∀ e ∈ after, KeyOrder allow entry.1 e.1) :
  InOrder allow (before ++ entry :: after)
  := by
  rw [InOrder, List.pairwise_append] at hinOrder ⊢
  obtain ⟨hb, ha, hcross⟩ := hinOrder
  refine ⟨hb, List.pairwise_cons.mpr ⟨hafter, ha⟩, ?_⟩
  intro e he e' he'
  rcases List.mem_cons.mp he' with rfl | he'
  · exact hbefore e he
  · exact hcross e he e' he'

/-- The entries of the node above the hole are in order with one that moves up to them, and
each of these is in order with the entries around the node. -/
theorem InOrder.of_down {n id : Nat} {above : UPath (K × V) (n + 1) h} {es es' : List (K × V)}
    {ls rs : List (UTree (K × V) n)} {entry : K × V}
    (hfull : (UPath.down above id es es' ls rs).Full m)
    (hinOrder : InOrder allow ((UPath.down above id es es' ls rs).before
      ++ entry :: (UPath.down above id es es' ls rs).after)) :
  InOrder allow (es ++ entry :: es') ∧ ∀ middle ∈ es ++ entry :: es',
    InOrder allow (above.before ++ middle :: above.after)
  := by
  have hl : (ls.map UTree.contents).length = es.length := by
    rw [List.length_map]
    exact hfull.1
  have hr : es'.length = (rs.map UTree.contents).length := by
    rw [List.length_map]
    exact hfull.2.1
  have hnode : (es ++ entry :: es').Sublist (followed (ls.map UTree.contents) es
      ++ entry :: preceded es' (rs.map UTree.contents)) :=
    (sublist_followed hl).append ((sublist_preceded hr).cons_cons entry)
  have hall : InOrder allow (above.before ++ ((followed (ls.map UTree.contents) es
      ++ entry :: preceded es' (rs.map UTree.contents)) ++ above.after)) := by
    simpa [UPath.before, UPath.after] using hinOrder
  constructor
  · exact hall.sublist ((hnode.trans (List.sublist_append_left _ _)).trans
      (List.sublist_append_right _ _))
  · intro middle hmiddle
    have hsingle := (List.singleton_sublist.mpr hmiddle).trans hnode
    exact hall.sublist ((hsingle.append_right above.after).append_left above.before)

/-- With keys in strict order every entry that moves up finds the place of the split child. -/
theorem placed_of_inOrder :
  ∀ {n : Nat} (path : UPath (K × V) n h) (entry : K × V), path.Full m →
    InOrder false (path.before ++ entry :: path.after) → Placed search m path entry
  | _, .root, _, _, _ => trivial
  | _, .down above id es es' ls rs, entry, hfull, hinOrder => by
      obtain ⟨hsorted, habove⟩ := InOrder.of_down hfull hinOrder
      have hsplit := hsorted
      rw [InOrder, List.pairwise_append, List.pairwise_cons] at hsplit
      constructor
      · apply EntrySearch.position_eq
        · exact hsorted.ordered.sublist ((List.sublist_cons_self entry es').append_left es)
        · exact fun e he => hsplit.2.2 e he entry List.mem_cons_self
        · exact hsplit.2.1.1
      · intro _ middle hmiddle
        exact placed_of_inOrder above middle hfull.2.2.2.2.2.2
          (habove middle (List.mem_of_getElem? hmiddle))

/-! ### Inserting to a leaf -/

/-- Inserting an entry to a node that is a leaf. -/
theorem yields_insertAsLeaf {cs cs' : Multiset (Nat × TreeNode K V)} {id parentId : Nat}
    {before after : List (K × V)} {childrenIds : List Nat} {entry : K × V}
    (hcells : cs = cell id parentId (before ++ after) childrenIds + cs') :
  Yields (At cs root next)
    (TreeNode.insertAsLeaf (treeMemoryNodeManager m search) id entry before.length) ()
    (At (cell id parentId (before ++ entry :: after) childrenIds + cs') root next)
  := by
  apply Yields.bind (yields_read hcells)
  apply Yields.bind_eq (insert_append rfl)
  exact Yields.bind (yields_write hcells) (Yields.pure _ ())

/-- The number of nodes created when an entry is inserted to the node in the hole. -/
def addedNodes (m : Nat) {n : Nat} (path : UPath (K × V) (n + 1) h) (t : UTree (K × V) (n + 1)) :
    Nat :=
  if t.entries.length = 2 * m then splitNodes m path else 0

/-- Inserting to a leaf puts the entry between those before and those after the position. -/
theorem yields_insertToLeaf (hm : 1 ≤ m) {path : UPath (K × V) 1 h} {t : UTree (K × V) 1}
    {steps : Nat} {before after : List (K × V)} {entry : K × V} (hpath : path.Full m)
    (hfits : path.Fits m t) (hentries : t.entries = before ++ after)
    (hplaced : t.entries.length = 2 * m → ∀ middle, (before ++ entry :: after)[m]? = some middle →
      Placed search m path middle) (hsteps : path.length < steps) :
  ∃ (h' : Nat) (t' : UTree (K × V) h'), t'.Rooted m
    ∧ t'.contents = (path.before ++ before) ++ entry :: (after ++ path.after)
    ∧ Yields (At (allCells path t) (path.rootId t.id) next)
        ((memoryTree m search allow).insertToLeaf steps t.id entry before.length) ()
        (At (allCells .root t') t'.id (next + addedNodes m path t))
  := by
  let leaf : UTree (K × V) 1 := .node t.id (before ++ entry :: after) t.children
  have hcells : allCells path t = cell t.id path.parentId (before ++ after)
      (t.children.map (·.id)) + (forest t.id t.children + pathCells path t.id) := by
    rw [allCells_eq, hentries]
  have hgrown : leaf.Grown m := ⟨fun h => absurd rfl h, hfits.2.2.full⟩
  have hcontents : path.around leaf.contents
      = (path.before ++ before) ++ entry :: (after ++ path.after) := by
    rw [UTree.contents_leaf]
    simp [leaf, UPath.around]
  have hleaf : leaf.entries.length = t.entries.length + 1 := by
    rw [hentries, UTree.entries_node, List.length_append, List.length_append, List.length_cons]
    rfl
  have hafter : cell t.id path.parentId (before ++ entry :: after) (t.children.map (·.id))
      + (forest t.id t.children + pathCells path t.id) = allCells path leaf :=
    (allCells_eq path leaf).symm
  by_cases hover : t.entries.length = 2 * m
  · have hsize : leaf.entries.length = 2 * m + 1 := by rw [hleaf, hover]
    obtain ⟨h', t', hrooted, ht', hsplit⟩ :=
      TreeNode.yields_split hm path hpath hgrown hsize (hplaced hover) hsteps
    refine ⟨h', t', hrooted, ht'.trans hcontents, ?_⟩
    rw [addedNodes, if_pos hover]
    apply Yields.bind (yields_insertAsLeaf hcells)
    rw [hafter]
    apply Yields.bind (yields_read_focus path leaf)
    apply Yields.ite_pos
    · rw [isOverflow_iff]
      dsimp only
      omega
    · exact Yields.bind hsplit (Yields.pure _ ())
  · have hfits' : path.Fits m leaf := by
      have hleast := hfits.1
      have hmost := hfits.2.1
      refine ⟨?_, ?_, hgrown⟩
      · omega
      · omega
    refine ⟨h, path.plug leaf, hfits'.rooted hpath, ?_, ?_⟩
    · rw [UPath.contents_plug leaf hpath, hcontents]
    · rw [allCells_plug, UPath.id_plug, addedNodes, if_neg hover]
      apply Yields.bind (yields_insertAsLeaf hcells)
      rw [hafter]
      apply Yields.bind (yields_read_focus path leaf)
      apply Yields.ite_neg
      · have hmost := hfits.2.1
        rw [isOverflow_iff]
        dsimp only
        omega
      · exact Yields.pure _ ()

/-! ### Inserting to a tree -/

/-- Where an entry is put: in a leaf, between the entries that are in order with its key. -/
theorem Lands.exists_split {n : Nat} {path : UPath (K × V) (n + 1) h}
    {t : UTree (K × V) (n + 1)} {key : K} {result : SearchResult}
    (hlands : Lands allow key path t result) (hnew : allow = true ∨ ∀ i, result ≠ .found i)
    (hinOrder : InOrder allow (path.around t.contents)) :
  n = 0 ∧ ∃ before after, t.entries = before ++ after ∧ before.length = result.position
    ∧ (∀ e ∈ path.before ++ before, KeyOrder allow e.1 key)
    ∧ ∀ e ∈ after ++ path.after, KeyOrder allow key e.1
  := by
  cases result with
  | missing i => exact hlands
  | found i =>
      rcases hnew with rfl | hnew
      · obtain ⟨hleaf, before, e, after, hentries, hi, hkey⟩ := hlands
        obtain rfl := hleaf rfl
        have hall : InOrder true ((path.before ++ before) ++ e :: (after ++ path.after)) := by
          rw [UPath.around, UTree.contents_leaf, hentries] at hinOrder
          simpa using hinOrder
        rw [InOrder, List.pairwise_append, List.pairwise_cons] at hall
        refine ⟨rfl, before, e :: after, hentries, hi, ?_, ?_⟩
        · intro x hx
          exact hkey ▸ hall.2.2 x hx e List.mem_cons_self
        · intro x hx
          rcases List.mem_cons.mp hx with rfl | hx
          · exact le_of_eq (α := K) hkey.symm
          · exact hkey ▸ hall.2.1.1 x hx
      · exact absurd rfl (hnew i)

/-- The descent for an insertion ends at a node of a state that stores a tree. -/
structure Landing (m : Nat) (search : EntrySearch K V) (allow : Bool) (key : K)
    (store : NodeStore K V) {n : Nat} (next : Nat) (path : UPath (K × V) (n + 1) h)
    (t : UTree (K × V) (n + 1)) (result : SearchResult) : Prop where
  full : path.Full m
  fits : path.Fits m t
  length_lt : path.length < next
  state : At (allCells path t) (path.rootId t.id) next store
  lands : Lands allow key path t result
  find : Yields (At (allCells path t) (path.rootId t.id) next)
    ((memoryTree m search allow).findNodeForInsertion key next (path.rootId t.id))
    (t.id, result) (At (allCells path t) (path.rootId t.id) next)

/-- Where the descent in a stored tree ends. -/
theorem Stores.exists_landing {contents : List (K × V)} {store : NodeStore K V}
    (search : EntrySearch K V) (hm : 1 ≤ m) (hstore : Stores m allow contents store) (key : K) :
  ∃ (h n next : Nat) (path : UPath (K × V) (n + 1) h) (t : UTree (K × V) (n + 1))
    (result : SearchResult), path.around t.contents = contents
    ∧ Landing m search allow key store next path t result
  := by
  obtain ⟨hinOrder, h, next, t, ht, rfl, hat⟩ := hstore
  have hnext := hat.height_lt ht
  cases h with
  | zero => exact t.elim
  | succ n =>
      have haround : (UPath.root : UPath (K × V) (n + 1) (n + 1)).around t.contents = t.contents :=
        UPath.around_root t.contents
      rw [← haround] at hinOrder
      obtain ⟨n', path, t', result, rfl, hpath, hfits, hlands, hfind⟩ :=
        yields_findNodeForInsertion search t.id next hm .root t trivial ht
          hinOrder (UPath.root_surrounded _ _) (Nat.lt_of_succ_lt hnext)
      have hlength := path.length_add
      rw [UPath.contents_plug t' hpath] at *
      rw [allCells_plug, UPath.id_plug] at *
      exact ⟨n + 1, n', next, path, t', result, rfl, hpath, hfits, by omega, hat, hlands, hfind⟩

/-- Inserting an entry to the leaf at the end of the descent. -/
theorem Landing.insert_leaf (hm : 1 ≤ m) {path : UPath (K × V) 1 h} {leaf : UTree (K × V) 1}
    {result : SearchResult} {before after : List (K × V)} {key : K} {value : V}
    {store : NodeStore K V} (hlanding : Landing m search allow key store next path leaf result)
    (hentries : leaf.entries = before ++ after) (hposition : before.length = result.position)
    (hnew : allow = true ∨ ∀ i, result ≠ .found i)
    (hplaced : leaf.entries.length = 2 * m → ∀ middle,
      (before ++ (key, value) :: after)[m]? = some middle → Placed search m path middle) :
  ∃ (h' : Nat) (t' : UTree (K × V) h') (store' : NodeStore K V), t'.Rooted m
    ∧ t'.contents = (path.before ++ before) ++ (key, value) :: (after ++ path.after)
    ∧ (memoryTree m search allow).insert key value store = .ok () store'
    ∧ At (allCells .root t') t'.id (next + addedNodes m path leaf) store'
  := by
  obtain ⟨h', t', hrooted, hcontents, hinsert⟩ :=
    yields_insertToLeaf hm hlanding.full hlanding.fits hentries hplaced hlanding.length_lt
  have hyields : Yields (At (allCells path leaf) (path.rootId leaf.id) next)
      ((memoryTree m search allow).insert key value) ()
      (At (allCells .root t') t'.id (next + addedNodes m path leaf)) := by
    apply Yields.bind (yields_steps _)
    apply Yields.bind (yields_root _)
    apply Yields.bind hlanding.find
    rw [hposition] at hinsert
    cases result with
    | missing i => exact hinsert
    | found i =>
        rcases hnew with rfl | hnew
        · exact hinsert
        · exact absurd rfl (hnew i)
  obtain ⟨store', hok, hat'⟩ := hyields store hlanding.state
  exact ⟨h', t', store', hrooted, hcontents, hok, hat'⟩

/-- Inserting an entry puts it between those that are in order with its key, when the entries
that move up find their places. -/
theorem Landing.insert (hm : 1 ≤ m) {n : Nat} {path : UPath (K × V) (n + 1) h}
    {t : UTree (K × V) (n + 1)} {result : SearchResult} {key : K} {value : V}
    {store : NodeStore K V} (hlanding : Landing m search allow key store next path t result)
    (hinOrder : InOrder allow (path.around t.contents))
    (hnew : allow = true ∨ ∀ i, result ≠ .found i)
    (hplaced : ∀ before after, t.entries = before ++ after → before.length = result.position →
      InOrder allow ((path.before ++ before) ++ (key, value) :: (after ++ path.after)) →
        t.entries.length = 2 * m → ∀ middle,
          (before ++ (key, value) :: after)[m]? = some middle → Placed search m path middle) :
  ∃ before after store', path.around t.contents = before ++ after
    ∧ (memoryTree m search allow).insert key value store = .ok () store'
    ∧ Stores m allow (before ++ (key, value) :: after) store'
    ∧ store'.idCounter = next + addedNodes m path t
  := by
  obtain ⟨rfl, before, after, hentries, hposition, hbefore, hafter⟩ :=
    hlanding.lands.exists_split hnew hinOrder
  have hsplit : path.around t.contents = (path.before ++ before) ++ (after ++ path.after) := by
    rw [UPath.around, UTree.contents_leaf, hentries]
    simp
  rw [hsplit] at hinOrder ⊢
  have hinOrder' : InOrder allow
      ((path.before ++ before) ++ (key, value) :: (after ++ path.after)) :=
    hinOrder.insert hbefore hafter
  obtain ⟨h', t', store', hrooted, hcontents, hok, hat'⟩ :=
    hlanding.insert_leaf hm hentries hposition hnew
      (hplaced before after hentries hposition hinOrder')
  exact ⟨_, _, store', rfl, hok, ⟨hinOrder', h', _, t', hrooted, hcontents, hat'⟩,
    hat'.idCounter⟩

/-- An entry of the node in the hole is in order with the entries around the hole. -/
theorem InOrder.of_hole {n : Nat} {path : UPath (K × V) n h} {before after : List (K × V)}
    {entry e : K × V}
    (hinOrder : InOrder allow ((path.before ++ before) ++ entry :: (after ++ path.after)))
    (he : e ∈ before ++ entry :: after) :
  InOrder allow (path.before ++ e :: path.after)
  := by
  have hsingle := List.singleton_sublist.mpr he
  apply List.Pairwise.sublist _ hinOrder
  have hsub := (hsingle.append_right path.after).append_left path.before
  simpa using hsub

/-! ### Trees without duplicate keys -/

section Unique

variable {contents : List (K × V)} {store : NodeStore K V} {key : K} {value : V}

/-- An entry found at the end of the descent is in the tree. -/
theorem Lands.found_mem {n i : Nat} {path : UPath (K × V) (n + 1) h} {t : UTree (K × V) (n + 1)}
    (hlands : Lands allow key path t (.found i)) (hfits : path.Fits m t) :
  ∃ before e after, t.entries = before ++ e :: after ∧ before.length = i ∧ e.1 = key
    ∧ e ∈ path.around t.contents
  := by
  obtain ⟨-, before, e, after, hentries, hi, hkey⟩ := hlands
  refine ⟨before, e, after, hentries, hi, hkey, hfits.entries_sublist.subset ?_⟩
  rw [hentries]
  exact List.mem_append_right before List.mem_cons_self

/-- At a missing key the entries of the tree are those before and those after the key. -/
theorem Lands.missing_split {n i : Nat} {path : UPath (K × V) (n + 1) h}
    {t : UTree (K × V) (n + 1)} (hlands : Lands allow key path t (.missing i)) :
  ∃ before after, path.around t.contents = before ++ after
    ∧ (∀ e ∈ before, KeyOrder allow e.1 key) ∧ ∀ e ∈ after, KeyOrder allow key e.1
  := by
  obtain ⟨rfl, before, after, hentries, -, hbefore, hafter⟩ := hlands
  refine ⟨path.before ++ before, after ++ path.after, ?_, hbefore, hafter⟩
  rw [UPath.around, UTree.contents_leaf, hentries]
  simp

/-- The number of nodes created when an entry is inserted to a node: full nodes are split on the
way up until one has room, and above a root node that is split there is a new one. -/
def nodesCreatedFrom (m : Nat) (nodes : Heap (TreeNode K V)) : Nat → Nat → Nat
  | 0, _ => 0
  | steps + 1, id =>
      match nodes id with
      | none => 0
      | some node =>
          if node.entries.length = 2 * m then
            (if node.parentId = 0 then 1 else nodesCreatedFrom m nodes steps node.parentId) + 1
          else 0

/-- The number of nodes created when a key is inserted; there are none if the key is present. -/
def NodeStore.nodesCreated (m : Nat) (search : EntrySearch K V) (store : NodeStore K V)
    (key : K) : Nat :=
  match store.rootNode with
  | none => 0
  | some root =>
      match (memoryTree m search false).findNodeForInsertion key store.idCounter root store with
      | .ok (leaf, .missing _) _ => nodesCreatedFrom m store.nodes store.idCounter leaf
      | _ => 0

omit [LinearOrder K] in
/-- The nodes created are those along the path that have to be split. -/
theorem nodesCreatedFrom_eq {h : Nat} :
  ∀ {n : Nat} (path : UPath (K × V) (n + 1) h) (t : UTree (K × V) (n + 1)) {steps : Nat},
    At (allCells path t) root next store → path.length < steps →
      nodesCreatedFrom m store.nodes steps t.id = addedNodes m path t
  | _, .root, t, steps + 1, hat, _ => by
      rw [nodesCreatedFrom, hat.node_eq (allCells_eq _ t), addedNodes]
      rfl
  | n, .down above id es es' ls rs, t, steps + 1, hat, hsteps => by
      have hparent := allCells_above above id es es' ls rs t
      have hpos := hat.id_pos hparent
      have hat' : At (allCells above (.node id (es ++ es') (ls ++ t :: rs))) root next store :=
        hat.congr (allCells_down above id es es' ls rs t)
      have hlt : above.length < steps := Nat.lt_of_succ_lt_succ hsteps
      have habove := nodesCreatedFrom_eq above _ hat' hlt
      rw [UTree.id_node, addedNodes, UTree.entries_node, List.length_append] at habove
      rw [nodesCreatedFrom, hat.node_eq (allCells_eq _ t), addedNodes, splitNodes, ← habove]
      dsimp only [UPath.parentId]
      rw [if_neg (Nat.ne_of_gt hpos)]

/-- Where no key is found at the end of the descent, an insertion creates the nodes along the
path. -/
theorem Landing.nodesCreated_eq {n i : Nat} {path : UPath (K × V) (n + 1) h}
    {t : UTree (K × V) (n + 1)}
    (hlanding : Landing m search false key store next path t (.missing i)) :
  store.nodesCreated m search key = addedNodes m path t
  := by
  have hat := hlanding.state
  obtain ⟨store', hok, -⟩ := hlanding.find store hat
  rw [NodeStore.nodesCreated, hat.rootNode, hat.idCounter]
  dsimp only
  rw [hok]
  exact nodesCreatedFrom_eq path t hat hlanding.length_lt

/-- Inserting a key that is not in the tree. -/
theorem Stores.insert_new (search : EntrySearch K V) (value : V) (hm : 1 ≤ m)
    (hstore : Stores m false contents store) (hkey : ∀ e ∈ contents, e.1 ≠ key) :
  ∃ before after store', contents = before ++ after
    ∧ (memoryTree m search false).insert key value store = .ok () store'
    ∧ Stores m false (before ++ (key, value) :: after) store'
    ∧ store'.idCounter = store.idCounter + store.nodesCreated m search key
  := by
  have hinOrder := hstore.1
  obtain ⟨h, n, next, path, t, result, rfl, hlanding⟩ := hstore.exists_landing search hm key
  cases result with
  | found i =>
      obtain ⟨before, e, after, -, -, hsame, hmem⟩ := hlanding.lands.found_mem hlanding.fits
      exact absurd hsame (hkey e hmem)
  | missing i =>
      rw [hlanding.nodesCreated_eq, hlanding.state.idCounter]
      apply hlanding.insert hm hinOrder (.inr (fun _ h => by cases h))
      intro before after _ _ hinOrder' _ middle hmiddle
      apply placed_of_inOrder path middle hlanding.full
      exact hinOrder'.of_hole (List.mem_of_getElem? hmiddle)

/-- Inserting a key that is in the tree. -/
theorem Stores.insert_present (search : EntrySearch K V) (value : V) (hm : 1 ≤ m)
    (hstore : Stores m false contents store) (hkey : ∃ e ∈ contents, e.1 = key) :
  (memoryTree m search false).insert key value store = .error .keyExists store
  := by
  obtain ⟨h, n, next, path, t, result, rfl, hlanding⟩ := hstore.exists_landing search hm key
  have hat := hlanding.state
  cases result with
  | missing i =>
      obtain ⟨before, after, heq, hbefore, hafter⟩ := hlanding.lands.missing_split
      obtain ⟨e, hmem, hsame⟩ := hkey
      rw [heq] at hmem
      rcases List.mem_append.mp hmem with hmem | hmem
      · exact absurd hsame (ne_of_lt (α := K) (hbefore e hmem))
      · exact absurd hsame.symm (ne_of_lt (α := K) (hafter e hmem))
  | found i =>
      have hthrows : Throws (At (allCells path t) (path.rootId t.id) next)
          ((memoryTree m search false).insert key value) .keyExists
          (At (allCells path t) (path.rootId t.id) next) := by
        apply Yields.bind_throws (yields_steps _)
        apply Yields.bind_throws (yields_root _)
        apply Yields.bind_throws hlanding.find
        exact Throws.throw _ _
      obtain ⟨store', heq, hat'⟩ := hthrows store hat
      rw [heq, hat.unique hat']

/-- In strict order there is only one entry with a key. -/
theorem InOrder.eq_of_key {e e' : K × V} (hinOrder : InOrder false contents)
    (he : e ∈ contents) (he' : e' ∈ contents) (hkey : e.1 = e'.1) :
  e = e'
  := by
  obtain ⟨i, hi, rfl⟩ := List.getElem_of_mem he
  obtain ⟨j, hj, rfl⟩ := List.getElem_of_mem he'
  have hpairs := List.pairwise_iff_getElem.mp hinOrder
  rcases Nat.lt_trichotomy i j with hlt | rfl | hlt
  · exact absurd hkey (ne_of_lt (α := K) (hpairs i j hi hj hlt))
  · rfl
  · exact absurd hkey.symm (ne_of_lt (α := K) (hpairs j i hj hi hlt))

/-- Getting the entry with a key. -/
theorem Stores.get (search : EntrySearch K V) (hm : 1 ≤ m)
    (hstore : Stores m false contents store) (key : K) :
  ∃ result, (memoryTree m search false).get key store = .ok result store
    ∧ ∀ e, result = some e ↔ e ∈ contents ∧ e.1 = key
  := by
  have hinOrder := hstore.1
  obtain ⟨h, n, next, path, t, result, rfl, hlanding⟩ := hstore.exists_landing search hm key
  have hat := hlanding.state
  cases result with
  | missing i =>
      obtain ⟨before, after, heq, hbefore, hafter⟩ := hlanding.lands.missing_split
      refine ⟨none, ?_, ?_⟩
      · have hyields : Yields (At (allCells path t) (path.rootId t.id) next)
            ((memoryTree m search false).get key) none
            (At (allCells path t) (path.rootId t.id) next) := by
          apply Yields.bind (yields_steps _)
          apply Yields.bind (yields_root _)
          apply Yields.bind hlanding.find
          exact Yields.pure _ none
        obtain ⟨store', heq', hat'⟩ := hyields store hat
        rw [heq', hat.unique hat']
      · intro e
        constructor
        · rintro ⟨⟩
        · rintro ⟨hmem, hsame⟩
          rw [heq] at hmem
          rcases List.mem_append.mp hmem with hmem | hmem
          · exact absurd hsame (ne_of_lt (α := K) (hbefore e hmem))
          · exact absurd hsame.symm (ne_of_lt (α := K) (hafter e hmem))
  | found i =>
      obtain ⟨before, e, after, hentries, hi, hkey, hmem⟩ := hlanding.lands.found_mem hlanding.fits
      refine ⟨some e, ?_, ?_⟩
      · have hcells := allCells_eq path t
        rw [hentries] at hcells
        have hyields : Yields (At (allCells path t) (path.rootId t.id) next)
            ((memoryTree m search false).get key) (some e)
            (At (allCells path t) (path.rootId t.id) next) := by
          apply Yields.bind (yields_steps _)
          apply Yields.bind (yields_root _)
          apply Yields.bind hlanding.find
          exact Yields.map some (TreeNode.yields_getEntry hcells (congrArg Nat.cast hi))
        obtain ⟨store', heq', hat'⟩ := hyields store hat
        rw [heq', hat.unique hat']
      · intro e'
        constructor
        · rintro ⟨⟩
          exact ⟨hmem, hkey⟩
        · rintro ⟨hmem', hkey'⟩
          rw [hinOrder.eq_of_key hmem hmem' (hkey.trans hkey'.symm)]

end Unique

end Datatent.BTree
