import Datatent.CoreOld.Tree.Index

/-!
# Duplicate keys

`InsertAsParent` looks for the place of a split child by the key of the entry that moves up.
In a tree with duplicate keys the search may find another entry with the key than the one
after the split child, and then children are misplaced. As long as no insertion meets such an
entry every state holds exactly the inserted entries in order.
-/

namespace Datatent.BTree

variable {K V : Type} [LinearOrder K]

/-! ### Places of split nodes -/

/-- A search that finds no entry but that at a position. -/
def SearchResult.findsOnly (position : Nat) : SearchResult → Bool
  | found i => i == position
  | missing _ => true

/-- The node above a node, with its id. -/
def nodeAbove (nodes : Heap (TreeNode K V)) (id : Nat) : Option (Nat × TreeNode K V) :=
  match nodes id with
  | none => none
  | some node => (nodes node.parentId).map (fun parent => (node.parentId, parent))

/-- Splitting a node that is to have the given entries: among the entries of its parent there
is none with the key of the middle entry that the search finds, except for that after the
node; and so on for the parent if it has to be split in turn. -/
def findsPlaces (m : Nat) (search : EntrySearch K V) (nodes : Heap (TreeNode K V)) :
    Nat → Nat → List (K × V) → Bool
  | 0, _, _ => true
  | steps + 1, id, entries =>
      match entries[m]?, nodeAbove nodes id with
      | some middle, some (parentId, parent) =>
          let place := parent.childrenIds.idxOf id
          (search.search parent.entries middle.1).findsOnly place
            && (parent.entries.length != 2 * m
              || findsPlaces m search nodes steps parentId
                (parent.entries.take place ++ middle :: parent.entries.drop place))
      | _, _ => true

/-- The node that an entry with the given key is inserted to, and the position in it. -/
def NodeStore.insertionPoint (m : Nat) (search : EntrySearch K V) (store : NodeStore K V)
    (key : K) : Option (Nat × Nat) :=
  match store.rootNode with
  | none => none
  | some root =>
      match (memoryTree m search true).findNodeForInsertion key store.idCounter root store with
      | .ok (leaf, result) _ => some (leaf, result.position)
      | .error _ _ => none

/-- The nodes that are split when an entry is inserted find their places. -/
def insertionFindsPlaces (m : Nat) (search : EntrySearch K V) (store : NodeStore K V)
    (entry : K × V) : Bool :=
  match store.insertionPoint m search entry.1 with
  | none => true
  | some (leaf, position) =>
      match store.nodes leaf with
      | none => true
      | some node => node.entries.length != 2 * m
          || findsPlaces m search store.nodes store.idCounter leaf
            (node.entries.take position ++ entry :: node.entries.drop position)

/-- Inserting an entry to a tree with duplicate keys. -/
def insertStep (m : Nat) (search : EntrySearch K V) (store : NodeStore K V) (entry : K × V) :
    NodeStore K V :=
  ((memoryTree m search true).step store (.insert entry.1 entry.2)).2

/-! ### One insertion -/

section Step

variable {m h root next : Nat} {search : EntrySearch K V} {store : NodeStore K V}
  {contents : List (K × V)}

/-- A search that finds no other entry with the key than the first one after its place. -/
theorem position_of_findsOnly {es es' : List (K × V)} {entry : K × V}
    (hordered : Ordered (es ++ entry :: es'))
    (hfinds : (search.search (es ++ es') entry.1).findsOnly es.length = true) :
  (search.search (es ++ es') entry.1).position = es.length
  := by
  have hsub : Ordered (es ++ es') :=
    hordered.sublist ((List.sublist_cons_self entry es').append_left es)
  rw [Ordered, List.pairwise_append, List.pairwise_cons] at hordered
  cases hsearch : search.search (es ++ es') entry.1 with
  | found i =>
      rw [hsearch] at hfinds
      exact beq_iff_eq.mp hfinds
  | missing i =>
      exact EntrySearch.missing_eq hsub (fun e he => hordered.2.2 e he entry List.mem_cons_self)
        hordered.2.1.1 hsearch

/-- When the nodes to be split find their places, the entry that moves up is placed. -/
theorem placed_of_findsPlaces {h : Nat} :
  ∀ {n : Nat} (path : UPath (K × V) (n + 1) h) {t : UTree (K × V) (n + 1)} {steps : Nat}
    {entries : List (K × V)} {entry : K × V}, path.Full m → At (allCells path t) root next store →
      InOrder true (path.before ++ entry :: path.after) → entries[m]? = some entry →
        path.length < steps → findsPlaces m search store.nodes steps t.id entries = true →
          Placed search m path entry
  | _, .root, _, _, _, _, _, _, _, _, _, _ => trivial
  | n, .down above id es es' ls rs, t, steps + 1, entries, entry, hfull, hat, hinOrder, hentry,
      hsteps, hfinds => by
      obtain ⟨hsorted, habove⟩ := InOrder.of_down hfull hinOrder
      have hnode : nodeAbove store.nodes t.id
          = some (id, ⟨above.parentId, es ++ es', ls.map (·.id) ++ t.id :: rs.map (·.id)⟩) := by
        have hparent := hat.node_eq (allCells_above above id es es' ls rs t)
        rw [nodeAbove, hat.node_eq (allCells_eq _ t)]
        dsimp only [UPath.parentId]
        rw [hparent]
        rfl
      have hplace : (ls.map (·.id) ++ t.id :: rs.map (·.id)).idxOf t.id = es.length := by
        rw [List.idxOf_append_of_notMem hat.hole_notMem, List.idxOf_cons_self, List.length_map]
        exact hfull.1
      rw [findsPlaces, hentry, hnode] at hfinds
      dsimp only at hfinds
      rw [hplace, List.take_left, List.drop_left, Bool.and_eq_true, Bool.or_eq_true] at hfinds
      constructor
      · exact position_of_findsOnly hsorted hfinds.1
      · intro hlength middle hmiddle
        have hat' : At (allCells above (.node id (es ++ es') (ls ++ t :: rs))) root next store :=
          hat.congr (allCells_down above id es es' ls rs t)
        have hrest := hfinds.2.resolve_left (by rw [List.length_append, hlength]; simp)
        have hlt : above.length < steps := Nat.lt_of_succ_lt_succ hsteps
        exact placed_of_findsPlaces above hfull.2.2.2.2.2.2 hat'
          (habove middle (List.mem_of_getElem? hmiddle)) hmiddle hlt hrest

/-- The end of the descent is the insertion point. -/
theorem Landing.insertionPoint_eq {n : Nat} {path : UPath (K × V) (n + 1) h}
    {t : UTree (K × V) (n + 1)} {result : SearchResult} {key : K}
    (hlanding : Landing m search true key store next path t result) :
  store.insertionPoint m search key = some (t.id, result.position)
  := by
  obtain ⟨store', hok, -⟩ := hlanding.find store hlanding.state
  rw [NodeStore.insertionPoint, hlanding.state.rootNode, hlanding.state.idCounter]
  dsimp only
  rw [hok]

/-- Inserting an entry when the nodes that are split find their places. -/
theorem Stores.insert_duplicate (hm : 1 ≤ m) (hstore : Stores m true contents store)
    {entry : K × V} (hfinds : insertionFindsPlaces m search store entry = true) :
  ∃ before after store', contents = before ++ after
    ∧ (memoryTree m search true).insert entry.1 entry.2 store = .ok () store'
    ∧ Stores m true (before ++ entry :: after) store'
  := by
  have hinOrder := hstore.1
  obtain ⟨h, n, next, path, t, result, rfl, hlanding⟩ :=
    hstore.exists_landing search hm entry.1
  have hinsert : ∃ before after store', path.around t.contents = before ++ after
      ∧ (memoryTree m search true).insert entry.1 entry.2 store = .ok () store'
      ∧ Stores m true (before ++ entry :: after) store'
      ∧ store'.idCounter = next + addedNodes m path t := by
    apply hlanding.insert hm hinOrder (.inl rfl)
    intro before after hentries hposition hinOrder' hsize middle hmiddle
    have hnode := hlanding.state.node_eq (allCells_eq path t)
    rw [insertionFindsPlaces, hlanding.insertionPoint_eq] at hfinds
    dsimp only at hfinds
    rw [hnode] at hfinds
    dsimp only at hfinds
    rw [hlanding.state.idCounter, ← hposition, hentries, List.take_left, List.drop_left,
      Bool.or_eq_true] at hfinds
    rw [hentries] at hsize
    have hrest := hfinds.resolve_left (by rw [hsize]; simp)
    exact placed_of_findsPlaces path hlanding.full hlanding.state
      (hinOrder'.of_hole (List.mem_of_getElem? hmiddle)) hmiddle hlanding.length_lt hrest
  obtain ⟨before, after, store', hsplit, hok, hstore', -⟩ := hinsert
  exact ⟨before, after, store', hsplit, hok, hstore'⟩

omit [LinearOrder K] in
/-- The children of a node have it as their parent. -/
theorem At.exists_child {t : UTree (K × V) h} {id childId : Nat}
    (hat : At (allCells .root t) root next store) (hchild : childId ∈ store.childrenOf id) :
  ∃ child, store.nodes childId = some child ∧ child.parentId = id
  := by
  rw [NodeStore.childrenOf] at hchild
  cases hnode : store.nodes id with
  | none =>
      rw [hnode] at hchild
      cases hchild
  | some node =>
      rw [hnode] at hchild
      obtain ⟨child, hcell, hparent⟩ := exists_child_cell (hat.mem_cells.mp hnode) hchild
      exact ⟨child, hat.mem_cells.mpr hcell, hparent⟩

/-- In a state that stores a tree no node is listed as a child twice. -/
theorem Stores.listed_nodup {allow : Bool} (hstore : Stores m allow contents store) :
  store.listed.Nodup
  := by
  obtain ⟨-, h, next, t, -, -, hat⟩ := hstore
  rw [NodeStore.listed, List.nodup_flatMap]
  constructor
  · intro id _
    rw [NodeStore.childrenOf]
    cases hnode : store.nodes id with
    | none => exact List.nodup_nil
    | some node => exact childrenIds_nodup hat.ids_nodup (hat.mem_cells.mp hnode)
  · apply List.nodup_range.imp
    intro id id' hne childId hchild hchild'
    obtain ⟨child, hnode, rfl⟩ := hat.exists_child hchild
    obtain ⟨child', hnode', rfl⟩ := hat.exists_child hchild'
    rw [hnode, Option.some.injEq] at hnode'
    exact hne (congrArg TreeNode.parentId hnode')

end Step

/-! ### Runs -/

/-- The state holds exactly the inserted entries in order, and no node is listed as a child
twice. -/
structure KeepsEntries (inserted : List (K × V)) (store : NodeStore K V) : Prop where
  entries : store.walk.Perm inserted
  ordered : Ordered store.walk
  once : store.listed.Nodup

section Runs

variable {m : Nat} {search : EntrySearch K V}

/-- A stored tree with the inserted entries keeps them. -/
theorem Stores.keepsEntries {contents inserted : List (K × V)} {store : NodeStore K V}
    (hstore : Stores m true contents store) (hperm : contents.Perm inserted) :
  KeepsEntries inserted store
  := by
  constructor
  · rw [hstore.walk_eq]
    exact hperm
  · rw [hstore.walk_eq]
    exact hstore.1.ordered
  · exact hstore.listed_nodup

/-- An insertion whose split nodes find their places puts the entry to those of the state. -/
theorem Stores.insertStep {contents : List (K × V)} {store : NodeStore K V} {entry : K × V}
    (hm : 1 ≤ m) (hstore : Stores m true contents store)
    (hfinds : insertionFindsPlaces m search store entry = true) :
  ∃ contents', contents'.Perm (contents ++ [entry])
    ∧ Stores m true contents' (BTree.insertStep m search store entry)
  := by
  obtain ⟨before, after, store', rfl, hok, hstore'⟩ := hstore.insert_duplicate hm hfinds
  refine ⟨before ++ entry :: after, ?_, ?_⟩
  · exact List.perm_middle.trans (List.perm_append_singleton entry (before ++ after)).symm
  · rw [BTree.insertStep, step_insert_ok hok]
    exact hstore'

/-- Along a run whose split nodes all find their places the state stores the entries. -/
theorem stores_run (hm : 1 ≤ m) :
  ∀ {pairs contents : List (K × V)} {store : NodeStore K V}, Stores m true contents store →
    Run.Along (insertStep m search)
        (fun store entry => insertionFindsPlaces m search store entry = true) store pairs →
      ∃ contents', contents'.Perm (contents ++ pairs)
        ∧ Stores m true contents' (Run.final (insertStep m search) store pairs)
  | [], contents, _, hstore, _ => ⟨contents, by rw [List.append_nil], hstore⟩
  | entry :: pairs, contents, store, hstore, hrun => by
      obtain ⟨contents', hperm, hstore'⟩ := hstore.insertStep hm hrun.1
      obtain ⟨contents'', hperm', hstore''⟩ := stores_run hm hstore' hrun.2
      refine ⟨contents'', ?_, hstore''⟩
      rw [List.append_cons]
      exact hperm'.trans (hperm.append_right pairs)

/-- In a run whose split nodes all find their places no state has lost an entry. -/
theorem keepsEntries_of_findsPlaces (search : EntrySearch K V) (hm : 1 ≤ m)
    (pairs : List (K × V))
    (hrun : Run.Along (insertStep m search)
      (fun store entry => insertionFindsPlaces m search store entry = true) NodeStore.init pairs)
    (n : Nat) :
  KeepsEntries (pairs.take n) (Run.final (insertStep m search) NodeStore.init (pairs.take n))
  := by
  obtain ⟨contents, hperm, hstore⟩ := stores_run hm (stores_init m true) (hrun.take n)
  exact hstore.keepsEntries hperm

/-- A run in which a node with duplicate keys is split. -/
theorem keepsEntries_equal :
  KeepsEntries [((1, 0) : Nat × Nat), (1, 1), (1, 2), (1, 3)]
    (Run.final (insertStep 1 listBinarySearch) NodeStore.init [(1, 0), (1, 1), (1, 2), (1, 3)])
  := by
  apply keepsEntries_of_findsPlaces listBinarySearch (Nat.le_refl 1)
    [((1, 0) : Nat × Nat), (1, 1), (1, 2), (1, 3)] _ 4
  exact ⟨by decide, by decide, by decide, by decide, trivial⟩

/-- Whatever is inserted to a tree with duplicate keys, no entry is lost. -/
def NoEntryIsLost : Prop :=
  ∀ (m : Nat), 1 ≤ m → ∀ pairs : List (Nat × Nat),
    KeepsEntries pairs (Run.final (insertStep m listBinarySearch) NodeStore.init pairs)

/-- Entries that come to be lost: the last one splits the first leaf, whose middle entry has
the key of the two first entries of the root node, and the search finds the second of them. -/
def lostEntries : List (Nat × Nat) :=
  [2, 1, 1, 1, 3, 1, 1, 1, 3, 0, 3, 1, 2, 0].zipIdx

/-- After fourteen insertions the first leaf is listed twice and the second one is lost. -/
theorem not_noEntryIsLost :
  ¬ NoEntryIsLost
  := by
  intro h
  have hlisted : (Run.final (insertStep 2 listBinarySearch) NodeStore.init lostEntries).listed
      = [1, 1, 6, 2, 5] := by
    decide +kernel
  have honce := (h 2 (by decide) lostEntries).once
  rw [hlisted] at honce
  revert honce
  decide

end Runs

end Datatent.BTree
