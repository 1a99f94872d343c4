import Datatent.CoreOld.Tree.Removing
import Datatent.CoreOld.Tree.Walking
import Datatent.Library.Run

/-!
# The index

A tree without duplicate keys over the memory node manager is used by inserting, deleting and
getting keys. Where the ids do not come to an end, it answers as a finite map does along every
run, and every state it comes to is well formed.
-/

namespace Datatent.BTree

variable {K V : Type} [LinearOrder K]

/-! ### Operations -/

/-- The operations on a tree. -/
inductive Operation (K V : Type) where
  | insert (key : K) (value : V)
  | delete (key : K)
  | get (key : K)
deriving DecidableEq, Repr

/-- What an operation comes to. -/
inductive Outcome (K V : Type) where
  | inserted
  | deleted (found : Bool)
  | got (entry : Option (K × V))
  | thrown (exception : TreeException)
deriving DecidableEq, Repr

/-- An operation on a tree as a computation. -/
def Tree.perform {S : Type} (tree : Tree S K V) : Operation K V → TreeM S (Outcome K V)
  | .insert key value => do
      tree.insert key value
      return .inserted
  | .delete key => .deleted <$> tree.delete key
  | .get key => .got <$> tree.get key

/-- One operation: what it comes to and the state after it, also when it throws. -/
def Tree.step {S : Type} (tree : Tree S K V) (store : S) (operation : Operation K V) :
    Outcome K V × S :=
  match tree.perform operation store with
  | .ok outcome store => (outcome, store)
  | .error exception store => (.thrown exception, store)

/-- The state after some operations. -/
def Tree.after {S : Type} (tree : Tree S K V) (store : S) (operations : List (Operation K V)) : S :=
  Run.final (fun store operation => (tree.step store operation).2) store operations

/-- Operations that follow other ones. -/
theorem Tree.after_append {S : Type} (tree : Tree S K V) (store : S)
    (operations operations' : List (Operation K V)) :
  tree.after store (operations ++ operations')
    = tree.after (tree.after store operations) operations'
  := Run.final_append _ _ _

/-- One operation on a finite map. -/
def mapStep (map : K → Option V) : Operation K V → Outcome K V × (K → Option V)
  | .insert key value =>
      if (map key).isSome then (.thrown .keyExists, map)
      else (.inserted, Function.update map key (some value))
  | .delete key => (.deleted (map key).isSome, Function.update map key none)
  | .get key => (.got ((map key).map (fun value => (key, value))), map)

/-- The map after some operations on the empty map. -/
def mapAfter (operations : List (Operation K V)) : K → Option V :=
  Run.final (fun map operation => (mapStep map operation).2) (fun _ => none) operations

/-! ### One operation -/

section Step

variable {m : Nat} {search : EntrySearch K V} {allow : Bool} {contents : List (K × V)}
  {store : NodeStore K V} {map : K → Option V}

/-- The entries are those of the map. -/
def EntriesOf (map : K → Option V) (contents : List (K × V)) : Prop :=
  ∀ key value, map key = some value ↔ (key, value) ∈ contents

/-- The state stores the entries of the map. -/
def Represents (m : Nat) (store : NodeStore K V) (map : K → Option V) : Prop :=
  ∃ contents, Stores m false contents store ∧ EntriesOf map contents

omit [LinearOrder K] in
/-- The map has no value for a key exactly if no entry has the key. -/
theorem EntriesOf.eq_none_iff (h : EntriesOf map contents) (key : K) :
  map key = none ↔ ∀ e ∈ contents, e.1 ≠ key
  := by
  rw [Option.eq_none_iff_forall_ne_some]
  constructor
  · rintro hnone ⟨key', value⟩ hmem rfl
    exact hnone value ((h key' value).mpr hmem)
  · intro hall value hvalue
    exact hall (key, value) ((h key value).mp hvalue) rfl

/-- The entries with one for a new key. -/
theorem EntriesOf.insert {before after : List (K × V)} {key : K}
    (h : EntriesOf map (before ++ after)) (hkey : ∀ e ∈ before ++ after, e.1 ≠ key) (value : V) :
  EntriesOf (Function.update map key (some value)) (before ++ (key, value) :: after)
  := by
  intro key' value'
  by_cases hsame : key' = key
  · subst hsame
    rw [Function.update_self, List.mem_append, List.mem_cons, Prod.mk.injEq]
    constructor
    · intro heq
      exact .inr (.inl ⟨rfl, (Option.some.inj heq).symm⟩)
    · rintro (hmem | ⟨-, rfl⟩ | hmem)
      · exact absurd rfl (hkey _ (List.mem_append_left after hmem))
      · rfl
      · exact absurd rfl (hkey _ (List.mem_append_right before hmem))
  · rw [Function.update_of_ne hsame, h, List.mem_append, List.mem_append, List.mem_cons,
      Prod.mk.injEq]
    tauto

/-- The entries without that of a key. -/
theorem EntriesOf.delete {before after : List (K × V)} {e : K × V}
    (h : EntriesOf map (before ++ e :: after)) (hinOrder : InOrder false (before ++ e :: after)) :
  EntriesOf (Function.update map e.1 none) (before ++ after)
  := by
  intro key value
  rw [InOrder, List.pairwise_append, List.pairwise_cons] at hinOrder
  by_cases hsame : key = e.1
  · subst hsame
    rw [Function.update_self, List.mem_append]
    constructor
    · rintro ⟨⟩
    · rintro (hmem | hmem)
      · exact absurd (hinOrder.2.2 _ hmem e List.mem_cons_self) (lt_irrefl (α := K) _)
      · exact absurd (hinOrder.2.1.1 _ hmem) (lt_irrefl (α := K) _)
  · have hne : (key, value) ≠ e := by
      rintro rfl
      exact hsame rfl
    rw [Function.update_of_ne hsame, h, List.mem_append, List.mem_append, List.mem_cons]
    tauto

/-- The state of a new manager stores no entries. -/
theorem stores_init (m : Nat) (allow : Bool) :
  Stores m allow [] (NodeStore.init : NodeStore K V)
  := by
  refine ⟨List.Pairwise.nil, 1, 2, .node 1 [] [], ?_, rfl, ?_, rfl, rfl, ?_, Nat.two_pos⟩
  · refine ⟨Nat.zero_le _, Nat.zero_le _, fun h => absurd rfl h, ?_⟩
    exact fun c hc => absurd hc List.not_mem_nil
  · have hput : (Heap.put (fun _ => none) 1 (⟨0, [], []⟩ : TreeNode K V)).Holds
        ((1, ⟨0, [], []⟩) ::ₘ 0) :=
      Heap.Holds.empty.put_new (Multiset.notMem_zero 1)
    exact hput
  · intro c hc
    obtain rfl : c = (1, ⟨0, [], []⟩) := Multiset.mem_singleton.mp hc
    exact ⟨Nat.one_pos, Nat.one_lt_two⟩

theorem step_insert_ok {key : K} {value : V} {store' : NodeStore K V}
    (h : (memoryTree m search allow).insert key value store = .ok () store') :
  (memoryTree m search allow).step store (.insert key value) = (.inserted, store')
  := by
  simp only [Tree.step, Tree.perform, bind, EStateM.bind, h]
  rfl

theorem step_insert_error {key : K} {value : V} {exception : TreeException}
    (h : (memoryTree m search allow).insert key value store = .error exception store) :
  (memoryTree m search allow).step store (.insert key value) = (.thrown exception, store)
  := by
  simp only [Tree.step, Tree.perform, bind, EStateM.bind, h]

theorem step_delete_ok {key : K} {found : Bool} {store' : NodeStore K V}
    (h : (memoryTree m search false).delete key store = .ok found store') :
  (memoryTree m search false).step store (.delete key) = (.deleted found, store')
  := by
  simp only [Tree.step, Tree.perform, Functor.map, EStateM.map, h]

theorem step_get_ok {key : K} {entry : Option (K × V)}
    (h : (memoryTree m search false).get key store = .ok entry store) :
  (memoryTree m search false).step store (.get key) = (.got entry, store)
  := by
  simp only [Tree.step, Tree.perform, Functor.map, EStateM.map, h]

/-- Inserting a key that is in the map throws and leaves the state. -/
theorem Represents.insert_present (hm : 1 ≤ m) (h : Represents m store map) {key : K} {value : V}
    (hkey : (map key).isSome) :
  (memoryTree m search false).step store (.insert key value) = (.thrown .keyExists, store)
  := by
  obtain ⟨contents, hstores, hmap⟩ := h
  obtain ⟨old, hold⟩ := Option.isSome_iff_exists.mp hkey
  have hmem : (key, old) ∈ contents := (hmap key old).mp hold
  exact step_insert_error (hstores.insert_present search value hm ⟨(key, old), hmem, rfl⟩)

/-- Every operation answers as on the map and leads to the map after it. -/
theorem Represents.step (hm : 1 ≤ m) (h : Represents m store map) (operation : Operation K V) :
  ((memoryTree m search false).step store operation).1 = (mapStep map operation).1
    ∧ Represents m ((memoryTree m search false).step store operation).2
        (mapStep map operation).2
  := by
  have hrepresents := h
  obtain ⟨contents, hstores, hmap⟩ := h
  cases operation with
  | insert key value =>
      rw [mapStep]
      by_cases hkey : (map key).isSome
      · rw [hrepresents.insert_present hm hkey, if_pos hkey]
        exact ⟨rfl, hrepresents⟩
      · rw [if_neg hkey]
        rw [Option.not_isSome_iff_eq_none, hmap.eq_none_iff] at hkey
        obtain ⟨before, after, store', rfl, hok, hstores', -⟩ :=
          hstores.insert_new search value hm hkey
        rw [step_insert_ok hok]
        exact ⟨rfl, _, hstores', hmap.insert hkey value⟩
  | delete key =>
      rw [mapStep]
      rcases hstores.delete search hm key with
        ⟨before, e, after, store', rfl, rfl, hok, hstores', -⟩ | ⟨hkey, hok⟩
      · have hvalue : map e.1 = some e.2 :=
          (hmap e.1 e.2).mpr (List.mem_append_right before List.mem_cons_self)
        rw [step_delete_ok hok, hvalue]
        exact ⟨rfl, _, hstores', hmap.delete hstores.1⟩
      · have hnone := (hmap.eq_none_iff key).mpr hkey
        rw [step_delete_ok hok, hnone]
        refine ⟨rfl, contents, hstores, ?_⟩
        rw [Function.update_eq_self_iff.mpr hnone.symm]
        exact hmap
  | get key =>
      obtain ⟨entry, hok, hentry⟩ := hstores.get search hm key
      rw [step_get_ok hok, mapStep]
      refine ⟨?_, hrepresents⟩
      cases hvalue : map key with
      | some value =>
          have hsome := (hentry (key, value)).mpr ⟨(hmap key value).mp hvalue, rfl⟩
          rw [hsome]
          rfl
      | none =>
          cases entry with
          | none => rfl
          | some e =>
              obtain ⟨hmem, rfl⟩ := (hentry e).mp rfl
              exact absurd rfl ((hmap.eq_none_iff e.1).mp hvalue e hmem)

end Step

/-! ### Well-formed states -/

/-- The nodes of a state form a B-tree below the root node. -/
structure WellFormed (m : Nat) (store : NodeStore K V) : Prop where
  root : ∃ id node, store.rootNode = some id ∧ store.nodes id = some node ∧ node.parentId = 0
    ∧ node.entries.length ≤ 2 * m
  sizes : ∀ id node, store.nodes id = some node → store.rootNode ≠ some id →
    m ≤ node.entries.length ∧ node.entries.length ≤ 2 * m
  linked : ∀ id node, store.nodes id = some node → node.childrenIds ≠ [] →
    node.childrenIds.length = node.entries.length + 1
  parents : ∀ id node childId, store.nodes id = some node → childId ∈ node.childrenIds →
    ∃ child, store.nodes childId = some child ∧ child.parentId = id
  balanced : ∃ depth, ∀ leafDepth ∈ store.leafDepths, leafDepth = depth
  increasing : store.walk.Pairwise (fun e e' => e.1 < e'.1)
  held : ∀ id, store.nodes id ≠ none ↔ id ∈ store.reached
  once : store.reached.Nodup

section Walks

variable {m : Nat} {allow : Bool} {contents : List (K × V)} {store : NodeStore K V}

omit [LinearOrder K] in
/-- The nodes of a state that stores a tree are the cells of the tree. -/
theorem At.mem_cells {h root next : Nat} {t : UTree (K × V) h} {id : Nat} {node : TreeNode K V}
    (hat : At (allCells .root t) root next store) :
  store.nodes id = some node ↔ (id, node) ∈ cells 0 t
  := by
  rw [hat.holds.cell, allCells, UPath.parentId, pathCells, add_zero]

omit [LinearOrder K] in
/-- The nodes of a stored tree are found under their ids. -/
theorem At.has {h root next : Nat} {t : UTree (K × V) h}
    (hat : At (allCells .root t) root next store) :
  Has store.nodes 0 t
  := fun _ hc => hat.mem_cells.mpr hc

omit [LinearOrder K] in
/-- The nodes of a stored tree have different ids. -/
theorem At.ids_nodup {h root next : Nat} {t : UTree (K × V) h}
    (hat : At (allCells .root t) root next store) :
  t.ids.Nodup
  := by
  have hnodup := hat.holds.nodup
  rwa [allCells, UPath.parentId, pathCells, add_zero, ids_of_cells, Multiset.coe_nodup] at hnodup

/-- The walk through a state that stores a tree comes to its contents. -/
theorem Stores.walk_eq (hstore : Stores m allow contents store) :
  store.walk = contents
  := by
  obtain ⟨-, h, next, t, ht, rfl, hat⟩ := hstore
  have hnext := hat.height_lt ht
  rw [← hat.idCounter] at hnext
  rw [NodeStore.walk, hat.rootNode]
  exact hat.has.walkBelow_eq (Nat.le_of_lt hnext)

/-- A state that stores a tree without duplicate keys is well formed. -/
theorem Stores.wellFormed (hstore : Stores m false contents store) :
  WellFormed m store
  := by
  have hwalk := hstore.walk_eq
  obtain ⟨hinOrder, h, next, t, ht, rfl, hat⟩ := hstore
  have hnext := hat.height_lt ht
  have hhas := hat.has
  rw [← hat.idCounter] at hnext
  cases h with
  | zero => exact t.elim
  | succ n =>
      have hreached : store.reached = t.ids := by
        rw [NodeStore.reached, hat.rootNode]
        exact hhas.reachedBelow_eq (Nat.le_of_lt hnext)
      refine ⟨?_, ?_, ?_, ?_, ?_, ?_, ?_, ?_⟩
      · exact ⟨t.id, _, hat.rootNode, hhas.node, rfl, ht.2.1⟩
      · intro id node hnode hroot
        rcases size_of_mem ht.2.2 (hat.mem_cells.mp hnode) with heq | hsize
        · rw [Prod.mk.injEq] at heq
          rw [heq.1] at hroot
          exact absurd hat.rootNode hroot
        · exact hsize
      · intro id node hnode hne
        exact linked_of_mem ht.2.2 (hat.mem_cells.mp hnode) hne
      · intro id node childId hnode hchild
        obtain ⟨child, hmem, hparent⟩ := exists_child_cell (hat.mem_cells.mp hnode) hchild
        exact ⟨child, hhas _ hmem, hparent⟩
      · refine ⟨n, ?_⟩
        rw [NodeStore.leafDepths, hat.rootNode]
        exact hhas.leafDepthsBelow_eq ht.2.2 (Nat.le_of_lt hnext)
      · rw [hwalk]
        exact hinOrder
      · intro id
        rw [hreached, ← Multiset.mem_coe, ← ids_of_cells 0 t, Multiset.mem_map]
        constructor
        · intro hne
          obtain ⟨node, hnode⟩ := Option.ne_none_iff_exists'.mp hne
          exact ⟨(id, node), hat.mem_cells.mp hnode, rfl⟩
        · rintro ⟨c, hc, rfl⟩
          rw [hhas c hc]
          exact Option.some_ne_none _
      · rw [hreached]
        exact hat.ids_nodup

end Walks

/-! ### Runs -/

section Runs

variable {m : Nat}

/-- Along every run the tree answers as a map, and it stores the entries of the map. -/
theorem represents_after (search : EntrySearch K V) (hm : 1 ≤ m)
    (operations : List (Operation K V)) :
  Run.outputs (memoryTree m search false).step NodeStore.init operations
      = Run.outputs mapStep (fun _ => none) operations
    ∧ Represents m ((memoryTree m search false).after NodeStore.init operations)
        (mapAfter operations)
  := by
  apply Run.outputs_eq (R := Represents m)
  · intro store map operation h
    exact h.step hm operation
  · exact ⟨[], stores_init m false, fun key value => by simp⟩

/-- Along every run a tree without duplicate keys answers as a finite map does: inserting a
present key throws and leaves the state, and the walk comes to the entries of the map. -/
theorem tree_refines_map (search : EntrySearch K V) (hm : 1 ≤ m)
    (operations : List (Operation K V)) :
  Run.outputs (memoryTree m search false).step NodeStore.init operations
      = Run.outputs mapStep (fun _ => none) operations
    ∧ (∀ key value, (mapAfter operations key).isSome →
        (memoryTree m search false).step
            ((memoryTree m search false).after NodeStore.init operations) (.insert key value)
          = (.thrown .keyExists, (memoryTree m search false).after NodeStore.init operations))
    ∧ ∀ e, e ∈ ((memoryTree m search false).after NodeStore.init operations).walk
        ↔ mapAfter operations e.1 = some e.2
  := by
  obtain ⟨hout, hrep⟩ := represents_after search hm operations
  refine ⟨hout, fun key value hkey => hrep.insert_present hm hkey, ?_⟩
  obtain ⟨contents, hstores, hmap⟩ := hrep
  intro e
  rw [hstores.walk_eq, hmap e.1 e.2]

/-- Every state that a run comes to is well formed. -/
theorem tree_wellFormed (search : EntrySearch K V) (hm : 1 ≤ m)
    (operations : List (Operation K V)) :
  WellFormed m ((memoryTree m search false).after NodeStore.init operations)
  := by
  obtain ⟨-, contents, hstores, -⟩ := represents_after search hm operations
  exact hstores.wellFormed

end Runs

end Datatent.BTree
