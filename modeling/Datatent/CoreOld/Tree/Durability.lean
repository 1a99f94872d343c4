import Datatent.CoreOld.Tree.DiskTree
import Datatent.Library.Run

/-!
# Durability of a tree on disk

After an insertion, and after a deletion that finds nothing, no node is dirty, and another
manager that is constructed over the same record storage has a tree with the same entries in
order. A deletion that removes an entry does not save its changes.
-/

namespace Datatent.BTree

namespace NodeCache

/-! ### Entries in order -/

/-- The entries of a node between those below its children; a leaf has no children. -/
def interleave {α : Type} : List (List α) → List α → List α
  | [], entries => entries
  | below :: _, [] => below
  | below :: belows, entry :: entries => below ++ entry :: interleave belows entries

/-- The entries in order below a node, down to a depth. -/
def entriesBelow {K V : Type} (nodes : UInt32 → Option (DiskNode K V)) :
    Nat → UInt32 → List (K × V)
  | 0, _ => []
  | depth + 1, id =>
      match nodes id with
      | none => []
      | some node => interleave (node.childrenIds.map (entriesBelow nodes depth)) node.entries

/-- The nodes that are linked with a root node. -/
inductive Linked {K V : Type} (nodes : UInt32 → Option (DiskNode K V)) (root : UInt32) :
    UInt32 → Prop where
  | root : Linked nodes root root
  | child {id childId : UInt32} {node : DiskNode K V} : Linked nodes root id →
      nodes id = some node → childId ∈ node.childrenIds → Linked nodes root childId
  | parent {id : UInt32} {node : DiskNode K V} : Linked nodes root id →
      nodes id = some node → Linked nodes root node.parentId

/-- The id of the root node. -/
def rootOf {K V : Type} (s : DiskNodeStore K V) : Option UInt32 :=
  s.rootNode.bind (fun node => (s.objects node).map Prod.fst)

section Entries

variable {K V : Type} (keySerializer : ISerializer K) (valueSerializer : ISerializer V)

/-- The entries in order of the tree, down to a depth. -/
def inOrder (s : DiskNodeStore K V) (depth : Nat) : List (K × V) :=
  match rootOf s with
  | none => []
  | some root => entriesBelow (nodeOf keySerializer valueSerializer s) depth root

/-- No node that is linked with the root node has an entry with the key. -/
def Absent (s : DiskNodeStore K V) (key : K) : Prop :=
  ∀ root ∈ rootOf s, ∀ id node, Linked (nodeOf keySerializer valueSerializer s) root id →
    nodeOf keySerializer valueSerializer s id = some node → ∀ entry ∈ node.entries, entry.1 ≠ key

/-- What is in the records is all of the tree: no node is dirty, and another manager over the
same storage has a tree with the same entries in order. -/
def Durable (s : DiskNodeStore K V) : Prop :=
  s.dirtyNodes = [] ∧ ∃ s', TreeDiskNodeManager.openStorage keySerializer valueSerializer
      (DiskNodeStore.over K V s.storage) = .ok () s'
    ∧ ∀ depth, inOrder keySerializer valueSerializer s' depth
      = inOrder keySerializer valueSerializer s depth

end Entries

/-! ### Clean managers -/

section Clean

open TreeDiskNodeManager TreeDiskNodeSerializer

variable {K V : Type} {keySerializer : ISerializer K} {valueSerializer : ISerializer V}
  {s : DiskNodeStore K V} {storage : NodeStorage}

/-- The root node of a clean manager is the one that the first record refers to. -/
theorem Clean.rootOf_eq (hclean : Clean keySerializer valueSerializer s) :
  ∃ data, s.storage.data 1 = some data ∧ rootOf s = some (rootId data)
  := by
  obtain ⟨node, data, hroot, hdata, -, hjoin⟩ := hclean.coherent.root
  obtain ⟨fields, -, hobject, -, -⟩ := hclean.coherent.target _ _ hjoin
  refine ⟨data, hdata, ?_⟩
  rw [rootOf, hroot, Option.bind_some, hobject]
  rfl

/-- The nodes of a clean manager are those in the records. -/
theorem Clean.nodeOf_eq (hclean : Clean keySerializer valueSerializer s) :
  nodeOf keySerializer valueSerializer s = recordNode keySerializer valueSerializer s.storage
  := by
  funext id
  rw [nodeOf]
  cases hjoin : (s.nodeWeakRefs id).join with
  | none => rfl
  | some node =>
      obtain ⟨fields, data, hobject, hdata, hread⟩ := hclean.coherent.target id node hjoin
      have hclean' : id ∉ s.dirtyNodes.map Prod.fst := by
        rw [hclean.dirtyNodes_eq]
        exact List.not_mem_nil
      dsimp only
      rw [hobject, recordNode, hdata, Option.bind_some,
        hread hclean' (fun _ hwaiting => absurd hwaiting (Set.notMem_empty _))]
      rfl

/-- The first record is not the one of the node that it refers to. -/
theorem rootId_ne {data record : Bytes} {fields : DiskNode K V}
    (hpointer : storage.data 1 = some data) (hlength : data.length = 4)
    (hrecord : storage.data (rootId data) = some record)
    (hread : deserialize keySerializer valueSerializer record = .ok fields) :
  rootId data ≠ 1
  := by
  intro hone
  rw [hone, hpointer] at hrecord
  cases hrecord
  rw [deserialize_short (valueSize_of_deserialize hread) hlength] at hread
  cases hread

/-- A manager with the root node as its only node object. -/
theorem clean_of_root (hunused : Unused s.storage) {data record : Bytes}
    {fields : DiskNode K V} (hpointer : s.storage.data 1 = some data) (hlength : data.length = 4)
    (hrecord : s.storage.data (rootId data) = some record)
    (hread : deserialize keySerializer valueSerializer record = .ok fields)
    (hobjects : s.objects
      = Function.update (fun _ : Nat => none) 0 (some (rootId data, fields)))
    (hcount : s.objectCount = 1) (hdirty : s.dirtyNodes = []) (hroot : s.rootNode = some 0)
    (htarget : ∀ id, (s.nodeWeakRefs id).join = if id = rootId data then some 0 else none) :
  Clean keySerializer valueSerializer s
  where
  dirtyNodes_eq := hdirty
  coherent :=
    { unused := hunused
      objects_none := by
        intro node hnode
        rw [hcount] at hnode
        rw [hobjects, Function.update_of_ne (by omega)]
      noNode := (htarget 1).trans (if_neg (Ne.symm (rootId_ne hpointer hlength hrecord hread)))
      target := by
        intro id node hjoin
        rw [htarget] at hjoin
        split at hjoin
        · rename_i heq
          subst heq
          cases hjoin
          exact ⟨fields, record, by rw [hobjects, Function.update_self], hrecord, fun _ _ => hread⟩
        · cases hjoin
      dirty := by
        intro id node hmem
        rw [hdirty] at hmem
        cases hmem
      root := ⟨0, data, hroot, hpointer, hlength, (htarget _).trans (if_pos rfl)⟩ }

/-- A manager that is constructed over a storage whose first record refers to a node. -/
theorem exists_openStorage (hunused : Unused storage) {data record : Bytes}
    {fields : DiskNode K V} (hpointer : storage.data 1 = some data) (hlength : data.length = 4)
    (hrecord : storage.data (rootId data) = some record)
    (hread : deserialize keySerializer valueSerializer record = .ok fields) :
  ∃ s, openStorage keySerializer valueSerializer (DiskNodeStore.over K V storage) = .ok () s
    ∧ Clean keySerializer valueSerializer s ∧ s.storage = storage
  := by
  have hid : readUInt32 data 0 = .ok (rootId data) := by
    rw [readUInt32, if_neg (by omega)]
    rfl
  obtain ⟨kept, hload, hkeeps⟩ := load_some (s := DiskNodeStore.over K V storage) hrecord hread rfl
  have hfind : TreeDiskNodeManager.find keySerializer valueSerializer (rootId data)
      (DiskNodeStore.over K V storage) = .ok (some 0) kept := hload
  have hstorage : kept.storage = storage := hkeeps.storage_eq
  refine ⟨{ kept with rootNode := some 0 }, ?_, ?_, hstorage⟩
  · rw [openStorage, EStateM.bind_apply_of_ok (recordFind_eq 1 _)]
    dsimp only [DiskNodeStore.over]
    rw [hpointer]
    dsimp only
    rw [EStateM.bind_apply_of_ok (liftSerializer_eq hid _)]
    exact EStateM.bind_apply_of_ok hfind _
  · rw [← hstorage] at hunused hpointer hrecord
    exact clean_of_root hunused hpointer hlength hrecord hread hkeeps.objects_eq
      hkeeps.objectCount_eq hkeeps.dirtyNodes_eq rfl hkeeps.target

/-- A manager that is constructed over a storage without records, which hands out the ids that
the constructor counts on. -/
theorem clean_openStorage (hkey : keySerializer.Lawful) (hvalue : valueSerializer.Lawful)
    (hunused : Unused storage) (hnone : ∀ id, storage.data id = none) {ids : List UInt32}
    (hids : storage.ids = 1 :: 2 :: ids)
    (hopen : openStorage keySerializer valueSerializer (DiskNodeStore.over K V storage)
      = .ok () s) :
  Clean keySerializer valueSerializer s
  := by
  rw [openStorage, EStateM.bind_apply_of_ok (recordFind_eq 1 _)] at hopen
  dsimp only [DiskNodeStore.over] at hopen
  rw [hnone] at hopen
  dsimp only at hopen
  obtain ⟨rootNode, s', hfirst, hset⟩ := EStateM.bind_eq_ok.mp hopen
  cases hset
  rw [createFirstRoot, EStateM.bind_apply_of_ok (recordAllocate_eq hids)] at hfirst
  have hcreate : TreeDiskNodeManager.create keySerializer valueSerializer [] []
      (DiskNodeStore.over K V
        { data := Function.update storage.data 1 (some (Bytes.toLE 4 2)), ids := 2 :: ids })
      = .ok rootNode s' := hfirst
  obtain ⟨id, ids', record, kept, hids', -, hrecord, rfl, hkeeps, rfl⟩ := create_ok hcreate
  cases hids'
  have hnodup := hunused.1
  rw [hids, List.nodup_cons, List.nodup_cons] at hnodup
  have hroot : rootId (Bytes.toLE 4 2) = 2 := rfl
  have hstorage : kept.storage.data = Function.update storage.data 1 (some (Bytes.toLE 4 2)) :=
    congrArg NodeStorage.data hkeeps.storage_eq
  have hkeptIds : kept.storage.ids = ids := congrArg NodeStorage.ids hkeeps.storage_eq
  have hwritten : Function.update kept.storage.data 2 (some record) (rootId (Bytes.toLE 4 2))
      = some record := by
    rw [hroot, Function.update_self]
  have hpointer : Function.update kept.storage.data 2 (some record) 1
      = some (Bytes.toLE 4 2) := by
    rw [hstorage]
    rfl
  refine clean_of_root ⟨?_, ?_⟩ hpointer (Bytes.length_toLE 4 2) hwritten
    (deserialize_of_serialize hkey hvalue hrecord) hkeeps.objects_eq hkeeps.objectCount_eq
    hkeeps.dirtyNodes_eq rfl hkeeps.target
  · dsimp only
    rw [hkeptIds]
    exact hnodup.2.2
  · intro id hid
    dsimp only at hid ⊢
    rw [hkeptIds] at hid
    have hone : id ≠ 1 := fun h => hnodup.1 (h ▸ List.mem_cons_of_mem _ hid)
    have htwo : id ≠ 2 := fun h => hnodup.2.1 (h ▸ hid)
    rw [Function.update_of_ne htwo, hstorage, Function.update_of_ne hone]
    exact hnone id

/-- What a clean manager has in its records is all of its tree. -/
theorem Clean.durable (hclean : Clean keySerializer valueSerializer s) :
  Durable keySerializer valueSerializer s
  := by
  obtain ⟨node, data, -, hdata, hlength, hjoin⟩ := hclean.coherent.root
  obtain ⟨fields, record, -, hrecord, hread⟩ := hclean.coherent.target _ _ hjoin
  have hnotDirty : rootId data ∉ s.dirtyNodes.map Prod.fst := by
    rw [hclean.dirtyNodes_eq]
    exact List.not_mem_nil
  obtain ⟨s', hopen, hclean', hstorage⟩ := exists_openStorage hclean.coherent.unused hdata hlength
    hrecord (hread hnotDirty (fun _ hwaiting => absurd hwaiting (Set.notMem_empty _)))
  refine ⟨hclean.dirtyNodes_eq, s', hopen, ?_⟩
  intro depth
  obtain ⟨pointer, hpointer, hroot⟩ := hclean.rootOf_eq
  obtain ⟨pointer', hpointer', hroot'⟩ := hclean'.rootOf_eq
  rw [hstorage, hpointer] at hpointer'
  cases hpointer'
  rw [inOrder, inOrder, hroot, hroot', hclean.nodeOf_eq, hclean'.nodeOf_eq, hstorage]

/-- A storage that a manager may be constructed over, and that hands out no id again: it has
no records and hands out the ids that the constructor counts on, or its first record refers to
a node. -/
def Prepared (keySerializer : ISerializer K) (valueSerializer : ISerializer V)
    (storage : NodeStorage) : Prop :=
  Unused storage
    ∧ (((∀ id, storage.data id = none) ∧ ∃ ids, storage.ids = 1 :: 2 :: ids)
      ∨ ∃ data record fields, storage.data 1 = some data ∧ data.length = 4
        ∧ storage.data (rootId data) = some record
        ∧ deserialize keySerializer valueSerializer record = .ok fields)

/-- A manager is clean when it is constructed. -/
theorem clean_of_prepared (hkey : keySerializer.Lawful) (hvalue : valueSerializer.Lawful)
    (hprepared : Prepared keySerializer valueSerializer storage)
    (hopen : openStorage keySerializer valueSerializer (DiskNodeStore.over K V storage)
      = .ok () s) :
  Clean keySerializer valueSerializer s
  := by
  rcases hprepared with
    ⟨hunused, ⟨hnone, ids, hids⟩ | ⟨data, record, fields, hpointer, hlength, hrecord, hread⟩⟩
  · exact clean_openStorage hkey hvalue hunused hnone hids hopen
  · obtain ⟨s', hopen', hclean, -⟩ := exists_openStorage hunused hpointer hlength hrecord hread
    rw [hopen] at hopen'
    cases hopen'
    exact hclean

/-- A clean manager stays clean when a node object that it does not refer to is collected. -/
theorem Clean.collect {node : Nat} (hclean : Clean keySerializer valueSerializer s)
    (hfree : ¬ Referenced s node) :
  Clean keySerializer valueSerializer
    { s with
      nodeWeakRefs := fun id =>
        if s.nodeWeakRefs id = some (some node) then some none else s.nodeWeakRefs id }
  := by
  have hjoin : ∀ id node', (if s.nodeWeakRefs id = some (some node) then some none
      else s.nodeWeakRefs id).join = some node' ↔ (s.nodeWeakRefs id).join = some node'
        ∧ node' ≠ node := by
    intro id node'
    simp only [Option.join_eq_some_iff]
    split
    · rename_i heq
      rw [heq]
      constructor
      · rintro ⟨⟩
      · rintro ⟨⟨⟩, hne⟩
        exact absurd rfl hne
    · rename_i hne
      constructor
      · intro h
        refine ⟨h, ?_⟩
        rintro rfl
        exact hne h
      · exact And.left
  refine ⟨?_, hclean.dirtyNodes_eq⟩
  exact
    { unused := hclean.coherent.unused
      objects_none := hclean.coherent.objects_none
      noNode := by
        rw [Option.eq_none_iff_forall_ne_some]
        intro node' h
        rw [hjoin, hclean.coherent.noNode] at h
        cases h.1
      target := fun id node' h => hclean.coherent.target id node' ((hjoin id node').mp h).1
      dirty := by
        intro id node' hmem
        dsimp only at hmem
        rw [hclean.dirtyNodes_eq] at hmem
        cases hmem
      root := by
        obtain ⟨node', data, hroot, hdata, hlength, htarget⟩ := hclean.coherent.root
        refine ⟨node', data, hroot, hdata, hlength, (hjoin _ _).mpr ⟨htarget, ?_⟩⟩
        rintro rfl
        exact hfree (Or.inr (Or.inr hroot)) }

end Clean

/-! ### Runs on a tree -/

section Trees

open TreeDiskNodeManager

variable {K V : Type} [LinearOrder K]

/-- A call on the index, or the collection of a node object between two calls. -/
inductive IndexCall (K V : Type) where
  | insert (key : K) (value : V)
  | delete (key : K)
  | collect (node : Nat)

/-- A tree without duplicate keys over a disk node manager. -/
def diskTree (keySerializer : ISerializer K) (valueSerializer : ISerializer V)
    (search : EntrySearch K V) : Tree (DiskNodeStore K V) K V where
  nodeManager := treeDiskNodeManager keySerializer valueSerializer search
  allowDuplicateKeys := false

/-- A call as a computation. -/
def IndexCall.run (tree : Tree (DiskNodeStore K V) K V) :
    IndexCall K V → TreeM (DiskNodeStore K V) Unit
  | .insert key value => tree.insert key value
  | .delete key => do
      let _ ← tree.delete key
      pure ()
  | .collect node => liftDisk (loseTarget node)

/-- Whether a call returns normally. -/
def IndexCall.returns (tree : Tree (DiskNodeStore K V) K V) (s : DiskNodeStore K V)
    (call : IndexCall K V) : Bool :=
  match call.run tree s with
  | .ok _ _ => true
  | .error _ _ => false

/-- The state after a call. -/
def indexStep (tree : Tree (DiskNodeStore K V) K V) (s : DiskNodeStore K V)
    (call : IndexCall K V) : DiskNodeStore K V :=
  match call.run tree s with
  | .ok _ s' => s'
  | .error _ s' => s'

/-- A call that saves all that it changes: an insertion, or a deletion of a key that no node
of the tree has. A node object is collected only when the manager does not refer to it. -/
def SavesChanges (keySerializer : ISerializer K) (valueSerializer : ISerializer V)
    (s : DiskNodeStore K V) : IndexCall K V → Prop
  | .insert _ _ => True
  | .delete key => Absent keySerializer valueSerializer s key
  | .collect node => ¬ Referenced s node

variable {keySerializer : ISerializer K} {valueSerializer : ISerializer V}
  {s : DiskNodeStore K V}

/-- A clean manager with nodes and a root node. -/
structure Holding (keySerializer : ISerializer K) (valueSerializer : ISerializer V)
    (nodes : UInt32 → Option (DiskNode K V)) (root : UInt32) (s : DiskNodeStore K V) : Prop where
  clean : Clean keySerializer valueSerializer s
  nodeOf_eq : nodeOf keySerializer valueSerializer s = nodes
  rootOf_eq : rootOf s = some root

/-- The nodes that are linked with the root node are shown, and looking for a key changes
nothing. -/
theorem shows_of_absent (search : EntrySearch K V) {nodes : UInt32 → Option (DiskNode K V)}
    {root : UInt32} {key : K}
    (habsent : ∀ id node, Linked nodes root id → nodes id = some node →
      ∀ entry ∈ node.entries, entry.1 ≠ key) :
  Shows (treeDiskNodeManager keySerializer valueSerializer search)
    (fun n => Linked nodes root (UInt32.ofNat n)) (fun entry => entry.1 ≠ key)
    (Holding keySerializer valueSerializer nodes root)
  where
  rootNode := by
    apply returns_liftDisk
    constructor
    intro s found s' hholding hrun
    obtain ⟨hholding', hfound⟩ := (returns_idOf?
      (P := fun s' => Holding keySerializer valueSerializer nodes root s' ∧ s' = s)
      s.rootNode).of_ok ⟨hholding, rfl⟩ hrun
    obtain ⟨hholding', rfl⟩ := hholding'
    refine ⟨hholding', ?_⟩
    intro n hn
    obtain ⟨node, id, fields, hroot, hobject, rfl⟩ := hfound n hn
    have hrootOf := hholding.rootOf_eq
    rw [rootOf, hroot, Option.bind_some, hobject] at hrootOf
    cases hrootOf
    rw [UInt32.ofNat_toNat]
    exact Linked.root
  find := by
    intro id hid
    apply returns_liftDisk
    apply Returns.bind (T := fun found s => Holding keySerializer valueSerializer nodes root s
      ∧ ∀ node ∈ found, (s.nodeWeakRefs (UInt32.ofNat id)).join = some node)
    · constructor
      intro s found s' hholding hrun
      obtain ⟨hcoherent, htarget, hstorage, hdirty, hroot, hnodes⟩ :=
        hholding.clean.coherent.find hrun
      have hclean : Clean keySerializer valueSerializer s' :=
        ⟨hcoherent, hdirty.trans hholding.clean.dirtyNodes_eq⟩
      refine ⟨⟨hclean, hnodes.trans hholding.nodeOf_eq, ?_⟩, htarget⟩
      obtain ⟨data, hdata, hrootOf⟩ := hholding.clean.rootOf_eq
      obtain ⟨data', hdata', hrootOf'⟩ := hclean.rootOf_eq
      rw [hstorage, hdata] at hdata'
      cases hdata'
      exact hrootOf'.trans (hrootOf.symm.trans hholding.rootOf_eq)
    · intro found
      apply (returns_idOf? found).weaken
      rintro n s ⟨⟨hholding, htarget⟩, hn⟩
      refine ⟨hholding, ?_⟩
      intro m hm
      obtain ⟨node, id', fields, rfl, hobject, rfl⟩ := hn m hm
      obtain ⟨fields', -, hobject', -, -⟩ :=
        hholding.clean.coherent.target _ _ (htarget node rfl)
      rw [hobject] at hobject'
      cases hobject'
      rw [UInt32.ofNat_toNat]
      exact hid
  read := by
    intro id hid
    apply returns_liftDisk
    apply Returns.bind (returns_target _ id)
    intro node
    apply Returns.bind (returns_object _ node)
    rintro ⟨id', fields⟩
    apply Returns.pure
    rintro s ⟨⟨hholding, hjoin⟩, hobject⟩
    have hnode : nodes (UInt32.ofNat id) = some fields := by
      rw [← hholding.nodeOf_eq, nodeOf, hjoin]
      dsimp only
      rw [hobject]
      rfl
    refine ⟨hholding, ?_, ?_, habsent _ _ hid hnode⟩
    · intro childId hchildId
      obtain ⟨childId', hmem, rfl⟩ := List.mem_map.mp hchildId
      rw [UInt32.ofNat_toNat]
      exact hid.child hnode hmem
    · rw [DiskNode.toTree, UInt32.ofNat_toNat]
      exact hid.parent hnode
  steps := Returns.pure (fun _ h => h)

/-- A call that saves all that it changes leaves a clean manager clean. -/
theorem Clean.indexStep (hkey : keySerializer.Lawful) (hvalue : valueSerializer.Lawful)
    (search : EntrySearch K V) (hclean : Clean keySerializer valueSerializer s)
    {call : IndexCall K V}
    (hreturns : call.returns (diskTree keySerializer valueSerializer search) s = true)
    (hsaves : SavesChanges keySerializer valueSerializer s call) :
  Clean keySerializer valueSerializer
    (indexStep (diskTree keySerializer valueSerializer search) s call)
  := by
  rw [NodeCache.indexStep]
  rw [IndexCall.returns] at hreturns
  split at hreturns
  · rename_i s' hrun
    cases call with
    | insert key value =>
        have hsave : Returns (Coherent keySerializer valueSerializer ∅)
            (diskTree keySerializer valueSerializer search).nodeManager.saveChanges
            (fun _ => Clean keySerializer valueSerializer) := by
          apply returns_liftDisk
          exact ⟨fun hcoherent hrun => hcoherent.saveChanges hkey hvalue hrun⟩
        have htracks : Tracks (diskTree keySerializer valueSerializer search).nodeManager
            (Coherent keySerializer valueSerializer) := tracks hkey hvalue search
        exact (htracks.insert hsave key value).of_ok hclean.coherent hrun
    | delete key =>
        obtain ⟨data, -, hroot⟩ := hclean.rootOf_eq
        have hshows : Shows (diskTree keySerializer valueSerializer search).nodeManager _ _ _ :=
          shows_of_absent search (hsaves _ hroot)
        obtain ⟨_, s'', hdelete, hrest⟩ := EStateM.bind_eq_ok.mp hrun
        cases hrest
        exact (hshows.delete.of_ok ⟨hclean, rfl, hroot⟩ hdelete).clean
    | collect node =>
        cases hrun
        exact hclean.collect hsaves
  · cases hreturns

/-- A tree over a disk node manager is durable along every run of calls that return normally
and save all that they change. -/
theorem durable_of_savesChanges (hkey : keySerializer.Lawful) (hvalue : valueSerializer.Lawful)
    (search : EntrySearch K V) {storage : NodeStorage}
    (hprepared : Prepared keySerializer valueSerializer storage)
    (hopen : openStorage keySerializer valueSerializer (DiskNodeStore.over K V storage)
      = .ok () s)
    {calls : List (IndexCall K V)}
    (hrun : Run.Along (indexStep (diskTree keySerializer valueSerializer search))
      (fun s call => call.returns (diskTree keySerializer valueSerializer search) s = true
        ∧ SavesChanges keySerializer valueSerializer s call) s calls) (n : Nat) :
  Durable keySerializer valueSerializer
    (Run.final (indexStep (diskTree keySerializer valueSerializer search)) s (calls.take n))
  := by
  apply Clean.durable
  apply (hrun.take n).invariant
  · intro s call hclean hcall
    exact hclean.indexStep hkey hvalue search hcall.1 hcall.2
  · exact clean_of_prepared hkey hvalue hprepared hopen

end Trees

/-! ### Trees of numbers -/

/-- Numbers in their order. -/
instance linearOrderUInt32 : LinearOrder UInt32 where
  le_refl := UInt32.le_refl
  le_trans _ _ _ := UInt32.le_trans
  lt_iff_le_not_ge _ _ := by
    rw [UInt32.not_le]
    exact ⟨fun h => ⟨UInt32.le_of_lt h, h⟩, And.right⟩
  le_antisymm _ _ := UInt32.le_antisymm
  le_total := UInt32.le_total
  toDecidableLE := inferInstance

/-- A tree of numbers. -/
def numberTree : Tree (DiskNodeStore UInt32 UInt32) UInt32 UInt32 :=
  diskTree treeUIntSerializer treeUIntSerializer listBinarySearch

/-- A root node without children that has no entry with a key. -/
theorem absent_of_leaf {K V : Type} {keySerializer : ISerializer K}
    {valueSerializer : ISerializer V} {s : DiskNodeStore K V} {key : K} {root : UInt32}
    {node : DiskNode K V} (hroot : rootOf s = some root)
    (hnode : nodeOf keySerializer valueSerializer s root = some node)
    (hleaf : node.childrenIds = [])
    (hparent : nodeOf keySerializer valueSerializer s node.parentId = none)
    (hkey : ∀ entry ∈ node.entries, entry.1 ≠ key) :
  Absent keySerializer valueSerializer s key
  := by
  have hlinked : ∀ id, Linked (nodeOf keySerializer valueSerializer s) root id →
      id = root ∨ id = node.parentId := by
    intro id hid
    induction hid with
    | root => exact Or.inl rfl
    | child _ hnode' hchild ih =>
        rcases ih with rfl | rfl
        · rw [hnode] at hnode'
          cases hnode'
          rw [hleaf] at hchild
          cases hchild
        · rw [hparent] at hnode'
          cases hnode'
    | parent _ hnode' ih =>
        rcases ih with rfl | rfl
        · rw [hnode] at hnode'
          cases hnode'
          exact Or.inr rfl
        · rw [hparent] at hnode'
          cases hnode'
  intro root' hroot' id node' hid hnode' entry hentry
  rw [hroot] at hroot'
  cases hroot'
  rcases hlinked id hid with rfl | rfl
  · rw [hnode] at hnode'
    cases hnode'
    exact hkey entry hentry
  · rw [hparent] at hnode'
    cases hnode'

/-- Two entries are inserted, and a third one is looked for. -/
theorem durable_of_savesChanges_missing :
  Durable treeUIntSerializer treeUIntSerializer
    (Run.final (indexStep numberTree) (opened (emptyStorage [1, 2]))
      [.insert 5 50, .insert 3 30, .delete 4])
  := by
  have hopen : TreeDiskNodeManager.openStorage treeUIntSerializer treeUIntSerializer
      (DiskNodeStore.over UInt32 UInt32 (emptyStorage [1, 2]))
        = .ok () (opened (emptyStorage [1, 2])) := rfl
  have habsent : Absent treeUIntSerializer treeUIntSerializer
      (Run.final (indexStep numberTree) (opened (emptyStorage [1, 2]))
        [.insert 5 50, .insert 3 30]) 4 := by
    have hroot : rootOf (Run.final (indexStep numberTree) (opened (emptyStorage [1, 2]))
        [.insert 5 50, .insert 3 30]) = some 2 := by
      decide +kernel
    have hnode : nodeOf treeUIntSerializer treeUIntSerializer
        (Run.final (indexStep numberTree) (opened (emptyStorage [1, 2]))
          [.insert 5 50, .insert 3 30]) 2
        = some { parentId := 0, entries := [(3, 30), (5, 50)], childrenIds := [] } := by
      decide +kernel
    apply absent_of_leaf hroot hnode rfl
    · decide +kernel
    · rw [List.forall_mem_cons, List.forall_mem_singleton]
      constructor
      · decide
      · decide
  have hrun : Run.Along (indexStep numberTree)
      (fun s call => call.returns numberTree s = true
        ∧ SavesChanges treeUIntSerializer treeUIntSerializer s call)
      (opened (emptyStorage [1, 2])) [.insert 5 50, .insert 3 30, .delete 4] := by
    refine ⟨⟨?_, trivial⟩, ⟨?_, trivial⟩, ⟨?_, habsent⟩, trivial⟩
    · decide +kernel
    · decide +kernel
    · decide +kernel
  exact durable_of_savesChanges treeUIntSerializer_lawful treeUIntSerializer_lawful
    listBinarySearch
    ⟨⟨by decide, fun _ _ => rfl⟩, Or.inl ⟨fun _ => rfl, [], rfl⟩⟩ hopen hrun 3

/-- An entry is inserted and deleted: its node is dirty, and another manager over the same
storage has the entry in its tree. -/
theorem not_durable :
  Prepared treeUIntSerializer treeUIntSerializer (emptyStorage [1, 2])
    ∧ TreeDiskNodeManager.openStorage treeUIntSerializer treeUIntSerializer
        (DiskNodeStore.over UInt32 UInt32 (emptyStorage [1, 2]))
      = .ok () (opened (emptyStorage [1, 2]))
    ∧ Run.Along (indexStep numberTree) (fun s call => call.returns numberTree s = true)
      (opened (emptyStorage [1, 2])) [.insert 5 50, .delete 5]
    ∧ ¬ Durable treeUIntSerializer treeUIntSerializer
      (Run.final (indexStep numberTree) (opened (emptyStorage [1, 2])) [.insert 5 50, .delete 5])
    ∧ inOrder treeUIntSerializer treeUIntSerializer
        (Run.final (indexStep numberTree) (opened (emptyStorage [1, 2]))
          [.insert 5 50, .delete 5]) 1
      = []
    ∧ inOrder treeUIntSerializer treeUIntSerializer
        (opened (Run.final (indexStep numberTree) (opened (emptyStorage [1, 2]))
          [.insert 5 50, .delete 5]).storage) 1
      = [(5, 50)]
  := by
  refine ⟨⟨⟨by decide, fun _ _ => rfl⟩, Or.inl ⟨fun _ => rfl, [], rfl⟩⟩, rfl, ?_, ?_, ?_, ?_⟩
  · decide +kernel
  · have hdirty : (Run.final (indexStep numberTree) (opened (emptyStorage [1, 2]))
        [.insert 5 50, .delete 5]).dirtyNodes = [(2, 0)] := by
      decide +kernel
    rintro ⟨hclean, -⟩
    rw [hdirty] at hclean
    cases hclean
  · decide +kernel
  · decide +kernel

end NodeCache

end Datatent.BTree
