import Datatent.CoreOld.Tree.Marking
import Datatent.CoreOld.Tree.NodeCacheRuns

/-!
# Trees on disk

The disk node manager as the node manager of a tree. A node of the tree is given by its id; the
object that is the target of the weak reference for the id holds its fields, as a node that an
operation works on is not collected. The manager keeps to its records (`Coherent`): the fields
of a node object are those in its record, unless the node is dirty or waits to be marked.
-/

namespace Datatent.BTree

/-! ### The manager -/

/-- The exception that an operation of a tree ends in where the manager throws. -/
def DiskException.toTree : DiskException → TreeException
  | .nullReference => .nullReference
  | .recordNotFound => .nodeNotFound
  | .argument => .argumentOutOfRange
  | .argumentOutOfRange => .argumentOutOfRange
  | .notSupported => .invalidOperation
  | .nodeTooLarge => .invalidOperation
  | .streamTooLong => .invalidOperation
  | .storageFull => .invalidOperation

/-- The fields of a node of a tree. -/
def DiskNode.toTree {K V : Type} (node : DiskNode K V) : TreeNode K V where
  parentId := node.parentId.toNat
  entries := node.entries
  childrenIds := node.childrenIds.map UInt32.toNat

/-- The fields of a node on disk. -/
def TreeNode.toDisk {K V : Type} (node : TreeNode K V) : DiskNode K V where
  parentId := UInt32.ofNat node.parentId
  entries := node.entries
  childrenIds := node.childrenIds.map UInt32.ofNat

namespace TreeDiskNodeManager

variable {K V : Type}

/-- A computation of the manager in an operation of a tree. -/
def liftDisk {α : Type} (x : DiskM K V α) : TreeM (DiskNodeStore K V) α :=
  fun s =>
    match x s with
    | .ok a s' => .ok a s'
    | .error e s' => .error e.toTree s'

/-- The node object of the node with an id. -/
def target (id : Nat) : DiskM K V Nat := do
  let store ← get
  match store.nodeWeakRefs (UInt32.ofNat id) with
  | some (some node) => return node
  | _ => throw .nullReference

/-- The id of a node object. -/
def idOf (node : Nat) : DiskM K V Nat := do
  let (id, _) ← object node
  return id.toNat

/-- The id of a node object, if there is one. -/
def idOf? : Option Nat → DiskM K V (Option Nat)
  | none => pure none
  | some node => some <$> idOf node

end TreeDiskNodeManager

open TreeDiskNodeManager in
/-- The disk node manager of a tree. -/
def treeDiskNodeManager {K V : Type} [LinearOrder K] (keySerializer : ISerializer K)
    (valueSerializer : ISerializer V) (entrySearch : EntrySearch K V) :
    ITreeNodeManager (DiskNodeStore K V) K V where
  minEntriesPerNode := 36
  entrySearch := entrySearch
  rootNode := liftDisk do
    let store ← get
    idOf? store.rootNode
  create entries childrenIds := liftDisk do
    let node ← create keySerializer valueSerializer entries (childrenIds.map UInt32.ofNat)
    idOf node
  find id := liftDisk do
    let node ← find keySerializer valueSerializer (UInt32.ofNat id)
    idOf? node
  createNewRoot entry leftNodeId rightNodeId := liftDisk do
    let node ← createNewRoot keySerializer valueSerializer entry (UInt32.ofNat leftNodeId)
      (UInt32.ofNat rightNodeId)
    idOf node
  makeRoot id := liftDisk do
    let node ← target id
    makeRoot node
  markAsChanged id := liftDisk do
    let node ← target id
    markAsChanged node
  delete id := liftDisk do
    let node ← target id
    delete node
  saveChanges := liftDisk (saveChanges keySerializer valueSerializer)
  read id := liftDisk do
    let node ← target id
    let (_, fields) ← object node
    return fields.toTree
  write id fields := liftDisk do
    let node ← target id
    setFields node fields.toDisk
  -- the nodes on a way through a tree have different ids
  steps := pure (2 ^ 32)

/-! ### Managers that keep to their records -/

namespace NodeCache

section Coherence

variable {K V : Type} (keySerializer : ISerializer K) (valueSerializer : ISerializer V)

/-- The storage hands out ids that it has not handed out, and that no record has. -/
def Unused (storage : NodeStorage) : Prop :=
  storage.ids.Nodup ∧ ∀ id ∈ storage.ids, storage.data id = none

/-- The manager keeps to its records, but for the nodes that wait to be marked. -/
structure Coherent (waiting : Set Nat) (s : DiskNodeStore K V) : Prop where
  unused : Unused s.storage
  objects_none : ∀ node, s.objectCount ≤ node → s.objects node = none
  noNode : (s.nodeWeakRefs 1).join = none
  target : ∀ id node, (s.nodeWeakRefs id).join = some node → ∃ fields data,
    s.objects node = some (id, fields) ∧ s.storage.data id = some data
      ∧ (id ∉ s.dirtyNodes.map Prod.fst → (∀ n ∈ waiting, UInt32.ofNat n ≠ id) →
        TreeDiskNodeSerializer.deserialize keySerializer valueSerializer data = .ok fields)
  dirty : ∀ id node, (id, node) ∈ s.dirtyNodes → (s.nodeWeakRefs id).join = some node
  root : ∃ node data, s.rootNode = some node ∧ s.storage.data 1 = some data ∧ data.length = 4
    ∧ (s.nodeWeakRefs (rootId data)).join = some node

/-- No node is dirty, and none waits to be marked. -/
structure Clean (s : DiskNodeStore K V) : Prop where
  coherent : Coherent keySerializer valueSerializer ∅ s
  dirtyNodes_eq : s.dirtyNodes = []

/-- The node in a record. -/
def recordNode (storage : NodeStorage) (id : UInt32) : Option (DiskNode K V) :=
  (storage.data id).bind (fun data =>
    match TreeDiskNodeSerializer.deserialize keySerializer valueSerializer data with
    | .ok fields => some fields
    | .error _ => none)

/-- The node with an id: the one in memory, or the one in its record. -/
def nodeOf (s : DiskNodeStore K V) (id : UInt32) : Option (DiskNode K V) :=
  match (s.nodeWeakRefs id).join with
  | some node => (s.objects node).map Prod.snd
  | none => recordNode keySerializer valueSerializer s.storage id

end Coherence

/-! ### Operations that return -/

section Operations

open TreeDiskNodeManager TreeDiskNodeSerializer

variable {K V : Type} {keySerializer : ISerializer K} {valueSerializer : ISerializer V}
  {s s' : DiskNodeStore K V} {id : UInt32} {node : Nat} {fields : DiskNode K V}

/-- A computation of the manager returns what it returns in an operation of a tree. -/
theorem liftDisk_ok {α : Type} {x : DiskM K V α} {a : α} :
  liftDisk x s = .ok a s' ↔ x s = .ok a s'
  := by
  rw [liftDisk]
  cases x s with
  | ok a' s'' =>
      constructor
      · rintro ⟨⟩
        rfl
      · rintro ⟨⟩
        rfl
  | error e s'' =>
      constructor
      · rintro ⟨⟩
      · rintro ⟨⟩

/-- A node object that is read. -/
theorem object_ok {entry : UInt32 × DiskNode K V} (h : object node s = .ok entry s') :
  s' = s ∧ s.objects node = some entry
  := by
  rw [object, EStateM.get_bind_apply] at h
  cases hobject : s.objects node with
  | none =>
      rw [hobject] at h
      cases h
  | some entry' =>
      rw [hobject] at h
      cases h
      exact ⟨rfl, rfl⟩

/-- The node object of a node. -/
theorem target_ok {n : Nat} (h : TreeDiskNodeManager.target n s = .ok node s') :
  s' = s ∧ (s.nodeWeakRefs (UInt32.ofNat n)).join = some node
  := by
  rw [TreeDiskNodeManager.target, EStateM.get_bind_apply] at h
  cases hweak : s.nodeWeakRefs (UInt32.ofNat n) with
  | none =>
      rw [hweak] at h
      cases h
  | some ref =>
      rw [hweak] at h
      cases ref with
      | none => cases h
      | some node' =>
          cases h
          exact ⟨rfl, rfl⟩

/-- The id of a node object. -/
theorem idOf_ok {n : Nat} (h : idOf node s = .ok n s') :
  s' = s ∧ ∃ id fields, s.objects node = some (id, fields) ∧ n = id.toNat
  := by
  obtain ⟨⟨id, fields⟩, s'', hobject, hrest⟩ := EStateM.bind_eq_ok.mp h
  obtain ⟨rfl, hobject⟩ := object_ok hobject
  cases hrest
  exact ⟨rfl, id, fields, hobject, rfl⟩

/-- A node object that is kept had no weak reference for its id. -/
theorem onNodeInitialized_ok (h : onNodeInitialized id node s = .ok () s') :
  s.nodeWeakRefs id = none ∧ Keeps s s' id node
  := by
  cases hweak : s.nodeWeakRefs id with
  | none =>
      obtain ⟨kept, hkeep, hkeeps⟩ := onNodeInitialized_eq hweak node
      rw [hkeep] at h
      cases h
      exact ⟨rfl, hkeeps⟩
  | some target =>
      rw [onNodeInitialized_throws hweak node] at h
      cases h

/-- A node that is created: the id is handed out, the node object is kept, and what the node is
written as becomes the bytes of the record. -/
theorem create_ok {entries : List (K × V)} {childrenIds : List UInt32}
    (h : create keySerializer valueSerializer entries childrenIds s = .ok node s') :
  ∃ id ids data kept, s.storage.ids = id :: ids ∧ s.nodeWeakRefs id = none
    ∧ TreeDiskNodeSerializer.serialize keySerializer valueSerializer
        { parentId := 0, entries := entries, childrenIds := childrenIds } = .ok data
    ∧ node = s.objectCount
    ∧ Keeps
        { s with
          storage := { s.storage with ids := ids }
          objects := Function.update s.objects s.objectCount
            (some (id, { parentId := 0, entries := entries, childrenIds := childrenIds }))
          objectCount := s.objectCount + 1 } kept id s.objectCount
    ∧ s' = { kept with
        storage :=
          { kept.storage with data := Function.update kept.storage.data id (some data) } }
  := by
  obtain ⟨id, s₁, hallocate, h⟩ := EStateM.bind_eq_ok.mp h
  cases hids : s.storage.ids with
  | nil =>
      rw [recordAllocate, EStateM.get_bind_apply, hids] at hallocate
      cases hallocate
  | cons id' ids =>
      rw [recordAllocate_eq hids] at hallocate
      cases hallocate
      obtain ⟨_, _, hnew, h⟩ := EStateM.bind_eq_ok.mp h
      cases hnew
      obtain ⟨_, kept, hkeep, h⟩ := EStateM.bind_eq_ok.mp h
      obtain ⟨hweak, hkeeps⟩ := onNodeInitialized_ok hkeep
      cases hdata : TreeDiskNodeSerializer.serialize keySerializer valueSerializer
          { parentId := 0, entries := entries, childrenIds := childrenIds } with
      | error e =>
          rw [hdata] at h
          cases h
      | ok data =>
          rw [EStateM.bind_apply_of_ok (liftSerializer_eq hdata _)] at h
          cases h
          exact ⟨id, ids, data, kept, rfl, hweak, rfl, rfl, hkeeps, rfl⟩

/-- A node that is found: the object in memory, or one that is made with the fields in its
record, or none where there is no record. -/
theorem find_ok {found : Option Nat}
    (h : find keySerializer valueSerializer id s = .ok found s') :
  (∃ node, (s.nodeWeakRefs id).join = some node ∧ found = some node ∧ s' = s)
    ∨ ((s.nodeWeakRefs id).join = none ∧ s.storage.data id = none ∧ found = none
      ∧ s' = { s with nodeWeakRefs := Function.update s.nodeWeakRefs id none })
    ∨ ((s.nodeWeakRefs id).join = none ∧ found = some s.objectCount
      ∧ ∃ data fields, s.storage.data id = some data
        ∧ deserialize keySerializer valueSerializer data = .ok fields
        ∧ Keeps
          { s with
            nodeWeakRefs := Function.update s.nodeWeakRefs id none
            objects := Function.update s.objects s.objectCount (some (id, fields))
            objectCount := s.objectCount + 1 } s' id s.objectCount)
  := by
  cases hjoin : (s.nodeWeakRefs id).join with
  | some node =>
      rw [TreeDiskNodeManager.find, EStateM.get_bind_apply,
        Option.join_eq_some_iff.mp hjoin] at h
      cases h
      exact Or.inl ⟨node, rfl, rfl, rfl⟩
  | none =>
      rw [find_eq_load hjoin, load, EStateM.bind_apply_of_ok (recordFind_eq id _)] at h
      cases hdata : s.storage.data id with
      | none =>
          rw [hdata] at h
          cases h
          exact Or.inr (Or.inl ⟨rfl, rfl, rfl, rfl⟩)
      | some data =>
          rw [hdata] at h
          dsimp only at h
          cases hread : deserialize keySerializer valueSerializer data with
          | error e =>
              rw [hread] at h
              cases h
          | ok fields =>
              rw [EStateM.bind_apply_of_ok (liftSerializer_eq hread _)] at h
              obtain ⟨_, _, hnew, h⟩ := EStateM.bind_eq_ok.mp h
              cases hnew
              obtain ⟨_, kept, hkeep, h⟩ := EStateM.bind_eq_ok.mp h
              obtain ⟨-, hkeeps⟩ := onNodeInitialized_ok hkeep
              cases h
              exact Or.inr (Or.inr ⟨rfl, rfl, data, fields, rfl, hread, hkeeps⟩)

end Operations

/-! ### What the manager keeps -/

section Keeping

open TreeDiskNodeManager TreeDiskNodeSerializer

variable {K V : Type} {keySerializer : ISerializer K} {valueSerializer : ISerializer V}
  {s s' : DiskNodeStore K V} {id : UInt32} {node n : Nat} {fields : DiskNode K V}
  {waiting : Set Nat}

/-- A new node object with the fields in its record. -/
theorem Coherent.add (hcoherent : Coherent keySerializer valueSerializer waiting s)
    (hne : id ≠ 1) (hjoin : (s.nodeWeakRefs id).join = none) {data : Bytes}
    (hdata : deserialize keySerializer valueSerializer data = .ok fields)
    (hunused : Unused s'.storage)
    (hrecords : s'.storage.data = Function.update s.storage.data id (some data))
    (hobjects : s'.objects = Function.update s.objects s.objectCount (some (id, fields)))
    (hcount : s'.objectCount = s.objectCount + 1) (hdirty : s'.dirtyNodes = s.dirtyNodes)
    (hroot : s'.rootNode = s.rootNode)
    (htarget : ∀ id', (s'.nodeWeakRefs id').join
      = if id' = id then some s.objectCount else (s.nodeWeakRefs id').join) :
  Coherent keySerializer valueSerializer waiting s'
  where
  unused := hunused
  objects_none := by
    intro node hnode
    rw [hcount] at hnode
    rw [hobjects, Function.update_of_ne (by omega)]
    exact hcoherent.objects_none node (by omega)
  noNode := by
    rw [htarget, if_neg (Ne.symm hne)]
    exact hcoherent.noNode
  target := by
    intro id' node hnode
    rw [htarget] at hnode
    by_cases heq : id' = id
    · subst heq
      rw [if_pos rfl] at hnode
      cases hnode
      refine ⟨fields, data, ?_, ?_, fun _ _ => hdata⟩
      · rw [hobjects, Function.update_self]
      · rw [hrecords, Function.update_self]
    · rw [if_neg heq] at hnode
      obtain ⟨fields', data', hobject, hdata', hread⟩ := hcoherent.target id' node hnode
      have hlt : node ≠ s.objectCount := by
        rintro rfl
        rw [hcoherent.objects_none _ (Nat.le_refl _)] at hobject
        cases hobject
      refine ⟨fields', data', ?_, ?_, ?_⟩
      · rw [hobjects, Function.update_of_ne hlt, hobject]
      · rw [hrecords, Function.update_of_ne heq, hdata']
      · rw [hdirty]
        exact hread
  dirty := by
    intro id' node hmem
    rw [hdirty] at hmem
    have hjoin' := hcoherent.dirty id' node hmem
    rw [htarget, if_neg, hjoin']
    rintro rfl
    rw [hjoin] at hjoin'
    cases hjoin'
  root := by
    obtain ⟨node, pointer, hroot', hpointer, hlength, hjoin'⟩ := hcoherent.root
    refine ⟨node, pointer, hroot.trans hroot', ?_, hlength, ?_⟩
    · rw [hrecords, Function.update_of_ne (Ne.symm hne), hpointer]
    · rw [htarget, if_neg, hjoin']
      intro heq
      rw [heq, hjoin] at hjoin'
      cases hjoin'

/-- A weak reference without a target can be removed. -/
theorem Coherent.forget (hcoherent : Coherent keySerializer valueSerializer waiting s)
    (hjoin : (s.nodeWeakRefs id).join = none) :
  Coherent keySerializer valueSerializer waiting
    { s with nodeWeakRefs := Function.update s.nodeWeakRefs id none }
  := by
  have hsame : ∀ id', (Function.update s.nodeWeakRefs id none id').join
      = (s.nodeWeakRefs id').join := by
    intro id'
    rw [Function.update_apply]
    split
    · rename_i heq
      rw [heq, hjoin]
      rfl
    · rfl
  exact
    { unused := hcoherent.unused
      objects_none := hcoherent.objects_none
      noNode := (hsame 1).trans hcoherent.noNode
      target := fun id' node hnode => hcoherent.target id' node ((hsame id').symm.trans hnode)
      dirty := fun id' node hmem => (hsame id').trans (hcoherent.dirty id' node hmem)
      root := by
        obtain ⟨node, pointer, hroot, hpointer, hlength, hjoin'⟩ := hcoherent.root
        exact ⟨node, pointer, hroot, hpointer, hlength, (hsame _).trans hjoin'⟩ }

/-- A node whose fields are written waits to be marked. -/
theorem Coherent.setFields (hcoherent : Coherent keySerializer valueSerializer waiting s)
    (hjoin : (s.nodeWeakRefs (UInt32.ofNat n)).join = some node) :
  Coherent keySerializer valueSerializer (waiting ∪ {n})
    { s with objects := Function.update s.objects node (some (UInt32.ofNat n, fields)) }
  where
  unused := hcoherent.unused
  objects_none := by
    intro node' hnode'
    obtain ⟨fields', data, hobject, -, -⟩ := hcoherent.target _ _ hjoin
    have hne : node' ≠ node := by
      rintro rfl
      rw [hcoherent.objects_none _ hnode'] at hobject
      cases hobject
    dsimp only
    rw [Function.update_of_ne hne]
    exact hcoherent.objects_none node' hnode'
  noNode := hcoherent.noNode
  target := by
    intro id node' hnode'
    obtain ⟨old, record, hold, hrecord, -⟩ := hcoherent.target _ _ hjoin
    obtain ⟨fields', data, hobject, hdata, hread⟩ := hcoherent.target id node' hnode'
    dsimp only
    by_cases heq : node' = node
    · subst heq
      rw [hold] at hobject
      cases hobject
      rw [hrecord] at hdata
      cases hdata
      refine ⟨fields, record, Function.update_self _ _ _, hrecord, ?_⟩
      intro _ hwaiting
      exact absurd rfl (hwaiting n (Or.inr rfl))
    · refine ⟨fields', data, ?_, hdata, ?_⟩
      · rw [Function.update_of_ne heq, hobject]
      · intro hclean hwaiting
        exact hread hclean (fun m hm => hwaiting m (Or.inl hm))
  dirty := hcoherent.dirty
  root := hcoherent.root

/-- A node that is marked waits no more. -/
theorem Coherent.mark (hcoherent : Coherent keySerializer valueSerializer (waiting ∪ {n}) s)
    (hjoin : (s.nodeWeakRefs (UInt32.ofNat n)).join = some node)
    {dirtyNodes : List (UInt32 × Nat)}
    (hkeys : ∀ id, id ∈ dirtyNodes.map Prod.fst
      ↔ id = UInt32.ofNat n ∨ id ∈ s.dirtyNodes.map Prod.fst)
    (hdirty : ∀ entry ∈ dirtyNodes, entry ∈ s.dirtyNodes ∨ entry = (UInt32.ofNat n, node)) :
  Coherent keySerializer valueSerializer waiting { s with dirtyNodes := dirtyNodes }
  where
  unused := hcoherent.unused
  objects_none := hcoherent.objects_none
  noNode := hcoherent.noNode
  target := by
    intro id node' hnode'
    obtain ⟨fields, data, hobject, hdata, hread⟩ := hcoherent.target id node' hnode'
    refine ⟨fields, data, hobject, hdata, ?_⟩
    intro hclean hwaiting
    dsimp only at hclean
    rw [hkeys, not_or] at hclean
    apply hread hclean.2
    rintro m (hm | rfl)
    · exact hwaiting m hm
    · exact Ne.symm hclean.1
  dirty := by
    intro id node' hmem
    rcases hdirty _ hmem with hmem | heq
    · exact hcoherent.dirty id node' hmem
    · cases heq
      exact hjoin
  root := hcoherent.root

/-- The id of another root node is written to the first record. -/
theorem Coherent.setRoot (hcoherent : Coherent keySerializer valueSerializer waiting s)
    (hjoin : (s.nodeWeakRefs id).join = some node) :
  Coherent keySerializer valueSerializer waiting
    { s with
      rootNode := some node
      storage :=
        { s.storage with
          data := Function.update s.storage.data 1 (some (Bytes.toLE 4 id.toNat)) } }
  := by
  have hid : rootId (Bytes.toLE 4 id.toNat) = id := by
    have hread := Bytes.readLE_toLE_append 4 id.toNat []
    have hlt : id.toNat < 256 ^ 4 := UInt32.toNat_lt id
    rw [List.append_nil, Nat.mod_eq_of_lt hlt] at hread
    rw [rootId, hread, UInt32.ofNat_toNat]
  exact
    { unused := by
        refine ⟨hcoherent.unused.1, ?_⟩
        intro id' hid'
        have hnone := hcoherent.unused.2 id' hid'
        have hne : id' ≠ 1 := by
          rintro rfl
          obtain ⟨_, pointer, -, hpointer, -⟩ := hcoherent.root
          rw [hnone] at hpointer
          cases hpointer
        dsimp only
        rw [Function.update_of_ne hne, hnone]
      objects_none := hcoherent.objects_none
      noNode := hcoherent.noNode
      target := by
        intro id' node' hnode'
        obtain ⟨fields, data, hobject, hdata, hread⟩ := hcoherent.target id' node' hnode'
        have hne : id' ≠ 1 := by
          rintro rfl
          rw [hcoherent.noNode] at hnode'
          cases hnode'
        refine ⟨fields, data, hobject, ?_, hread⟩
        dsimp only
        rw [Function.update_of_ne hne, hdata]
      dirty := hcoherent.dirty
      root := by
        refine ⟨node, Bytes.toLE 4 id.toNat, rfl, ?_, Bytes.length_toLE 4 id.toNat, ?_⟩
        · dsimp only
          rw [Function.update_self]
        · rw [hid]
          exact hjoin }

/-- A node that is created is the target for its id. -/
theorem Coherent.create (hkey : keySerializer.Lawful) (hvalue : valueSerializer.Lawful)
    (hcoherent : Coherent keySerializer valueSerializer waiting s) {entries : List (K × V)}
    {childrenIds : List UInt32}
    (h : TreeDiskNodeManager.create keySerializer valueSerializer entries childrenIds s
      = .ok node s') :
  Coherent keySerializer valueSerializer waiting s'
    ∧ ∃ id, (s'.nodeWeakRefs id).join = some node
  := by
  obtain ⟨id, ids, data, kept, hids, hweak, hdata, rfl, hkeeps, rfl⟩ := create_ok h
  have hnodup := hcoherent.unused.1
  rw [hids, List.nodup_cons] at hnodup
  have hnone : ∀ id' ∈ id :: ids, s.storage.data id' = none := by
    intro id' hid'
    rw [← hids] at hid'
    exact hcoherent.unused.2 id' hid'
  have hne : id ≠ 1 := by
    rintro rfl
    obtain ⟨_, pointer, -, hpointer, -⟩ := hcoherent.root
    rw [hnone 1 List.mem_cons_self] at hpointer
    cases hpointer
  have hjoin : (s.nodeWeakRefs id).join = none := by
    rw [hweak]
    rfl
  constructor
  · apply hcoherent.add hne hjoin (deserialize_of_serialize hkey hvalue hdata)
    · constructor
      · dsimp only
        rw [hkeeps.storage_eq]
        exact hnodup.2
      · intro id' hid'
        dsimp only at hid' ⊢
        rw [hkeeps.storage_eq] at hid' ⊢
        have hother : id' ≠ id := by
          rintro rfl
          exact hnodup.1 hid'
        rw [Function.update_of_ne hother]
        exact hnone id' (List.mem_cons_of_mem _ hid')
    · dsimp only
      rw [hkeeps.storage_eq]
    · exact hkeeps.objects_eq
    · exact hkeeps.objectCount_eq
    · exact hkeeps.dirtyNodes_eq
    · exact hkeeps.rootNode_eq
    · exact hkeeps.target
  · exact ⟨id, (hkeeps.target id).trans (if_pos rfl)⟩

/-- The first record is not read as a node. -/
theorem Coherent.ne_one (hcoherent : Coherent keySerializer valueSerializer waiting s)
    {data : Bytes} (hdata : s.storage.data id = some data)
    (hread : deserialize keySerializer valueSerializer data = .ok fields) :
  id ≠ 1
  := by
  rintro rfl
  obtain ⟨_, pointer, -, hpointer, hlength, -⟩ := hcoherent.root
  rw [hpointer] at hdata
  cases hdata
  rw [deserialize_short (valueSize_of_deserialize hread) hlength] at hread
  cases hread

/-- Finding a node leaves the records, the dirty nodes, the root node and the fields of every
node. -/
theorem Coherent.find (hcoherent : Coherent keySerializer valueSerializer waiting s)
    {found : Option Nat}
    (h : TreeDiskNodeManager.find keySerializer valueSerializer id s = .ok found s') :
  Coherent keySerializer valueSerializer waiting s'
    ∧ (∀ node ∈ found, (s'.nodeWeakRefs id).join = some node)
    ∧ s'.storage = s.storage ∧ s'.dirtyNodes = s.dirtyNodes ∧ s'.rootNode = s.rootNode
    ∧ nodeOf keySerializer valueSerializer s' = nodeOf keySerializer valueSerializer s
  := by
  rcases find_ok h with ⟨node, hjoin, rfl, rfl⟩ | ⟨hjoin, hdata, rfl, rfl⟩
    | ⟨hjoin, rfl, data, fields, hdata, hread, hkeeps⟩
  · refine ⟨hcoherent, ?_, rfl, rfl, rfl, rfl⟩
    rintro _ ⟨⟩
    exact hjoin
  · refine ⟨hcoherent.forget hjoin, (fun _ hmem => nomatch hmem), rfl, rfl, rfl, ?_⟩
    funext id'
    rw [nodeOf, nodeOf]
    dsimp only
    by_cases heq : id' = id
    · subst heq
      rw [Function.update_self, hjoin]
      rfl
    · rw [Function.update_of_ne heq]
  · have hne := hcoherent.ne_one hdata hread
    have htarget : ∀ id', (s'.nodeWeakRefs id').join
        = if id' = id then some s.objectCount else (s.nodeWeakRefs id').join := by
      intro id'
      rw [hkeeps.target id']
      dsimp only
      split
      · rfl
      · rename_i heq
        rw [Function.update_of_ne heq]
    refine ⟨?_, ?_, hkeeps.storage_eq, hkeeps.dirtyNodes_eq, hkeeps.rootNode_eq, ?_⟩
    · apply hcoherent.add hne hjoin hread
      · rw [hkeeps.storage_eq]
        exact hcoherent.unused
      · rw [hkeeps.storage_eq]
        exact (Function.update_eq_self_iff.mpr hdata.symm).symm
      · exact hkeeps.objects_eq
      · exact hkeeps.objectCount_eq
      · exact hkeeps.dirtyNodes_eq
      · exact hkeeps.rootNode_eq
      · exact htarget
    · rintro _ ⟨⟩
      exact (htarget id).trans (if_pos rfl)
    · funext id'
      rw [nodeOf, nodeOf, htarget]
      by_cases heq : id' = id
      · subst heq
        rw [if_pos rfl, hjoin]
        dsimp only
        rw [hkeeps.objects_eq]
        dsimp only
        rw [Function.update_self, recordNode, hdata, Option.bind_some, hread]
        rfl
      · rw [if_neg heq]
        cases hjoin' : (s.nodeWeakRefs id').join with
        | none =>
            dsimp only
            rw [hkeeps.storage_eq]
        | some node =>
            obtain ⟨fields', data', hobject, -, -⟩ := hcoherent.target id' node hjoin'
            have hlt : node ≠ s.objectCount := by
              rintro rfl
              rw [hcoherent.objects_none _ (Nat.le_refl _)] at hobject
              cases hobject
            dsimp only
            rw [hkeeps.objects_eq]
            dsimp only
            rw [Function.update_of_ne hlt]

/-- Dirty nodes that are written have the fields of their objects in their records. -/
theorem saveNodes_ok (hkey : keySerializer.Lawful) (hvalue : valueSerializer.Lawful)
    (target : UInt32 → Option Nat) :
  ∀ (dirtyNodes : List (UInt32 × Nat)) {s s' : DiskNodeStore K V},
    (∀ id node, (id, node) ∈ dirtyNodes →
      target id = some node ∧ ∃ fields, s.objects node = some (id, fields)) →
    saveNodes keySerializer valueSerializer dirtyNodes s = .ok () s' →
    ∃ data, s' = { s with storage := { s.storage with data := data } }
      ∧ (∀ id, id ∉ dirtyNodes.map Prod.fst → data id = s.storage.data id)
      ∧ ∀ id ∈ dirtyNodes.map Prod.fst, ∀ node fields, target id = some node →
        s.objects node = some (id, fields) → ∃ record, data id = some record
          ∧ deserialize keySerializer valueSerializer record = .ok fields
  | [], s, _, _, h => by
      cases h
      exact ⟨s.storage.data, rfl, fun _ _ => rfl, fun _ hmem => nomatch hmem⟩
  | (id, node) :: dirtyNodes, s, s', hdirty, h => by
      obtain ⟨htarget, fields, hobject⟩ := hdirty id node List.mem_cons_self
      rw [saveNodes, EStateM.bind_apply_of_ok (object_eq hobject)] at h
      dsimp only at h
      cases hrecord : TreeDiskNodeSerializer.serialize keySerializer valueSerializer fields with
      | error e =>
          rw [hrecord] at h
          cases h
      | ok record =>
          rw [EStateM.bind_apply_of_ok (liftSerializer_eq hrecord _)] at h
          obtain ⟨_, s₁, hupdate, h⟩ := EStateM.bind_eq_ok.mp h
          have hs₁ : s₁ = { s with
              storage :=
                { s.storage with data := Function.update s.storage.data id (some record) } } := by
            rw [recordUpdate, EStateM.get_bind_apply] at hupdate
            cases hold : s.storage.data id with
            | none =>
                rw [hold] at hupdate
                cases hupdate
            | some old =>
                rw [hold] at hupdate
                cases hupdate
                rfl
          subst hs₁
          obtain ⟨data, rfl, hothers, hwritten⟩ := saveNodes_ok hkey hvalue target dirtyNodes
            (s :=
              { s with
                storage :=
                  { s.storage with data := Function.update s.storage.data id (some record) } })
            (fun id' node' hmem => hdirty id' node' (List.mem_cons_of_mem _ hmem)) h
          refine ⟨data, rfl, ?_, ?_⟩
          · intro id' hid'
            rw [List.map_cons, List.mem_cons, not_or] at hid'
            rw [hothers id' hid'.2]
            exact Function.update_of_ne hid'.1 _ _
          · intro id' hid' node' fields' htarget' hobject'
            by_cases hlater : id' ∈ dirtyNodes.map Prod.fst
            · exact hwritten id' hlater node' fields' htarget' hobject'
            · rw [List.map_cons, List.mem_cons] at hid'
              obtain rfl := hid'.resolve_right hlater
              rw [htarget] at htarget'
              cases htarget'
              rw [hobject] at hobject'
              cases hobject'
              refine ⟨record, ?_, deserialize_of_serialize hkey hvalue hrecord⟩
              rw [hothers id' hlater]
              exact Function.update_self _ _ _

/-- When the changes are saved and no node waits to be marked, the manager is clean. -/
theorem Coherent.saveChanges (hkey : keySerializer.Lawful) (hvalue : valueSerializer.Lawful)
    (hcoherent : Coherent keySerializer valueSerializer ∅ s)
    (h : TreeDiskNodeManager.saveChanges keySerializer valueSerializer s = .ok () s') :
  Clean keySerializer valueSerializer s'
  := by
  rw [TreeDiskNodeManager.saveChanges, EStateM.get_bind_apply] at h
  obtain ⟨_, s₁, hsave, h⟩ := EStateM.bind_eq_ok.mp h
  cases h
  have hdirty : ∀ id node, (id, node) ∈ s.dirtyNodes →
      (s.nodeWeakRefs id).join = some node ∧ ∃ fields, s.objects node = some (id, fields) := by
    intro id node hmem
    have hjoin := hcoherent.dirty id node hmem
    obtain ⟨fields, -, hobject, -, -⟩ := hcoherent.target id node hjoin
    exact ⟨hjoin, fields, hobject⟩
  obtain ⟨data, rfl, hothers, hwritten⟩ := saveNodes_ok hkey hvalue
    (fun id => (s.nodeWeakRefs id).join) s.dirtyNodes hdirty hsave
  have hclean : ∀ id, (s.nodeWeakRefs id).join = none → data id = s.storage.data id := by
    intro id hjoin
    apply hothers
    intro hmem
    obtain ⟨⟨_, node⟩, hentry, rfl⟩ := List.mem_map.mp hmem
    dsimp only at hjoin
    rw [(hdirty _ _ hentry).1] at hjoin
    cases hjoin
  refine ⟨?_, rfl⟩
  exact
    { unused := by
        refine ⟨hcoherent.unused.1, ?_⟩
        intro id hid
        have hnone := hcoherent.unused.2 id hid
        have hjoin : (s.nodeWeakRefs id).join = none := by
          cases hjoin : (s.nodeWeakRefs id).join with
          | none => rfl
          | some node =>
              obtain ⟨_, record, -, hrecord, -⟩ := hcoherent.target id node hjoin
              rw [hnone] at hrecord
              cases hrecord
        exact (hclean id hjoin).trans hnone
      objects_none := hcoherent.objects_none
      noNode := hcoherent.noNode
      target := by
        intro id node hjoin
        obtain ⟨fields, record, hobject, hrecord, hread⟩ := hcoherent.target id node hjoin
        by_cases hmem : id ∈ s.dirtyNodes.map Prod.fst
        · obtain ⟨record', hrecord', hread'⟩ := hwritten id hmem node fields hjoin hobject
          exact ⟨fields, record', hobject, hrecord', fun _ _ => hread'⟩
        · refine ⟨fields, record, hobject, (hothers id hmem).trans hrecord, ?_⟩
          exact fun _ hwaiting => hread hmem hwaiting
      dirty := by
        intro id node hmem
        cases hmem
      root := by
        obtain ⟨node, pointer, hroot, hpointer, hlength, hjoin⟩ := hcoherent.root
        exact ⟨node, pointer, hroot, (hclean 1 hcoherent.noNode).trans hpointer, hlength, hjoin⟩ }

end Keeping

/-! ### Operations of a tree -/

section Trees

open TreeDiskNodeManager

variable {K V : Type} {keySerializer : ISerializer K} {valueSerializer : ISerializer V}

/-- What a computation of the manager gives in an operation of a tree. -/
theorem returns_liftDisk {α : Type} {P : DiskNodeStore K V → Prop} {x : DiskM K V α}
    {T : α → DiskNodeStore K V → Prop} (hx : Returns P x T) :
  Returns P (liftDisk x) T
  := ⟨fun hP hrun => hx.of_ok hP (liftDisk_ok.mp hrun)⟩

/-- The fields of a node object, which leave the state. -/
theorem returns_object (P : DiskNodeStore K V → Prop) (node : Nat) :
  Returns P (object node) (fun entry s => P s ∧ s.objects node = some entry)
  := by
  constructor
  intro s entry s' hP hrun
  obtain ⟨rfl, hobject⟩ := object_ok hrun
  exact ⟨hP, hobject⟩

/-- The target for an id, which leaves the state. -/
theorem returns_target (P : DiskNodeStore K V → Prop) (id : Nat) :
  Returns P (TreeDiskNodeManager.target id)
    (fun node s => P s ∧ (s.nodeWeakRefs (UInt32.ofNat id)).join = some node)
  := by
  constructor
  intro s node s' hP hrun
  obtain ⟨rfl, hjoin⟩ := target_ok hrun
  exact ⟨hP, hjoin⟩

/-- The id of a node object that is the target for an id. -/
theorem returns_idOf {P : DiskNodeStore K V → Prop} (node : Nat) :
  Returns P (idOf node)
    (fun n s => P s ∧ ∃ id fields, s.objects node = some (id, fields) ∧ n = id.toNat)
  := by
  constructor
  intro s n s' hP hrun
  obtain ⟨rfl, hid⟩ := idOf_ok hrun
  exact ⟨hP, hid⟩

/-- The id of a node object, if there is one, leaves the state. -/
theorem returns_idOf? {P : DiskNodeStore K V → Prop} (node : Option Nat) :
  Returns P (idOf? node) (fun n s => P s ∧ ∀ m ∈ n, ∃ node' id fields,
    node = some node' ∧ s.objects node' = some (id, fields) ∧ m = id.toNat)
  := by
  cases node with
  | none =>
      apply Returns.pure
      intro s hP
      exact ⟨hP, fun _ hmem => nomatch hmem⟩
  | some node =>
      apply Returns.map
      apply (returns_idOf node).weaken
      rintro n s ⟨hP, id, fields, hobject, hn⟩
      refine ⟨hP, ?_⟩
      rintro _ ⟨⟩
      exact ⟨node, id, fields, rfl, hobject, hn⟩

/-- A node that is made the root node is the one that the first record refers to. -/
theorem returns_makeRoot {waiting : Set Nat} (node : Nat) :
  Returns (fun s => Coherent keySerializer valueSerializer waiting s
      ∧ ∃ id, (s.nodeWeakRefs id).join = some node)
    (makeRoot node) (fun _ => Coherent keySerializer valueSerializer waiting)
  := by
  constructor
  rintro s ⟨⟩ s' ⟨hcoherent, id, hjoin⟩ hrun
  obtain ⟨fields, record, hobject, -, -⟩ := hcoherent.target id node hjoin
  obtain ⟨_, pointer, -, hpointer, -⟩ := hcoherent.root
  rw [makeRoot, EStateM.modify_bind_apply,
    EStateM.bind_apply_of_ok (object_eq (s := { s with rootNode := some node }) hobject)] at hrun
  dsimp only at hrun
  rw [recordUpdate, EStateM.get_bind_apply] at hrun
  dsimp only at hrun
  rw [hpointer] at hrun
  cases hrun
  exact hcoherent.setRoot hjoin

end Trees

section Manager

open TreeDiskNodeManager

variable {K V : Type} [LinearOrder K] {keySerializer : ISerializer K}
  {valueSerializer : ISerializer V}

/-- The manager keeps to its records in the operations of a tree. -/
theorem tracks (hkey : keySerializer.Lawful) (hvalue : valueSerializer.Lawful)
    (search : EntrySearch K V) :
  Tracks (treeDiskNodeManager keySerializer valueSerializer search)
    (Coherent keySerializer valueSerializer)
  where
  rootNode waiting := by
    apply returns_liftDisk
    constructor
    intro s root s' hcoherent hrun
    exact ((returns_idOf? (P := Coherent keySerializer valueSerializer waiting)
      s.rootNode).of_ok hcoherent hrun).1
  create waiting entries childrenIds := by
    apply returns_liftDisk
    apply Returns.bind (T := fun _ => Coherent keySerializer valueSerializer waiting)
    · exact ⟨fun hcoherent hrun => (hcoherent.create hkey hvalue hrun).1⟩
    · intro node
      exact (returns_idOf node).weaken (fun _ _ h => h.1)
  find waiting id := by
    apply returns_liftDisk
    apply Returns.bind (T := fun _ => Coherent keySerializer valueSerializer waiting)
    · exact ⟨fun hcoherent hrun => (hcoherent.find hrun).1⟩
    · intro node
      exact (returns_idOf? node).weaken (fun _ _ h => h.1)
  createNewRoot waiting entry leftNodeId rightNodeId := by
    apply returns_liftDisk
    apply Returns.bind (T := fun _ => Coherent keySerializer valueSerializer waiting)
    · apply Returns.bind (T := fun node s => Coherent keySerializer valueSerializer waiting s
        ∧ ∃ id, (s.nodeWeakRefs id).join = some node)
      · exact ⟨fun hcoherent hrun => hcoherent.create hkey hvalue hrun⟩
      · intro node
        apply Returns.bind (returns_makeRoot node)
        intro _
        exact Returns.pure (fun _ h => h)
    · intro node
      exact (returns_idOf node).weaken (fun _ _ h => h.1)
  markAsChanged waiting id := by
    apply returns_liftDisk
    apply Returns.bind (returns_target _ id)
    intro node
    constructor
    rintro s ⟨⟩ s' ⟨hcoherent, hjoin⟩ hrun
    obtain ⟨fields, -, hobject, -, -⟩ := hcoherent.target _ _ hjoin
    obtain ⟨dirtyNodes, hmark, hkeys, hdirty⟩ := markAsChanged_eq hobject
    rw [hmark] at hrun
    cases hrun
    exact hcoherent.mark hjoin hkeys hdirty
  read waiting id := by
    apply returns_liftDisk
    apply Returns.bind_fact (R := Coherent keySerializer valueSerializer waiting)
      (F := fun _ => True)
    · exact (returns_target _ id).weaken (fun _ _ h => ⟨h.1, trivial⟩)
    · intro node _
      apply Returns.bind (returns_object _ node)
      intro entry
      exact Returns.pure (fun _ h => h.1)
  write waiting id fields := by
    apply returns_liftDisk
    apply Returns.bind (returns_target _ id)
    intro node
    constructor
    rintro s ⟨⟩ s' ⟨hcoherent, hjoin⟩ hrun
    obtain ⟨old, -, hobject, -, -⟩ := hcoherent.target _ _ hjoin
    rw [setFields, EStateM.bind_apply_of_ok (object_eq hobject)] at hrun
    cases hrun
    exact hcoherent.setFields hjoin
  steps _ := Returns.pure (fun _ h => h)

end Manager

end NodeCache

end Datatent.BTree
