import Datatent.CoreOld.Tree.TreeDiskNodeManager
import Datatent.Library.Run
import Datatent.Library.Yields

/-!
# The cache of the disk node manager

What the manager is for: a table of nodes by their ids, each with its fields and with one node
object as long as that is not collected. The records, the weak references and the dirty nodes
of a manager represent such a table (`Represents`), whatever is collected, as long as a node
that was deleted does not show: its weak reference stays behind, so that its id cannot be used
for a new node, and the object is found as long as it is not collected.
-/

namespace Datatent.BTree

namespace NodeCache

/-! ### Calls -/

/-- A call on the manager, or the collection of a node object. A node whose fields a client
changes is marked as changed by the client. -/
inductive NodeCall (K V : Type) where
  | create (entries : List (K × V)) (childrenIds : List UInt32)
  | find (id : UInt32)
  | change (node : Nat) (fields : DiskNode K V)
  | saveChanges
  | delete (node : Nat)
  | collect (node : Nat)

/-- What a call comes to: a node object with its id and fields, no node, nothing, or an
exception. -/
inductive NodeResult (K V : Type) where
  | node (node : Nat) (id : UInt32) (fields : DiskNode K V)
  | null
  | done
  | thrown (e : DiskException)
deriving DecidableEq

section Manager

variable {K V : Type} (keySerializer : ISerializer K) (valueSerializer : ISerializer V)

/-- A node object as the result of a call. -/
def nodeResult (node : Nat) : DiskM K V (NodeResult K V) := do
  let (id, fields) ← TreeDiskNodeManager.object node
  return .node node id fields

/-- The target of the weak references to a node object is gone. -/
def loseTarget (node : Nat) : DiskM K V Unit :=
  modify (fun store =>
    { store with
      nodeWeakRefs := fun id =>
        if store.nodeWeakRefs id = some (some node) then some none else store.nodeWeakRefs id })

/-- A call as a computation. -/
def NodeCall.run : NodeCall K V → DiskM K V (NodeResult K V)
  | .create entries childrenIds => do
      let node ← TreeDiskNodeManager.create keySerializer valueSerializer entries childrenIds
      nodeResult node
  | .find id => do
      match ← TreeDiskNodeManager.find keySerializer valueSerializer id with
      | some node => nodeResult node
      | none => return .null
  | .change node fields => do
      TreeDiskNodeManager.setFields node fields
      TreeDiskNodeManager.markAsChanged node
      return .done
  | .saveChanges => do
      TreeDiskNodeManager.saveChanges keySerializer valueSerializer
      return .done
  | .delete node => do
      TreeDiskNodeManager.delete node
      return .done
  | .collect node => do
      loseTarget node
      return .done

/-- One call: what it comes to, and the state after it. -/
def step (s : DiskNodeStore K V) (call : NodeCall K V) : NodeResult K V × DiskNodeStore K V :=
  match call.run keySerializer valueSerializer s with
  | .ok result s' => (result, s')
  | .error e s' => (.thrown e, s')

end Manager

/-! ### Tables of nodes -/

/-- The nodes by their ids, each with the reference to its node object, if it has one, and its
fields; the ids for the nodes to come, and the number of node objects. -/
structure NodeTable (K V : Type) where
  ids : List UInt32
  objectCount : Nat
  nodes : UInt32 → Option (Option Nat × DiskNode K V)

namespace NodeTable

variable {K V : Type}

/-- The table with another entry for the node that a node object is of. -/
def adjust (nodes : UInt32 → Option (Option Nat × DiskNode K V)) (node : Nat)
    (f : DiskNode K V → Option (Option Nat × DiskNode K V)) :
    UInt32 → Option (Option Nat × DiskNode K V) :=
  fun id =>
    match nodes id with
    | some (some node', fields) => if node' = node then f fields else some (some node', fields)
    | entry => entry

/-- One call on a table. The first record is not a node, and cannot be read as one. -/
def step (t : NodeTable K V) : NodeCall K V → NodeResult K V × NodeTable K V
  | .create entries childrenIds =>
      match t.ids with
      | [] => (.thrown .storageFull, t)
      | id :: ids =>
          let fields := { parentId := 0, entries := entries, childrenIds := childrenIds }
          (.node t.objectCount id fields,
            { ids := ids
              objectCount := t.objectCount + 1
              nodes := Function.update t.nodes id (some (some t.objectCount, fields)) })
  | .find id =>
      if id = 1 then (.thrown .argument, t)
      else
        match t.nodes id with
        | none => (.null, t)
        | some (some node, fields) => (.node node id fields, t)
        | some (none, fields) =>
            (.node t.objectCount id fields,
              { t with
                objectCount := t.objectCount + 1
                nodes := Function.update t.nodes id (some (some t.objectCount, fields)) })
  | .change node fields =>
      (.done, { t with nodes := adjust t.nodes node (fun _ => some (some node, fields)) })
  | .saveChanges => (.done, t)
  | .delete node => (.done, { t with nodes := adjust t.nodes node (fun _ => none) })
  | .collect node =>
      (.done, { t with nodes := adjust t.nodes node (fun fields => some (none, fields)) })

/-- The node object is the one of a node of the table. -/
def Holds (t : NodeTable K V) (node : Nat) : Prop :=
  ∃ id fields, t.nodes id = some (some node, fields)

end NodeTable

/-! ### Managers that represent tables -/

section Representation

variable {K V : Type} (keySerializer : ISerializer K) (valueSerializer : ISerializer V)

/-- The fields of a node that the serializer takes. -/
def Serializable (fields : DiskNode K V) : Prop :=
  ∃ data, TreeDiskNodeSerializer.serialize keySerializer valueSerializer fields = .ok data

/-- The node objects that the manager refers to, other than by weak references. -/
def Referenced (s : DiskNodeStore K V) (node : Nat) : Prop :=
  node ∈ s.nodeStrongRefs ∨ node ∈ s.dirtyNodes.map Prod.snd ∨ s.rootNode = some node

/-- A manager holds a node with an id: the target of the weak reference is its node object, if
it has one, with the fields. Unless the node is dirty the fields are those in its record. -/
structure HoldsNode (s : DiskNodeStore K V) (id : UInt32) (ref : Option Nat)
    (fields : DiskNode K V) : Prop where
  object : ∀ node, ref = some node → s.objects node = some (id, fields)
  target : (s.nodeWeakRefs id).join = ref
  record : ∃ data, s.storage.data id = some data
    ∧ (id ∉ s.dirtyNodes.map Prod.fst →
      TreeDiskNodeSerializer.deserialize keySerializer valueSerializer data = .ok fields)

/-- The state of a manager represents a table of nodes. -/
structure Represents (s : DiskNodeStore K V) (t : NodeTable K V) : Prop where
  valueSize : valueSerializer.isFixedSize = true
  ids_eq : s.storage.ids = t.ids
  objectCount_eq : s.objectCount = t.objectCount
  objects_none : ∀ node, t.objectCount ≤ node → s.objects node = none
  pointer : ∃ data, s.storage.data 1 = some data ∧ data.length = 4
  noNode : t.nodes 1 = none ∧ s.nodeWeakRefs 1 = none
  holds : ∀ id ref fields, t.nodes id = some (ref, fields) →
    HoldsNode keySerializer valueSerializer s id ref fields
  absent : ∀ id, id ≠ 1 → t.nodes id = none → s.storage.data id = none
  dirty : ∀ id node, (id, node) ∈ s.dirtyNodes →
    ∃ fields, t.nodes id = some (some node, fields)
      ∧ Serializable keySerializer valueSerializer fields

/-- A call as its caller may make it: the storage hands out an id that no record has, the
serializer takes the fields of a node, and a node that is changed or deleted is one that the
manager returned and that is not deleted. A node object is collected only when the manager does
not refer to it. -/
def Legal (s : DiskNodeStore K V) (t : NodeTable K V) : NodeCall K V → Prop
  | .create entries childrenIds =>
      (∃ id ids, t.ids = id :: ids ∧ s.storage.data id = none)
        ∧ Serializable keySerializer valueSerializer
          { parentId := 0, entries := entries, childrenIds := childrenIds }
  | .find _ => True
  | .change node fields =>
      t.Holds node ∧ Serializable keySerializer valueSerializer fields
  | .saveChanges => True
  | .delete node => t.Holds node
  | .collect node => ¬ Referenced s node

/-- A call for which no deleted node shows: the id for a new node has no weak reference, and
the weak reference of an id without a record has no target. -/
def Unseen (s : DiskNodeStore K V) : NodeCall K V → Prop
  | .create _ _ => ∀ id ∈ s.storage.ids.head?, s.nodeWeakRefs id = none
  | .find id => s.storage.data id = none → (s.nodeWeakRefs id).join = none
  | _ => True

end Representation

/-! ### The operations of the manager -/

section Operations

open TreeDiskNodeManager

variable {K V : Type} {s : DiskNodeStore K V} {id : UInt32} {node : Nat} {fields : DiskNode K V}

/-- Cleaning up leaves the targets. -/
theorem join_cleanup (nodeWeakRefs : UInt32 → Option (Option Nat)) (id : UInt32) :
  (cleanup nodeWeakRefs id).join = (nodeWeakRefs id).join
  := by
  rw [cleanup]
  cases nodeWeakRefs id with
  | none => rfl
  | some target => cases target <;> rfl

/-- Cleaning up makes no entries. -/
theorem cleanup_eq_none {nodeWeakRefs : UInt32 → Option (Option Nat)} (h : nodeWeakRefs id = none) :
  cleanup nodeWeakRefs id = none
  := by
  rw [cleanup, h]

theorem object_eq {entry : UInt32 × DiskNode K V} (h : s.objects node = some entry) :
  object node s = .ok entry s
  := by
  rw [object, EStateM.get_bind_apply, h]
  rfl

/-- The state after a node object was kept: it is the target for its id, the other targets, the
records, the objects, the dirty nodes and the root node stay. -/
structure Keeps (s s' : DiskNodeStore K V) (id : UInt32) (node : Nat) : Prop where
  storage_eq : s'.storage = s.storage
  objects_eq : s'.objects = s.objects
  objectCount_eq : s'.objectCount = s.objectCount
  dirtyNodes_eq : s'.dirtyNodes = s.dirtyNodes
  rootNode_eq : s'.rootNode = s.rootNode
  target : ∀ id', (s'.nodeWeakRefs id').join
    = if id' = id then some node else (s.nodeWeakRefs id').join
  noWeakRef : ∀ id', id' ≠ id → s.nodeWeakRefs id' = none → s'.nodeWeakRefs id' = none

/-- A node object is kept where there is no weak reference for its id. -/
theorem onNodeInitialized_eq (h : s.nodeWeakRefs id = none) (node : Nat) :
  ∃ s', onNodeInitialized id node s = .ok () s' ∧ Keeps s s' id node
  := by
  have hjoin : ∀ id', (Function.update s.nodeWeakRefs id (some (some node)) id').join
      = if id' = id then some node else (s.nodeWeakRefs id').join := by
    intro id'
    rw [Function.update_apply]
    split
    · rfl
    · rfl
  rw [onNodeInitialized, EStateM.get_bind_apply, h, if_neg (by decide)]
  refine ⟨_, rfl, ?_⟩
  exact
    { storage_eq := rfl
      objects_eq := rfl
      objectCount_eq := rfl
      dirtyNodes_eq := rfl
      rootNode_eq := rfl
      target := by
        intro id'
        dsimp only
        split
        · rw [join_cleanup, hjoin]
        · exact hjoin id'
      noWeakRef := by
        intro id' hne hnone
        have hupdate : Function.update s.nodeWeakRefs id (some (some node)) id' = none := by
          rw [Function.update_of_ne hne, hnone]
        dsimp only
        split
        · exact cleanup_eq_none hupdate
        · exact hupdate }

/-- A node object is not kept where there is a weak reference for its id. -/
theorem onNodeInitialized_throws {target : Option Nat} (h : s.nodeWeakRefs id = some target)
    (node : Nat) :
  onNodeInitialized id node s = .error .argument s
  := by
  rw [onNodeInitialized, EStateM.get_bind_apply, h]
  rfl

/-- A new node object. -/
theorem newObject_eq (id : UInt32) (fields : DiskNode K V) (s : DiskNodeStore K V) :
  newObject id fields s
    = .ok s.objectCount
        { s with
          objects := Function.update s.objects s.objectCount (some (id, fields))
          objectCount := s.objectCount + 1 }
  := rfl

/-- A record is looked up. -/
theorem recordFind_eq (id : UInt32) (s : DiskNodeStore K V) :
  recordFind id s = .ok (s.storage.data id) s
  := rfl

/-- A computation of the serializer that has a result. -/
theorem liftSerializer_eq {α : Type} {x : Except DiskException α} {a : α} (h : x = .ok a)
    (s : DiskNodeStore K V) :
  liftSerializer x s = .ok a s
  := by
  rw [h]
  rfl

end Operations

/-! ### Calls on managers that represent tables -/

section Calls

open TreeDiskNodeManager TreeDiskNodeSerializer

variable {K V : Type} {keySerializer : ISerializer K} {valueSerializer : ISerializer V}
  {s s' : DiskNodeStore K V} {t : NodeTable K V} {id : UInt32} {node : Nat}
  {fields : DiskNode K V}

/-- A dirty node has an entry with a node object. -/
theorem Represents.dirty_key (hrep : Represents keySerializer valueSerializer s t)
    (hid : id ∈ s.dirtyNodes.map Prod.fst) :
  ∃ node fields, (id, node) ∈ s.dirtyNodes ∧ t.nodes id = some (some node, fields)
  := by
  obtain ⟨⟨_, node⟩, hmem, rfl⟩ := List.mem_map.mp hid
  obtain ⟨fields, hnode, -⟩ := hrep.dirty _ _ hmem
  exact ⟨node, fields, hmem, hnode⟩

/-- A new node object with the fields in a record represents a node of the table that had no
node object. -/
theorem Represents.add (hrep : Represents keySerializer valueSerializer s t)
    (hne : id ≠ 1) (hfree : ∀ node fields, t.nodes id ≠ some (some node, fields))
    {ids : List UInt32} {data : Bytes}
    (hdata : TreeDiskNodeSerializer.deserialize keySerializer valueSerializer data = .ok fields)
    (hids : s'.storage.ids = ids)
    (hrecords : s'.storage.data = Function.update s.storage.data id (some data))
    (hobjects : s'.objects = Function.update s.objects t.objectCount (some (id, fields)))
    (hcount : s'.objectCount = t.objectCount + 1) (hdirty : s'.dirtyNodes = s.dirtyNodes)
    (htarget : ∀ id', (s'.nodeWeakRefs id').join
      = if id' = id then some t.objectCount else (s.nodeWeakRefs id').join)
    (hnone : ∀ id', id' ≠ id → s.nodeWeakRefs id' = none → s'.nodeWeakRefs id' = none) :
  Represents keySerializer valueSerializer s'
    { ids := ids
      objectCount := t.objectCount + 1
      nodes := Function.update t.nodes id (some (some t.objectCount, fields)) }
  where
  valueSize := hrep.valueSize
  ids_eq := hids
  objectCount_eq := hcount
  objects_none := by
    intro node hnode
    dsimp only at hnode
    rw [hobjects, Function.update_of_ne (by omega)]
    exact hrep.objects_none node (by omega)
  pointer := by
    rw [hrecords, Function.update_of_ne (Ne.symm hne)]
    exact hrep.pointer
  noNode := by
    dsimp only
    rw [Function.update_of_ne (Ne.symm hne)]
    exact ⟨hrep.noNode.1, hnone 1 (Ne.symm hne) hrep.noNode.2⟩
  holds := by
    intro id' ref fields' hnode
    dsimp only at hnode
    by_cases heq : id' = id
    · subst heq
      rw [Function.update_self] at hnode
      cases hnode
      exact
        { object := by
            rintro _ ⟨⟩
            rw [hobjects, Function.update_self]
          target := by rw [htarget, if_pos rfl]
          record := ⟨data, by rw [hrecords, Function.update_self], fun _ => hdata⟩ }
    · rw [Function.update_of_ne heq] at hnode
      have hold := hrep.holds id' ref fields' hnode
      exact
        { object := by
            intro node hnode'
            have hobject := hold.object node hnode'
            have hlt : node ≠ t.objectCount := by
              rintro rfl
              rw [hrep.objects_none _ (Nat.le_refl _)] at hobject
              cases hobject
            rw [hobjects, Function.update_of_ne hlt, hobject]
          target := by rw [htarget, if_neg heq, hold.target]
          record := by
            rw [hrecords, Function.update_of_ne heq, hdirty]
            exact hold.record }
  absent := by
    intro id' hne' hnode
    dsimp only at hnode
    by_cases heq : id' = id
    · subst heq
      rw [Function.update_self] at hnode
      cases hnode
    · rw [Function.update_of_ne heq] at hnode
      rw [hrecords, Function.update_of_ne heq]
      exact hrep.absent id' hne' hnode
  dirty := by
    intro id' node hmem
    rw [hdirty] at hmem
    obtain ⟨fields', hnode, hserial⟩ := hrep.dirty id' node hmem
    have heq : id' ≠ id := by
      rintro rfl
      exact hfree _ _ hnode
    refine ⟨fields', ?_, hserial⟩
    dsimp only
    rw [Function.update_of_ne heq, hnode]

/-- A call that returns. -/
theorem step_eq {call : NodeCall K V} {result : NodeResult K V}
    (hrun : call.run keySerializer valueSerializer s = .ok result s') :
  step keySerializer valueSerializer s call = (result, s')
  := by
  rw [step, hrun]

/-- A call that throws. -/
theorem step_eq_error {call : NodeCall K V} {e : DiskException}
    (hrun : call.run keySerializer valueSerializer s = .error e s') :
  step keySerializer valueSerializer s call = (.thrown e, s')
  := by
  rw [step, hrun]

/-- A node object as a result. -/
theorem nodeResult_eq (hobject : s.objects node = some (id, fields)) :
  nodeResult node s = .ok (.node node id fields) s
  := by
  rw [nodeResult, EStateM.bind_apply_of_ok (object_eq hobject)]
  rfl

/-- The id that the storage hands out. -/
theorem recordAllocate_eq {ids : List UInt32} (hids : s.storage.ids = id :: ids) :
  recordAllocate s = .ok id { s with storage := { s.storage with ids := ids } }
  := by
  rw [recordAllocate, EStateM.get_bind_apply, hids]
  rfl

/-- A node is created where the storage hands out an id without a weak reference. -/
theorem Represents.create (hkey : keySerializer.Lawful) (hvalue : valueSerializer.Lawful)
    (hrep : Represents keySerializer valueSerializer s t) {entries : List (K × V)}
    {childrenIds : List UInt32} {ids : List UInt32} (hids : t.ids = id :: ids)
    (hfree : s.storage.data id = none) (hunseen : s.nodeWeakRefs id = none)
    (hserial : Serializable keySerializer valueSerializer
      { parentId := 0, entries := entries, childrenIds := childrenIds }) :
  ∃ s', step keySerializer valueSerializer s (.create entries childrenIds)
      = ((t.step (.create entries childrenIds)).1, s')
    ∧ Represents keySerializer valueSerializer s' (t.step (.create entries childrenIds)).2
  := by
  obtain ⟨fields, hfields⟩ : ∃ fields : DiskNode K V,
      { parentId := 0, entries := entries, childrenIds := childrenIds } = fields := ⟨_, rfl⟩
  rw [hfields] at hserial
  obtain ⟨data, hdata⟩ := hserial
  have hne : id ≠ 1 := by
    rintro rfl
    obtain ⟨pointer, hpointer, -⟩ := hrep.pointer
    rw [hfree] at hpointer
    cases hpointer
  have hnode : ∀ node fields, t.nodes id ≠ some (some node, fields) := by
    intro node fields hnode
    obtain ⟨record, hrecord, -⟩ := (hrep.holds id _ _ hnode).record
    rw [hfree] at hrecord
    cases hrecord
  have hallocate := recordAllocate_eq (hrep.ids_eq.trans hids)
  obtain ⟨kept, hkeep, hkeeps⟩ := onNodeInitialized_eq
    (s :=
      { s with
        storage := { s.storage with ids := ids }
        objects := Function.update s.objects s.objectCount (some (id, fields))
        objectCount := s.objectCount + 1 }) hunseen s.objectCount
  have hobject : kept.objects s.objectCount = some (id, fields) := by
    rw [hkeeps.objects_eq]
    exact Function.update_self _ _ _
  have hcreate : TreeDiskNodeManager.create keySerializer valueSerializer entries childrenIds s
      = .ok s.objectCount
          { kept with
            storage :=
              { kept.storage with
                data := Function.update kept.storage.data id (some data) } } := by
    rw [TreeDiskNodeManager.create, EStateM.bind_apply_of_ok hallocate]
    dsimp only
    rw [hfields, EStateM.bind_apply_of_ok (newObject_eq _ _ _), EStateM.bind_apply_of_ok hkeep,
      EStateM.bind_apply_of_ok (liftSerializer_eq hdata _)]
    rfl
  have hflat : t.step (.create entries childrenIds)
      = (.node t.objectCount id fields,
          { ids := ids
            objectCount := t.objectCount + 1
            nodes := Function.update t.nodes id (some (some t.objectCount, fields)) }) := by
    simp only [NodeTable.step, hids, hfields]
  rw [hflat, ← hrep.objectCount_eq]
  refine ⟨_, step_eq ((EStateM.bind_apply_of_ok hcreate _).trans (nodeResult_eq hobject)), ?_⟩
  rw [hrep.objectCount_eq] at hkeeps ⊢
  apply hrep.add hne hnode (deserialize_of_serialize hkey hvalue hdata)
  · exact congrArg NodeStorage.ids hkeeps.storage_eq
  · dsimp only
    rw [hkeeps.storage_eq]
  · exact hkeeps.objects_eq
  · exact hkeeps.objectCount_eq
  · exact hkeeps.dirtyNodes_eq
  · exact hkeeps.target
  · exact hkeeps.noWeakRef

/-- A node is not created where there is a weak reference for the id handed out. -/
theorem create_fails {ids : List UInt32} {target : Option Nat} {entries : List (K × V)}
    {childrenIds : List UInt32} (hids : s.storage.ids = id :: ids)
    (hseen : s.nodeWeakRefs id = some target) :
  ∃ s', step keySerializer valueSerializer s (.create entries childrenIds)
    = (.thrown .argument, s')
  := by
  have hkeep := onNodeInitialized_throws
    (s :=
      { s with
        storage := { s.storage with ids := ids }
        objects := Function.update s.objects s.objectCount
          (some (id, { parentId := 0, entries := entries, childrenIds := childrenIds }))
        objectCount := s.objectCount + 1 }) hseen s.objectCount
  have hcreate : ∃ s', TreeDiskNodeManager.create keySerializer valueSerializer entries
      childrenIds s = .error .argument s' := by
    rw [TreeDiskNodeManager.create, EStateM.bind_apply_of_ok (recordAllocate_eq hids),
      EStateM.bind_apply_of_ok (newObject_eq _ _ _)]
    exact ⟨_, EStateM.bind_apply_of_error hkeep _⟩
  obtain ⟨s', hcreate⟩ := hcreate
  exact ⟨_, step_eq_error (EStateM.bind_apply_of_error hcreate _)⟩

/-- A weak reference without a target can be removed. -/
theorem Represents.forget (hrep : Represents keySerializer valueSerializer s t)
    (hjoin : (s.nodeWeakRefs id).join = none) :
  Represents keySerializer valueSerializer
    { s with nodeWeakRefs := Function.update s.nodeWeakRefs id none } t
  where
  valueSize := hrep.valueSize
  ids_eq := hrep.ids_eq
  objectCount_eq := hrep.objectCount_eq
  objects_none := hrep.objects_none
  pointer := hrep.pointer
  noNode := by
    refine ⟨hrep.noNode.1, ?_⟩
    dsimp only
    rw [Function.update_apply]
    split
    · rfl
    · exact hrep.noNode.2
  holds := by
    intro id' ref fields hnode
    have hold := hrep.holds id' ref fields hnode
    exact
      { object := hold.object
        target := by
          dsimp only
          rw [Function.update_apply]
          split
          · rename_i heq
            rw [← hold.target, heq, hjoin]
            rfl
          · exact hold.target
        record := hold.record }
  absent := hrep.absent
  dirty := hrep.dirty

/-- Where there is no target for the id, a node is found by reading its record. -/
theorem find_eq_load (hjoin : (s.nodeWeakRefs id).join = none) :
  TreeDiskNodeManager.find keySerializer valueSerializer id s
    = load keySerializer valueSerializer id
        { s with nodeWeakRefs := Function.update s.nodeWeakRefs id none }
  := by
  rw [TreeDiskNodeManager.find, EStateM.get_bind_apply]
  cases hweak : s.nodeWeakRefs id with
  | none =>
      have hsame : Function.update s.nodeWeakRefs id none = s.nodeWeakRefs :=
        Function.update_eq_self_iff.mpr hweak.symm
      rw [hsame]
  | some target =>
      rw [hweak] at hjoin
      obtain rfl : target = none := hjoin
      rfl

/-- No node is read from no record. -/
theorem load_none (hdata : s.storage.data id = none) :
  load keySerializer valueSerializer id s = .ok none s
  := by
  rw [load, EStateM.bind_apply_of_ok (recordFind_eq id s), hdata]
  rfl

/-- A record that is not one of a node is not read. -/
theorem load_error {data : Bytes} {e : DiskException} (hdata : s.storage.data id = some data)
    (hread : deserialize keySerializer valueSerializer data = .error e) :
  load keySerializer valueSerializer id s = .error e s
  := by
  rw [load, EStateM.bind_apply_of_ok (recordFind_eq id s), hdata]
  dsimp only
  rw [hread]
  rfl

/-- A node that is read from its record is a new node object. -/
theorem load_some {data : Bytes} (hdata : s.storage.data id = some data)
    (hread : deserialize keySerializer valueSerializer data = .ok fields)
    (hweak : s.nodeWeakRefs id = none) :
  ∃ s', load keySerializer valueSerializer id s = .ok (some s.objectCount) s'
    ∧ Keeps
      { s with
        objects := Function.update s.objects s.objectCount (some (id, fields))
        objectCount := s.objectCount + 1 } s' id s.objectCount
  := by
  obtain ⟨s', hkeep, hkeeps⟩ := onNodeInitialized_eq
    (s :=
      { s with
        objects := Function.update s.objects s.objectCount (some (id, fields))
        objectCount := s.objectCount + 1 }) hweak s.objectCount
  refine ⟨s', ?_, hkeeps⟩
  rw [load, EStateM.bind_apply_of_ok (recordFind_eq id s), hdata]
  dsimp only
  rw [EStateM.bind_apply_of_ok (liftSerializer_eq hread _),
    EStateM.bind_apply_of_ok (newObject_eq _ _ _), EStateM.bind_apply_of_ok hkeep]
  rfl

/-- A node is found: the object in memory, or a new one with the fields in its record. No node
is found under an id that is not in the table. -/
theorem Represents.find (hrep : Represents keySerializer valueSerializer s t)
    (hunseen : s.storage.data id = none → (s.nodeWeakRefs id).join = none) :
  ∃ s', step keySerializer valueSerializer s (.find id) = ((t.step (.find id)).1, s')
    ∧ Represents keySerializer valueSerializer s' (t.step (.find id)).2
  := by
  by_cases hone : id = 1
  · subst hone
    have hjoin : (s.nodeWeakRefs 1).join = none := by
      rw [hrep.noNode.2]
      rfl
    obtain ⟨data, hdata, hlength⟩ := hrep.pointer
    have hfind : TreeDiskNodeManager.find keySerializer valueSerializer 1 s
        = .error .argument { s with nodeWeakRefs := Function.update s.nodeWeakRefs 1 none } :=
      (find_eq_load hjoin).trans (load_error hdata (deserialize_short hrep.valueSize hlength))
    exact ⟨_, step_eq_error (EStateM.bind_apply_of_error hfind _), hrep.forget hjoin⟩
  · cases hnode : t.nodes id with
    | none =>
        have hdata := hrep.absent id hone hnode
        have hjoin := hunseen hdata
        have hflat : t.step (.find id) = (.null, t) := by
          rw [NodeTable.step, if_neg hone, hnode]
        have hfind : TreeDiskNodeManager.find keySerializer valueSerializer id s
            = .ok none { s with nodeWeakRefs := Function.update s.nodeWeakRefs id none } :=
          (find_eq_load hjoin).trans (load_none hdata)
        rw [hflat]
        exact ⟨_, step_eq (EStateM.bind_apply_of_ok hfind _), hrep.forget hjoin⟩
    | some entry =>
        obtain ⟨ref, fields⟩ := entry
        have hold := hrep.holds id ref fields hnode
        cases ref with
        | some node =>
            have hflat : t.step (.find id) = (.node node id fields, t) := by
              rw [NodeTable.step, if_neg hone, hnode]
            have hfind : TreeDiskNodeManager.find keySerializer valueSerializer id s
                = .ok (some node) s := by
              rw [TreeDiskNodeManager.find, EStateM.get_bind_apply,
                Option.join_eq_some_iff.mp hold.target]
              rfl
            rw [hflat]
            exact ⟨s, step_eq ((EStateM.bind_apply_of_ok hfind _).trans
              (nodeResult_eq (hold.object node rfl))), hrep⟩
        | none =>
            have hflat : t.step (.find id)
                = (.node t.objectCount id fields,
                    { t with
                      objectCount := t.objectCount + 1
                      nodes := Function.update t.nodes id
                        (some (some t.objectCount, fields)) }) := by
              rw [NodeTable.step, if_neg hone, hnode]
            have hclean : id ∉ s.dirtyNodes.map Prod.fst := by
              intro hmem
              obtain ⟨node, fields', -, hdirty⟩ := hrep.dirty_key hmem
              rw [hnode] at hdirty
              cases hdirty
            obtain ⟨data, hdata, hread⟩ := hold.record
            obtain ⟨kept, hload, hkeeps⟩ := load_some
              (s := { s with nodeWeakRefs := Function.update s.nodeWeakRefs id none }) hdata
              (hread hclean) (Function.update_self _ _ _)
            have hobject : kept.objects s.objectCount = some (id, fields) := by
              rw [hkeeps.objects_eq]
              exact Function.update_self _ _ _
            have hfind := (find_eq_load hold.target).trans hload
            have hrep' := hrep.forget hold.target
            rw [hflat, ← hrep.objectCount_eq]
            refine ⟨kept, step_eq ((EStateM.bind_apply_of_ok hfind _).trans
              (nodeResult_eq hobject)), ?_⟩
            rw [hrep.objectCount_eq] at hkeeps ⊢
            apply hrep'.add hone _ (hread hclean)
            · rw [hkeeps.storage_eq]
              exact hrep.ids_eq
            · rw [hkeeps.storage_eq]
              exact (Function.update_eq_self_iff.mpr hdata.symm).symm
            · exact hkeeps.objects_eq
            · exact hkeeps.objectCount_eq
            · exact hkeeps.dirtyNodes_eq
            · exact hkeeps.target
            · exact hkeeps.noWeakRef
            · intro node fields' hother
              rw [hnode] at hother
              cases hother

/-- A node object is the one of at most one node. -/
theorem Represents.adjust_eq (hrep : Represents keySerializer valueSerializer s t)
    (hnode : t.nodes id = some (some node, fields))
    (f : DiskNode K V → Option (Option Nat × DiskNode K V)) :
  NodeTable.adjust t.nodes node f = Function.update t.nodes id (f fields)
  := by
  funext id'
  by_cases heq : id' = id
  · subst heq
    rw [NodeTable.adjust, hnode, Function.update_self]
    exact if_pos rfl
  · rw [NodeTable.adjust, Function.update_of_ne heq]
    cases hother : t.nodes id' with
    | none => rfl
    | some entry =>
        obtain ⟨ref, fields'⟩ := entry
        cases ref with
        | none => rfl
        | some node' =>
            have hne : node' ≠ node := by
              rintro rfl
              have hobject := (hrep.holds id _ _ hnode).object _ rfl
              rw [(hrep.holds id' _ _ hother).object _ rfl] at hobject
              cases hobject
              exact heq rfl
            exact if_neg hne

/-- Marking a node adds its id to those of the dirty nodes; a dirty node with its id stays. -/
theorem markAsChanged_eq (hobject : s.objects node = some (id, fields)) :
  ∃ dirtyNodes, markAsChanged node s = .ok () { s with dirtyNodes := dirtyNodes }
    ∧ (∀ id', id' ∈ dirtyNodes.map Prod.fst ↔ id' = id ∨ id' ∈ s.dirtyNodes.map Prod.fst)
    ∧ ∀ entry ∈ dirtyNodes, entry ∈ s.dirtyNodes ∨ entry = (id, node)
  := by
  rw [markAsChanged, EStateM.bind_apply_of_ok (object_eq hobject)]
  refine ⟨_, rfl, ?_, ?_⟩
  · intro id'
    split
    · rename_i hany
      constructor
      · exact Or.inr
      · rintro (rfl | hmem)
        · obtain ⟨entry, hentry, heq⟩ := List.any_eq_true.mp hany
          exact List.mem_map.mpr ⟨entry, hentry, of_decide_eq_true heq⟩
        · exact hmem
    · rw [List.map_append, List.mem_append, List.map_singleton, List.mem_singleton, or_comm]
  · intro entry hentry
    split at hentry
    · exact Or.inl hentry
    · rw [List.mem_append, List.mem_singleton] at hentry
      exact hentry

/-- The fields of a node are changed and the node is marked as dirty. -/
theorem Represents.change (hrep : Represents keySerializer valueSerializer s t)
    (hholds : t.Holds node) (hserial : Serializable keySerializer valueSerializer fields) :
  ∃ s', step keySerializer valueSerializer s (.change node fields) = (.done, s')
    ∧ Represents keySerializer valueSerializer s' (t.step (.change node fields)).2
  := by
  obtain ⟨id, old, hnode⟩ := hholds
  have hold := hrep.holds id _ _ hnode
  have hobject := hold.object node rfl
  have hset : setFields node fields s
      = .ok () { s with objects := Function.update s.objects node (some (id, fields)) } := by
    rw [setFields, EStateM.bind_apply_of_ok (object_eq hobject)]
    rfl
  obtain ⟨dirtyNodes, hmark, hkeys, hdirty⟩ := markAsChanged_eq
    (s := { s with objects := Function.update s.objects node (some (id, fields)) })
    (Function.update_self _ _ _)
  have hflat : (t.step (.change node fields)).2
      = { t with nodes := Function.update t.nodes id (some (some node, fields)) } := by
    rw [NodeTable.step, hrep.adjust_eq hnode]
  have hrun : NodeCall.run keySerializer valueSerializer (.change node fields) s
      = .ok .done
          { s with
            objects := Function.update s.objects node (some (id, fields))
            dirtyNodes := dirtyNodes } := by
    rw [NodeCall.run, EStateM.bind_apply_of_ok hset, EStateM.bind_apply_of_ok hmark]
    rfl
  rw [hflat]
  refine ⟨_, step_eq hrun, ?_⟩
  have hidne : id ≠ 1 := by
    rintro rfl
    rw [hrep.noNode.1] at hnode
    cases hnode
  exact
    { valueSize := hrep.valueSize
      ids_eq := hrep.ids_eq
      objectCount_eq := hrep.objectCount_eq
      objects_none := by
        intro node' hnode'
        have hnone := hrep.objects_none node' hnode'
        have hne : node' ≠ node := by
          rintro rfl
          rw [hobject] at hnone
          cases hnone
        dsimp only
        rw [Function.update_of_ne hne, hnone]
      pointer := hrep.pointer
      noNode := by
        dsimp only
        rw [Function.update_of_ne (Ne.symm hidne)]
        exact hrep.noNode
      holds := by
        intro id' ref fields' hnode'
        dsimp only at hnode'
        by_cases heq : id' = id
        · subst heq
          rw [Function.update_self] at hnode'
          cases hnode'
          obtain ⟨data, hdata, -⟩ := hold.record
          exact
            { object := by
                rintro _ ⟨⟩
                exact Function.update_self _ _ _
              target := hold.target
              record := ⟨data, hdata, fun h => absurd ((hkeys id').mpr (Or.inl rfl)) h⟩ }
        · rw [Function.update_of_ne heq] at hnode'
          have hother := hrep.holds id' ref fields' hnode'
          obtain ⟨data, hdata, hread⟩ := hother.record
          exact
            { object := by
                intro node' href
                have hobject' := hother.object node' href
                have hne : node' ≠ node := by
                  rintro rfl
                  rw [hobject] at hobject'
                  cases hobject'
                  exact heq rfl
                dsimp only
                rw [Function.update_of_ne hne, hobject']
              target := hother.target
              record := ⟨data, hdata, fun h => hread (fun h' => h ((hkeys id').mpr (Or.inr h')))⟩ }
      absent := by
        intro id' hne hnode'
        dsimp only at hnode'
        by_cases heq : id' = id
        · subst heq
          rw [Function.update_self] at hnode'
          cases hnode'
        · rw [Function.update_of_ne heq] at hnode'
          exact hrep.absent id' hne hnode'
      dirty := by
        intro id' node' hmem
        dsimp only
        by_cases heq : id' = id
        · subst heq
          rw [Function.update_self]
          rcases hdirty _ hmem with hmem | heq
          · obtain ⟨fields', hnode', -⟩ := hrep.dirty _ _ hmem
            rw [hnode] at hnode'
            cases hnode'
            exact ⟨fields, rfl, hserial⟩
          · cases heq
            exact ⟨fields, rfl, hserial⟩
        · rw [Function.update_of_ne heq]
          rcases hdirty _ hmem with hmem | heq'
          · exact hrep.dirty _ _ hmem
          · cases heq'
            exact absurd rfl heq }

/-- Deleting a node removes its record and its dirty entry. -/
theorem delete_eq {data : Bytes} (hobject : s.objects node = some (id, fields))
    (hdata : s.storage.data id = some data) :
  ∃ rootNode, TreeDiskNodeManager.delete node s
    = .ok ()
        { s with
          storage := { s.storage with data := Function.update s.storage.data id none }
          dirtyNodes := s.dirtyNodes.filter (fun entry => entry.1 ≠ id)
          rootNode := rootNode }
  := by
  have hrecord : ∀ rootNode, recordDelete id { s with rootNode := rootNode }
      = .ok ()
          { s with
            storage := { s.storage with data := Function.update s.storage.data id none }
            rootNode := rootNode } := by
    intro rootNode
    rw [recordDelete, EStateM.get_bind_apply, hdata]
    rfl
  rw [TreeDiskNodeManager.delete, EStateM.get_bind_apply]
  by_cases hroot : s.rootNode = some node
  · rw [if_pos hroot]
    use none
    rw [EStateM.modify_bind_apply]
    dsimp only
    rw [EStateM.bind_apply_of_ok (object_eq (s := { s with rootNode := none }) hobject)]
    dsimp only
    rw [EStateM.bind_apply_of_ok (hrecord none)]
    rfl
  · rw [if_neg hroot]
    use s.rootNode
    dsimp only
    rw [EStateM.bind_apply_of_ok (object_eq hobject)]
    dsimp only
    rw [EStateM.bind_apply_of_ok (hrecord s.rootNode)]
    rfl

/-- A node is deleted: its record and its dirty entry are gone. -/
theorem Represents.delete (hrep : Represents keySerializer valueSerializer s t)
    (hholds : t.Holds node) :
  ∃ s', step keySerializer valueSerializer s (.delete node) = (.done, s')
    ∧ Represents keySerializer valueSerializer s' (t.step (.delete node)).2
  := by
  obtain ⟨id, fields, hnode⟩ := hholds
  have hold := hrep.holds id _ _ hnode
  have hobject := hold.object node rfl
  obtain ⟨data, hdata, -⟩ := hold.record
  have hflat : (t.step (.delete node)).2
      = { t with nodes := Function.update t.nodes id none } := by
    rw [NodeTable.step, hrep.adjust_eq hnode]
  obtain ⟨rootNode, hdelete⟩ := delete_eq hobject hdata
  have hrun := EStateM.bind_apply_of_ok hdelete
    (fun _ => (pure .done : DiskM K V (NodeResult K V)))
  rw [hflat]
  refine ⟨_, step_eq hrun, ?_⟩
  have hidne : id ≠ 1 := by
    rintro rfl
    rw [hrep.noNode.1] at hnode
    cases hnode
  have hkeys : ∀ id', id' ≠ id →
      (id' ∈ (s.dirtyNodes.filter (fun entry => entry.1 ≠ id)).map Prod.fst
        ↔ id' ∈ s.dirtyNodes.map Prod.fst) := by
    intro id' hne
    simp only [List.mem_map, List.mem_filter, decide_eq_true_eq]
    constructor
    · rintro ⟨entry, ⟨hmem, -⟩, rfl⟩
      exact ⟨entry, hmem, rfl⟩
    · rintro ⟨entry, hmem, rfl⟩
      exact ⟨entry, ⟨hmem, hne⟩, rfl⟩
  exact
    { valueSize := hrep.valueSize
      ids_eq := hrep.ids_eq
      objectCount_eq := hrep.objectCount_eq
      objects_none := hrep.objects_none
      pointer := by
        dsimp only
        rw [Function.update_of_ne (Ne.symm hidne)]
        exact hrep.pointer
      noNode := by
        dsimp only
        rw [Function.update_of_ne (Ne.symm hidne)]
        exact hrep.noNode
      holds := by
        intro id' ref fields' hnode'
        dsimp only at hnode'
        have heq : id' ≠ id := by
          rintro rfl
          rw [Function.update_self] at hnode'
          cases hnode'
        rw [Function.update_of_ne heq] at hnode'
        have hother := hrep.holds id' ref fields' hnode'
        exact
          { object := hother.object
            target := hother.target
            record := by
              dsimp only
              rw [Function.update_of_ne heq, hkeys id' heq]
              exact hother.record }
      absent := by
        intro id' hne hnode'
        dsimp only at hnode' ⊢
        by_cases heq : id' = id
        · rw [heq, Function.update_self]
        · rw [Function.update_of_ne heq] at hnode' ⊢
          exact hrep.absent id' hne hnode'
      dirty := by
        intro id' node' hmem
        rw [List.mem_filter, decide_eq_true_eq] at hmem
        dsimp only
        rw [Function.update_of_ne hmem.2]
        exact hrep.dirty _ _ hmem.1 }

/-- A node object that the manager does not refer to is collected. -/
theorem Represents.collect (hrep : Represents keySerializer valueSerializer s t)
    (hfree : ¬ Referenced s node) :
  ∃ s', step keySerializer valueSerializer s (.collect node) = (.done, s')
    ∧ Represents keySerializer valueSerializer s' (t.step (.collect node)).2
  := by
  refine ⟨_, rfl, ?_⟩
  have hjoin : ∀ id', (if s.nodeWeakRefs id' = some (some node) then some none
      else s.nodeWeakRefs id').join
        = if (s.nodeWeakRefs id').join = some node then none else (s.nodeWeakRefs id').join := by
    intro id'
    simp only [Option.join_eq_some_iff]
    split
    · rfl
    · rfl
  have hkept : ∀ id' ref fields', t.nodes id' = some (ref, fields') → ref ≠ some node →
      (NodeTable.adjust t.nodes node fun fields => some (none, fields)) id'
        = some (ref, fields') := by
    intro id' ref fields' hnode' hne
    rw [NodeTable.adjust, hnode']
    cases ref with
    | none => rfl
    | some node' => exact if_neg (fun h => hne (congrArg some h))
  exact
    { valueSize := hrep.valueSize
      ids_eq := hrep.ids_eq
      objectCount_eq := hrep.objectCount_eq
      objects_none := hrep.objects_none
      pointer := hrep.pointer
      noNode := by
        dsimp only [NodeTable.step]
        rw [NodeTable.adjust, hrep.noNode.1, hrep.noNode.2]
        exact ⟨rfl, if_neg (fun h => nomatch h)⟩
      holds := by
        intro id' ref' fields' hnode'
        dsimp only [NodeTable.step] at hnode'
        cases hnode : t.nodes id' with
        | none =>
            rw [NodeTable.adjust, hnode] at hnode'
            cases hnode'
        | some entry =>
            obtain ⟨ref, fields⟩ := entry
            have hold := hrep.holds id' ref fields hnode
            by_cases href : ref = some node
            · rw [NodeTable.adjust, hnode, href] at hnode'
              dsimp only at hnode'
              rw [if_pos rfl] at hnode'
              cases hnode'
              exact
                { object := fun _ h => nomatch h
                  target := (hjoin id').trans (if_pos (hold.target.trans href))
                  record := hold.record }
            · rw [hkept id' ref fields hnode href] at hnode'
              cases hnode'
              exact
                { object := hold.object
                  target := by
                    have hne := fun h => href (hold.target.symm.trans h)
                    exact (hjoin id').trans ((if_neg hne).trans hold.target)
                  record := hold.record }
      absent := by
        intro id' hne hnode'
        dsimp only [NodeTable.step] at hnode'
        apply hrep.absent id' hne
        cases hnode : t.nodes id' with
        | none => rfl
        | some entry =>
            obtain ⟨ref, fields⟩ := entry
            by_cases href : ref = some node
            · rw [NodeTable.adjust, hnode, href] at hnode'
              dsimp only at hnode'
              rw [if_pos rfl] at hnode'
              cases hnode'
            · rw [hkept id' ref fields hnode href] at hnode'
              cases hnode'
      dirty := by
        intro id' node' hmem
        obtain ⟨fields', hnode', hserial⟩ := hrep.dirty _ _ hmem
        refine ⟨fields', hkept id' _ _ hnode' ?_, hserial⟩
        rintro ⟨⟩
        exact hfree (Or.inr (Or.inl (List.mem_map.mpr ⟨_, hmem, rfl⟩))) }

/-- Writing dirty nodes puts the fields of each into its record. -/
theorem saveNodes_eq (hkey : keySerializer.Lawful) (hvalue : valueSerializer.Lawful)
    (nodes : UInt32 → Option (Option Nat × DiskNode K V)) :
  ∀ (dirtyNodes : List (UInt32 × Nat)) {s : DiskNodeStore K V},
    (∀ id node, (id, node) ∈ dirtyNodes → ∃ fields, nodes id = some (some node, fields)
      ∧ s.objects node = some (id, fields) ∧ (∃ data, s.storage.data id = some data)
      ∧ Serializable keySerializer valueSerializer fields) →
    ∃ data, saveNodes keySerializer valueSerializer dirtyNodes s
        = .ok () { s with storage := { s.storage with data := data } }
      ∧ (∀ id, id ∉ dirtyNodes.map Prod.fst → data id = s.storage.data id)
      ∧ ∀ id ∈ dirtyNodes.map Prod.fst, ∀ ref fields, nodes id = some (ref, fields) →
        ∃ record, data id = some record
          ∧ deserialize keySerializer valueSerializer record = .ok fields
  | [], s, _ => ⟨s.storage.data, rfl, fun _ _ => rfl, fun _ h => nomatch h⟩
  | (id, node) :: dirtyNodes, s, hdirty => by
      obtain ⟨fields, hnode, hobject, ⟨old, hold⟩, ⟨record, hrecord⟩⟩ :=
        hdirty id node List.mem_cons_self
      have hupdate : recordUpdate id record s
          = .ok ()
              { s with
                storage :=
                  { s.storage with
                    data := Function.update s.storage.data id (some record) } } := by
        rw [recordUpdate, EStateM.get_bind_apply, hold]
        rfl
      obtain ⟨data, hsave, hothers, hwritten⟩ := saveNodes_eq hkey hvalue nodes dirtyNodes
        (s :=
          { s with
            storage :=
              { s.storage with data := Function.update s.storage.data id (some record) } })
        (by
          intro id' node' hmem
          obtain ⟨fields', hnode', hobject', ⟨old', hold'⟩, hserial'⟩ :=
            hdirty id' node' (List.mem_cons_of_mem _ hmem)
          refine ⟨fields', hnode', hobject', ?_, hserial'⟩
          dsimp only
          rw [Function.update_apply]
          split
          · exact ⟨_, rfl⟩
          · exact ⟨_, hold'⟩)
      refine ⟨data, ?_, ?_, ?_⟩
      · rw [saveNodes, EStateM.bind_apply_of_ok (object_eq hobject)]
        dsimp only
        rw [EStateM.bind_apply_of_ok (liftSerializer_eq hrecord _),
          EStateM.bind_apply_of_ok hupdate, hsave]
      · intro id' hid'
        rw [List.map_cons, List.mem_cons, not_or] at hid'
        rw [hothers id' hid'.2]
        exact Function.update_of_ne hid'.1 _ _
      · intro id' hid' ref fields' hnode'
        by_cases hlater : id' ∈ dirtyNodes.map Prod.fst
        · exact hwritten id' hlater ref fields' hnode'
        · rw [List.map_cons, List.mem_cons] at hid'
          obtain rfl := hid'.resolve_right hlater
          rw [hnode] at hnode'
          cases hnode'
          refine ⟨record, ?_, deserialize_of_serialize hkey hvalue hrecord⟩
          rw [hothers id' hlater]
          exact Function.update_self _ _ _

/-- Saving writes the dirty nodes. -/
theorem Represents.saveChanges (hkey : keySerializer.Lawful) (hvalue : valueSerializer.Lawful)
    (hrep : Represents keySerializer valueSerializer s t) :
  ∃ s', step keySerializer valueSerializer s .saveChanges = (.done, s')
    ∧ Represents keySerializer valueSerializer s' t
  := by
  have hdirty : ∀ id node, (id, node) ∈ s.dirtyNodes → ∃ fields,
      t.nodes id = some (some node, fields) ∧ s.objects node = some (id, fields)
        ∧ (∃ data, s.storage.data id = some data)
        ∧ Serializable keySerializer valueSerializer fields := by
    intro id node hmem
    obtain ⟨fields, hnode, hserial⟩ := hrep.dirty id node hmem
    have hold := hrep.holds id _ _ hnode
    obtain ⟨record, hrecord, -⟩ := hold.record
    exact ⟨fields, hnode, hold.object node rfl, ⟨record, hrecord⟩, hserial⟩
  obtain ⟨data, hsave, hothers, hwritten⟩ := saveNodes_eq hkey hvalue t.nodes s.dirtyNodes hdirty
  have hrun : NodeCall.run keySerializer valueSerializer .saveChanges s
      = .ok .done
          { s with storage := { s.storage with data := data }, dirtyNodes := [] } := by
    rw [NodeCall.run, TreeDiskNodeManager.saveChanges, bind_assoc, EStateM.get_bind_apply,
      bind_assoc, EStateM.bind_apply_of_ok hsave]
    rfl
  have hclean : ∀ id, t.nodes id = none → data id = s.storage.data id := by
    intro id hnode
    apply hothers
    intro hmem
    obtain ⟨node, fields, -, hnode'⟩ := hrep.dirty_key hmem
    rw [hnode] at hnode'
    cases hnode'
  refine ⟨_, step_eq hrun, ?_⟩
  exact
    { valueSize := hrep.valueSize
      ids_eq := hrep.ids_eq
      objectCount_eq := hrep.objectCount_eq
      objects_none := hrep.objects_none
      pointer := by
        dsimp only
        rw [hclean 1 hrep.noNode.1]
        exact hrep.pointer
      noNode := hrep.noNode
      holds := by
        intro id ref fields hnode
        have hold := hrep.holds id ref fields hnode
        exact
          { object := hold.object
            target := hold.target
            record := by
              by_cases hmem : id ∈ s.dirtyNodes.map Prod.fst
              · obtain ⟨record, hrecord, hread⟩ := hwritten id hmem ref fields hnode
                exact ⟨record, hrecord, fun _ => hread⟩
              · obtain ⟨record, hrecord, hread⟩ := hold.record
                exact ⟨record, (hothers id hmem).trans hrecord, fun _ => hread hmem⟩ }
      absent := fun id hne hnode => (hclean id hnode).trans (hrep.absent id hne hnode)
      dirty := fun _ _ hmem => nomatch hmem }

end Calls

end NodeCache

end Datatent.BTree
