import Datatent.CoreOld.Tree.NodeCache

/-!
# Runs of calls on the disk node manager

A manager that was constructed over a record storage represents a table of nodes. From then on
it gives the results that the table gives, along exactly the runs of calls in which no deleted
node shows, whatever node objects are collected in between.
-/

namespace Datatent.BTree

namespace NodeCache

/-! ### What a table gives -/

namespace NodeTable

variable {K V : Type} {t : NodeTable K V} {id : UInt32} {node : Nat} {calls : List (NodeCall K V)}

/-- A call that neither creates a node under an id nor deletes or collects a node object. -/
def Spares (id : UInt32) (node : Nat) (t : NodeTable K V) : NodeCall K V → Prop
  | .create _ _ => t.ids.head? ≠ some id
  | .delete node' => node' ≠ node
  | .collect node' => node' ≠ node
  | _ => True

/-- Adjusting the entry of another node object leaves an entry. -/
theorem adjust_of_ne {nodes : UInt32 → Option (Option Nat × DiskNode K V)} {node' : Nat}
    {fields : DiskNode K V} (f : DiskNode K V → Option (Option Nat × DiskNode K V))
    (hnode : nodes id = some (some node, fields)) (hne : node' ≠ node) :
  adjust nodes node' f id = some (some node, fields)
  := by
  rw [adjust, hnode]
  exact if_neg (Ne.symm hne)

/-- A node object stays the one of its node. -/
theorem step_found {call : NodeCall K V} (hnode : ∃ fields, t.nodes id = some (some node, fields))
    (hspares : Spares id node t call) :
  ∃ fields, (t.step call).2.nodes id = some (some node, fields)
  := by
  obtain ⟨fields, hnode⟩ := hnode
  cases call with
  | create entries childrenIds =>
      rw [step]
      split
      · exact ⟨fields, hnode⟩
      · rename_i id' ids hids
        use fields
        dsimp only
        rw [Function.update_of_ne, hnode]
        rintro rfl
        exact hspares (by rw [hids]; rfl)
  | find id' =>
      rw [step]
      split
      · exact ⟨fields, hnode⟩
      · split
        · exact ⟨fields, hnode⟩
        · exact ⟨fields, hnode⟩
        · rename_i fields' hnone
          use fields
          dsimp only
          rw [Function.update_of_ne, hnode]
          rintro rfl
          rw [hnode] at hnone
          cases hnone
  | change node' fields' =>
      by_cases heq : node' = node
      · subst heq
        use fields'
        change adjust t.nodes node' _ id = _
        rw [adjust, hnode]
        exact if_pos rfl
      · exact ⟨fields, adjust_of_ne _ hnode heq⟩
  | saveChanges => exact ⟨fields, hnode⟩
  | delete node' => exact ⟨fields, adjust_of_ne _ hnode hspares⟩
  | collect node' => exact ⟨fields, adjust_of_ne _ hnode hspares⟩

/-- A node is found as the object that it was created as, as long as that is neither deleted
nor collected. -/
theorem find_run (hid : id ≠ 1) (hnode : ∃ fields, t.nodes id = some (some node, fields))
    (hspares : Run.Along (fun t call => (t.step call).2) (Spares id node) t calls) :
  ∃ fields, ((Run.final (fun t call => (t.step call).2) t calls).step (.find id)).1
    = .node node id fields
  := by
  obtain ⟨fields, hnode⟩ := hspares.invariant
    (I := fun t => ∃ fields, t.nodes id = some (some node, fields))
    (fun _ _ hnode hspares => step_found hnode hspares) hnode
  use fields
  rw [step, if_neg hid, hnode]

/-- No node comes to be under an id, except where it is created. -/
theorem step_absent {call : NodeCall K V} (hnode : t.nodes id = none)
    (hcreate : t.ids.head? ≠ some id) :
  (t.step call).2.nodes id = none
  := by
  have hadjust : ∀ (node : Nat) (f : DiskNode K V → Option (Option Nat × DiskNode K V)),
      adjust t.nodes node f id = none := by
    intro node f
    rw [adjust, hnode]
  cases call with
  | create entries childrenIds =>
      rw [step]
      split
      · exact hnode
      · rename_i id' ids hids
        dsimp only
        rw [Function.update_of_ne, hnode]
        rintro rfl
        exact hcreate (by rw [hids]; rfl)
  | find id' =>
      rw [step]
      split
      · exact hnode
      · split
        · exact hnode
        · exact hnode
        · rename_i fields' hnone
          dsimp only
          rw [Function.update_of_ne, hnode]
          rintro rfl
          rw [hnode] at hnone
          cases hnone
  | change node fields => exact hadjust node _
  | saveChanges => exact hnode
  | delete node => exact hadjust node _
  | collect node => exact hadjust node _

/-- A node that was deleted is not found, as long as no node is created under its id. -/
theorem find_absent_run (hid : id ≠ 1) (hnode : t.nodes id = none)
    (hcreate : Run.Along (fun t call => (t.step call).2) (fun t _ => t.ids.head? ≠ some id) t
      calls) :
  ((Run.final (fun t call => (t.step call).2) t calls).step (.find id)).1 = .null
  := by
  have hfinal := hcreate.invariant (I := fun t => t.nodes id = none)
    (fun _ _ hnode hcreate => step_absent hnode hcreate) hnode
  rw [step, if_neg hid, hfinal]

end NodeTable

/-! ### The table of a storage -/

section Opening

variable {K V : Type} (keySerializer : ISerializer K) (valueSerializer : ISerializer V)

/-- A table without nodes. -/
def NodeTable.empty (K V : Type) (ids : List UInt32) : NodeTable K V where
  ids := ids
  objectCount := 0
  nodes := fun _ => none

/-- The nodes in the records of a storage. -/
def NodeTable.ofStorage (storage : NodeStorage) : NodeTable K V where
  ids := storage.ids
  objectCount := 0
  nodes := fun id =>
    if id = 1 then none
    else
      (storage.data id).bind (fun data =>
        match TreeDiskNodeSerializer.deserialize keySerializer valueSerializer data with
        | .ok fields => some (none, fields)
        | .error _ => none)

/-- The id in the first record. -/
def rootId (data : Bytes) : UInt32 := UInt32.ofNat (Bytes.readLE data 4)

/-- The table of a manager that was constructed over a storage: the root node is found, or
created behind the first record. -/
def NodeTable.opened (storage : NodeStorage) : NodeTable K V :=
  match storage.data 1 with
  | none => ((NodeTable.empty K V storage.ids.tail).step (.create [] [])).2
  | some data =>
      ((NodeTable.ofStorage keySerializer valueSerializer storage).step
        (.find (rootId data))).2

/-- A storage that a manager may be constructed over: it has no records and hands out the id
of the first record, and another one next; or its first record holds the id of another record,
and all but the first can be read as nodes. -/
def Formatted (storage : NodeStorage) : Prop :=
  ((∀ id, storage.data id = none) ∧ ∃ id ids, storage.ids = 1 :: id :: ids ∧ id ≠ 1)
    ∨ ((∃ data, storage.data 1 = some data ∧ data.length = 4 ∧ rootId data ≠ 1
        ∧ storage.data (rootId data) ≠ none)
      ∧ ∀ id data, id ≠ 1 → storage.data id = some data →
        ∃ fields, TreeDiskNodeSerializer.deserialize keySerializer valueSerializer data
          = .ok fields)

end Opening

/-! ### Constructed managers -/

section Runs

open TreeDiskNodeManager TreeDiskNodeSerializer

variable {K V : Type} {keySerializer : ISerializer K} {valueSerializer : ISerializer V}
  {storage : NodeStorage} {s s' : DiskNodeStore K V} {t : NodeTable K V} {id : UInt32}
  {call : NodeCall K V}

/-- The root node is not a part of the table. -/
theorem Represents.setRoot (hrep : Represents keySerializer valueSerializer s t)
    (rootNode : Option Nat) :
  Represents keySerializer valueSerializer { s with rootNode := rootNode } t
  where
  valueSize := hrep.valueSize
  ids_eq := hrep.ids_eq
  objectCount_eq := hrep.objectCount_eq
  objects_none := hrep.objects_none
  pointer := hrep.pointer
  noNode := hrep.noNode
  holds := by
    intro id ref fields hnode
    have hold := hrep.holds id ref fields hnode
    exact ⟨hold.object, hold.target, hold.record⟩
  absent := hrep.absent
  dirty := hrep.dirty

/-- A node object as a result leaves the state. -/
theorem step_snd_of_nodeResult {node : Nat}
    (hrun : call.run keySerializer valueSerializer s = nodeResult node s') :
  (step keySerializer valueSerializer s call).2 = s'
  := by
  rw [step, hrun, nodeResult, TreeDiskNodeManager.object, bind_assoc, EStateM.get_bind_apply]
  cases s'.objects node with
  | none => rfl
  | some entry => rfl

/-- The state after a node was found is the one after the call. -/
theorem step_find_snd {found : Option Nat}
    (hfind : TreeDiskNodeManager.find keySerializer valueSerializer id s = .ok found s') :
  (step keySerializer valueSerializer s (.find id)).2 = s'
  := by
  cases found with
  | none =>
      rw [step, NodeCall.run, EStateM.bind_apply_of_ok hfind]
      rfl
  | some node => exact step_snd_of_nodeResult (EStateM.bind_apply_of_ok hfind _)

/-- The state after a node was created is the one after the call. -/
theorem step_create_snd {entries : List (K × V)} {childrenIds : List UInt32} {node : Nat}
    (hcreate : TreeDiskNodeManager.create keySerializer valueSerializer entries childrenIds s
      = .ok node s') :
  (step keySerializer valueSerializer s (.create entries childrenIds)).2 = s'
  := step_snd_of_nodeResult (EStateM.bind_apply_of_ok hcreate _)

/-- Values of a node that is read have a fixed size. -/
theorem valueSize_of_deserialize {data : Bytes} {fields : DiskNode K V}
    (hread : deserialize keySerializer valueSerializer data = .ok fields) :
  valueSerializer.isFixedSize = true
  := by
  by_contra hsize
  rw [deserialize, if_neg (by simp [hsize]), if_neg hsize] at hread
  cases hread

/-- A node that is created is one the serializer takes. -/
theorem serializable_of_create {entries : List (K × V)} {childrenIds : List UInt32} {node : Nat}
    (hcreate : TreeDiskNodeManager.create keySerializer valueSerializer entries childrenIds s
      = .ok node s') :
  Serializable keySerializer valueSerializer
    { parentId := 0, entries := entries, childrenIds := childrenIds }
  := by
  obtain ⟨_, _, -, hcreate⟩ := EStateM.bind_eq_ok.mp hcreate
  obtain ⟨_, _, -, hcreate⟩ := EStateM.bind_eq_ok.mp hcreate
  obtain ⟨_, _, -, hcreate⟩ := EStateM.bind_eq_ok.mp hcreate
  obtain ⟨data, s'', hlift, -⟩ := EStateM.bind_eq_ok.mp hcreate
  cases hdata : serialize keySerializer valueSerializer
      { parentId := 0, entries := entries, childrenIds := childrenIds } with
  | ok data => exact ⟨data, hdata⟩
  | error e =>
      rw [hdata] at hlift
      cases hlift

/-- A manager whose constructor has not run represents the nodes in the records. -/
theorem represents_over (hvalueSize : valueSerializer.isFixedSize = true)
    (hpointer : ∃ data, storage.data 1 = some data ∧ data.length = 4)
    (hrecords : ∀ id data, id ≠ 1 → storage.data id = some data →
      ∃ fields, deserialize keySerializer valueSerializer data = .ok fields) :
  Represents keySerializer valueSerializer (DiskNodeStore.over K V storage)
    (NodeTable.ofStorage keySerializer valueSerializer storage)
  where
  valueSize := hvalueSize
  ids_eq := rfl
  objectCount_eq := rfl
  objects_none := fun _ _ => rfl
  pointer := hpointer
  noNode := ⟨rfl, rfl⟩
  holds := by
    intro id ref fields hnode
    dsimp only [NodeTable.ofStorage] at hnode
    split at hnode
    · cases hnode
    · obtain ⟨data, hdata, hfields⟩ := Option.bind_eq_some_iff.mp hnode
      cases hread : deserialize keySerializer valueSerializer data with
      | error e =>
          rw [hread] at hfields
          cases hfields
      | ok fields' =>
          rw [hread] at hfields
          cases hfields
          exact
            { object := fun _ h => nomatch h
              target := rfl
              record := ⟨data, hdata, fun _ => hread⟩ }
  absent := by
    intro id hne hnode
    dsimp only [NodeTable.ofStorage] at hnode
    rw [if_neg hne] at hnode
    cases hdata : storage.data id with
    | none => exact hdata
    | some data =>
        obtain ⟨fields, hread⟩ := hrecords id data hne hdata
        rw [hdata, Option.bind_some, hread] at hnode
        cases hnode
  dirty := fun _ _ hmem => nomatch hmem

/-- A manager whose constructor has run over a storage with records represents a table. -/
theorem represents_opened_find (hvalueSize : valueSerializer.isFixedSize = true) {data : Bytes}
    (hpointer : storage.data 1 = some data) (hlength : data.length = 4)
    (hrecords : ∀ id data, id ≠ 1 → storage.data id = some data →
      ∃ fields, deserialize keySerializer valueSerializer data = .ok fields)
    (hopen : openStorage keySerializer valueSerializer (DiskNodeStore.over K V storage)
      = .ok () s) :
  Represents keySerializer valueSerializer s
    (NodeTable.opened keySerializer valueSerializer storage)
  := by
  have hrep := represents_over hvalueSize ⟨data, hpointer, hlength⟩ hrecords
  have hid : readUInt32 data 0 = .ok (rootId data) := by
    rw [readUInt32, if_neg (by omega)]
    rfl
  rw [openStorage, EStateM.bind_apply_of_ok (recordFind_eq 1 _)] at hopen
  dsimp only [DiskNodeStore.over] at hopen
  rw [hpointer] at hopen
  dsimp only at hopen
  rw [EStateM.bind_apply_of_ok (liftSerializer_eq hid _)] at hopen
  obtain ⟨rootNode, s', hfind, hset⟩ := EStateM.bind_eq_ok.mp hopen
  cases hset
  apply Represents.setRoot
  have hsnd := step_find_snd hfind
  have hunseen : Unseen (DiskNodeStore.over K V storage) (.find (rootId data) : NodeCall K V) :=
    fun _ => rfl
  obtain ⟨s'', hstep, hrep'⟩ := hrep.find hunseen
  rw [NodeTable.opened, hpointer]
  dsimp only
  rw [DiskNodeStore.over] at hstep
  rw [hstep] at hsnd
  cases hsnd
  exact hrep'

/-- A manager whose constructor has run over a storage without records represents a table. -/
theorem represents_opened_create (hkey : keySerializer.Lawful) (hvalue : valueSerializer.Lawful)
    (hrecords : ∀ id, storage.data id = none) {ids : List UInt32}
    (hids : storage.ids = 1 :: id :: ids) (hne : id ≠ 1)
    (hopen : openStorage keySerializer valueSerializer (DiskNodeStore.over K V storage)
      = .ok () s) :
  Represents keySerializer valueSerializer s
    (NodeTable.opened keySerializer valueSerializer storage)
  := by
  let first : NodeStorage :=
    { data := Function.update storage.data 1 (some (Bytes.toLE 4 2)), ids := id :: ids }
  rw [openStorage, EStateM.bind_apply_of_ok (recordFind_eq 1 _)] at hopen
  dsimp only [DiskNodeStore.over] at hopen
  rw [hrecords] at hopen
  dsimp only at hopen
  obtain ⟨rootNode, s', hfirst, hset⟩ := EStateM.bind_eq_ok.mp hopen
  cases hset
  apply Represents.setRoot
  rw [createFirstRoot, EStateM.bind_apply_of_ok (recordAllocate_eq hids)] at hfirst
  have hcreate : TreeDiskNodeManager.create keySerializer valueSerializer [] []
      (DiskNodeStore.over K V first) = .ok rootNode s' := hfirst
  have hserial := serializable_of_create hcreate
  have hvalueSize : valueSerializer.isFixedSize = true := by
    obtain ⟨data, hdata⟩ := hserial
    exact valueSize_of_deserialize (deserialize_of_serialize hkey hvalue hdata)
  have hpointer : first.data 1 = some (Bytes.toLE 4 2) := by
    change Function.update storage.data 1 _ 1 = _
    exact Function.update_self _ _ _
  have hothers : ∀ id, id ≠ 1 → first.data id = none := by
    intro id hne
    exact (Function.update_of_ne hne _ _).trans (hrecords id)
  have hrep : Represents keySerializer valueSerializer (DiskNodeStore.over K V first)
      (NodeTable.ofStorage keySerializer valueSerializer first) := by
    apply represents_over hvalueSize ⟨_, hpointer, Bytes.length_toLE 4 2⟩
    intro id data hne hdata
    rw [hothers id hne] at hdata
    cases hdata
  have htable : NodeTable.ofStorage keySerializer valueSerializer first
      = NodeTable.empty K V storage.ids.tail := by
    rw [NodeTable.ofStorage, NodeTable.empty, hids, List.tail_cons]
    congr 1
    funext id
    split
    · rfl
    · rename_i hne
      rw [hothers id hne]
      rfl
  rw [htable] at hrep
  have hsnd := step_create_snd hcreate
  obtain ⟨s'', hstep, hrep'⟩ := hrep.create hkey hvalue (congrArg List.tail hids) (hothers id hne)
    rfl hserial
  rw [hstep] at hsnd
  cases hsnd
  rw [NodeTable.opened, hrecords]
  exact hrep'

/-- A manager whose constructor has run represents a table. -/
theorem represents_opened (hkey : keySerializer.Lawful) (hvalue : valueSerializer.Lawful)
    (hformatted : Formatted keySerializer valueSerializer storage)
    (hopen : openStorage keySerializer valueSerializer (DiskNodeStore.over K V storage)
      = .ok () s) :
  Represents keySerializer valueSerializer s
    (NodeTable.opened keySerializer valueSerializer storage)
  := by
  rcases hformatted with ⟨hnone, id, ids, hids, hne⟩
    | ⟨⟨data, hpointer, hlength, hroot, hrecord⟩, hrecords⟩
  · exact represents_opened_create hkey hvalue hnone hids hne hopen
  · obtain ⟨record, hrecord⟩ := Option.ne_none_iff_exists'.mp hrecord
    obtain ⟨fields, hread⟩ := hrecords _ record hroot hrecord
    exact represents_opened_find (valueSize_of_deserialize hread) hpointer hlength hrecords hopen

/-! ### Runs -/

/-- A call for which no deleted node shows gives what the table gives. -/
theorem Represents.step_eq (hkey : keySerializer.Lawful) (hvalue : valueSerializer.Lawful)
    (hrep : Represents keySerializer valueSerializer s t)
    (hlegal : Legal keySerializer valueSerializer s t call) (hunseen : Unseen s call) :
  (step keySerializer valueSerializer s call).1 = (t.step call).1
    ∧ Represents keySerializer valueSerializer (step keySerializer valueSerializer s call).2
      (t.step call).2
  := by
  have hcall : ∃ s', step keySerializer valueSerializer s call = ((t.step call).1, s')
      ∧ Represents keySerializer valueSerializer s' (t.step call).2 := by
    cases call with
    | create entries childrenIds =>
        obtain ⟨⟨id, ids, hids, hfree⟩, hserial⟩ := hlegal
        have hhead : id ∈ s.storage.ids.head? := by
          rw [hrep.ids_eq, hids]
          rfl
        exact hrep.create hkey hvalue hids hfree (hunseen id hhead) hserial
    | find id => exact hrep.find hunseen
    | change node fields => exact hrep.change hlegal.1 hlegal.2
    | saveChanges => exact hrep.saveChanges hkey hvalue
    | delete node => exact hrep.delete hlegal
    | collect node => exact hrep.collect hlegal
  obtain ⟨s', hstep, hrep'⟩ := hcall
  rw [hstep]
  exact ⟨rfl, hrep'⟩

/-- A call for which a deleted node shows gives something else: no node is created, and a node
is found under the id of a deleted one. -/
theorem Represents.step_ne (hrep : Represents keySerializer valueSerializer s t)
    (hlegal : Legal keySerializer valueSerializer s t call) (hseen : ¬ Unseen s call) :
  (step keySerializer valueSerializer s call).1 ≠ (t.step call).1
  := by
  cases call with
  | create entries childrenIds =>
      obtain ⟨⟨id, ids, hids, -⟩, -⟩ := hlegal
      have htarget : s.nodeWeakRefs id ≠ none := by
        intro hnone
        apply hseen
        intro id' hid'
        rw [hrep.ids_eq, hids] at hid'
        cases hid'
        exact hnone
      obtain ⟨target, htarget⟩ := Option.ne_none_iff_exists'.mp htarget
      have hfails : ∃ s', step keySerializer valueSerializer s (.create entries childrenIds)
          = (.thrown .argument, s') := create_fails (hrep.ids_eq.trans hids) htarget
      obtain ⟨s', hstep⟩ := hfails
      rw [hstep, NodeTable.step, hids]
      intro h
      cases h
  | find id =>
      rw [Unseen, Classical.not_imp] at hseen
      obtain ⟨hdata, hjoin⟩ := hseen
      obtain ⟨node, hjoin⟩ := Option.ne_none_iff_exists'.mp hjoin
      have htarget := Option.join_eq_some_iff.mp hjoin
      have hne : id ≠ 1 := by
        rintro rfl
        rw [hrep.noNode.2] at htarget
        cases htarget
      have hnode : t.nodes id = none := by
        cases hnode : t.nodes id with
        | none => rfl
        | some entry =>
            obtain ⟨record, hrecord, -⟩ := (hrep.holds id entry.1 entry.2 hnode).record
            rw [hdata] at hrecord
            cases hrecord
      have hfind : TreeDiskNodeManager.find keySerializer valueSerializer id s
          = .ok (some node) s := by
        rw [TreeDiskNodeManager.find, EStateM.get_bind_apply, htarget]
        rfl
      rw [NodeTable.step, if_neg hne, hnode, step, NodeCall.run, EStateM.bind_apply_of_ok hfind]
      dsimp only
      rw [nodeResult, TreeDiskNodeManager.object, bind_assoc, EStateM.get_bind_apply]
      cases s.objects node with
      | none =>
          intro h
          cases h
      | some entry =>
          intro h
          cases h
  | change node fields => exact absurd trivial hseen
  | saveChanges => exact absurd trivial hseen
  | delete node => exact absurd trivial hseen
  | collect node => exact absurd trivial hseen

/-- A call on a manager, and the same call on a table. -/
def bothStep (keySerializer : ISerializer K) (valueSerializer : ISerializer V)
    (p : DiskNodeStore K V × NodeTable K V) (call : NodeCall K V) :
    DiskNodeStore K V × NodeTable K V :=
  (Run.both (step keySerializer valueSerializer) NodeTable.step p call).2

/-- The calls are made as they may be, in the states that they are made in. -/
def LegalRun (keySerializer : ISerializer K) (valueSerializer : ISerializer V)
    (s : DiskNodeStore K V) (t : NodeTable K V) (calls : List (NodeCall K V)) : Prop :=
  Run.Along (bothStep keySerializer valueSerializer)
    (fun p => Legal keySerializer valueSerializer p.1 p.2) (s, t) calls

/-- No deleted node shows in the calls. -/
def UnseenRun (keySerializer : ISerializer K) (valueSerializer : ISerializer V)
    (s : DiskNodeStore K V) (calls : List (NodeCall K V)) : Prop :=
  Run.Along (fun s call => (step keySerializer valueSerializer s call).2) Unseen s calls

/-- A manager that was constructed over a record storage gives what the table of its nodes
gives exactly in the runs in which no deleted node shows. In the table every node is created,
found as long as it is not deleted, and not found from then on. -/
theorem behavesAsTable_iff_unseenRun (hkey : keySerializer.Lawful)
    (hvalue : valueSerializer.Lawful)
    (hformatted : Formatted keySerializer valueSerializer storage)
    (hopen : openStorage keySerializer valueSerializer (DiskNodeStore.over K V storage)
      = .ok () s)
    {calls : List (NodeCall K V)}
    (hlegal : LegalRun keySerializer valueSerializer s
      (NodeTable.opened keySerializer valueSerializer storage) calls) :
  Run.outputs (step keySerializer valueSerializer) s calls
      = Run.outputs NodeTable.step (NodeTable.opened keySerializer valueSerializer storage) calls
    ↔ UnseenRun keySerializer valueSerializer s calls
  := by
  apply Run.outputs_eq_iff_along_both (R := Represents keySerializer valueSerializer)
    (D := fun p => Legal keySerializer valueSerializer p.1 p.2)
  · intro s t call hrep hlegal hunseen
    exact hrep.step_eq hkey hvalue hlegal hunseen
  · intro s t call hrep hlegal hseen
    exact hrep.step_ne hlegal hseen
  · exact represents_opened hkey hvalue hformatted hopen
  · exact hlegal

end Runs

/-! ### Managers without nodes -/

/-- A storage without records. -/
def emptyStorage (ids : List UInt32) : NodeStorage where
  data := fun _ => none
  ids := ids

/-- The manager of numbers over a storage, after its constructor has run. -/
def opened (storage : NodeStorage) : DiskNodeStore UInt32 UInt32 :=
  match TreeDiskNodeManager.openStorage treeUIntSerializer treeUIntSerializer
    (DiskNodeStore.over UInt32 UInt32 storage) with
  | .ok _ s => s
  | .error _ s => s

/-- The table of the same manager. -/
def openedTable (storage : NodeStorage) : NodeTable UInt32 UInt32 :=
  NodeTable.opened treeUIntSerializer treeUIntSerializer storage

/-- Create a node, find it, delete it, and create another one. -/
def deletingCalls : List (NodeCall UInt32 UInt32) :=
  [.create [(1, 2)] [], .find 3, .delete 1, .create [(3, 4)] []]

/-- Where the storage does not hand out the id of the deleted node, the other one is created. -/
theorem behavesAsTable_iff_unseenRun_deletingCalls :
  Run.outputs (step treeUIntSerializer treeUIntSerializer) (opened (emptyStorage [1, 2, 3, 4]))
      deletingCalls
      = Run.outputs NodeTable.step (openedTable (emptyStorage [1, 2, 3, 4])) deletingCalls
    ∧ UnseenRun treeUIntSerializer treeUIntSerializer (opened (emptyStorage [1, 2, 3, 4]))
      deletingCalls
  := by
  have hunseen : UnseenRun treeUIntSerializer treeUIntSerializer
      (opened (emptyStorage [1, 2, 3, 4])) deletingCalls := by
    refine ⟨?_, ?_, trivial, ?_, trivial⟩
    · rintro _ ⟨⟩
      rfl
    · exact fun h => nomatch h
    · rintro _ ⟨⟩
      rfl
  refine ⟨(behavesAsTable_iff_unseenRun treeUIntSerializer_lawful treeUIntSerializer_lawful
    ?_ rfl ?_).mpr hunseen, hunseen⟩
  · exact Or.inl ⟨fun _ => rfl, 2, [3, 4], rfl, by decide⟩
  · exact ⟨⟨⟨3, [4], rfl, rfl⟩, _, rfl⟩, trivial, ⟨3, _, rfl⟩, ⟨⟨4, [], rfl, rfl⟩, _, rfl⟩, trivial⟩

/-- Where the storage hands out the id of the deleted node again, the other one is not
created. -/
theorem not_behavesAsTable :
  Formatted treeUIntSerializer treeUIntSerializer (emptyStorage [1, 2, 3, 3])
    ∧ TreeDiskNodeManager.openStorage treeUIntSerializer treeUIntSerializer
        (DiskNodeStore.over UInt32 UInt32 (emptyStorage [1, 2, 3, 3]))
      = .ok () (opened (emptyStorage [1, 2, 3, 3]))
    ∧ LegalRun treeUIntSerializer treeUIntSerializer (opened (emptyStorage [1, 2, 3, 3]))
      (openedTable (emptyStorage [1, 2, 3, 3])) deletingCalls
    ∧ Run.outputs (step treeUIntSerializer treeUIntSerializer) (opened (emptyStorage [1, 2, 3, 3]))
        deletingCalls
      = [.node 1 3 { parentId := 0, entries := [(1, 2)], childrenIds := [] },
          .node 1 3 { parentId := 0, entries := [(1, 2)], childrenIds := [] },
          .done, .thrown .argument]
    ∧ Run.outputs NodeTable.step (openedTable (emptyStorage [1, 2, 3, 3])) deletingCalls
      = [.node 1 3 { parentId := 0, entries := [(1, 2)], childrenIds := [] },
          .node 1 3 { parentId := 0, entries := [(1, 2)], childrenIds := [] },
          .done, .node 2 3 { parentId := 0, entries := [(3, 4)], childrenIds := [] }]
  := by
  refine ⟨Or.inl ⟨fun _ => rfl, 2, [3, 3], rfl, by decide⟩, rfl, ?_, rfl, rfl⟩
  exact ⟨⟨⟨3, [3], rfl, rfl⟩, _, rfl⟩, trivial, ⟨3, _, rfl⟩, ⟨⟨3, [], rfl, rfl⟩, _, rfl⟩, trivial⟩

end NodeCache

end Datatent.BTree
