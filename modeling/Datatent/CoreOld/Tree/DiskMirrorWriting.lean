import Datatent.CoreOld.Tree.DiskMirror

/-!
# Changing a tree on disk and one in memory

The disk node manager mirrors the memory node manager as far as nodes are changed, created and
saved. Only the creation of a node and the saving of the changes may give up.
-/

namespace Datatent.BTree

namespace NodeCache

/-! ### Changing nodes -/

section Changing

open TreeDiskNodeManager

variable {K V : Type} {keySerializer : ISerializer K} {valueSerializer : ISerializer V}
  {s s' : DiskNodeStore K V} {t : NodeStore K V} {ids : List UInt32} {L W : Set Nat}
  {node k : Nat} {fields : TreeNode K V}

/-- The fields of a node at hand are written, and the node waits to be marked. -/
theorem Mirrored.write (h : (0 :: 1 :: ids).Nodup)
    (hR : Mirrored keySerializer valueSerializer ids L W s t) {old : TreeNode K V}
    (hnode : t.nodes k = some old) (hjoin : (s.nodeWeakRefs (diskId ids k)).join = some node)
    (hfields : fields.Within (· ≤ ids.length)) :
  Mirrored keySerializer valueSerializer ids L (W ∪ {k})
    { s with
      objects := Function.update s.objects node (some (diskId ids k, onDisk ids fields)) }
    { t with nodes := t.nodes.put k fields }
  := by
  have hobject := (hR.holds hnode).object node hjoin
  have hlive : ∀ {k' fields'}, t.nodes k' = some fields' →
      ∃ fields'', t.nodes.put k fields k' = some fields'' := by
    intro k' fields' hnode'
    rw [Heap.put, Function.update_apply]
    split
    · exact ⟨_, rfl⟩
    · exact ⟨_, hnode'⟩
  exact
    { counter := hR.counter
      ids_eq := hR.ids_eq
      fresh := hR.fresh
      objects_none := by
        intro node' hnode'
        have hlt := hR.object_lt hobject
        dsimp only at hnode' ⊢
        rw [Function.update_of_ne (by omega)]
        exact hR.objects_none node' hnode'
      live := by
        intro k' fields' hnode'
        rcases Heap.put_eq_some.mp hnode' with ⟨rfl, rfl⟩ | ⟨-, hnode'⟩
        · exact ⟨(hR.live hnode).1, (hR.live hnode).2.1, hfields⟩
        · exact hR.live hnode'
      holds := by
        intro k' fields' hnode'
        rcases Heap.put_eq_some.mp hnode' with ⟨rfl, rfl⟩ | ⟨hne, hnode'⟩
        · obtain ⟨data, hdata, -⟩ := (hR.holds hnode).record
          refine ⟨?_, data, hdata, ?_⟩
          · intro node' hjoin'
            rw [hjoin] at hjoin'
            cases hjoin'
            exact Function.update_self _ _ _
          · rintro (hnone | ⟨-, hwaits⟩)
            · rw [hjoin] at hnone
              cases hnone
            · exact absurd (.inr rfl) hwaits
        · refine (hR.holds hnode').congr rfl ?_ rfl ?_
          · intro node' hjoin'
            apply Function.update_of_ne
            rintro rfl
            exact hne (hR.target_inj h hnode' hnode hjoin' hjoin)
          · exact fun hclean hwaits => ⟨hclean, fun hk => hwaits (.inl hk)⟩
      dirty := by
        intro id' node' hmem
        obtain ⟨hjoin', k', fields', hnode', hid⟩ := hR.dirty id' node' hmem
        obtain ⟨fields'', hnode''⟩ := hlive hnode'
        exact ⟨hjoin', k', fields'', hnode'', hid⟩
      pointer := hR.pointer
      root := by
        intro k' hk'
        obtain ⟨node', data, fields', hnode', hroot⟩ := hR.root k' hk'
        obtain ⟨fields'', hnode''⟩ := hlive hnode'
        exact ⟨node', data, fields'', hnode'', hroot⟩
      noRoot := hR.noRoot
      atHand := by
        intro k' hk'
        obtain ⟨fields', node', hnode', hjoin'⟩ := hR.atHand k' hk'
        obtain ⟨fields'', hnode''⟩ := hlive hnode'
        exact ⟨fields'', node', hnode'', hjoin'⟩ }

/-- A node at hand is marked, and waits no more. -/
theorem Mirrored.mark (hR : Mirrored keySerializer valueSerializer ids L (W ∪ {k}) s t)
    (hnode : t.nodes k = some fields)
    (hjoin : (s.nodeWeakRefs (diskId ids k)).join = some node)
    {dirtyNodes : List (UInt32 × Nat)}
    (hkeys : ∀ id, id ∈ dirtyNodes.map Prod.fst
      ↔ id = diskId ids k ∨ id ∈ s.dirtyNodes.map Prod.fst)
    (hdirty : ∀ entry ∈ dirtyNodes, entry ∈ s.dirtyNodes ∨ entry = (diskId ids k, node)) :
  Mirrored keySerializer valueSerializer ids L W { s with dirtyNodes := dirtyNodes } t
  :=
    { hR with
      holds := by
        intro k' fields' hnode'
        refine (hR.holds hnode').congr rfl (fun _ _ => rfl) rfl ?_
        intro hclean hwaits
        dsimp only at hclean
        rw [hkeys, not_or] at hclean
        refine ⟨hclean.2, ?_⟩
        rintro (hk' | rfl)
        · exact hwaits hk'
        · exact hclean.1 rfl
      dirty := by
        intro id' node' hmem
        rcases hdirty _ hmem with hmem | heq
        · exact hR.dirty id' node' hmem
        · cases heq
          exact ⟨hjoin, k, fields, hnode, rfl⟩ }

/-- The id that is written to the first record. -/
theorem rootId_toLE (id : UInt32) :
  rootId (Bytes.toLE 4 id.toNat) = id
  := by
  have hread := Bytes.readLE_toLE_append 4 id.toNat []
  have hlt : id.toNat < 256 ^ 4 := UInt32.toNat_lt id
  rw [List.append_nil, Nat.mod_eq_of_lt hlt] at hread
  rw [rootId, hread, UInt32.ofNat_toNat]

/-- A node with a node object is made the root node. -/
theorem Mirrored.makeRoot (h : (0 :: 1 :: ids).Nodup)
    (hR : Mirrored keySerializer valueSerializer ids L W s t) (hnode : t.nodes k = some fields)
    (hjoin : (s.nodeWeakRefs (diskId ids k)).join = some node) :
  ∃ s', TreeDiskNodeManager.makeRoot node s = .ok () s' ∧ s'.objects = s.objects
    ∧ Mirrored keySerializer valueSerializer ids L W s' { t with rootNode := some k }
  := by
  obtain ⟨old, hold⟩ := hR.pointer
  have hobject := (hR.holds hnode).object node hjoin
  have hwritten : Function.update s.storage.data 1 (some (Bytes.toLE 4 (diskId ids k).toNat)) 1
      = some (Bytes.toLE 4 (diskId ids k).toNat) := Function.update_self _ _ _
  refine ⟨{ s with
    rootNode := some node
    storage :=
      { s.storage with
        data := Function.update s.storage.data 1
          (some (Bytes.toLE 4 (diskId ids k).toNat)) } }, ?_, rfl, ?_⟩
  · rw [TreeDiskNodeManager.makeRoot, EStateM.modify_bind_apply,
      EStateM.bind_apply_of_ok (object_eq (s := { s with rootNode := some node }) hobject)]
    dsimp only
    rw [recordUpdate, EStateM.get_bind_apply]
    dsimp only
    rw [hold]
    rfl
  · exact
      { hR with
        holds := by
          intro k' fields' hnode'
          refine (hR.holds hnode').congr rfl (fun _ _ => rfl) ?_ ?_
          · exact Function.update_of_ne (diskId_ne_one h (hR.named hnode')) _ _
          · exact fun hclean hwaits => ⟨hclean, hwaits⟩
        pointer := ⟨_, hwritten⟩
        root := by
          rintro _ ⟨⟩
          exact ⟨node, _, fields, hnode, rfl, hjoin, hwritten, Bytes.length_toLE 4 _,
            rootId_toLE _⟩
        noRoot := by
          intro hnone
          cases hnone }

/-- A node at hand is deleted: its record and its dirty entry are gone, and it is not the root
node any more. -/
theorem Mirrored.delete (h : (0 :: 1 :: ids).Nodup)
    (hR : Mirrored keySerializer valueSerializer ids L (W ∪ {k}) s t)
    (hnode : t.nodes k = some fields)
    (hjoin : (s.nodeWeakRefs (diskId ids k)).join = some node) :
  Mirrored keySerializer valueSerializer ids (L \ {k}) W
    { s with
      storage := { s.storage with data := Function.update s.storage.data (diskId ids k) none }
      dirtyNodes := s.dirtyNodes.filter (fun entry => entry.1 ≠ diskId ids k)
      rootNode := if s.rootNode = some node then none else s.rootNode }
    { t with
      rootNode := if t.rootNode = some k then none else t.rootNode
      nodes := t.nodes.erase k }
  := by
  have hkept : ∀ {k' fields'}, k' ≠ k → t.nodes k' = some fields' →
      t.nodes.erase k k' = some fields' :=
    fun hne hnode' => Heap.erase_eq_some.mpr ⟨hne, hnode'⟩
  have hone : Function.update s.storage.data (diskId ids k) none 1 = s.storage.data 1 :=
    Function.update_of_ne (Ne.symm (diskId_ne_one h (hR.named hnode))) _ _
  exact
    { counter := hR.counter
      ids_eq := hR.ids_eq
      fresh := hR.fresh
      objects_none := hR.objects_none
      live := fun hnode' => hR.live (Heap.erase_eq_some.mp hnode').2
      holds := by
        intro k' fields' hnode'
        obtain ⟨hne, hnode'⟩ := Heap.erase_eq_some.mp hnode'
        have hid : diskId ids k' ≠ diskId ids k := fun heq => hne (hR.id_inj h hnode' hnode heq)
        refine (hR.holds hnode').congr rfl (fun _ _ => rfl) ?_ ?_
        · exact Function.update_of_ne hid _ _
        · intro hclean hwaits
          constructor
          · intro hmem
            obtain ⟨entry, hentry, heq⟩ := List.mem_map.mp hmem
            refine hclean (List.mem_map.mpr ⟨entry, List.mem_filter.mpr ⟨hentry, ?_⟩, heq⟩)
            exact decide_eq_true (heq ▸ hid)
          · rintro (hk' | rfl)
            · exact hwaits hk'
            · exact hne rfl
      dirty := by
        intro id' node' hmem
        obtain ⟨hmem, hid⟩ := List.mem_filter.mp hmem
        obtain ⟨hjoin', k', fields', hnode', rfl⟩ := hR.dirty id' node' hmem
        have hne : k' ≠ k := by
          rintro rfl
          exact of_decide_eq_true hid rfl
        exact ⟨hjoin', k', fields', hkept hne hnode', rfl⟩
      pointer := by
        obtain ⟨data, hdata⟩ := hR.pointer
        exact ⟨data, hone.trans hdata⟩
      root := by
        intro k' hk'
        dsimp only at hk'
        split at hk'
        · cases hk'
        · rename_i hroot
          obtain ⟨node', data, fields', hnode', hroot', hjoin', hdata, hrest⟩ := hR.root k' hk'
          have hne : k' ≠ k := by
            rintro rfl
            exact hroot hk'
          have hnode'' : s.rootNode ≠ some node := by
            intro heq
            rw [hroot'] at heq
            cases heq
            exact hne (hR.target_inj h hnode' hnode hjoin' hjoin)
          exact ⟨node', data, fields', hkept hne hnode', (if_neg hnode'').trans hroot', hjoin',
            hone.trans hdata, hrest⟩
      noRoot := by
        intro hnone
        dsimp only at hnone ⊢
        split at hnone
        · rename_i hroot
          obtain ⟨node', data, fields', hnode', hroot', hjoin', -⟩ := hR.root k hroot
          rw [hjoin] at hjoin'
          cases hjoin'
          exact if_pos hroot'
        · rw [hR.noRoot hnone]
          exact ite_self none
      atHand := by
        rintro k' ⟨hk', hne⟩
        obtain ⟨fields', node', hnode', hjoin'⟩ := hR.atHand k' hk'
        exact ⟨fields', node', hkept hne hnode', hjoin'⟩ }

/-- What `delete` does. -/
theorem delete_run {id : UInt32} {old : DiskNode K V} {data : Bytes}
    (hobject : s.objects node = some (id, old)) (hdata : s.storage.data id = some data) :
  TreeDiskNodeManager.delete node s
    = .ok ()
        { s with
          storage := { s.storage with data := Function.update s.storage.data id none }
          dirtyNodes := s.dirtyNodes.filter (fun entry => entry.1 ≠ id)
          rootNode := if s.rootNode = some node then none else s.rootNode }
  := by
  have hobject' : ∀ rootNode, object node { s with rootNode := rootNode }
      = .ok (id, old) { s with rootNode := rootNode } := fun _ => object_eq hobject
  have hrecord : ∀ rootNode, recordDelete id { s with rootNode := rootNode }
      = .ok ()
          { s with
            storage := { s.storage with data := Function.update s.storage.data id none }
            rootNode := rootNode } := by
    intro rootNode
    rw [recordDelete, EStateM.get_bind_apply, hdata]
    rfl
  rw [TreeDiskNodeManager.delete, EStateM.get_bind_apply]
  by_cases hroot : s.rootNode = some node
  · rw [if_pos hroot, if_pos hroot, EStateM.modify_bind_apply]
    exact (EStateM.bind_apply_of_ok (hobject' none) _).trans
      (EStateM.bind_apply_of_ok (hrecord none) _)
  · rw [if_neg hroot, if_neg hroot]
    exact (EStateM.bind_apply_of_ok (hobject' s.rootNode) _).trans
      (EStateM.bind_apply_of_ok (hrecord s.rootNode) _)

/-! ### Writing nodes -/

/-- A node that is not written is too large, or its values have no fixed size. -/
theorem toTree_of_serialize (hkey : keySerializer.Lawful) (hvalue : valueSerializer.Lawful)
    {written : DiskNode K V} {e : DiskException}
    (hfail : TreeDiskNodeSerializer.serialize keySerializer valueSerializer written = .error e) :
  e.toTree = .invalidOperation
  := by
  rw [TreeDiskNodeSerializer.serialize] at hfail
  split at hfail
  · rename_i hsizes
    rw [Bool.and_eq_true] at hsizes
    by_cases hlt : 16 + written.entries.length
        * TreeDiskNodeSerializer.entrySize keySerializer valueSerializer
        + written.childrenIds.length * 4 < 1024 * 64
    · rw [TreeDiskNodeSerializer.fixedLengthSerialize_eq hkey.toRoundTrips hvalue.toRoundTrips
        hsizes.1 hsizes.2 written hlt] at hfail
      cases hfail
    · rw [TreeDiskNodeSerializer.fixedLengthSerialize, if_pos (Nat.le_of_not_lt hlt)] at hfail
      cases hfail
      rfl
  · split at hfail
    · rw [TreeDiskNodeSerializer.variableKeyLengthSerialize] at hfail
      split at hfail
      · cases hfail
      · cases hfail
        rfl
    · cases hfail
      rfl

/-- Writing dirty nodes that have node objects and records fails only where a node is not
written. -/
theorem toTree_of_saveNodes (hkey : keySerializer.Lawful) (hvalue : valueSerializer.Lawful) :
  ∀ (dirtyNodes : List (UInt32 × Nat)) {s s' : DiskNodeStore K V} {e : DiskException},
    (∀ id node, (id, node) ∈ dirtyNodes →
      ∃ written data, s.objects node = some (id, written) ∧ s.storage.data id = some data) →
    saveNodes keySerializer valueSerializer dirtyNodes s = .error e s' →
    e.toTree = .invalidOperation
  | [], _, _, _, _, hrun => by cases hrun
  | (id, node) :: dirtyNodes, s, s', e, hdirty, hrun => by
      obtain ⟨written, old, hobject, hold⟩ := hdirty id node List.mem_cons_self
      rw [saveNodes, EStateM.bind_apply_of_ok (object_eq hobject)] at hrun
      dsimp only at hrun
      cases hdata : TreeDiskNodeSerializer.serialize keySerializer valueSerializer written with
      | error e' =>
          rw [hdata] at hrun
          cases hrun
          exact toTree_of_serialize hkey hvalue hdata
      | ok data =>
          have hupdate : recordUpdate id data s
              = .ok ()
                  { s with
                    storage :=
                      { s.storage with
                        data := Function.update s.storage.data id (some data) } } := by
            rw [recordUpdate, EStateM.get_bind_apply, hold]
            rfl
          rw [EStateM.bind_apply_of_ok (liftSerializer_eq hdata _),
            EStateM.bind_apply_of_ok hupdate] at hrun
          apply toTree_of_saveNodes hkey hvalue dirtyNodes _ hrun
          intro id' node' hmem
          obtain ⟨written', old', hobject', hold'⟩ :=
            hdirty id' node' (List.mem_cons_of_mem _ hmem)
          refine ⟨written', ?_⟩
          dsimp only
          rw [Function.update_apply]
          split
          · exact ⟨data, hobject', rfl⟩
          · exact ⟨old', hobject', hold'⟩

/-- Dirty nodes have node objects and records. -/
theorem Mirrored.dirty_object (hR : Mirrored keySerializer valueSerializer ids L W s t)
    {id : UInt32} (hmem : (id, node) ∈ s.dirtyNodes) :
  (s.nodeWeakRefs id).join = some node
    ∧ ∃ written data, s.objects node = some (id, written) ∧ s.storage.data id = some data
  := by
  obtain ⟨hjoin, k, fields, hnode, rfl⟩ := hR.dirty id node hmem
  obtain ⟨data, hdata, -⟩ := (hR.holds hnode).record
  exact ⟨hjoin, _, data, (hR.holds hnode).object node hjoin, hdata⟩

/-- When the changes are saved no node is dirty. -/
theorem Mirrored.saveChanges (h : (0 :: 1 :: ids).Nodup) (hkey : keySerializer.Lawful)
    (hvalue : valueSerializer.Lawful)
    (hR : Mirrored keySerializer valueSerializer ids L ∅ s t)
    (hrun : TreeDiskNodeManager.saveChanges keySerializer valueSerializer s = .ok () s') :
  Mirrored keySerializer valueSerializer ids L ∅ s' t
  := by
  rw [TreeDiskNodeManager.saveChanges, EStateM.get_bind_apply] at hrun
  obtain ⟨_, s₁, hsave, hrun⟩ := EStateM.bind_eq_ok.mp hrun
  cases hrun
  obtain ⟨data, rfl, hothers, hwritten⟩ := saveNodes_ok hkey hvalue
    (fun id => (s.nodeWeakRefs id).join) s.dirtyNodes
    (fun id node hmem => by
      obtain ⟨hjoin, written, _, hobject, _⟩ := hR.dirty_object hmem
      exact ⟨hjoin, written, hobject⟩) hsave
  have hone : data 1 = s.storage.data 1 := by
    apply hothers
    intro hmem
    obtain ⟨⟨id, node⟩, hentry, rfl⟩ := List.mem_map.mp hmem
    obtain ⟨-, k, fields, hnode, hid⟩ := hR.dirty _ _ hentry
    exact diskId_ne_one h (hR.named hnode) hid.symm
  exact
    { hR with
      holds := by
        intro k fields hnode
        have hholds := hR.holds hnode
        refine ⟨hholds.object, ?_⟩
        by_cases hmem : diskId ids k ∈ s.dirtyNodes.map Prod.fst
        · obtain ⟨⟨id, node⟩, hentry, hid⟩ := List.mem_map.mp hmem
          dsimp only at hid
          subst hid
          obtain ⟨hjoin, -⟩ := hR.dirty _ _ hentry
          obtain ⟨record, hrecord, hread⟩ :=
            hwritten _ hmem node _ hjoin (hholds.object node hjoin)
          exact ⟨record, hrecord, fun _ => hread⟩
        · obtain ⟨record, hrecord, hread⟩ := hholds.record
          refine ⟨record, (hothers _ hmem).trans hrecord, ?_⟩
          rintro (hnone | hclean)
          · exact hread (.inl hnone)
          · exact hread (.inr ⟨hmem, hclean.2⟩)
      dirty := by
        intro id node hmem
        cases hmem
      pointer := by
        obtain ⟨record, hrecord⟩ := hR.pointer
        exact ⟨record, hone.trans hrecord⟩
      root := by
        intro k hk
        obtain ⟨node, record, fields, hnode, hroot, hjoin, hrecord, hrest⟩ := hR.root k hk
        exact ⟨node, record, fields, hnode, hroot, hjoin, hone.trans hrecord, hrest⟩ }

/-- The fields of a new node. -/
def newFields (entries : List (K × V)) (childrenIds : List Nat) : TreeNode K V where
  parentId := 0
  entries := entries
  childrenIds := childrenIds

variable (keySerializer valueSerializer) in
/-- What `create` does where the storage hands out an id without a weak reference. -/
theorem create_run {id : UInt32} {rest : List UInt32} (hids : s.storage.ids = id :: rest)
    (hweak : s.nodeWeakRefs id = none) (entries : List (K × V)) (childrenIds : List UInt32)
    (written : DiskNode K V)
    (hfields : { parentId := 0, entries := entries, childrenIds := childrenIds } = written) :
  ∃ kept, Keeps
      { s with
        storage := { s.storage with ids := rest }
        objects := Function.update s.objects s.objectCount (some (id, written))
        objectCount := s.objectCount + 1 } kept id s.objectCount
    ∧ create keySerializer valueSerializer entries childrenIds s
      = match TreeDiskNodeSerializer.serialize keySerializer valueSerializer written with
        | .ok data => .ok s.objectCount
            { kept with
              storage :=
                { kept.storage with
                  data := Function.update kept.storage.data id (some data) } }
        | .error e => .error e kept
  := by
  obtain ⟨kept, hkeep, hkeeps⟩ := onNodeInitialized_eq
    (s :=
      { s with
        storage := { s.storage with ids := rest }
        objects := Function.update s.objects s.objectCount (some (id, written))
        objectCount := s.objectCount + 1 }) hweak s.objectCount
  refine ⟨kept, hkeeps, ?_⟩
  rw [create, EStateM.bind_apply_of_ok (recordAllocate_eq hids)]
  dsimp only
  rw [hfields, EStateM.bind_apply_of_ok (newObject_eq _ _ _), EStateM.bind_apply_of_ok hkeep]
  cases TreeDiskNodeSerializer.serialize keySerializer valueSerializer written with
  | ok data => rfl
  | error e => rfl

/-- A new node has a node object and a record with its fields. -/
theorem Mirrored.add (h : (0 :: 1 :: ids).Nodup) (hkey : keySerializer.Lawful)
    (hvalue : valueSerializer.Lawful)
    (hR : Mirrored keySerializer valueSerializer ids L W s t) {entries : List (K × V)}
    {childrenIds : List Nat} (hchildren : ∀ id ∈ childrenIds, id ≤ ids.length)
    (hcounter : t.idCounter ≤ ids.length) {kept : DiskNodeStore K V} {data : Bytes}
    (hdata : TreeDiskNodeSerializer.serialize keySerializer valueSerializer
      (onDisk ids (newFields entries childrenIds)) = .ok data)
    (hkeeps : Keeps
      { s with
        storage := { s.storage with ids := (0 :: ids).drop (t.idCounter + 1) }
        objects := Function.update s.objects s.objectCount
          (some (diskId ids t.idCounter, onDisk ids (newFields entries childrenIds)))
        objectCount := s.objectCount + 1 } kept (diskId ids t.idCounter) s.objectCount) :
  Mirrored keySerializer valueSerializer ids (L ∪ {t.idCounter}) W
    { kept with
      storage :=
        { kept.storage with
          data := Function.update kept.storage.data (diskId ids t.idCounter) (some data) } }
    { t with
      nodes := t.nodes.put t.idCounter (newFields entries childrenIds)
      idCounter := t.idCounter + 1 }
  := by
  have hids := hR.ids_eq.trans (drop_ids hcounter)
  have hkeptIds : kept.storage.ids = (0 :: ids).drop (t.idCounter + 1) :=
    congrArg NodeStorage.ids hkeeps.storage_eq
  have hkeptData : kept.storage.data = s.storage.data := by rw [hkeeps.storage_eq]
  have hjoin : (kept.nodeWeakRefs (diskId ids t.idCounter)).join = some s.objectCount :=
    (hkeeps.target _).trans (if_pos rfl)
  have hne : ∀ {k fields}, t.nodes k = some fields →
      k ≠ t.idCounter ∧ diskId ids k ≠ diskId ids t.idCounter := by
    intro k fields hnode
    have hlt := (hR.live hnode).2.1
    refine ⟨Nat.ne_of_lt hlt, fun heq => ?_⟩
    exact Nat.ne_of_lt hlt (diskId_injective h (hR.named hnode) hcounter heq)
  have hkept : ∀ {k fields}, t.nodes k = some fields →
      t.nodes.put t.idCounter (newFields entries childrenIds) k = some fields :=
    fun hnode => Heap.put_eq_some.mpr (.inr ⟨(hne hnode).1, hnode⟩)
  have hsame : ∀ {k fields}, t.nodes k = some fields →
      (kept.nodeWeakRefs (diskId ids k)).join = (s.nodeWeakRefs (diskId ids k)).join := by
    intro k fields hnode
    exact (hkeeps.target _).trans (if_neg (hne hnode).2)
  have hone : Function.update kept.storage.data (diskId ids t.idCounter) (some data) 1
      = s.storage.data 1 := by
    rw [Function.update_of_ne (Ne.symm (diskId_ne_one h hcounter)), hkeptData]
  exact
    { counter := ⟨Nat.succ_pos _, Nat.succ_le_succ hcounter⟩
      ids_eq := hkeptIds
      fresh := by
        intro id hid
        dsimp only at hid
        rw [hkeptIds] at hid
        have hid' : id ≠ diskId ids t.idCounter := by
          rintro rfl
          exact diskId_notMem h hcounter (Nat.lt_succ_self _) hid
        apply hkeeps.noWeakRef id hid'
        apply hR.fresh
        rw [hids]
        exact List.mem_cons_of_mem _ hid
      objects_none := by
        intro node hnode
        have hcount : kept.objectCount = s.objectCount + 1 := hkeeps.objectCount_eq
        dsimp only at hnode ⊢
        rw [hcount] at hnode
        rw [hkeeps.objects_eq]
        exact hR.objects_new_none _ hnode
      live := by
        intro k fields hnode
        rcases Heap.put_eq_some.mp hnode with ⟨rfl, rfl⟩ | ⟨-, hnode⟩
        · exact ⟨Nat.ne_of_gt hR.counter.1, Nat.lt_succ_self _, Nat.zero_le _, hchildren⟩
        · obtain ⟨hpos, hlt, hwithin⟩ := hR.live hnode
          exact ⟨hpos, Nat.lt_succ_of_lt hlt, hwithin⟩
      holds := by
        intro k fields hnode
        rcases Heap.put_eq_some.mp hnode with ⟨rfl, rfl⟩ | ⟨-, hnode⟩
        · refine ⟨?_, data, Function.update_self _ _ _, ?_⟩
          · intro node hjoin'
            dsimp only at hjoin' ⊢
            rw [hjoin] at hjoin'
            cases hjoin'
            rw [hkeeps.objects_eq]
            exact Function.update_self _ _ _
          · exact fun _ => TreeDiskNodeSerializer.deserialize_of_serialize hkey hvalue hdata
        · have hholds := hR.holds hnode
          refine hholds.congr (hsame hnode) ?_ ?_ ?_
          · intro node hjoin'
            have hlt := hR.object_lt (hholds.object _ hjoin')
            dsimp only
            rw [hkeeps.objects_eq]
            exact Function.update_of_ne (Nat.ne_of_lt hlt) _ _
          · dsimp only
            rw [Function.update_of_ne (hne hnode).2, hkeptData]
          · intro hclean hwaits
            dsimp only at hclean
            rw [hkeeps.dirtyNodes_eq] at hclean
            exact ⟨hclean, hwaits⟩
      dirty := by
        intro id node hmem
        dsimp only at hmem
        rw [hkeeps.dirtyNodes_eq] at hmem
        obtain ⟨hjoin', k, fields, hnode, rfl⟩ := hR.dirty id node hmem
        exact ⟨(hsame hnode).trans hjoin', k, fields, hkept hnode, rfl⟩
      pointer := by
        obtain ⟨pointer, hpointer⟩ := hR.pointer
        exact ⟨pointer, hone.trans hpointer⟩
      root := by
        intro k hk
        obtain ⟨node, pointer, fields, hnode, hroot, hjoin', hpointer, hrest⟩ := hR.root k hk
        exact ⟨node, pointer, fields, hkept hnode, hkeeps.rootNode_eq.trans hroot,
          (hsame hnode).trans hjoin', hone.trans hpointer, hrest⟩
      noRoot := fun hnone => hkeeps.rootNode_eq.trans (hR.noRoot hnone)
      atHand := by
        rintro k (hk | rfl)
        · obtain ⟨fields, node, hnode, hjoin'⟩ := hR.atHand k hk
          exact ⟨fields, node, hkept hnode, (hsame hnode).trans hjoin'⟩
        · exact ⟨_, s.objectCount, Function.update_self _ _ _, hjoin⟩ }

/-- Creating a node: the storage hands out no more ids, the node is not written, or it is at
hand from then on. -/
theorem Mirrored.create (h : (0 :: 1 :: ids).Nodup) (hkey : keySerializer.Lawful)
    (hvalue : valueSerializer.Lawful)
    (hR : Mirrored keySerializer valueSerializer ids L W s t) (entries : List (K × V))
    {childrenIds : List Nat} (hchildren : ∀ id ∈ childrenIds, id ≤ ids.length) :
  (∃ e s', TreeDiskNodeManager.create keySerializer valueSerializer entries
      (childrenIds.map (diskId ids)) s = .error e s' ∧ e.toTree = .invalidOperation)
    ∨ ∃ node s', TreeDiskNodeManager.create keySerializer valueSerializer entries
        (childrenIds.map (diskId ids)) s = .ok node s'
      ∧ Mirrored keySerializer valueSerializer ids (L ∪ {t.idCounter}) W s'
        { t with
          nodes := t.nodes.put t.idCounter (newFields entries childrenIds)
          idCounter := t.idCounter + 1 }
      ∧ (s'.nodeWeakRefs (diskId ids t.idCounter)).join = some node
      ∧ s'.objects node
        = some (diskId ids t.idCounter, onDisk ids (newFields entries childrenIds))
      ∧ t.idCounter ≤ ids.length ∧ s'.storage.data 1 = s.storage.data 1
  := by
  rcases Nat.lt_or_ge ids.length t.idCounter with hfull | hcounter
  · refine .inl ⟨.storageFull, s, ?_, rfl⟩
    have hids := hR.ids_eq
    rw [List.drop_eq_nil_of_le hfull] at hids
    have hallocate : recordAllocate s = .error .storageFull s := by
      rw [recordAllocate, EStateM.get_bind_apply, hids]
      rfl
    exact EStateM.bind_apply_of_error hallocate _
  · have hids := hR.ids_eq.trans (drop_ids hcounter)
    have hweak := hR.fresh (diskId ids t.idCounter) (hids ▸ List.mem_cons_self)
    obtain ⟨kept, hkeeps, hrun⟩ := create_run keySerializer valueSerializer hids hweak entries
      (childrenIds.map (diskId ids)) (onDisk ids (newFields entries childrenIds)) rfl
    cases hdata : TreeDiskNodeSerializer.serialize keySerializer valueSerializer
        (onDisk ids (newFields entries childrenIds)) with
    | error e =>
        rw [hdata] at hrun
        exact .inl ⟨e, kept, hrun, toTree_of_serialize hkey hvalue hdata⟩
    | ok data =>
        rw [hdata] at hrun
        refine .inr ⟨_, _, hrun, hR.add h hkey hvalue hchildren hcounter hdata hkeeps, ?_, ?_,
          hcounter, ?_⟩
        · exact (hkeeps.target _).trans (if_pos rfl)
        · dsimp only
          rw [hkeeps.objects_eq]
          exact Function.update_self _ _ _
        · dsimp only
          rw [Function.update_of_ne (Ne.symm (diskId_ne_one h hcounter)), hkeeps.storage_eq]

variable [LinearOrder K] (search : EntrySearch K V)

/-- Names are read as the ids in the record storage. -/
theorem map_ofNat_name (h : (0 :: 1 :: ids).Nodup) (childrenIds : List Nat) :
  (childrenIds.map (diskNaming h).name).map UInt32.ofNat = childrenIds.map (diskId ids)
  := by
  rw [List.map_map]
  congr 1
  funext id
  exact ofNat_name h id

omit [LinearOrder K] in
/-- A computation that fails in an operation of a tree. -/
theorem liftDisk_error {α : Type} {x : DiskM K V α} {e : DiskException}
    (hx : x s = .error e s') :
  liftDisk x s = .error e.toTree s'
  := by
  rw [liftDisk, hx]

/-- Creating a node. -/
theorem mirrors_create (h : (0 :: 1 :: ids).Nodup) (hkey : keySerializer.Lawful)
    (hvalue : valueSerializer.Lawful) (entries : List (K × V)) {childrenIds : List Nat}
    (hchildren : ∀ id ∈ childrenIds, (diskNaming h).Named id) :
  Mirrors (treeMirroring (· = .invalidOperation) (Mirrored keySerializer valueSerializer ids ∅ ∅))
    (Mirrored keySerializer valueSerializer ids L W)
    ((treeDiskNodeManager keySerializer valueSerializer search).create entries
      (childrenIds.map (diskNaming h).name))
    ((treeMemoryNodeManager 36 search).create entries childrenIds) (diskNaming h).name
    (fun node s t => Mirrored keySerializer valueSerializer ids (L ∪ {node}) W s t
      ∧ (diskNaming h).Named node)
  := by
  apply Mirrors.of_run
  intro s t hR
  have hmap := map_ofNat_name h childrenIds
  rcases hR.create h hkey hvalue entries hchildren with
    ⟨e, s', hcreate, he⟩ | ⟨node, s', hcreate, hR', -, hobject, hcounter, -⟩
  · refine .inl ⟨e.toTree, s', liftDisk_error ?_, he⟩
    rw [hmap]
    exact EStateM.bind_apply_of_error hcreate _
  · refine .inr (.inr ⟨t.idCounter, s', _, liftDisk_ok.mpr ?_, rfl, hR', hcounter⟩)
    rw [hmap]
    exact (EStateM.bind_apply_of_ok hcreate _).trans (idOf_eq hobject)

/-- Creating a new root node. -/
theorem mirrors_createNewRoot (h : (0 :: 1 :: ids).Nodup) (hkey : keySerializer.Lawful)
    (hvalue : valueSerializer.Lawful) (entry : K × V) {leftNodeId rightNodeId : Nat}
    (hleft : (diskNaming h).Named leftNodeId) (hright : (diskNaming h).Named rightNodeId) :
  Mirrors (treeMirroring (· = .invalidOperation) (Mirrored keySerializer valueSerializer ids ∅ ∅))
    (Mirrored keySerializer valueSerializer ids L W)
    ((treeDiskNodeManager keySerializer valueSerializer search).createNewRoot entry
      ((diskNaming h).name leftNodeId) ((diskNaming h).name rightNodeId))
    ((treeMemoryNodeManager 36 search).createNewRoot entry leftNodeId rightNodeId)
    (diskNaming h).name
    (fun node s t => Mirrored keySerializer valueSerializer ids (L ∪ {node}) W s t
      ∧ (diskNaming h).Named node)
  := by
  apply Mirrors.of_run
  intro s t hR
  have hchildren : ∀ id ∈ [leftNodeId, rightNodeId], id ≤ ids.length := by
    rw [List.forall_mem_cons, List.forall_mem_singleton]
    exact ⟨hleft, hright⟩
  have hmap : [UInt32.ofNat ((diskNaming h).name leftNodeId),
      UInt32.ofNat ((diskNaming h).name rightNodeId)]
        = [leftNodeId, rightNodeId].map (diskId ids) :=
    map_ofNat_name h [leftNodeId, rightNodeId]
  rcases hR.create h hkey hvalue [entry] hchildren with
    ⟨e, s', hcreate, he⟩ | ⟨node, s', hcreate, hR', hjoin, hobject, hcounter, -⟩
  · refine .inl ⟨e.toTree, s', liftDisk_error ?_, he⟩
    rw [TreeDiskNodeManager.createNewRoot, hmap, bind_assoc]
    exact EStateM.bind_apply_of_error hcreate _
  · obtain ⟨s'', hroot, hobjects, hR''⟩ :=
      hR'.makeRoot h (Function.update_self _ _ _) hjoin
    refine .inr (.inr ⟨t.idCounter, s'', _, liftDisk_ok.mpr ?_, rfl, hR'', hcounter⟩)
    rw [TreeDiskNodeManager.createNewRoot, hmap, bind_assoc,
      EStateM.bind_apply_of_ok hcreate, bind_assoc, EStateM.bind_apply_of_ok hroot]
    exact idOf_eq (hobjects ▸ hobject)

/-- The disk node manager mirrors the memory node manager as far as nodes that are there are
changed. -/
theorem writesAlike (h : (0 :: 1 :: ids).Nodup) {G : TreeException → Prop} :
  WritesAlike (diskNaming h) (2 ^ 32) G (Mirrored keySerializer valueSerializer ids ∅ ∅)
    (treeDiskNodeManager keySerializer valueSerializer search)
    (treeMemoryNodeManager 36 search)
    (Mirrored keySerializer valueSerializer ids)
  where
  reads := readsAlike search h
  waits := fun hW hR => hR.waits hW
  after := fun hR => hR.less (Set.empty_subset _)
  makeRoot := by
    intro L k W hk
    apply Mirrors.of_run
    intro s t hR
    obtain ⟨fields, node, hnode, hjoin⟩ := hR.atHand k hk
    obtain ⟨s', hroot, -, hR'⟩ := hR.makeRoot h hnode hjoin
    refine .inr (.inr ⟨(), s', _, liftDisk_ok.mpr ?_, rfl, hR'⟩)
    rw [EStateM.bind_apply_of_ok (target_eq (ofNat_name h k) hjoin), hroot]
  markAsChanged := by
    intro L k W hk
    apply Mirrors.of_run
    intro s t hR
    obtain ⟨fields, node, hnode, hjoin⟩ := hR.atHand k hk
    obtain ⟨dirtyNodes, hmark, hkeys, hdirty⟩ :=
      markAsChanged_eq ((hR.holds hnode).object node hjoin)
    refine .inr (.inr ⟨(), _, t, liftDisk_ok.mpr ?_, rfl, hR.mark hnode hjoin hkeys hdirty⟩)
    rw [EStateM.bind_apply_of_ok (target_eq (ofNat_name h k) hjoin), hmark]
  delete := by
    intro L k W hk
    apply Mirrors.of_run
    intro s t hR
    obtain ⟨fields, node, hnode, hjoin⟩ := hR.atHand k hk
    obtain ⟨data, hdata, -⟩ := (hR.holds hnode).record
    have hdelete := delete_run ((hR.holds hnode).object node hjoin) hdata
    refine .inr (.inr ⟨(), _, _, liftDisk_ok.mpr ?_, rfl, hR.delete h hnode hjoin⟩)
    rw [EStateM.bind_apply_of_ok (target_eq (ofNat_name h k) hjoin), hdelete]
  write := by
    intro L k fields W hk hfields
    apply Mirrors.of_run
    intro s t hR
    obtain ⟨old, node, hnode, hjoin⟩ := hR.atHand k hk
    refine .inr (.inr ⟨(), _, _, liftDisk_ok.mpr ?_, rfl, hR.write h hnode hjoin hfields⟩)
    rw [EStateM.bind_apply_of_ok (target_eq (ofNat_name h k) hjoin), setFields,
      EStateM.bind_apply_of_ok (object_eq ((hR.holds hnode).object node hjoin)), toDisk_named h]
    rfl

/-- The disk node manager mirrors the memory node manager. -/
theorem createsAlike (h : (0 :: 1 :: ids).Nodup) (hkey : keySerializer.Lawful)
    (hvalue : valueSerializer.Lawful) :
  CreatesAlike (diskNaming h) (2 ^ 32) (· = .invalidOperation)
    (Mirrored keySerializer valueSerializer ids ∅ ∅)
    (treeDiskNodeManager keySerializer valueSerializer search)
    (treeMemoryNodeManager 36 search)
    (Mirrored keySerializer valueSerializer ids)
  where
  toWritesAlike := writesAlike search h
  create := fun _ _ entries _ hchildren => mirrors_create search h hkey hvalue entries hchildren
  createNewRoot := fun _ _ entry _ _ hleft hright =>
    mirrors_createNewRoot search h hkey hvalue entry hleft hright
  saveChanges := by
    intro L
    apply Mirrors.of_run
    intro s t hR
    cases hrun : TreeDiskNodeManager.saveChanges keySerializer valueSerializer s with
    | ok _ s' =>
        exact .inr (.inr ⟨(), s', t, liftDisk_ok.mpr hrun, rfl,
          hR.saveChanges h hkey hvalue hrun⟩)
    | error e s' =>
        refine .inl ⟨e.toTree, s', liftDisk_error hrun, ?_⟩
        rw [TreeDiskNodeManager.saveChanges, EStateM.get_bind_apply] at hrun
        cases hsave : saveNodes keySerializer valueSerializer s.dirtyNodes s with
        | ok _ s₁ =>
            rw [EStateM.bind_apply_of_ok hsave] at hrun
            cases hrun
        | error e' s₁ =>
            rw [EStateM.bind_apply_of_error hsave] at hrun
            cases hrun
            exact toTree_of_saveNodes hkey hvalue s.dirtyNodes
              (fun _ _ hmem => (hR.dirty_object hmem).2) hsave

end Changing

end NodeCache

end Datatent.BTree
