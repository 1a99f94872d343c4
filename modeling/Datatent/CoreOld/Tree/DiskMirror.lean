import Datatent.CoreOld.Tree.DeletingAlike
import Datatent.CoreOld.Tree.Durability

/-!
# The disk node manager mirrors the memory node manager

The memory node manager counts the ids of its nodes up, and the record storage hands out ids in
an order of its own: the ids of one are names for those of the other. While the ids handed out are
different and no weak reference is left behind for one of them, the disk node manager holds under
these names what the memory node manager holds (`Mirrored`), whatever is collected, and looking
at nodes mirrors the same on the memory node manager.
-/

namespace Datatent.BTree

namespace NodeCache

/-! ### Ids -/

section Ids

/-- The id in the record storage of a node of the memory node manager. -/
def diskId (ids : List UInt32) (k : Nat) : UInt32 := ((0 :: ids)[k]?).getD 0

variable {ids : List UInt32}

/-- The ids in the record storage are those handed out, and none for no node. -/
theorem getElem?_diskId {k : Nat} (hk : k ≤ ids.length) :
  (0 :: ids)[k]? = some (diskId ids k)
  := by
  have hlt : k < (0 :: ids).length := Nat.lt_succ_of_le hk
  rw [diskId, List.getElem?_eq_getElem hlt, Option.getD_some]

/-- The ids that are handed out from one on. -/
theorem drop_ids {k : Nat} (hk : k ≤ ids.length) :
  (0 :: ids).drop k = diskId ids k :: (0 :: ids).drop (k + 1)
  := by
  have hlt : k < (0 :: ids).length := Nat.lt_succ_of_le hk
  have hget := getElem?_diskId hk
  rw [List.getElem?_eq_getElem hlt] at hget
  rw [List.drop_eq_getElem_cons hlt, Option.some_injective _ hget]

variable (h : (0 :: 1 :: ids).Nodup)

include h

/-- The ids handed out behind the first one are different. -/
theorem nodup_ids : (0 :: ids).Nodup
  := h.sublist (((List.Sublist.refl ids).cons 1).cons_cons 0)

/-- Nodes with different ids have different ids in the record storage. -/
theorem diskId_injective {j k : Nat} (hj : j ≤ ids.length) (hk : k ≤ ids.length)
    (heq : diskId ids j = diskId ids k) :
  j = k
  := by
  have hget := (getElem?_diskId hj).trans ((congrArg some heq).trans (getElem?_diskId hk).symm)
  exact (List.getElem?_inj (Nat.lt_succ_of_le hj) (nodup_ids h)).mp hget

/-- The first record is not one of a node. -/
theorem diskId_ne_one {k : Nat} (hk : k ≤ ids.length) :
  diskId ids k ≠ 1
  := by
  intro hone
  have hmem := List.mem_of_getElem? (getElem?_diskId hk)
  rw [hone] at hmem
  rw [List.nodup_cons, List.nodup_cons] at h
  rcases List.mem_cons.mp hmem with heq | hmem
  · cases heq
  · exact h.2.1 hmem

/-- The id of a node is not one that will be handed out. -/
theorem diskId_notMem {j k : Nat} (hk : k ≤ ids.length) (hkj : k < j) :
  diskId ids k ∉ (0 :: ids).drop j
  := by
  intro hmem
  obtain ⟨i, hi⟩ := List.mem_iff_getElem?.mp hmem
  rw [List.getElem?_drop] at hi
  have hlt := (List.getElem?_eq_some_iff.mp hi).1
  have heq := (List.getElem?_inj hlt (nodup_ids h)).mp (hi.trans (getElem?_diskId hk).symm)
  omega

/-- There are at most as many ids as numbers. -/
theorem length_ids_le : (0 :: ids).length ≤ 2 ^ 32
  := by
  have hnodup : ((0 :: ids).map UInt32.toNat).Nodup :=
    (nodup_ids h).map (fun _ _ => UInt32.toNat_inj.mp)
  have hsub : (0 :: ids).map UInt32.toNat ⊆ List.range (2 ^ 32) := by
    intro n hn
    obtain ⟨id, -, rfl⟩ := List.mem_map.mp hn
    exact List.mem_range.mpr (UInt32.toNat_lt id)
  have hle := (List.subperm_of_subset hnodup hsub).length_le
  rwa [List.length_map, List.length_range] at hle

/-- The ids of nodes in the record storage as names. -/
def diskNaming : Naming where
  name k := (diskId ids k).toNat
  Named k := k ≤ ids.length
  named_zero := Nat.zero_le _
  name_zero := rfl
  injective hj hk heq := diskId_injective h hj hk (UInt32.toNat_inj.mp heq)

/-- The id that a name is read as. -/
theorem ofNat_name (k : Nat) :
  UInt32.ofNat ((diskNaming h).name k) = diskId ids k
  := UInt32.ofNat_toNat

end Ids

/-! ### Managers with the same nodes -/

section Managers

variable {K V : Type}

/-- The fields in the record storage of a node of the memory node manager. -/
def onDisk (ids : List UInt32) (fields : TreeNode K V) : DiskNode K V where
  parentId := diskId ids fields.parentId
  entries := fields.entries
  childrenIds := fields.childrenIds.map (diskId ids)

/-- The fields are read as those under the names. -/
theorem toTree_onDisk {ids : List UInt32} (h : (0 :: 1 :: ids).Nodup) (fields : TreeNode K V) :
  (onDisk ids fields).toTree = fields.named (diskNaming h).name
  := by
  rw [onDisk, DiskNode.toTree, TreeNode.named, List.map_map]
  rfl

/-- The fields under the names are written as they are in the record storage. -/
theorem toDisk_named {ids : List UInt32} (h : (0 :: 1 :: ids).Nodup) (fields : TreeNode K V) :
  (fields.named (diskNaming h).name).toDisk = onDisk ids fields
  := by
  rw [onDisk, TreeNode.toDisk, TreeNode.named, List.map_map, ofNat_name]
  congr 2
  funext k
  exact ofNat_name h k

variable (keySerializer : ISerializer K) (valueSerializer : ISerializer V)

/-- The disk node manager holds a node: its node object has the fields, and so has its record,
unless the node has an object and is dirty or waits to be marked. -/
structure HoldsFields (s : DiskNodeStore K V) (id : UInt32) (waits : Prop)
    (fields : DiskNode K V) : Prop where
  object : ∀ node, (s.nodeWeakRefs id).join = some node → s.objects node = some (id, fields)
  record : ∃ data, s.storage.data id = some data
    ∧ ((s.nodeWeakRefs id).join = none ∨ id ∉ s.dirtyNodes.map Prod.fst ∧ ¬ waits →
      TreeDiskNodeSerializer.deserialize keySerializer valueSerializer data = .ok fields)

/-- The disk node manager holds the nodes of the memory node manager, of which some are at hand,
so that they have node objects, and some wait to be marked. -/
structure Mirrored (ids : List UInt32) (L W : Set Nat) (s : DiskNodeStore K V)
    (t : NodeStore K V) : Prop where
  counter : 0 < t.idCounter ∧ t.idCounter ≤ ids.length + 1
  ids_eq : s.storage.ids = (0 :: ids).drop t.idCounter
  fresh : ∀ id ∈ s.storage.ids, s.nodeWeakRefs id = none
  objects_none : ∀ node, s.objectCount ≤ node → s.objects node = none
  live : ∀ {k fields}, t.nodes k = some fields → k ≠ 0 ∧ k < t.idCounter
    ∧ fields.Within (· ≤ ids.length)
  holds : ∀ {k fields}, t.nodes k = some fields →
    HoldsFields keySerializer valueSerializer s (diskId ids k) (k ∈ W) (onDisk ids fields)
  dirty : ∀ id node, (id, node) ∈ s.dirtyNodes → (s.nodeWeakRefs id).join = some node
    ∧ ∃ k fields, t.nodes k = some fields ∧ id = diskId ids k
  pointer : ∃ data, s.storage.data 1 = some data
  root : ∀ k ∈ t.rootNode, ∃ node data fields, t.nodes k = some fields
    ∧ s.rootNode = some node ∧ (s.nodeWeakRefs (diskId ids k)).join = some node
    ∧ s.storage.data 1 = some data ∧ data.length = 4 ∧ rootId data = diskId ids k
  noRoot : t.rootNode = none → s.rootNode = none
  atHand : ∀ k ∈ L, ∃ fields node, t.nodes k = some fields
    ∧ (s.nodeWeakRefs (diskId ids k)).join = some node

end Managers

section Relation

variable {K V : Type} {keySerializer : ISerializer K} {valueSerializer : ISerializer V}
  {s s' : DiskNodeStore K V} {t : NodeStore K V} {ids : List UInt32} {L L' W W' : Set Nat}

/-- A node is held as before where nothing changes for its id. -/
theorem HoldsFields.congr {id : UInt32} {waits waits' : Prop} {fields : DiskNode K V}
    (h : HoldsFields keySerializer valueSerializer s id waits fields)
    (hjoin : (s'.nodeWeakRefs id).join = (s.nodeWeakRefs id).join)
    (hobject : ∀ node, (s.nodeWeakRefs id).join = some node → s'.objects node = s.objects node)
    (hdata : s'.storage.data id = s.storage.data id)
    (hclean : id ∉ s'.dirtyNodes.map Prod.fst → ¬ waits' →
      id ∉ s.dirtyNodes.map Prod.fst ∧ ¬ waits) :
  HoldsFields keySerializer valueSerializer s' id waits' fields
  where
  object := by
    intro node hnode
    rw [hjoin] at hnode
    rw [hobject node hnode, h.object node hnode]
  record := by
    obtain ⟨data, hrecord, hread⟩ := h.record
    refine ⟨data, hdata.trans hrecord, ?_⟩
    rintro (hnone | hnot)
    · exact hread (.inl (hjoin.symm.trans hnone))
    · exact hread (.inr (hclean hnot.1 hnot.2))

/-- Fewer nodes are at hand. -/
theorem Mirrored.less (hR : Mirrored keySerializer valueSerializer ids L' W s t) (hL : L ⊆ L') :
  Mirrored keySerializer valueSerializer ids L W s t
  := { hR with atHand := fun k hk => hR.atHand k (hL hk) }

/-- More nodes wait. -/
theorem Mirrored.waits (hR : Mirrored keySerializer valueSerializer ids L W s t)
    (hW : W ⊆ W') :
  Mirrored keySerializer valueSerializer ids L W' s t
  :=
    { hR with
      holds := fun hnode => (hR.holds hnode).congr rfl (fun _ _ => rfl) rfl
        (fun hdirty hwaits => ⟨hdirty, fun hk => hwaits (hW hk)⟩) }

/-- A node with a node object is at hand. -/
theorem Mirrored.hand (hR : Mirrored keySerializer valueSerializer ids L W s t) {k node : Nat}
    {fields : TreeNode K V} (hnode : t.nodes k = some fields)
    (hjoin : (s.nodeWeakRefs (diskId ids k)).join = some node) :
  Mirrored keySerializer valueSerializer ids (L ∪ {k}) W s t
  :=
    { hR with
      atHand := by
        rintro k' (hk' | rfl)
        · exact hR.atHand k' hk'
        · exact ⟨fields, node, hnode, hjoin⟩ }

/-- A node object that has fields was created. -/
theorem Mirrored.object_lt (hR : Mirrored keySerializer valueSerializer ids L W s t) {node : Nat}
    {entry : UInt32 × DiskNode K V} (hobject : s.objects node = some entry) :
  node < s.objectCount
  := by
  by_contra hlt
  rw [hR.objects_none node (Nat.le_of_not_lt hlt)] at hobject
  cases hobject

/-- No node object behind a new one was created. -/
theorem Mirrored.objects_new_none (hR : Mirrored keySerializer valueSerializer ids L W s t)
    (entry : UInt32 × DiskNode K V) {node : Nat} (hnode : s.objectCount + 1 ≤ node) :
  Function.update s.objects s.objectCount (some entry) node = none
  := by
  rw [Function.update_of_ne (by omega)]
  exact hR.objects_none node (by omega)

variable (h : (0 :: 1 :: ids).Nodup)

/-- The id of a node has a name. -/
theorem Mirrored.named (hR : Mirrored keySerializer valueSerializer ids L W s t) {k : Nat}
    {fields : TreeNode K V} (hnode : t.nodes k = some fields) :
  k ≤ ids.length
  := Nat.le_of_lt_succ (Nat.lt_of_lt_of_le (hR.live hnode).2.1 hR.counter.2)

include h

/-- The id of a node is not one that will be handed out. -/
theorem Mirrored.notMem (hR : Mirrored keySerializer valueSerializer ids L W s t) {k : Nat}
    {fields : TreeNode K V} (hnode : t.nodes k = some fields) :
  diskId ids k ∉ s.storage.ids
  := by
  rw [hR.ids_eq]
  exact diskId_notMem h (hR.named hnode) (hR.live hnode).2.1

/-- Nodes with the same id in the record storage are the same node. -/
theorem Mirrored.id_inj (hR : Mirrored keySerializer valueSerializer ids L W s t) {j k : Nat}
    {fields fields' : TreeNode K V} (hj : t.nodes j = some fields)
    (hk : t.nodes k = some fields') (heq : diskId ids j = diskId ids k) :
  j = k
  := diskId_injective h (hR.named hj) (hR.named hk) heq

/-- Nodes with the same node object are the same node. -/
theorem Mirrored.target_inj (hR : Mirrored keySerializer valueSerializer ids L W s t)
    {j k node : Nat} {fields fields' : TreeNode K V} (hj : t.nodes j = some fields)
    (hk : t.nodes k = some fields')
    (hjoin : (s.nodeWeakRefs (diskId ids j)).join = some node)
    (hjoin' : (s.nodeWeakRefs (diskId ids k)).join = some node) :
  j = k
  := by
  have hobject := (hR.holds hj).object node hjoin
  rw [(hR.holds hk).object node hjoin'] at hobject
  exact hR.id_inj h hj hk (congrArg Prod.fst (Option.some_injective _ hobject)).symm

end Relation

/-! ### Looking at nodes -/

section Looking

open TreeDiskNodeManager

variable {K V : Type} {keySerializer : ISerializer K} {valueSerializer : ISerializer V}
  {s s' : DiskNodeStore K V} {t : NodeStore K V} {ids : List UInt32} {L W : Set Nat}
  {id : UInt32} {node : Nat} {fields : DiskNode K V}

/-- The id of a node object. -/
theorem idOf_eq (hobject : s.objects node = some (id, fields)) :
  idOf node s = .ok id.toNat s
  := by
  rw [idOf, EStateM.bind_apply_of_ok (object_eq hobject)]
  rfl

/-- The id of a node object that is there. -/
theorem idOf?_eq (hobject : s.objects node = some (id, fields)) :
  idOf? (some node) s = .ok (some id.toNat) s
  := by
  rw [idOf?, map_eq_pure_bind, EStateM.bind_apply_of_ok (idOf_eq hobject)]
  rfl

/-- The node object of a node. -/
theorem target_eq {n : Nat} (hid : UInt32.ofNat n = id)
    (hjoin : (s.nodeWeakRefs id).join = some node) :
  TreeDiskNodeManager.target n s = .ok node s
  := by
  rw [TreeDiskNodeManager.target, EStateM.get_bind_apply, hid, Option.join_eq_some_iff.mp hjoin]
  rfl

/-- A node without a node object gets one with the fields in its record. -/
theorem Mirrored.load (h : (0 :: 1 :: ids).Nodup)
    (hR : Mirrored keySerializer valueSerializer ids L W s t) {k : Nat} {old : TreeNode K V}
    (hnode : t.nodes k = some old) (hjoin : (s.nodeWeakRefs (diskId ids k)).join = none)
    (hkeeps : Keeps
      { s with
        nodeWeakRefs := Function.update s.nodeWeakRefs (diskId ids k) none
        objects := Function.update s.objects s.objectCount
          (some (diskId ids k, onDisk ids old))
        objectCount := s.objectCount + 1 } s' (diskId ids k) s.objectCount) :
  Mirrored keySerializer valueSerializer ids (L ∪ {k}) W s' t
  := by
  have htarget : ∀ id', (s'.nodeWeakRefs id').join
      = if id' = diskId ids k then some s.objectCount else (s.nodeWeakRefs id').join := by
    intro id'
    rw [hkeeps.target id']
    dsimp only
    split
    · rfl
    · rename_i heq
      rw [Function.update_of_ne heq]
  have hsame : ∀ id' node', (s.nodeWeakRefs id').join = some node' →
      (s'.nodeWeakRefs id').join = some node' := by
    intro id' node' hjoin'
    rw [htarget, if_neg, hjoin']
    rintro rfl
    rw [hjoin] at hjoin'
    cases hjoin'
  have hstorage : s'.storage = s.storage := hkeeps.storage_eq
  have hdirty : s'.dirtyNodes = s.dirtyNodes := hkeeps.dirtyNodes_eq
  have hroot : s'.rootNode = s.rootNode := hkeeps.rootNode_eq
  exact
    { counter := hR.counter
      ids_eq := hstorage ▸ hR.ids_eq
      fresh := by
        intro id' hid'
        rw [hstorage] at hid'
        have hne : id' ≠ diskId ids k := by
          rintro rfl
          exact hR.notMem h hnode hid'
        apply hkeeps.noWeakRef id' hne
        dsimp only
        rw [Function.update_of_ne hne]
        exact hR.fresh id' hid'
      objects_none := by
        intro node' hnode'
        have hcount : s'.objectCount = s.objectCount + 1 := hkeeps.objectCount_eq
        rw [hcount] at hnode'
        rw [hkeeps.objects_eq]
        exact hR.objects_new_none _ hnode'
      live := hR.live
      holds := by
        intro k' fields' hnode'
        by_cases heq : k' = k
        · subst heq
          rw [hnode] at hnode'
          cases hnode'
          obtain ⟨data, hdata, hread⟩ := (hR.holds hnode).record
          exact
            { object := by
                intro node' hnode'
                rw [htarget, if_pos rfl] at hnode'
                cases hnode'
                rw [hkeeps.objects_eq]
                exact Function.update_self _ _ _
              record := ⟨data, hstorage ▸ hdata, fun _ => hread (.inl hjoin)⟩ }
        · have hholds := hR.holds hnode'
          apply hholds.congr
          · rw [htarget, if_neg (fun hid => heq (hR.id_inj h hnode' hnode hid))]
          · intro node' hjoin'
            rw [hkeeps.objects_eq]
            have hlt := hR.object_lt (hholds.object node' hjoin')
            exact Function.update_of_ne (Nat.ne_of_lt hlt) _ _
          · rw [hstorage]
          · intro hclean hwaits
            exact ⟨hdirty ▸ hclean, hwaits⟩
      dirty := by
        intro id' node' hmem
        rw [hdirty] at hmem
        obtain ⟨hjoin', hlive⟩ := hR.dirty id' node' hmem
        exact ⟨hsame id' node' hjoin', hlive⟩
      pointer := hstorage ▸ hR.pointer
      root := by
        intro k' hk'
        obtain ⟨node', data, fields', hnode', hroot', hjoin', hdata⟩ := hR.root k' hk'
        exact ⟨node', data, fields', hnode', hroot.trans hroot', hsame _ _ hjoin',
          hstorage ▸ hdata⟩
      noRoot := fun hnone => hroot.trans (hR.noRoot hnone)
      atHand := by
        rintro k' (hk' | rfl)
        · obtain ⟨fields', node', hnode', hjoin'⟩ := hR.atHand k' hk'
          exact ⟨fields', node', hnode', hsame _ _ hjoin'⟩
        · exact ⟨old, s.objectCount, hnode, (htarget _).trans (if_pos rfl)⟩ }

variable [LinearOrder K] (search : EntrySearch K V) {G : TreeException → Prop}

/-- The root node is found under its name. -/
theorem mirrors_rootNode (h : (0 :: 1 :: ids).Nodup) :
  Mirrors (treeMirroring G (Mirrored keySerializer valueSerializer ids ∅ ∅))
    (Mirrored keySerializer valueSerializer ids L W)
    (treeDiskNodeManager keySerializer valueSerializer search).rootNode
    (treeMemoryNodeManager 36 search).rootNode (Option.map (diskNaming h).name)
    (fun root s t => Mirrored keySerializer valueSerializer ids
      (L ∪ {node | root = some node}) W s t ∧ ∀ node ∈ root, (diskNaming h).Named node)
  := by
  apply Mirrors.of_run
  intro s t hR
  refine .inr (.inr ⟨t.rootNode, s, t, ?_, rfl, ?_⟩)
  · apply liftDisk_ok.mpr
    rw [EStateM.get_bind_apply]
    cases hroot : t.rootNode with
    | none =>
        rw [hR.noRoot hroot]
        rfl
    | some k =>
        obtain ⟨node, data, fields, hnode, hroot', hjoin, -⟩ := hR.root k hroot
        rw [hroot', idOf?_eq ((hR.holds hnode).object node hjoin)]
        rfl
  · constructor
    · refine
        { hR with
          atHand := ?_ }
      rintro k (hk | hk)
      · exact hR.atHand k hk
      · obtain ⟨node, data, fields, hnode, -, hjoin, -⟩ := hR.root k hk
        exact ⟨fields, node, hnode, hjoin⟩
    · intro k hk
      obtain ⟨node, data, fields, hnode, -⟩ := hR.root k hk
      exact hR.named hnode

/-- A node is found under its name: its node object, or one that is made from its record. -/
theorem mirrors_find (h : (0 :: 1 :: ids).Nodup) (k : Nat) :
  Mirrors (treeMirroring G (Mirrored keySerializer valueSerializer ids ∅ ∅))
    (Mirrored keySerializer valueSerializer ids L W)
    ((treeDiskNodeManager keySerializer valueSerializer search).find ((diskNaming h).name k))
    ((treeMemoryNodeManager 36 search).find k) (Option.map (diskNaming h).name)
    (fun found s t => Mirrored keySerializer valueSerializer ids
      (L ∪ {node | found = some node}) W s t ∧ ∀ node ∈ found, (diskNaming h).Named node)
  := by
  apply Mirrors.of_run
  intro s t hR
  cases hnode : t.nodes k with
  | none =>
      have hfind : (treeMemoryNodeManager 36 search).find k t = .error .nodeNotFound t := by
        change TreeMemoryNodeManager.find k t = _
        rw [TreeMemoryNodeManager.find, EStateM.get_bind_apply, hnode]
        rfl
      have hne : TreeException.nodeNotFound ≠ .keyExists := by decide
      exact .inr (.inl ⟨_, _, hfind, hne⟩)
  | some fields =>
      have hfind : (treeMemoryNodeManager 36 search).find k t = .ok (some k) t := by
        change TreeMemoryNodeManager.find k t = _
        rw [TreeMemoryNodeManager.find, EStateM.get_bind_apply, hnode]
        rfl
      have hholds := hR.holds hnode
      have hset : ({node | some k = some node} : Set Nat) = {k} := by
        ext node
        exact ⟨fun heq => (Option.some_injective _ heq).symm, fun heq => congrArg some heq.symm⟩
      have hnamed : ∀ node ∈ some k, (diskNaming h).Named node := by
        rintro _ ⟨⟩
        exact hR.named hnode
      cases hjoin : (s.nodeWeakRefs (diskId ids k)).join with
      | some node =>
          refine .inr (.inr ⟨some k, s, t, ?_, hfind, ?_, hnamed⟩)
          · apply liftDisk_ok.mpr
            have hdisk : TreeDiskNodeManager.find keySerializer valueSerializer (diskId ids k) s
                = .ok (some node) s := by
              rw [TreeDiskNodeManager.find, EStateM.get_bind_apply,
                Option.join_eq_some_iff.mp hjoin]
              rfl
            rw [ofNat_name, EStateM.bind_apply_of_ok hdisk, idOf?_eq (hholds.object node hjoin)]
            rfl
          · rw [hset]
            exact hR.hand hnode hjoin
      | none =>
          obtain ⟨data, hdata, hread⟩ := hholds.record
          obtain ⟨kept, hload, hkeeps⟩ := load_some
            (s := { s with nodeWeakRefs := Function.update s.nodeWeakRefs (diskId ids k) none })
            hdata (hread (.inl hjoin)) (Function.update_self _ _ _)
          have hobject : kept.objects s.objectCount = some (diskId ids k, onDisk ids fields) := by
            rw [hkeeps.objects_eq]
            exact Function.update_self _ _ _
          refine .inr (.inr ⟨some k, kept, t, ?_, hfind, ?_, hnamed⟩)
          · apply liftDisk_ok.mpr
            rw [ofNat_name, EStateM.bind_apply_of_ok ((find_eq_load hjoin).trans hload),
              idOf?_eq hobject]
            rfl
          · rw [hset]
            exact hR.load h hnode hjoin hkeeps

/-- The fields of a node at hand are read under the names. -/
theorem mirrors_read (h : (0 :: 1 :: ids).Nodup) {k : Nat} (hk : k ∈ L) :
  Mirrors (treeMirroring G (Mirrored keySerializer valueSerializer ids ∅ ∅))
    (Mirrored keySerializer valueSerializer ids L W)
    ((treeDiskNodeManager keySerializer valueSerializer search).read ((diskNaming h).name k))
    ((treeMemoryNodeManager 36 search).read k) (TreeNode.named (diskNaming h).name)
    (fun fields s t => Mirrored keySerializer valueSerializer ids L W s t
      ∧ fields.Within (diskNaming h).Named)
  := by
  apply Mirrors.of_run
  intro s t hR
  obtain ⟨fields, node, hnode, hjoin⟩ := hR.atHand k hk
  refine .inr (.inr ⟨fields, s, t, ?_, ?_, hR, (hR.live hnode).2.2⟩)
  · apply liftDisk_ok.mpr
    rw [EStateM.bind_apply_of_ok (target_eq (ofNat_name h k) hjoin),
      EStateM.bind_apply_of_ok (object_eq ((hR.holds hnode).object node hjoin)),
      ← toTree_onDisk h fields]
    rfl
  · change TreeMemoryNodeManager.read k t = .ok fields t
    rw [TreeMemoryNodeManager.read, EStateM.get_bind_apply, hnode]
    rfl

/-- The disk node manager mirrors the memory node manager as far as nodes are looked at. -/
theorem readsAlike (h : (0 :: 1 :: ids).Nodup) (W : Set Nat) :
  ReadsAlike (diskNaming h) (2 ^ 32) G (Mirrored keySerializer valueSerializer ids ∅ ∅)
    (treeDiskNodeManager keySerializer valueSerializer search)
    (treeMemoryNodeManager 36 search)
    (fun L => Mirrored keySerializer valueSerializer ids L W)
  where
  minEntriesPerNode := rfl
  entrySearch := rfl
  less := fun hL hR => hR.less hL
  rootNode := fun _ => mirrors_rootNode search h
  find := fun _ id _ => mirrors_find search h id
  read := fun hk => mirrors_read search h hk
  steps := by
    intro L
    apply Mirrors.of_run
    intro s t hR
    have hle := hR.counter.2.trans (length_ids_le h)
    exact .inr (.inr ⟨t.idCounter, s, t, rfl, rfl, hR, hle⟩)

end Looking

end NodeCache

end Datatent.BTree
