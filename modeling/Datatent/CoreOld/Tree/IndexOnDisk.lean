import Datatent.CoreOld.Tree.DiskMirrorWriting
import Datatent.CoreOld.Tree.Enumerating
import Datatent.CoreOld.Tree.Duplicates

/-!
# The index on disk

A tree without duplicate keys over the disk node manager is asked to insert, delete and get keys
and to enumerate ranges of keys, while node objects are collected between the requests, and it is
opened again by another manager over the same record storage when all changes are saved. Along
every run it answers as the list of its entries in order does, up to the first insertion that
gives up for lack of room.
-/

namespace Datatent.BTree

/-! ### Stored trees -/

section Stored

variable {K V : Type}

/-- No node of a tree is its own parent. -/
theorem parentId_ne :
  ∀ {n parentId : Nat} {t : UTree (K × V) n} {c : Nat × TreeNode K V}, t.ids.Nodup →
    parentId ∉ t.ids → c ∈ cells parentId t → c.2.parentId ≠ c.1
  | 0, _, t, _, _, _, _ => t.elim
  | n + 1, parentId, t, c, hnodup, hparent, hc => by
      rw [UTree.ids_eq, List.nodup_cons] at hnodup
      rw [UTree.ids_eq] at hparent
      rcases mem_cells.mp hc with rfl | ⟨d, hd, hc⟩
      · intro heq
        exact hparent (List.mem_cons.mpr (.inl heq))
      · have hids : d.ids ∈ t.children.map UTree.ids := List.mem_map_of_mem hd
        have hsub := List.sublist_flatten_of_mem hids
        exact parentId_ne (hnodup.2.sublist hsub) (fun hmem => hnodup.1 (hsub.subset hmem)) hc

variable [LinearOrder K] {m : Nat} {allow : Bool} {contents : List (K × V)}
  {store : NodeStore K V}

/-- In a state that stores a tree no node is listed as a child twice, or by itself. -/
theorem Stores.apart (hstore : Stores m allow contents store) :
  Apart store.childrenOf
  := by
  obtain ⟨-, h, next, t, -, -, hat⟩ := hstore
  constructor
  · intro id
    rw [NodeStore.childrenOf]
    cases hnode : store.nodes id with
    | none => exact List.nodup_nil
    | some node => exact childrenIds_nodup hat.ids_nodup (hat.mem_cells.mp hnode)
  · intro id id' childId hchild hchild'
    obtain ⟨child, hnode, rfl⟩ := hat.exists_child hchild
    obtain ⟨child', hnode', rfl⟩ := hat.exists_child hchild'
    rw [hnode, Option.some.injEq] at hnode'
    exact congrArg TreeNode.parentId hnode'
  · intro id hchild
    obtain ⟨child, hnode, hparent⟩ := hat.exists_child hchild
    have hzero : 0 ∉ t.ids := by
      intro hmem
      rw [← Multiset.mem_coe, ← ids_of_cells 0 t] at hmem
      obtain ⟨c, hc, hid⟩ := Multiset.mem_map.mp hmem
      have hmem' := (hat.holds.cell c.1 c.2).mp (hat.has c hc)
      exact absurd hid (Nat.ne_of_gt (hat.ids c hmem').1)
    exact parentId_ne hat.ids_nodup hzero (hat.mem_cells.mp hnode) hparent

/-- A state that stores a tree has a root node. -/
theorem Stores.exists_rootNode (hstore : Stores m allow contents store) :
  ∃ root, store.rootNode = some root
  := by
  obtain ⟨-, h, next, t, -, -, hat⟩ := hstore
  exact ⟨t.id, hat.rootNode⟩

end Stored

/-! ### Requests -/

section Requests

variable {K V : Type} [LinearOrder K]

/-- The ranges of a key that are enumerated. -/
inductive KeyRange where
  | largerThanOrEqualTo
  | largerThan
  | lessThanOrEqualTo
  | lessThan
deriving DecidableEq, Repr

/-- The enumeration of a range. -/
def KeyRange.scan {S : Type} (tree : Tree S K V) (key : K) (rounds : Nat) :
    KeyRange → TreeM S (List (K × V))
  | .largerThanOrEqualTo => tree.enumerate .ascending (tree.largerThanOrEqualTo key) rounds
  | .largerThan => tree.enumerate .ascending (tree.largerThan key) rounds
  | .lessThanOrEqualTo => tree.enumerate .decending (tree.lessThanOrEqualTo key) rounds
  | .lessThan => tree.enumerate .decending (tree.lessThan key) rounds

/-- The entries of a range, in the order of its enumeration. -/
def KeyRange.entries (key : K) (entries : List (K × V)) : KeyRange → List (K × V)
  | .largerThanOrEqualTo => entries.filter (fun e => key ≤ e.1)
  | .largerThan => entries.filter (fun e => key < e.1)
  | .lessThanOrEqualTo => (entries.filter (fun e => e.1 ≤ key)).reverse
  | .lessThan => (entries.filter (fun e => e.1 < key)).reverse

/-- What is asked of an index: an operation, or the entries of a range of a key; between these a
node object may be collected, and the index may be opened again by another manager. -/
inductive IndexRequest (K V : Type) where
  | perform (operation : Operation K V)
  | scan (range : KeyRange) (key : K) (rounds : Nat)
  | collect (node : Nat)
  | reopen
deriving DecidableEq, Repr

/-- What a request comes to. -/
inductive IndexAnswer (K V : Type) where
  | outcome (outcome : Outcome K V)
  | scanned (entries : List (K × V))
  | done
  | failed (exception : DiskException)
deriving DecidableEq, Repr

/-- A request to the entries themselves, which are in the order of their keys. -/
def entriesStep (entries : List (K × V)) :
    IndexRequest K V → IndexAnswer K V × List (K × V)
  | .perform (.insert key value) =>
      if entries.any (fun e => e.1 = key) then (.outcome (.thrown .keyExists), entries)
      else
        (.outcome .inserted,
          entries.filter (fun e => e.1 < key)
            ++ (key, value) :: entries.filter (fun e => key < e.1))
  | .perform (.delete key) =>
      (.outcome (.deleted (entries.any (fun e => e.1 = key))), entries.filter (fun e => e.1 ≠ key))
  | .perform (.get key) => (.outcome (.got (entries.find? (fun e => e.1 = key))), entries)
  | .scan range key _ => (.scanned (range.entries key entries), entries)
  | .collect _ => (.done, entries)
  | .reopen => (.done, entries)

/-- The exceptions that an operation may give up with for lack of room. -/
def Operation.GivesUp : Operation K V → TreeException → Prop
  | .insert _ _ => (· = .invalidOperation)
  | .delete _ => fun _ => False
  | .get _ => fun _ => False

/-! ### Entries in order -/

section Entries

variable {before after : List (K × V)}

/-- An entry with a new key stands between the entries with lower keys and those with higher
keys. -/
theorem InOrder.insert_eq {key : K} {value : V}
    (h : InOrder false (before ++ (key, value) :: after)) :
  (before ++ after).filter (fun e => e.1 < key)
      ++ (key, value) :: (before ++ after).filter (fun e => key < e.1)
    = before ++ (key, value) :: after
  := by
  rw [InOrder, List.pairwise_append, List.pairwise_cons] at h
  obtain ⟨-, ⟨hafter, -⟩, hcross⟩ := h
  have hbefore : ∀ e ∈ before, e.1 < key := fun e he => hcross e he _ List.mem_cons_self
  have hafter' : ∀ e ∈ after, key < e.1 := hafter
  obtain ⟨hleft, hright⟩ := filter_sides hbefore hafter' (fun _ => lt_asymm)
  rw [hleft, hright]

/-- Without the entry with a key, which is the only one with this key. -/
theorem InOrder.filter_ne {e : K × V} (h : InOrder false (before ++ e :: after)) :
  (before ++ e :: after).filter (fun e' => e'.1 ≠ e.1) = before ++ after
  := by
  rw [InOrder, List.pairwise_append, List.pairwise_cons] at h
  obtain ⟨-, ⟨hafter, -⟩, hcross⟩ := h
  have hbefore : ∀ e' ∈ before, e'.1 ≠ e.1 :=
    fun e' he' => ne_of_lt (α := K) (hcross e' he' e List.mem_cons_self)
  have hafter' : ∀ e' ∈ after, e'.1 ≠ e.1 :=
    fun e' he' => ne_of_gt (α := K) (hafter e' he')
  rw [List.filter_append, List.filter_cons_of_neg, List.filter_eq_self.mpr,
    List.filter_eq_self.mpr]
  · intro e' he'
    exact decide_eq_true (hafter' e' he')
  · intro e' he'
    exact decide_eq_true (hbefore e' he')
  · simp

/-- In strict order the entry with a key that is found first is the only one. -/
theorem InOrder.find?_eq_some_iff {entries : List (K × V)} (h : InOrder false entries) {key : K}
    {e : K × V} :
  entries.find? (fun e' => e'.1 = key) = some e ↔ e ∈ entries ∧ e.1 = key
  := by
  constructor
  · intro hfind
    have hkey := List.find?_some hfind
    rw [decide_eq_true_eq] at hkey
    exact ⟨List.mem_of_find?_eq_some hfind, hkey⟩
  · rintro ⟨hmem, rfl⟩
    cases hfind : entries.find? (fun e' => e'.1 = e.1) with
    | none =>
        rw [List.find?_eq_none] at hfind
        exact absurd (decide_eq_true rfl) (hfind e hmem)
    | some e' =>
        have hkey := List.find?_some hfind
        rw [decide_eq_true_eq] at hkey
        rw [InOrder.eq_of_key h (List.mem_of_find?_eq_some hfind) hmem hkey]

end Entries

/-! ### Requests to a memory node manager -/

section Memory

variable {m : Nat} {entries : List (K × V)} {t : NodeStore K V}

/-- An operation on a tree in memory comes to what it comes to on its entries. -/
theorem Stores.step (search : EntrySearch K V) (hm : 1 ≤ m) (hstore : Stores m false entries t)
    (operation : Operation K V) :
  IndexAnswer.outcome ((memoryTree m search false).step t operation).1
      = (entriesStep entries (.perform operation)).1
    ∧ Stores m false (entriesStep entries (.perform operation)).2
      ((memoryTree m search false).step t operation).2
  := by
  cases operation with
  | insert key value =>
      rw [entriesStep]
      by_cases hkey : entries.any (fun e => e.1 = key)
      · rw [if_pos hkey]
        have hpresent : ∃ e ∈ entries, e.1 = key := by simpa using hkey
        rw [step_insert_error (hstore.insert_present search value hm hpresent)]
        exact ⟨rfl, hstore⟩
      · rw [if_neg hkey]
        have hnew : ∀ e ∈ entries, e.1 ≠ key := by
          intro e he hsame
          exact hkey (List.any_eq_true.mpr ⟨e, he, decide_eq_true hsame⟩)
        obtain ⟨before, after, t', rfl, hok, hstore', -⟩ := hstore.insert_new search value hm hnew
        rw [step_insert_ok hok]
        refine ⟨rfl, ?_⟩
        dsimp only
        rw [InOrder.insert_eq hstore'.1]
        exact hstore'
  | delete key =>
      rw [entriesStep]
      rcases hstore.delete search hm key with
        ⟨before, e, after, t', rfl, rfl, hok, hstore', -⟩ | ⟨hkey, hok⟩
      · rw [step_delete_ok hok]
        refine ⟨?_, ?_⟩
        · simp
        · dsimp only
          rw [InOrder.filter_ne hstore.1]
          exact hstore'
      · rw [step_delete_ok hok]
        refine ⟨?_, ?_⟩
        · have hany : entries.any (fun e => e.1 = key) = false := by simpa using hkey
          rw [hany]
        · dsimp only
          rw [List.filter_eq_self.mpr]
          · exact hstore
          · intro e he
            exact decide_eq_true (hkey e he)
  | get key =>
      rw [entriesStep]
      obtain ⟨entry, hok, hentry⟩ := hstore.get search hm key
      rw [step_get_ok hok]
      refine ⟨?_, hstore⟩
      have hfound : entry = entries.find? (fun e => e.1 = key) := by
        apply Option.ext
        intro e
        rw [hentry, InOrder.find?_eq_some_iff hstore.1]
      rw [hfound]

/-- An enumeration of a tree in memory gives the entries of its range. -/
theorem Stores.scan (search : EntrySearch K V) (hm : 1 ≤ m) (hstore : Stores m false entries t)
    (range : KeyRange) (key : K) {rounds : Nat} (hrounds : entries.length < rounds) :
  range.scan (memoryTree m search false) key rounds t = .ok (range.entries key entries) t
  := by
  have hwalk := hstore.walk_eq
  rw [← hwalk] at hrounds ⊢
  obtain ⟨hlargerOrEqual, hlarger, hlessOrEqual, hless⟩ :=
    (hstore.isBTree hm).enumerate_ranges search m false key hrounds
  cases range with
  | largerThanOrEqualTo => exact hlargerOrEqual
  | largerThan => exact hlarger
  | lessThanOrEqualTo => exact hlessOrEqual
  | lessThan => exact hless

end Memory

/-- On the entries only the key of an insertion that is there is thrown. -/
theorem thrown_entriesStep {entries : List (K × V)} {operation : Operation K V}
    {e : TreeException}
    (h : (entriesStep entries (.perform operation)).1 = .outcome (.thrown e)) :
  e = .keyExists
  := by
  cases operation with
  | insert key value =>
      rw [entriesStep] at h
      split at h
      · cases h
        rfl
      · cases h
  | delete key => cases h
  | get key => cases h

end Requests

namespace NodeCache

/-! ### Between the operations -/

section Between

open TreeDiskNodeManager

variable {K V : Type} {keySerializer : ISerializer K} {valueSerializer : ISerializer V}
  {s : DiskNodeStore K V} {t : NodeStore K V} {ids : List UInt32} {L W : Set Nat} {k node : Nat}

/-- A node object that the manager does not refer to is collected. -/
theorem Mirrored.collect (hR : Mirrored keySerializer valueSerializer ids ∅ ∅ s t)
    (hfree : ¬ Referenced s node) :
  Mirrored keySerializer valueSerializer ids ∅ ∅
    { s with
      nodeWeakRefs := fun id =>
        if s.nodeWeakRefs id = some (some node) then some none else s.nodeWeakRefs id } t
  := by
  have hjoin : ∀ id, (if s.nodeWeakRefs id = some (some node) then some none
      else s.nodeWeakRefs id).join
        = if (s.nodeWeakRefs id).join = some node then none else (s.nodeWeakRefs id).join := by
    intro id
    simp only [Option.join_eq_some_iff]
    split
    · rfl
    · rfl
  have hkept : ∀ {id node'}, (s.nodeWeakRefs id).join = some node' → node' ≠ node →
      (if s.nodeWeakRefs id = some (some node) then some none else s.nodeWeakRefs id).join
        = some node' := by
    intro id node' hnode' hne
    rw [hjoin, if_neg, hnode']
    rw [hnode']
    exact fun heq => hne (Option.some_injective _ heq)
  exact
    { hR with
      fresh := by
        intro id hid
        dsimp only
        rw [hR.fresh id hid]
        exact if_neg (fun heq => by cases heq)
      holds := by
        intro k fields hnode
        obtain ⟨hobject, data, hdata, hread⟩ := hR.holds hnode
        refine ⟨?_, data, hdata, ?_⟩
        · intro node' hnode'
          dsimp only at hnode'
          rw [hjoin] at hnode'
          split at hnode'
          · cases hnode'
          · exact hobject node' hnode'
        · rintro (hnone | hclean)
          · dsimp only at hnone
            rw [hjoin] at hnone
            split at hnone
            · rename_i heq
              refine hread (.inr ⟨fun hmem => ?_, Set.notMem_empty k⟩)
              obtain ⟨⟨id, node'⟩, hentry, rfl⟩ := List.mem_map.mp hmem
              have hnode' := (hR.dirty _ _ hentry).1
              rw [heq] at hnode'
              cases hnode'
              exact hfree (.inr (.inl (List.mem_map.mpr ⟨_, hentry, rfl⟩)))
            · exact hread (.inl hnone)
          · exact hread (.inr hclean)
      dirty := by
        intro id node' hmem
        obtain ⟨hnode', hlive⟩ := hR.dirty id node' hmem
        refine ⟨hkept hnode' ?_, hlive⟩
        rintro rfl
        exact hfree (.inr (.inl (List.mem_map.mpr ⟨_, hmem, rfl⟩)))
      root := by
        intro k hk
        obtain ⟨node', data, fields, hnode, hroot, hnode', hrest⟩ := hR.root k hk
        refine ⟨node', data, fields, hnode, hroot, hkept hnode' ?_, hrest⟩
        rintro rfl
        exact hfree (.inr (.inr hroot))
      atHand := by
        intro k hk
        cases hk }

/-- A manager over the records of a manager without dirty nodes, before it has a root node. -/
theorem Mirrored.over (hR : Mirrored keySerializer valueSerializer ids ∅ ∅ s t)
    (hclean : s.dirtyNodes = []) :
  Mirrored keySerializer valueSerializer ids ∅ ∅ (DiskNodeStore.over K V s.storage)
    { t with rootNode := none }
  where
  counter := hR.counter
  ids_eq := hR.ids_eq
  fresh := fun _ _ => rfl
  objects_none := fun _ _ => rfl
  live := hR.live
  holds := by
    intro k fields hnode
    obtain ⟨-, data, hdata, hread⟩ := hR.holds hnode
    refine ⟨?_, data, hdata, ?_⟩
    · intro node hnode
      cases hnode
    · intro _
      refine hread (.inr ⟨?_, Set.notMem_empty k⟩)
      rw [hclean]
      exact List.not_mem_nil
  dirty := by
    intro id node hmem
    cases hmem
  pointer := hR.pointer
  root := by
    intro k hk
    cases hk
  noRoot := fun _ => rfl
  atHand := by
    intro k hk
    cases hk

/-- The node that the first record refers to becomes the root node. -/
theorem Mirrored.setRoot {fields : TreeNode K V} {data : Bytes}
    (hR : Mirrored keySerializer valueSerializer ids L W s { t with rootNode := none })
    (hnode : t.nodes k = some fields)
    (hjoin : (s.nodeWeakRefs (diskId ids k)).join = some node)
    (hdata : s.storage.data 1 = some data) (hlength : data.length = 4)
    (hroot : rootId data = diskId ids k) :
  Mirrored keySerializer valueSerializer ids L W { s with rootNode := some node }
    { t with rootNode := some k }
  :=
    { hR with
      holds := fun hnode' => (hR.holds hnode').congr rfl (fun _ _ => rfl) rfl
        (fun hclean hwaits => ⟨hclean, hwaits⟩)
      root := by
        rintro _ ⟨⟩
        exact ⟨node, data, fields, hnode, rfl, hjoin, hdata, hlength, hroot⟩
      noRoot := by
        intro hnone
        cases hnone }

/-- A manager that is constructed over the same record storage holds the same nodes, when no
node is dirty. -/
theorem Mirrored.reopen (h : (0 :: 1 :: ids).Nodup)
    (hR : Mirrored keySerializer valueSerializer ids ∅ ∅ s t) (hclean : s.dirtyNodes = [])
    (hk : t.rootNode = some k) :
  ∃ s', openStorage keySerializer valueSerializer (DiskNodeStore.over K V s.storage) = .ok () s'
    ∧ Mirrored keySerializer valueSerializer ids ∅ ∅ s' t
  := by
  obtain ⟨node, data, fields, hnode, -, -, hdata, hlength, hroot⟩ := hR.root k hk
  have hover := hR.over hclean
  obtain ⟨record, hrecord, hread⟩ := (hover.holds hnode).record
  obtain ⟨kept, hload, hkeeps⟩ := load_some (s := DiskNodeStore.over K V s.storage) hrecord
    (hread (.inl rfl)) rfl
  have hforget : Function.update (DiskNodeStore.over K V s.storage).nodeWeakRefs (diskId ids k)
      none = (DiskNodeStore.over K V s.storage).nodeWeakRefs :=
    Function.update_eq_self_iff.mpr rfl
  have hloaded := hover.load (L := ∅) h hnode rfl (hforget.symm ▸ hkeeps)
  have hid : readUInt32 data 0 = .ok (diskId ids k) := by
    rw [← hroot, readUInt32, if_neg (by omega)]
    rfl
  have hfind : TreeDiskNodeManager.find keySerializer valueSerializer (diskId ids k)
      (DiskNodeStore.over K V s.storage) = .ok (some 0) kept := hload
  have hjoin : (kept.nodeWeakRefs (diskId ids k)).join = some 0 :=
    (hkeeps.target _).trans (if_pos rfl)
  have hdata' : kept.storage.data 1 = some data := by
    rw [hkeeps.storage_eq]
    exact hdata
  have hset := hloaded.setRoot hnode hjoin hdata' hlength hroot
  rw [← hk] at hset
  refine ⟨{ kept with rootNode := some 0 }, ?_, hset.less (Set.empty_subset _)⟩
  rw [openStorage, EStateM.bind_apply_of_ok (recordFind_eq 1 _)]
  dsimp only [DiskNodeStore.over]
  rw [hdata]
  dsimp only
  rw [EStateM.bind_apply_of_ok (liftSerializer_eq hid _)]
  exact EStateM.bind_apply_of_ok hfind _

/-- A manager over a record storage of which only the first record is there holds no nodes. -/
theorem mirrored_over {ids : List UInt32} {storage : NodeStorage} {data : Bytes}
    (hids : storage.ids = ids) (hdata : storage.data 1 = some data) :
  Mirrored keySerializer valueSerializer ids ∅ ∅ (DiskNodeStore.over K V storage)
    { nodes := fun _ => none, idCounter := 1, rootNode := none }
  where
  counter := ⟨Nat.one_pos, Nat.succ_le_succ (Nat.zero_le _)⟩
  ids_eq := hids
  fresh := fun _ _ => rfl
  objects_none := fun _ _ => rfl
  live := by
    intro k fields hnode
    cases hnode
  holds := by
    intro k fields hnode
    cases hnode
  dirty := by
    intro id node hmem
    cases hmem
  pointer := ⟨data, hdata⟩
  root := by
    intro k hk
    cases hk
  noRoot := fun _ => rfl
  atHand := by
    intro k hk
    cases hk

/-- A manager that is constructed over a record storage without records holds an empty root
node. -/
theorem mirrored_openStorage {ids : List UInt32} (h : (0 :: 1 :: 2 :: ids).Nodup)
    (hkey : keySerializer.Lawful) (hvalue : valueSerializer.Lawful) {storage : NodeStorage}
    (hnone : ∀ id, storage.data id = none) (hids : storage.ids = 1 :: 2 :: ids)
    (hopen : openStorage keySerializer valueSerializer (DiskNodeStore.over K V storage)
      = .ok () s) :
  Mirrored keySerializer valueSerializer (2 :: ids) ∅ ∅ s NodeStore.init
  := by
  rw [openStorage, EStateM.bind_apply_of_ok (recordFind_eq 1 _)] at hopen
  dsimp only [DiskNodeStore.over] at hopen
  rw [hnone] at hopen
  dsimp only at hopen
  obtain ⟨rootNode, s', hfirst, hset⟩ := EStateM.bind_eq_ok.mp hopen
  cases hset
  rw [createFirstRoot, EStateM.bind_apply_of_ok (recordAllocate_eq hids)] at hfirst
  generalize hstart : DiskNodeStore.over K V
    { data := Function.update storage.data 1 (some (Bytes.toLE 4 2)), ids := 2 :: ids } = start
  have hcreate : TreeDiskNodeManager.create keySerializer valueSerializer [] [] start
      = .ok rootNode s' := hstart ▸ hfirst
  have hpointer : start.storage.data 1 = some (Bytes.toLE 4 2) := by
    rw [← hstart]
    dsimp only [DiskNodeStore.over]
    rw [Function.update_self]
  have hR : Mirrored keySerializer valueSerializer (2 :: ids) ∅ ∅ start
      { nodes := fun _ => none, idCounter := 1, rootNode := none } := by
    subst hstart
    exact mirrored_over rfl hpointer
  have hchildren : ∀ id ∈ ([] : List Nat), id ≤ (2 :: ids).length := by
    intro id hid
    cases hid
  rcases hR.create h hkey hvalue [] hchildren with
    ⟨e, _, hfail, -⟩ | ⟨node, _, hcreate', hR', hjoin, -, -, hdata⟩
  · rw [List.map_nil, hcreate] at hfail
    cases hfail
  · rw [List.map_nil, hcreate] at hcreate'
    cases hcreate'
    have hnode : (NodeStore.init : NodeStore K V).nodes 1 = some (newFields [] []) := by
      rw [NodeStore.init]
      dsimp only [Heap.put]
      rw [Function.update_self]
      rfl
    have hset := Mirrored.setRoot (t := NodeStore.init) hR' hnode hjoin (hdata.trans hpointer)
      (Bytes.length_toLE 4 2) rfl
    exact hset.less (Set.empty_subset _)

end Between

/-! ### Requests to an index on disk -/

section Disk

open TreeDiskNodeManager

variable {K V : Type} [LinearOrder K]

/-- A request to an index on disk: what it comes to and the manager after it. -/
def requestStep (keySerializer : ISerializer K) (valueSerializer : ISerializer V)
    (search : EntrySearch K V) (s : DiskNodeStore K V) :
    IndexRequest K V → IndexAnswer K V × DiskNodeStore K V
  | .perform operation =>
      let (outcome, s') := (diskTree keySerializer valueSerializer search).step s operation
      (.outcome outcome, s')
  | .scan range key rounds =>
      match range.scan (diskTree keySerializer valueSerializer search) key rounds s with
      | .ok entries s' => (.scanned entries, s')
      | .error e s' => (.outcome (.thrown e), s')
  | .collect node =>
      match loseTarget node s with
      | .ok _ s' => (.done, s')
      | .error e s' => (.failed e, s')
  | .reopen =>
      match openStorage keySerializer valueSerializer (DiskNodeStore.over K V s.storage) with
      | .ok _ s' => (.done, s')
      | .error e s' => (.failed e, s')

/-- A request that may be made. A node object is collected only when the manager does not refer
to it, the index is opened again only when all changes are saved, and an enumeration is given the
rounds that it takes. -/
def MayBeMade (p : DiskNodeStore K V × List (K × V)) : IndexRequest K V → Prop
  | .perform _ => True
  | .scan _ _ rounds => p.2.length < rounds
  | .collect node => ¬ Referenced p.1 node
  | .reopen => p.1.dirtyNodes = []

instance decidableMayBeMade (p : DiskNodeStore K V × List (K × V)) :
    ∀ request : IndexRequest K V, Decidable (MayBeMade p request)
  | .perform _ => inferInstanceAs (Decidable True)
  | .scan _ _ rounds => inferInstanceAs (Decidable (p.2.length < rounds))
  | .collect node => inferInstanceAs (Decidable (¬ (node ∈ p.1.nodeStrongRefs
      ∨ node ∈ p.1.dirtyNodes.map Prod.snd ∨ p.1.rootNode = some node)))
  | .reopen => inferInstanceAs (Decidable (p.1.dirtyNodes = []))

/-- An insertion does not give up for lack of room in a record or in the storage. -/
def HasRoom (keySerializer : ISerializer K) (valueSerializer : ISerializer V)
    (search : EntrySearch K V) (s : DiskNodeStore K V) : IndexRequest K V → Prop
  | .perform (.insert key value) =>
      (requestStep keySerializer valueSerializer search s (.perform (.insert key value))).1
        ≠ .outcome (.thrown .invalidOperation)
  | _ => True

instance decidableHasRoom [DecidableEq V] (keySerializer : ISerializer K)
    (valueSerializer : ISerializer V) (search : EntrySearch K V) (s : DiskNodeStore K V) :
    ∀ request, Decidable (HasRoom keySerializer valueSerializer search s request)
  | .perform (.insert key value) => inferInstanceAs (Decidable
      ((requestStep keySerializer valueSerializer search s (.perform (.insert key value))).1
        ≠ .outcome (.thrown .invalidOperation)))
  | .perform (.delete _) => inferInstanceAs (Decidable True)
  | .perform (.get _) => inferInstanceAs (Decidable True)
  | .scan _ _ _ => inferInstanceAs (Decidable True)
  | .collect _ => inferInstanceAs (Decidable True)
  | .reopen => inferInstanceAs (Decidable True)

end Disk

/-! ### Answers -/

section Answers

open TreeDiskNodeManager

variable {K V : Type} [LinearOrder K] {keySerializer : ISerializer K}
  {valueSerializer : ISerializer V} {s : DiskNodeStore K V} {t : NodeStore K V}
  {ids : List UInt32} {entries : List (K × V)}

/-- An operation over a disk node manager does what it does over a memory node manager. Only an
insertion may give up. -/
theorem mirrors_perform (search : EntrySearch K V) (h : (0 :: 1 :: ids).Nodup)
    (hkey : keySerializer.Lawful) (hvalue : valueSerializer.Lawful) (operation : Operation K V) :
  Mirrors (treeMirroring operation.GivesUp (Mirrored keySerializer valueSerializer ids ∅ ∅))
    (fun s t => Mirrored keySerializer valueSerializer ids ∅ ∅ s t ∧ Apart t.childrenOf)
    ((diskTree keySerializer valueSerializer search).perform operation)
    ((memoryTree 36 search false).perform operation) id
    (fun _ => Mirrored keySerializer valueSerializer ids ∅ ∅)
  := by
  cases operation with
  | insert key value =>
      have hinsert := (createsAlike search h hkey hvalue).insert false key value
      apply Mirrors.bind (hinsert.weaken (fun _ _ hR => hR.1) (fun _ _ _ hR => hR))
      intro _
      exact Mirrors.pure rfl (fun _ _ hR => hR)
  | delete key => exact Mirrors.map ((writesAlike search h).deleteKey key) (fun _ => rfl)
  | get key =>
      refine Mirrors.map (((readsAlike search h ∅).get false key).weaken ?_ ?_) (fun _ => rfl)
      · exact fun _ _ hR => hR.1
      · exact fun _ _ _ hR => hR

/-- An enumeration over a disk node manager gives what it gives over a memory node manager. -/
theorem mirrors_scan (search : EntrySearch K V) (h : (0 :: 1 :: ids).Nodup) (range : KeyRange)
    (key : K) (rounds : Nat) :
  Mirrors (treeMirroring (fun _ => False) (Mirrored keySerializer valueSerializer ids ∅ ∅))
    (Mirrored keySerializer valueSerializer ids ∅ ∅)
    (range.scan (diskTree keySerializer valueSerializer search) key rounds)
    (range.scan (memoryTree 36 search false) key rounds) id
    (fun _ => Mirrored keySerializer valueSerializer ids ∅ ∅)
  := by
  have hreads : ReadsAlike (diskNaming h) (2 ^ 32) (fun _ => False)
      (Mirrored keySerializer valueSerializer ids ∅ ∅)
      (treeDiskNodeManager keySerializer valueSerializer search) (treeMemoryNodeManager 36 search)
      (fun L => Mirrored keySerializer valueSerializer ids L ∅) := readsAlike search h ∅
  cases range with
  | largerThanOrEqualTo =>
      exact hreads.enumerate false .ascending (hreads.largerThanOrEqualTo false key) rounds
  | largerThan => exact hreads.enumerate false .ascending (hreads.largerThan false key) rounds
  | lessThanOrEqualTo =>
      exact hreads.enumerate false .decending (hreads.lessThanOrEqualTo false key) rounds
  | lessThan => exact hreads.enumerate false .decending (hreads.lessThan false key) rounds

/-- The nodes of a manager are those of a tree that stores some entries. -/
def HoldsEntries (keySerializer : ISerializer K) (valueSerializer : ISerializer V)
    (ids : List UInt32) (s : DiskNodeStore K V) (entries : List (K × V)) : Prop :=
  ∃ t, Mirrored keySerializer valueSerializer ids ∅ ∅ s t ∧ Stores 36 false entries t

/-- An operation gives up, or it comes to what it comes to on the entries. -/
theorem HoldsEntries.perform (search : EntrySearch K V) (h : (0 :: 1 :: ids).Nodup)
    (hkey : keySerializer.Lawful) (hvalue : valueSerializer.Lawful)
    (hholds : HoldsEntries keySerializer valueSerializer ids s entries)
    (operation : Operation K V) :
  (∃ e, operation.GivesUp e ∧ (requestStep keySerializer valueSerializer search s
      (.perform operation)).1 = .outcome (.thrown e))
    ∨ (requestStep keySerializer valueSerializer search s (.perform operation)).1
        = (entriesStep entries (.perform operation)).1
      ∧ HoldsEntries keySerializer valueSerializer ids
        (requestStep keySerializer valueSerializer search s (.perform operation)).2
        (entriesStep entries (.perform operation)).2
  := by
  obtain ⟨t, hR, hstore⟩ := hholds
  obtain ⟨hanswer, hstore'⟩ := hstore.step search (by decide) operation
  have hmirrors := mirrors_perform search h hkey hvalue operation
  rw [requestStep]
  cases hrun : (memoryTree 36 search false).perform operation t with
  | ok outcome t' =>
      rw [Tree.step, hrun] at hanswer hstore'
      rcases hmirrors.of_ok ⟨hR, hstore.apart⟩ hrun with ⟨e, s', hdisk, hgives⟩ | ⟨s', hdisk, hR'⟩
      · refine .inl ⟨e, hgives, ?_⟩
        rw [Tree.step, hdisk]
      · refine .inr ?_
        rw [Tree.step, hdisk]
        exact ⟨hanswer, t', hR', hstore'⟩
  | error e t' =>
      rw [Tree.step, hrun] at hanswer hstore'
      rcases hmirrors.of_error ⟨hR, hstore.apart⟩ hrun (thrown_entriesStep hanswer.symm) with
        ⟨e', s', hdisk, hgives⟩ | ⟨s', hdisk, hR'⟩
      · refine .inl ⟨e', hgives, ?_⟩
        rw [Tree.step, hdisk]
      · refine .inr ?_
        rw [Tree.step, hdisk]
        exact ⟨hanswer, t', hR', hstore'⟩

/-- An enumeration gives the entries of its range. -/
theorem HoldsEntries.scan (search : EntrySearch K V) (h : (0 :: 1 :: ids).Nodup)
    (hholds : HoldsEntries keySerializer valueSerializer ids s entries) (range : KeyRange)
    (key : K) {rounds : Nat} (hrounds : entries.length < rounds) :
  ∃ s', requestStep keySerializer valueSerializer search s (.scan range key rounds)
      = (.scanned (range.entries key entries), s')
    ∧ HoldsEntries keySerializer valueSerializer ids s' entries
  := by
  obtain ⟨t, hR, hstore⟩ := hholds
  have hrun := hstore.scan search (by decide) range key hrounds
  rcases (mirrors_scan search h range key rounds).of_ok hR hrun with
    ⟨_, _, _, hgives⟩ | ⟨s', hdisk, hR'⟩
  · exact hgives.elim
  · refine ⟨s', ?_, t, hR', hstore⟩
    rw [requestStep, hdisk]
    rfl

/-- Another manager over the same record storage holds the same entries. -/
theorem HoldsEntries.reopen (search : EntrySearch K V) (h : (0 :: 1 :: ids).Nodup)
    (hholds : HoldsEntries keySerializer valueSerializer ids s entries)
    (hclean : s.dirtyNodes = []) :
  ∃ s', requestStep keySerializer valueSerializer search s .reopen = (.done, s')
    ∧ HoldsEntries keySerializer valueSerializer ids s' entries
  := by
  obtain ⟨t, hR, hstore⟩ := hholds
  obtain ⟨root, hroot⟩ := hstore.exists_rootNode
  obtain ⟨s', hopen, hR'⟩ := hR.reopen h hclean hroot
  refine ⟨s', ?_, t, hR', hstore⟩
  rw [requestStep, hopen]

/-- A request to an index on disk comes to what it comes to on the entries, when there is room
for it. -/
theorem HoldsEntries.step (search : EntrySearch K V) (h : (0 :: 1 :: ids).Nodup)
    (hkey : keySerializer.Lawful) (hvalue : valueSerializer.Lawful)
    (hholds : HoldsEntries keySerializer valueSerializer ids s entries)
    {request : IndexRequest K V} (hrequest : MayBeMade (s, entries) request)
    (hroom : HasRoom keySerializer valueSerializer search s request) :
  (requestStep keySerializer valueSerializer search s request).1 = (entriesStep entries request).1
    ∧ HoldsEntries keySerializer valueSerializer ids
      (requestStep keySerializer valueSerializer search s request).2
      (entriesStep entries request).2
  := by
  cases request with
  | perform operation =>
      rcases hholds.perform search h hkey hvalue operation with ⟨e, hgives, hanswer⟩ | hsame
      · cases operation with
        | insert key value =>
            cases hgives
            exact absurd hanswer hroom
        | delete key => exact hgives.elim
        | get key => exact hgives.elim
      · exact hsame
  | scan range key rounds =>
      obtain ⟨s', hstep, hholds'⟩ := hholds.scan search h range key hrequest
      rw [hstep]
      exact ⟨rfl, hholds'⟩
  | collect node =>
      obtain ⟨t, hR, hstore⟩ := hholds
      exact ⟨rfl, t, hR.collect hrequest, hstore⟩
  | reopen =>
      obtain ⟨s', hstep, hholds'⟩ := hholds.reopen search h hrequest
      rw [hstep]
      exact ⟨rfl, hholds'⟩

/-- An index on disk, over a record storage without records, answers every run of requests as the
list of its entries in order does exactly when every insertion has room. The other requests never
fail, whatever has been inserted and deleted before. -/
theorem answersAsEntries_iff_hasRoom (search : EntrySearch K V) (hkey : keySerializer.Lawful)
    (hvalue : valueSerializer.Lawful) {storage : NodeStorage} {ids : List UInt32}
    (hnone : ∀ id, storage.data id = none) (hids : storage.ids = 1 :: 2 :: ids)
    (hnodup : (0 :: storage.ids).Nodup)
    (hopen : openStorage keySerializer valueSerializer (DiskNodeStore.over K V storage)
      = .ok () s)
    {requests : List (IndexRequest K V)}
    (hrequests : Run.Along
      (fun p request =>
        (Run.both (requestStep keySerializer valueSerializer search) entriesStep p request).2)
      MayBeMade (s, []) requests) :
  Run.outputs (requestStep keySerializer valueSerializer search) s requests
      = Run.outputs entriesStep [] requests
    ↔ Run.Along (fun s request => (requestStep keySerializer valueSerializer search s request).2)
      (HasRoom keySerializer valueSerializer search) s requests
  := by
  rw [hids] at hnodup
  apply Run.outputs_eq_iff_along_both (D := MayBeMade)
    (R := HoldsEntries keySerializer valueSerializer (2 :: ids))
  · intro s entries request hholds hrequest hroom
    exact hholds.step search hnodup hkey hvalue hrequest hroom
  · intro s entries request _ _ hroom
    cases request with
    | perform operation =>
        cases operation with
        | insert key value =>
            rw [HasRoom, not_ne_iff] at hroom
            rw [hroom]
            intro hanswer
            cases thrown_entriesStep hanswer.symm
        | delete key => exact absurd trivial hroom
        | get key => exact absurd trivial hroom
    | scan range key rounds => exact absurd trivial hroom
    | collect node => exact absurd trivial hroom
    | reopen => exact absurd trivial hroom
  · exact ⟨NodeStore.init, mirrored_openStorage hnodup hkey hvalue hnone hids hopen,
      stores_init 36 false⟩
  · exact hrequests

end Answers

/-! ### An index of numbers -/

/-- Insert two entries, open the index again, delete one of them, and look for the others. -/
def numberRequests : List (IndexRequest UInt32 UInt32) :=
  [.perform (.insert 5 50), .perform (.insert 3 30), .scan .largerThanOrEqualTo 4 3, .reopen,
    .perform (.delete 5), .collect 7, .perform (.insert 3 31), .perform (.get 3),
    .scan .lessThan 9 2]

/-- The answers are those of the entries. -/
theorem answersAsEntries_iff_hasRoom_numbers :
  Run.outputs (requestStep treeUIntSerializer treeUIntSerializer listBinarySearch)
      (opened (emptyStorage [1, 2, 3])) numberRequests
    = [.outcome .inserted, .outcome .inserted, .scanned [(5, 50)], .done,
        .outcome (.deleted true), .done, .outcome (.thrown .keyExists),
        .outcome (.got (some (3, 30))), .scanned [(3, 30)]]
  := by
  have hopen : TreeDiskNodeManager.openStorage treeUIntSerializer treeUIntSerializer
      (DiskNodeStore.over UInt32 UInt32 (emptyStorage [1, 2, 3]))
        = .ok () (opened (emptyStorage [1, 2, 3])) := rfl
  refine ((answersAsEntries_iff_hasRoom listBinarySearch treeUIntSerializer_lawful
    treeUIntSerializer_lawful (fun _ => rfl) rfl (by decide) hopen ?_).mpr ?_).trans ?_
  · decide +kernel
  · decide +kernel
  · decide +kernel

end NodeCache

end Datatent.BTree
