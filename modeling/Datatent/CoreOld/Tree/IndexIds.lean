import Datatent.CoreOld.Tree.Index
import Datatent.CoreOld.Tree.NodeIds

/-!
# The index with ids of 32 bits

As long as every insertion finds ids for the nodes it creates, a tree without duplicate keys over
the manager with ids of 32 bits goes through the states of one whose ids do not come to an end: it
answers as a finite map, and every state is well formed. Nodes that are removed do not give back
their ids. A run that inserts and deletes one key often enough comes to the id of a leaf that is
still in the tree; the next insertion puts the new leaf in its place.
-/

namespace Datatent.BTree

variable {K V : Type} [LinearOrder K]

/-! ### Runs whose ids last -/

/-- There are ids left for the nodes that the operation creates. -/
def IdsLast (m : Nat) (search : EntrySearch K V) (store : NodeStore K V) :
    Operation K V → Prop
  | .insert key _ => store.idCounter + store.nodesCreated m search key ≤ 2 ^ 32
  | _ => True

instance decidableIdsLast (m : Nat) (search : EntrySearch K V) (store : NodeStore K V) :
    ∀ operation : Operation K V, Decidable (IdsLast m search store operation)
  | .insert key _ =>
      inferInstanceAs (Decidable (store.idCounter + store.nodesCreated m search key ≤ 2 ^ 32))
  | .delete _ => inferInstanceAs (Decidable True)
  | .get _ => inferInstanceAs (Decidable True)

/-- The run of a tree with ids of 32 bits never runs out of them. -/
def RunLasts (m : Nat) (search : EntrySearch K V) (operations : List (Operation K V)) : Prop :=
  Run.Along (fun store operation => ((memoryTree32 m search false).step store operation).2)
    (IdsLast m search) NodeStore.init operations

instance decidableRunLasts (m : Nat) (search : EntrySearch K V)
    (operations : List (Operation K V)) : Decidable (RunLasts m search operations) :=
  Run.decidableAlong _ _

/-- Operations that split a node and merge it again. -/
def someOperations : List (Operation Nat Nat) :=
  [.insert 2 20, .insert 1 10, .insert 3 30, .insert 2 0, .delete 2, .get 2, .get 3]

section Runs

variable {m : Nat} {search : EntrySearch K V} {store : NodeStore K V} {map : K → Option V}

/-- An insertion for which the ids last ends before they come to an end. -/
theorem Stores.insert_lasts {contents : List (K × V)} {key : K} {value : V} (hm : 1 ≤ m)
    (hstore : Stores m false contents store) (hcounter : store.idCounter ≤ 2 ^ 32)
    (hlast : IdsLast m search store (.insert key value)) :
  ((memoryTree m search false).insert key value store).state.idCounter ≤ 2 ^ 32
    ∧ ∀ store', (memoryTree m search false).insert key value store ≠ .error .endless store'
  := by
  by_cases hkey : ∃ e ∈ contents, e.1 = key
  · rw [hstore.insert_present search value hm hkey]
    exact ⟨hcounter, fun _ h => by cases h⟩
  · obtain ⟨before, after, store', -, hok, -, hcreated⟩ := hstore.insert_new search value hm
      (fun e he hsame => hkey ⟨e, he, hsame⟩)
    rw [hok]
    exact ⟨hcreated ▸ hlast, fun _ h => by cases h⟩

/-- Inserting a key does the same with and without a bound on the ids while they last. -/
theorem step32_insert {key : K} {value : V}
    (h : ((memoryTree m search false).insert key value store).state.idCounter ≤ 2 ^ 32) :
  (memoryTree32 m search false).step store (.insert key value)
    = (memoryTree m search false).step store (.insert key value)
  := by
  have hsame := (SameIds.insertKey m search false key value).agrees store h
  simp only [Tree.step, Tree.perform, bind, EStateM.bind, hsame]

/-- The state that an insertion ends in. -/
theorem step_insert_state {key : K} {value : V} :
  ((memoryTree m search false).step store (.insert key value)).2
    = ((memoryTree m search false).insert key value store).state
  := by
  simp only [Tree.step, Tree.perform, bind, EStateM.bind]
  cases (memoryTree m search false).insert key value store with
  | ok _ store' => rfl
  | error exception store' => rfl

/-- While the ids last every operation does the same with and without a bound on them. -/
theorem Represents.step32 (hm : 1 ≤ m) (h : Represents m store map)
    (hcounter : store.idCounter ≤ 2 ^ 32) {operation : Operation K V}
    (hlast : IdsLast m search store operation) :
  (memoryTree32 m search false).step store operation
      = (memoryTree m search false).step store operation
    ∧ ((memoryTree m search false).step store operation).2.idCounter ≤ 2 ^ 32
  := by
  obtain ⟨contents, hstores, hmap⟩ := h
  cases operation with
  | insert key value =>
      obtain ⟨hbound, -⟩ := hstores.insert_lasts hm hcounter hlast
      rw [step32_insert hbound, step_insert_state]
      exact ⟨rfl, hbound⟩
  | delete key =>
      have hsame : (memoryTree32 m search false).step store (.delete key)
          = (memoryTree m search false).step store (.delete key) := by
        simp only [Tree.step, Tree.perform, delete32]
      rw [hsame]
      refine ⟨rfl, ?_⟩
      rcases hstores.delete search hm key with
        ⟨before, e, after, store', -, -, hok, -, hkept⟩ | ⟨-, hok⟩
      · rw [step_delete_ok hok, hkept]
        exact hcounter
      · rw [step_delete_ok hok]
        exact hcounter
  | get key =>
      have hsame : (memoryTree32 m search false).step store (.get key)
          = (memoryTree m search false).step store (.get key) := by
        simp only [Tree.step, Tree.perform, get32]
      obtain ⟨entry, hok, -⟩ := hstores.get search hm key
      rw [hsame, step_get_ok hok]
      exact ⟨rfl, hcounter⟩

/-- A run whose ids last is the same with and without a bound on them. -/
theorem RunLasts.same (hm : 1 ≤ m) {operations : List (Operation K V)}
    (hrun : RunLasts m search operations) :
  Run.outputs (memoryTree32 m search false).step NodeStore.init operations
      = Run.outputs (memoryTree m search false).step NodeStore.init operations
    ∧ (memoryTree32 m search false).after NodeStore.init operations
      = (memoryTree m search false).after NodeStore.init operations
    ∧ ((memoryTree m search false).after NodeStore.init operations).idCounter ≤ 2 ^ 32
  := by
  let R := fun store store' : NodeStore K V =>
    store = store' ∧ store'.idCounter ≤ 2 ^ 32 ∧ ∃ map, Represents m store' map
  have hcounter : (NodeStore.init : NodeStore K V).idCounter ≤ 2 ^ 32 :=
    (by decide : 2 ≤ 2 ^ 32)
  have hstart : R NodeStore.init NodeStore.init :=
    ⟨rfl, hcounter, fun _ => none, [], stores_init m false, fun key value => by simp⟩
  obtain ⟨hout, hfinal, hcounter, -⟩ := Run.Along.outputs_eq (R := R) (fun s s' operation hrel
      hlast => by
    obtain ⟨rfl, hcounter, map, hrep⟩ := hrel
    obtain ⟨hsame, hcounter'⟩ := hrep.step32 hm hcounter hlast
    rw [hsame]
    exact ⟨rfl, rfl, hcounter', _, (hrep.step hm operation).2⟩) hrun hstart
  exact ⟨hout, hfinal, hcounter⟩

/-- Along a run the tree answers as a finite map does: inserting a present key throws and leaves
the state, and the walk comes to the entries of the map. -/
def AnswersAsMap (m : Nat) (search : EntrySearch K V) (operations : List (Operation K V)) : Prop :=
  Run.outputs (memoryTree32 m search false).step NodeStore.init operations
      = Run.outputs mapStep (fun _ => none) operations
    ∧ (∀ key value, (mapAfter operations key).isSome →
        (memoryTree32 m search false).step
            ((memoryTree32 m search false).after NodeStore.init operations) (.insert key value)
          = (.thrown .keyExists, (memoryTree32 m search false).after NodeStore.init operations))
    ∧ ∀ e, e ∈ ((memoryTree32 m search false).after NodeStore.init operations).walk
        ↔ mapAfter operations e.1 = some e.2

/-- Along every run whose ids last a tree without duplicate keys answers as a finite map does. -/
theorem answersAsMap_of_runLasts (search : EntrySearch K V) (hm : 1 ≤ m)
    (operations : List (Operation K V)) (hrun : RunLasts m search operations) :
  AnswersAsMap m search operations
  := by
  obtain ⟨hout, hfinal, hcounter⟩ := hrun.same hm
  obtain ⟨hanswers, hthrows, hwalk⟩ := tree_refines_map search hm operations
  rw [AnswersAsMap, hout, hfinal]
  refine ⟨hanswers, ?_, hwalk⟩
  intro key value hkey
  have hpresent := hthrows key value hkey
  have hstate := congrArg Prod.snd hpresent
  rw [step_insert_state] at hstate
  rw [step32_insert (hstate ▸ hcounter)]
  exact hpresent

/-- The ids last for some operations, and a tree answers to them as a map does. -/
theorem answersAsMap_some :
  Run.outputs (memoryTree32 1 listBinarySearch false).step NodeStore.init someOperations
      = [.inserted, .inserted, .inserted, .thrown .keyExists, .deleted true, .got none,
        .got (some (3, 30))]
    ∧ ((1, 10) : Nat × Nat)
      ∈ ((memoryTree32 1 listBinarySearch false).after NodeStore.init someOperations).walk
  := by
  obtain ⟨hout, -, hwalk⟩ :=
    answersAsMap_of_runLasts listBinarySearch (Nat.le_refl 1) someOperations (by decide)
  rw [hout, hwalk]
  decide

/-- Every state that a run whose ids last comes to is well formed. -/
theorem wellFormed_of_runLasts (search : EntrySearch K V) (hm : 1 ≤ m)
    (operations : List (Operation K V)) (hrun : RunLasts m search operations) :
  WellFormed m ((memoryTree32 m search false).after NodeStore.init operations)
  := by
  rw [(hrun.same hm).2.1]
  exact tree_wellFormed search hm operations

/-- The ids last for some operations, which come to a well-formed state. -/
theorem wellFormed_some :
  WellFormed 1 ((memoryTree32 1 listBinarySearch false).after NodeStore.init someOperations)
  := wellFormed_of_runLasts listBinarySearch (Nat.le_refl 1) someOperations (by decide)

end Runs

/-! ### The manager on a state -/

section Manager

open TreeMemoryNodeManager

variable (m : Nat) (search : EntrySearch K V) (store : NodeStore K V) (id : Nat)

@[simp]
theorem minEntriesPerNode32_eq :
  (treeMemoryNodeManager32 m search).minEntriesPerNode = m
  := rfl

@[simp]
theorem steps32_apply :
  (treeMemoryNodeManager32 m search).steps store = .ok store.idCounter store
  := rfl

@[simp]
theorem read32_apply :
  (treeMemoryNodeManager32 m search).read id store
    = (store.nodes id).elim (.error .nullReference store) (fun node => .ok node store)
  := by
  have hread : (treeMemoryNodeManager32 m search).read id = TreeMemoryNodeManager.read id := rfl
  rw [hread, TreeMemoryNodeManager.read, EStateM.get_bind_apply]
  cases store.nodes id with
  | none => rfl
  | some node => rfl

@[simp]
theorem find32_apply :
  (treeMemoryNodeManager32 m search).find id store
    = (store.nodes id).elim (.error .nodeNotFound store) (fun _ => .ok (some id) store)
  := by
  have hfind : (treeMemoryNodeManager32 m search).find id = TreeMemoryNodeManager.find id := rfl
  rw [hfind, TreeMemoryNodeManager.find, EStateM.get_bind_apply]
  cases store.nodes id with
  | none => rfl
  | some node => rfl

@[simp]
theorem write32_apply (node : TreeNode K V) :
  (treeMemoryNodeManager32 m search).write id node store
    = .ok () { store with nodes := store.nodes.put id node }
  := rfl

@[simp]
theorem markAsChanged32_apply :
  (treeMemoryNodeManager32 m search).markAsChanged id store = .ok () store
  := rfl

@[simp]
theorem saveChanges32_apply :
  (treeMemoryNodeManager32 m search).saveChanges store = .ok () store
  := rfl

@[simp]
theorem create32_apply (entries : List (K × V)) (childrenIds : List Nat) :
  (treeMemoryNodeManager32 m search).create entries childrenIds store
    = .ok (idOf store.idCounter)
      { store with
        nodes := store.nodes.put (idOf store.idCounter) ⟨0, entries, childrenIds⟩
        idCounter := store.idCounter + 1 }
  := rfl

@[simp]
theorem delete32_apply :
  (treeMemoryNodeManager32 m search).delete id store
    = .ok ()
      { store with
        rootNode := if store.rootNode = some id then none else store.rootNode
        nodes := store.nodes.erase id }
  := rfl

end Manager

/-! ### A run that comes to the end of the ids -/

section Rounds

open TreeMemoryNodeManager TreeNode TreeEnumerator

/-- A root node over the leaves `1` and `2`. -/
def fourEntries (next : Nat) : NodeStore Nat Nat where
  nodes := ((Heap.put (fun _ => none) 1 ⟨3, [(1, 10)], []⟩).put 2
    ⟨3, [(3, 30), (4, 40)], []⟩).put 3 ⟨0, [(2, 20)], [1, 2]⟩
  idCounter := next
  rootNode := some 3

/-- A fifth entry in the leaf `2`, which has too many then. -/
def crowded (next : Nat) : NodeStore Nat Nat :=
  { fourEntries next with
    nodes := (fourEntries next).nodes.put 2 ⟨3, [(3, 30), (4, 40), (5, 50)], []⟩ }

/-- The fifth entry in a leaf of its own. -/
def halved (id next : Nat) : NodeStore Nat Nat :=
  { fourEntries next with
    nodes := ((crowded next).nodes.put id ⟨0, [(5, 50)], []⟩).put 2 ⟨3, [(3, 30)], []⟩ }

/-- A root node over the leaves `1`, `2` and a third one. -/
def fiveEntries (id next : Nat) : NodeStore Nat Nat where
  nodes := (((Heap.put (fun _ => none) 1 ⟨3, [(1, 10)], []⟩).put 2 ⟨3, [(3, 30)], []⟩).put 3
    ⟨0, [(2, 20), (4, 40)], [1, 2, id]⟩).put id ⟨3, [(5, 50)], []⟩
  idCounter := next
  rootNode := some 3

/-- The third leaf without its entry. -/
def emptied (id next : Nat) : NodeStore Nat Nat :=
  { fiveEntries id next with nodes := (fiveEntries id next).nodes.put id ⟨3, [], []⟩ }

variable {id next : Nat}

theorem halved_root (h3 : 3 ≠ id) :
  (halved id next).nodes 3 = some ⟨0, [(2, 20)], [1, 2]⟩
  := by
  simp [halved, crowded, fourEntries, Heap.put_of_ne, h3]

theorem halved_left :
  (halved id next).nodes 2 = some ⟨3, [(3, 30)], []⟩
  := by
  simp [halved]

theorem halved_leaf (h2 : 2 ≠ id) :
  (halved id next).nodes id = some ⟨0, [(5, 50)], []⟩
  := by
  simp [halved, Heap.put_of_ne h2.symm]

theorem fiveEntries_root (h3 : 3 ≠ id) :
  (fiveEntries id next).nodes 3 = some ⟨0, [(2, 20), (4, 40)], [1, 2, id]⟩
  := by
  simp [fiveEntries, Heap.put_of_ne h3]

theorem fiveEntries_left (h2 : 2 ≠ id) :
  (fiveEntries id next).nodes 2 = some ⟨3, [(3, 30)], []⟩
  := by
  simp [fiveEntries, Heap.put_of_ne, h2]

theorem fiveEntries_leaf :
  (fiveEntries id next).nodes id = some ⟨3, [(5, 50)], []⟩
  := Heap.put_self

/-- Halving the leaf moves the fifth entry to a node with the next id. -/
theorem halve_crowded (hid : idOf next = id) (h2 : 2 ≠ id) :
  halve (treeMemoryNodeManager32 1 listBinarySearch) 2 (crowded next)
    = .ok ((4, 40), id) (halved id (next + 1))
  := by
  have hcrowded : (crowded next).nodes 2 = some ⟨3, [(3, 30), (4, 40), (5, 50)], []⟩ := rfl
  have hcounter : (crowded next).idCounter = next := rfl
  have hstate : { crowded next with
      nodes := ((crowded next).nodes.put id ⟨0, [(5, 50)], []⟩).put 2 ⟨3, [(3, 30)], []⟩
      idCounter := next + 1 } = halved id (next + 1) := rfl
  simp [halve, bind, EStateM.bind, pure, EStateM.pure, item, copyTo, rightChildren, leftChildren,
    isLeaf, setParentIds, removeRange, Heap.put_of_ne h2, hid, hcrowded, hcounter, hstate]

/-- With the fourth entry in the root node the new leaf is its third child. -/
theorem halved_elevated (h3 : 3 ≠ id) :
  { halved id next with
    nodes := ((halved id next).nodes.put 3 ⟨0, [(2, 20), (4, 40)], [1, 2, id]⟩).put id
      ⟨3, [(5, 50)], []⟩ } = fiveEntries id next
  := by
  have hnodes : ((halved id next).nodes.put 3 ⟨0, [(2, 20), (4, 40)], [1, 2, id]⟩).put id
      ⟨3, [(5, 50)], []⟩ = (fiveEntries id next).nodes := by
    funext i
    by_cases hi : i = id
    · rw [hi, Heap.put_self, fiveEntries_leaf]
    · rw [Heap.put_of_ne hi]
      by_cases hroot : i = 3
      · rw [hroot, Heap.put_self, fiveEntries_root h3]
      · simp only [halved, crowded, fourEntries, fiveEntries, Heap.put, Function.update_apply, hi,
          hroot, if_false]
        split_ifs
        all_goals rfl
  rw [hnodes]
  rfl

/-- The root node gets the fourth entry and the new leaf. -/
theorem elevate_halved (h2 : 2 ≠ id) (h3 : 3 ≠ id)
    (splitParent : Nat → TreeM (NodeStore Nat Nat) (Nat × Nat)) :
  elevate (treeMemoryNodeManager32 1 listBinarySearch) splitParent 3 (4, 40) 2 id (halved id next)
    = .ok () (fiveEntries id next)
  := by
  have hsearch : listBinarySearch.search [((2, 20) : Nat × Nat)] 4 = .missing 1 := by decide
  simp [elevate, insertAsParent, setParentId, bind, EStateM.bind, pure, EStateM.pure, insert,
    setItem, isOverflow, SearchResult.position, hsearch, halved_root h3, halved_leaf h2,
    Heap.put_of_ne h3.symm, halved_elevated h3, fiveEntries_root h3]

/-- Inserting a fifth entry creates a leaf with the next id. -/
theorem insert_five (hid : idOf next = id) (hnext : 2 ≤ next) (h2 : 2 ≠ id) (h3 : 3 ≠ id) :
  (memoryTree32 1 listBinarySearch false).step (fourEntries next) (.insert 5 50)
    = (.inserted, fiveEntries id (next + 1))
  := by
  obtain ⟨steps, rfl⟩ := Nat.exists_eq_add_of_le' hnext
  have hroot : (memoryTree32 1 listBinarySearch false).root (fourEntries (steps + 2))
      = .ok 3 (fourEntries (steps + 2)) := rfl
  have hfind : (memoryTree32 1 listBinarySearch false).findNodeForInsertion 5 (steps + 2) 3
      (fourEntries (steps + 2)) = .ok (2, .missing 2) (fourEntries (steps + 2)) := rfl
  have hleaf : insertAsLeaf (treeMemoryNodeManager32 1 listBinarySearch) 2 (5, 50) 2
      (fourEntries (steps + 2)) = .ok () (crowded (steps + 2)) := rfl
  have hcrowded : (crowded (steps + 2)).nodes 2
      = some ⟨3, [(3, 30), (4, 40), (5, 50)], []⟩ := rfl
  have hsplit : split (treeMemoryNodeManager32 1 listBinarySearch) (steps + 2) 2
      (crowded (steps + 2)) = .ok (2, id) (fiveEntries id (steps + 3)) := by
    simp [split, bind, EStateM.bind, pure, EStateM.pure, halve_crowded hid h2, halved_left,
      halved_root h3, elevate_halved h2 h3]
  have hcounter : (fourEntries (steps + 2)).idCounter = steps + 2 := rfl
  simp [Tree.step, Tree.perform, Tree.insert, Tree.insertToLeaf, bind, EStateM.bind, pure,
    EStateM.pure, isOverflow, hcounter, hroot, hfind, hleaf, hcrowded, hsplit]

/-- With the third leaf joined to the second one the tree is as it was. -/
theorem emptied_joined (h1 : 1 ≠ id) (h2 : 2 ≠ id) (h3 : 3 ≠ id) :
  { nodes := (((emptied id next).nodes.put 2 ⟨3, [(3, 30), (4, 40)], []⟩).put 3
      ⟨0, [(2, 20)], [1, 2]⟩).erase id
    idCounter := (emptied id next).idCounter
    rootNode := some 3 } = fourEntries next
  := by
  have hnodes : (((emptied id next).nodes.put 2 ⟨3, [(3, 30), (4, 40)], []⟩).put 3
      ⟨0, [(2, 20)], [1, 2]⟩).erase id = (fourEntries next).nodes := by
    funext i
    by_cases hi : i = id
    · have hnone : (fourEntries next).nodes id = none := by
        simp [fourEntries, Heap.put_of_ne, h1.symm, h2.symm, h3.symm]
      rw [hi, Heap.erase, Function.update_self, hnone]
    · simp only [emptied, fiveEntries, fourEntries, Heap.put, Heap.erase, Function.update_apply, hi,
        if_false]
      split_ifs
      all_goals rfl
  rw [hnodes]
  rfl

/-- The second leaf has no entry to spare, so that the third one is merged with it. -/
theorem rebalance_emptied (steps : Nat) (h1 : 1 ≠ id) (h2 : 2 ≠ id) (h3 : 3 ≠ id) :
  rebalance (treeMemoryNodeManager32 1 listBinarySearch) (steps + 1) id (emptied id next)
    = .ok () (fourEntries next)
  := by
  have hleaf : (emptied id next).nodes id = some ⟨3, [], []⟩ := Heap.put_self
  have hleft : (emptied id next).nodes 2 = some ⟨3, [(3, 30)], []⟩ :=
    (Heap.put_of_ne h2).trans (fiveEntries_left h2)
  have hroot : (emptied id next).nodes 3 = some ⟨0, [(2, 20), (4, 40)], [1, 2, id]⟩ :=
    (Heap.put_of_ne h3).trans (fiveEntries_root h3)
  have hrootNode : (emptied id next).rootNode = some 3 := rfl
  have hindex : [1, 2, id].idxOf? id = some 2 := by
    simp [List.idxOf?_cons, h1, h2]
  have hjoin : joinChildren (treeMemoryNodeManager32 1 listBinarySearch) 3 2 id 1
      (emptied id next) = .ok () (fourEntries next) := by
    simp [joinChildren, getEntry, bind, EStateM.bind, pure, EStateM.pure, item, setParentIds,
      removeAt, hleaf, hleft, hroot, hrootNode, Heap.put_of_ne, h3, emptied_joined h1 h2 h3]
  have hfour : (fourEntries next).nodes 3 = some ⟨0, [(2, 20)], [1, 2]⟩ := rfl
  simp [rebalance, indexInParent, found, sibling, canSpare, rotateRightOrMerge, mergeWithSibling,
    merge, bind, EStateM.bind, pure, EStateM.pure, item, hleaf, hleft, hroot, hindex, hjoin, hfour]

/-- Deleting the fifth entry removes its leaf again. -/
theorem delete_five (hnext : 2 ≤ next) (h1 : 1 ≠ id) (h2 : 2 ≠ id) (h3 : 3 ≠ id) :
  (memoryTree32 1 listBinarySearch false).step (fiveEntries id next) (.delete 5)
    = (.deleted true, fourEntries next)
  := by
  obtain ⟨steps, rfl⟩ := Nat.exists_eq_add_of_le' hnext
  have hroot : (memoryTree32 1 listBinarySearch false).root (fiveEntries id (steps + 2))
      = .ok 3 (fiveEntries id (steps + 2)) := rfl
  have hbefore : binarySearchFirst listBinarySearch [((2, 20) : Nat × Nat), (4, 40)] 5
      = .missing 2 := by decide
  have hat : binarySearchFirst listBinarySearch [((5, 50) : Nat × Nat)] 5 = .found 0 := by decide
  have hfind : (memoryTree32 1 listBinarySearch false).findNodeForIteration 5 true (steps + 2) 3
      (fiveEntries id (steps + 2)) = .ok (id, .found 0) (fiveEntries id (steps + 2)) := by
    simp [Tree.findNodeForIteration, bind, EStateM.bind, pure, EStateM.pure, isEmpty, isLeaf,
      getChildNode, item, found, fiveEntries_leaf, fiveEntries_root h3, hbefore, hat]
  have hemptied : { fiveEntries id (steps + 2) with
      nodes := (fiveEntries id (steps + 2)).nodes.put id ⟨3, [], []⟩ }
        = emptied id (steps + 2) := rfl
  have hremove : remove (treeMemoryNodeManager32 1 listBinarySearch) (steps + 2) id 0
      (fiveEntries id (steps + 2)) = .ok () (fourEntries (steps + 2)) := by
    simp [remove, bind, EStateM.bind, pure, EStateM.pure, isLeaf, removeAt, fiveEntries_leaf,
      hemptied, rebalance_emptied (steps + 1) h1 h2 h3]
  have hcounter : (fiveEntries id (steps + 2)).idCounter = steps + 2 := rfl
  simp [Tree.step, Tree.perform, Tree.delete, Tree.largerThanOrEqualTo, Tree.removeCurrent,
    moveNext, moveForward, moveUp, Functor.map, EStateM.map, bind, EStateM.bind, pure,
    EStateM.pure, SearchResult.position, isLeaf, getEntry, item, hcounter, hroot, hfind,
    fiveEntries_leaf, hremove]

/-- Rounds of inserting and deleting a fifth entry. -/
def rounds : Nat → List (Operation Nat Nat)
  | 0 => []
  | k + 1 => .insert 5 50 :: .delete 5 :: rounds k

/-- Every round uses up an id, and leaves the tree as it was. -/
theorem after_rounds :
  ∀ (k : Nat) {next : Nat}, 4 ≤ next → next + k ≤ 2 ^ 32 + 1 →
    (memoryTree32 1 listBinarySearch false).after (fourEntries next) (rounds k)
      = fourEntries (next + k)
  | 0, _, _, _ => rfl
  | k + 1, next, hleast, hmost => by
      -- the ids are those from `4` on, and then `0`
      have hid : 1 ≠ idOf next ∧ 2 ≠ idOf next ∧ 3 ≠ idOf next := by
        rw [idOf]
        omega
      have hinsert := insert_five rfl (by omega : 2 ≤ next) hid.2.1 hid.2.2
      have hdelete := delete_five (by omega : 2 ≤ next + 1) hid.1 hid.2.1 hid.2.2
      have hrest := after_rounds k (by omega : 4 ≤ next + 1) (by omega)
      have hsteps : (memoryTree32 1 listBinarySearch false).after (fourEntries next)
          (rounds (k + 1)) = (memoryTree32 1 listBinarySearch false).after
            ((memoryTree32 1 listBinarySearch false).step
              ((memoryTree32 1 listBinarySearch false).step (fourEntries next)
                (.insert 5 50)).2 (.delete 5)).2 (rounds k) := rfl
      rw [hsteps, hinsert, hdelete, hrest, Nat.add_right_comm, Nat.add_assoc]

/-- The rounds leave a map without the fifth entry as it is. -/
theorem mapAfter_rounds {map : Nat → Option Nat} (h : map 5 = none) :
  ∀ k, Run.final (fun map operation => (mapStep map operation).2) map (rounds k) = map
  | 0 => rfl
  | k + 1 => by
      have hround : (mapStep (mapStep map (.insert 5 50)).2 (.delete 5)).2 = map := by
        rw [mapStep, mapStep, h]
        simp [Function.update_eq_self_iff, h]
      have hsteps : Run.final (fun map operation => (mapStep map operation).2) map (rounds (k + 1))
          = Run.final (fun map operation => (mapStep map operation).2)
            (mapStep (mapStep map (.insert 5 50)).2 (.delete 5)).2 (rounds k) := rfl
      rw [hsteps, hround, mapAfter_rounds h k]

/-- Four insertions, and rounds up to the id of the first leaf. -/
def exhausting : List (Operation Nat Nat) :=
  [.insert 1 10, .insert 2 20, .insert 3 30, .insert 4 40] ++ rounds (2 ^ 32 - 3)

/-- The counter comes to `2 ^ 32 + 1`, which stands for the id `1`. -/
theorem after_exhausting :
  (memoryTree32 1 listBinarySearch false).after NodeStore.init exhausting
    = fourEntries (2 ^ 32 + 1)
  := by
  have hfour : (memoryTree32 1 listBinarySearch false).after NodeStore.init
      [.insert 1 10, .insert 2 20, .insert 3 30, .insert 4 40] = fourEntries 4 := by
    have hnodes : ((memoryTree32 1 listBinarySearch false).after NodeStore.init
        [.insert 1 10, .insert 2 20, .insert 3 30, .insert 4 40]).nodes
          = (fourEntries 4).nodes := by
      funext id
      rcases id with _ | _ | _ | _ | id
      all_goals rfl
    exact congrArg (fun nodes => { fourEntries 4 with nodes := nodes }) hnodes
  have hcounter : 4 + (2 ^ 32 - 3) = 2 ^ 32 + 1 := by decide
  rw [exhausting, Tree.after_append, hfour, after_rounds _ (Nat.le_refl 4) (Nat.le_of_eq hcounter),
    hcounter]

/-- The map after the insertions. -/
theorem mapAfter_exhausting :
  mapAfter exhausting = mapAfter [.insert 1 10, .insert 2 20, .insert 3 30, .insert 4 40]
  := by
  rw [exhausting, mapAfter, Run.final_append, ← mapAfter]
  exact mapAfter_rounds (by decide) _

/-- With the id of the first leaf the new leaf takes its place: its entry is lost. -/
theorem not_answersAsMap_exhausting :
  ¬ AnswersAsMap 1 listBinarySearch (exhausting ++ [.insert 5 50, .get 1])
  := by
  intro h
  have hout := h.1
  rw [Run.outputs_append, Run.outputs_append, ← Tree.after, after_exhausting, ← mapAfter,
    mapAfter_exhausting] at hout
  have hlast := List.append_inj_right' hout rfl
  revert hlast
  decide +kernel

/-- The new leaf is below the root node twice then. -/
theorem not_wellFormed_exhausting :
  ¬ WellFormed 1 ((memoryTree32 1 listBinarySearch false).after NodeStore.init
    (exhausting ++ [.insert 5 50]))
  := by
  intro h
  have honce := h.once
  rw [Tree.after_append, after_exhausting] at honce
  revert honce
  decide +kernel

end Rounds

end Datatent.BTree
