import Datatent.CoreOld.Tree.IndexIds
import Datatent.Library.Counting
import Datatent.Library.UTreeSize

/-!
# How many nodes an operation asks for

A node manager is asked for a node by `Find`. In every state that a run comes to before the end of
the ids, a tree of `n` entries has at most logarithmically many levels, getting a key asks for at
most one node on each level, and inserting one for at most `m + 3`; and there are at most `n / m`
nodes besides the root. Deleting is not counted here.
-/

namespace Datatent.BTree

variable {S K V : Type} [LinearOrder K]

/-! ### A manager that counts -/

/-- A node manager that counts how often it is asked for a node. -/
def counting (manager : ITreeNodeManager S K V) : ITreeNodeManager (S × Nat) K V where
  minEntriesPerNode := manager.minEntriesPerNode
  entrySearch := manager.entrySearch
  rootNode := manager.rootNode.uncounted
  create entries childrenIds := (manager.create entries childrenIds).uncounted
  find id := (manager.find id).counted
  createNewRoot entry left right := (manager.createNewRoot entry left right).uncounted
  makeRoot target := (manager.makeRoot target).uncounted
  markAsChanged node := (manager.markAsChanged node).uncounted
  delete target := (manager.delete target).uncounted
  saveChanges := manager.saveChanges.uncounted
  read node := (manager.read node).uncounted
  write node fields := (manager.write node fields).uncounted
  steps := manager.steps.uncounted

/-- A tree over a node manager that counts. -/
def Tree.counting (tree : Tree S K V) : Tree (S × Nat) K V where
  nodeManager := BTree.counting tree.nodeManager
  allowDuplicateKeys := tree.allowDuplicateKeys

/-- The second computation asks for at most `n` nodes, and does what the first one does unless
that takes too many steps. -/
abbrev Loads {α : Type} (n : Nat) (x : TreeM S α) (y : TreeM (S × Nat) α)
    (P : α → Prop := fun _ => True) : Prop :=
  Counts .endless n x y P

/-- `get` with the bound on the number of levels. -/
def Tree.getWithin (tree : Tree S K V) (key : K) (steps : Nat) : TreeM S (Option (K × V)) := do
  let root ← tree.root
  let (node, insertionIndex) ← tree.findNodeForInsertion key steps root
  match insertionIndex with
  | .found i => some <$> TreeNode.getEntry tree.nodeManager node i
  | .missing _ => return none

/-- Getting bounds the number of levels by what the manager gives. -/
theorem Tree.get_eq (tree : Tree S K V) (key : K) :
  tree.get key = tree.nodeManager.steps >>= tree.getWithin key
  := rfl

namespace Loads

section Lists

variable {α : Type}

theorem item (list : List α) (index : Nat) :
  Loads (S := S) 0 (BTree.item list index) (BTree.item list index)
  := by
  unfold BTree.item
  split
  · exact Counts.pure trivial
  · exact Counts.throw _ _

/-- A part of a list has the number of elements that is asked for. -/
theorem copyTo (list : List α) (index count : Nat) :
  Loads (S := S) 0 (BTree.copyTo list index count) (BTree.copyTo list index count)
    (fun part => part.length = count)
  := by
  apply Counts.ite
  · intro h
    apply Counts.pure
    rw [List.length_take, List.length_drop]
    omega
  · exact fun _ => Counts.throw _ _

theorem insert (list : List α) (index : Nat) (x : α) :
  Loads (S := S) 0 (BTree.insert list index x) (BTree.insert list index x)
  := Counts.ite (fun _ => Counts.pure trivial) (fun _ => Counts.throw _ _)

theorem setItem (list : List α) (index : Nat) (x : α) :
  Loads (S := S) 0 (BTree.setItem list index x) (BTree.setItem list index x)
  := Counts.ite (fun _ => Counts.pure trivial) (fun _ => Counts.throw _ _)

theorem removeRange (list : List α) (index : Nat) :
  Loads (S := S) 0 (BTree.removeRange list index) (BTree.removeRange list index)
  := Counts.ite (fun _ => Counts.pure trivial) (fun _ => Counts.throw _ _)

end Lists

section Nodes

variable (manager : ITreeNodeManager S K V)

open TreeNode

theorem found (id : Nat) :
  Loads 1 (TreeNode.found manager id) (TreeNode.found (counting manager) id)
  := by
  apply Counts.bind_into_free (Counts.counted _)
  intro node _
  cases node with
  | none => exact Counts.throw _ _
  | some node => exact Counts.pure trivial

theorem getChildNode (this atIndex : Nat) :
  Loads 1 (TreeNode.getChildNode manager this atIndex)
    (TreeNode.getChildNode (counting manager) this atIndex)
  := by
  apply Counts.bind_free (Counts.uncounted _)
  intro node _
  apply Counts.bind_free (item _ _)
  intro childId _
  exact found manager childId

theorem getEntry (this : Nat) (atIndex : Int) :
  Loads 0 (TreeNode.getEntry manager this atIndex)
    (TreeNode.getEntry (counting manager) this atIndex)
  := by
  apply Counts.bind_free (Counts.uncounted _)
  intro node _
  exact Counts.ite (fun _ => Counts.throw _ _) (fun _ => item _ _)

theorem setParentId (this parentId : Nat) :
  Loads 0 (TreeNode.setParentId manager this parentId)
    (TreeNode.setParentId (counting manager) this parentId)
  := by
  apply Counts.bind_free (Counts.uncounted _)
  intro node _
  apply Counts.bind_free (Counts.uncounted _)
  intro _ _
  exact Counts.uncounted _

/-- One node is asked for for each id. -/
theorem setParentIds (parentId : Nat) :
  ∀ childrenIds, Loads childrenIds.length (TreeNode.setParentIds manager parentId childrenIds)
    (TreeNode.setParentIds (counting manager) parentId childrenIds)
  | [] => Counts.pure trivial
  | childId :: childrenIds => by
      rw [TreeNode.setParentIds, TreeNode.setParentIds, List.length_cons,
        Nat.add_comm childrenIds.length]
      apply Counts.bind (found manager childId)
      intro child _
      apply Counts.bind_free (setParentId manager child parentId)
      intro _ _
      exact setParentIds parentId childrenIds

theorem insertAsLeaf (this : Nat) (entry : K × V) (insertPosition : Nat) :
  Loads 0 (TreeNode.insertAsLeaf manager this entry insertPosition)
    (TreeNode.insertAsLeaf (counting manager) this entry insertPosition)
  := by
  apply Counts.bind_free (Counts.uncounted _)
  intro node _
  apply Counts.bind_free (insert _ _ _)
  intro entries _
  apply Counts.bind_free (Counts.uncounted _)
  intro _ _
  exact Counts.uncounted _

theorem insertAsParent (this : Nat) (entry : K × V) (left right : Nat) :
  Loads 0 (TreeNode.insertAsParent manager this entry left right)
    (TreeNode.insertAsParent (counting manager) this entry left right)
  := by
  apply Counts.bind_free (Counts.uncounted _)
  intro node _
  apply Counts.bind_free (insert _ _ _)
  intro entries _
  apply Counts.bind_free (insert _ _ _)
  intro childrenIds _
  apply Counts.bind_free (setItem _ _ _)
  intro childrenIds _
  apply Counts.bind_free (Counts.uncounted _)
  intro _ _
  apply Counts.bind_free (Counts.uncounted _)
  intro _ _
  exact Counts.pure trivial

/-- The right half of a node asks for its children. -/
theorem halve (this : Nat) :
  Loads (manager.minEntriesPerNode + 1) (TreeNode.halve manager this)
    (TreeNode.halve (counting manager) this)
  := by
  apply Counts.bind_free (Counts.uncounted _)
  intro node _
  apply Counts.bind_free (item _ _)
  intro middleEntry _
  apply Counts.bind_free (copyTo _ _ _)
  intro rightEntries _
  apply Counts.bind_free (P := fun ids => ids.length ≤ manager.minEntriesPerNode + 1)
  · apply Counts.ite
    · exact fun _ => Counts.pure (Nat.zero_le _)
    · exact fun _ => (copyTo _ _ _).weaken (Nat.le_refl 0) (fun _ h => Nat.le_of_eq h)
  intro rightIds hrightIds
  apply Counts.bind_free (Counts.uncounted _)
  intro newRightNode _
  apply Counts.bind_into_free
    ((setParentIds manager newRightNode rightIds).weaken hrightIds (fun _ h => h))
  intro _ _
  apply Counts.bind_free (Counts.uncounted _)
  intro node _
  apply Counts.bind_free (removeRange _ _)
  intro leftEntries _
  apply Counts.bind_free (P := fun _ => True)
  · exact Counts.ite (fun _ => Counts.pure trivial) (fun _ => removeRange _ _)
  intro leftIds _
  apply Counts.bind_free (Counts.uncounted _)
  intro _ _
  exact Counts.pure trivial

/-- The number of nodes that splitting a node asks for, for every level it comes to. -/
def splitLoads (manager : ITreeNodeManager S K V) : Nat := manager.minEntriesPerNode + 2

theorem elevate {splitParent : Nat → TreeM S (Nat × Nat)}
    {splitParent' : Nat → TreeM (S × Nat) (Nat × Nat)} {n : Nat}
    (hsplit : ∀ parent, Loads n (splitParent parent) (splitParent' parent)) (parent : Nat)
    (middleEntry : K × V) (this newRightNode : Nat) :
  Loads n (TreeNode.elevate manager splitParent parent middleEntry this newRightNode)
    (TreeNode.elevate (counting manager) splitParent' parent middleEntry this newRightNode)
  := by
  apply Counts.bind_free (insertAsParent _ _ _ _ _)
  intro _ _
  apply Counts.bind_free (setParentId _ _ _)
  intro _ _
  apply Counts.bind_free (Counts.uncounted _)
  intro parentNode _
  apply Counts.ite
  · intro _
    apply Counts.bind_into_free (hsplit parent)
    intro _ _
    exact Counts.pure trivial
  · exact fun _ => Counts.pure trivial

/-- The last part of splitting marks the node. -/
theorem markAsChanged_return (this newRightNode : Nat) :
  Loads 0 (do manager.markAsChanged this; return (this, newRightNode))
    (do (counting manager).markAsChanged this; return (this, newRightNode))
  := Counts.bind_free (Counts.uncounted _) (fun _ _ => Counts.pure trivial)

/-- Splitting asks for nodes on every level that it comes to. -/
theorem split :
  ∀ steps steps' this, steps ≤ steps' →
    Loads (steps * splitLoads manager) (TreeNode.split manager steps this)
      (TreeNode.split (counting manager) steps' this)
  | 0, _, _, _ => Counts.throw_bad _ _ _
  | steps + 1, steps' + 1, this, h => by
      have hloads : (steps + 1) * splitLoads manager
          = (manager.minEntriesPerNode + 1) + (1 + steps * splitLoads manager) := by
        rw [Nat.succ_mul, splitLoads]
        omega
      rw [hloads, TreeNode.split, TreeNode.split]
      apply Counts.bind (halve manager this)
      rintro ⟨middleEntry, newRightNode⟩ _
      apply Counts.bind_free (Counts.uncounted _)
      intro node _
      have hroot : Loads (steps * splitLoads manager)
          (do
            let parent ← manager.createNewRoot middleEntry this newRightNode
            TreeNode.setParentId manager this parent
            TreeNode.setParentId manager newRightNode parent
            manager.markAsChanged this
            return (this, newRightNode))
          (do
            let parent ← (counting manager).createNewRoot middleEntry this newRightNode
            TreeNode.setParentId (counting manager) this parent
            TreeNode.setParentId (counting manager) newRightNode parent
            (counting manager).markAsChanged this
            return (this, newRightNode)) := by
        apply Counts.bind_free (Counts.uncounted _)
        intro parent _
        apply Counts.bind_free (setParentId _ _ _)
        intro _ _
        apply Counts.bind_free (setParentId _ _ _)
        intro _ _
        exact (markAsChanged_return _ _ _).weaken (Nat.zero_le _) (fun _ h => h)
      apply Counts.ite
      · intro _
        apply Counts.bind_free (P := fun parent => parent = none) (Counts.pure rfl)
        rintro _ rfl
        exact hroot.weaken (Nat.le_add_left _ _) (fun _ h => h)
      · intro _
        apply Counts.bind (Counts.counted _)
        intro parent _
        cases parent with
        | none => exact hroot
        | some parent =>
            apply Counts.bind_into_free
            · apply elevate
              intro parent
              exact split steps steps' parent (Nat.le_of_succ_le_succ h)
            · intro _ _
              exact markAsChanged_return _ _ _

end Nodes

section Trees

variable (tree : Tree S K V)

theorem root :
  Loads 0 tree.root tree.counting.root
  := by
  apply Counts.bind_free (Counts.uncounted _)
  intro node _
  cases node with
  | none => exact Counts.throw _ _
  | some node => exact Counts.pure trivial

/-- The descent for an insertion asks for one node on every level. -/
theorem findNodeForInsertion (key : K) :
  ∀ steps steps' node, steps ≤ steps' →
    Loads steps (tree.findNodeForInsertion key steps node)
      (tree.counting.findNodeForInsertion key steps' node)
  | 0, _, _, _ => Counts.throw_bad _ _ _
  | steps + 1, steps' + 1, node, h => by
      have hchild : ∀ i, Loads (steps + 1)
          (do
            let child ← TreeNode.getChildNode tree.nodeManager node i
            tree.findNodeForInsertion key steps child)
          (do
            let child ← TreeNode.getChildNode tree.counting.nodeManager node i
            tree.counting.findNodeForInsertion key steps' child) := by
        intro i
        rw [Nat.add_comm]
        apply Counts.bind (getChildNode tree.nodeManager node i)
        intro child _
        exact findNodeForInsertion key steps steps' child (Nat.le_of_succ_le_succ h)
      rw [Tree.findNodeForInsertion, Tree.findNodeForInsertion]
      apply Counts.bind_free (Counts.uncounted _)
      intro treeNode _
      apply Counts.ite
      · exact fun _ => Counts.pure trivial
      intro _
      change Loads _ _
        (match tree.nodeManager.entrySearch.search treeNode.entries key with
          | .found i => _
          | .missing i => _)
      cases tree.nodeManager.entrySearch.search treeNode.entries key with
      | found i => exact Counts.ite (fun _ => hchild i) (fun _ => Counts.pure trivial)
      | missing i => exact Counts.ite (fun _ => Counts.pure trivial) (fun _ => hchild i)

theorem insertToLeaf {steps steps' : Nat} (h : steps ≤ steps') (leaf : Nat) (entry : K × V)
    (insertPosition : Nat) :
  Loads (steps * splitLoads tree.nodeManager) (tree.insertToLeaf steps leaf entry insertPosition)
    (tree.counting.insertToLeaf steps' leaf entry insertPosition)
  := by
  apply Counts.bind_free (insertAsLeaf _ _ _ _)
  intro _ _
  apply Counts.bind_free (Counts.uncounted _)
  intro leafNode _
  apply Counts.ite
  · intro _
    apply Counts.bind_into_free (split tree.nodeManager steps steps' leaf h)
    intro _ _
    exact Counts.uncounted _
  · exact fun _ => (Counts.uncounted _).weaken (Nat.zero_le _) (fun _ h => h)

theorem insertWithin {steps steps' : Nat} (h : steps ≤ steps') (key : K) (value : V) :
  Loads (steps + steps * splitLoads tree.nodeManager) (tree.insertWithin key value steps)
    (tree.counting.insertWithin key value steps')
  := by
  apply Counts.bind_free (root tree)
  intro node _
  apply Counts.bind (findNodeForInsertion tree key steps steps' node h)
  rintro ⟨leafNode, insertionIndex⟩ _
  cases insertionIndex with
  | found i =>
      exact Counts.ite (fun _ => insertToLeaf tree h _ _ _) (fun _ => Counts.throw _ _)
  | missing i => exact insertToLeaf tree h _ _ _

theorem getWithin {steps steps' : Nat} (h : steps ≤ steps') (key : K) :
  Loads steps (tree.getWithin key steps) (tree.counting.getWithin key steps')
  := by
  apply Counts.bind_free (root tree)
  intro node _
  apply Counts.bind_into_free (findNodeForInsertion tree key steps steps' node h)
  rintro ⟨node, insertionIndex⟩ _
  cases insertionIndex with
  | found i => exact Counts.map some (getEntry _ _ _)
  | missing i => exact Counts.pure trivial

end Trees

end Loads

/-! ### Stored trees -/

section Stored

variable {m : Nat} {contents : List (K × V)} {store : NodeStore K V}

/-- A tree of `n` entries has `d` levels below the root: `2 * (m + 1) ^ d ≤ n + 1`, unless the
root is a leaf. -/
def Low (m n d : Nat) : Prop := d = 0 ∨ 2 * (m + 1) ^ d ≤ n + 1

/-- A stored tree is low, it has few nodes, and the descent to a key ends on one of its
levels. -/
theorem Stores.exists_descent (search : EntrySearch K V) (hm : 1 ≤ m)
    (hstore : Stores m false contents store) :
  ∃ d, Low m contents.length d ∧ m * store.reached.length ≤ contents.length + m
    ∧ d + 1 ≤ store.idCounter
    ∧ ∀ key, ∃ (n next : Nat) (path : UPath (K × V) (n + 1) (d + 1)) (t : UTree (K × V) (n + 1))
      (result : SearchResult), path.around t.contents = contents ∧ path.Full m ∧ path.Fits m t
      ∧ Lands false key path t result ∧ At (allCells path t) (path.rootId t.id) next store
      ∧ Yields (At (allCells path t) (path.rootId t.id) next)
          ((memoryTree m search false).findNodeForInsertion key (d + 1) (path.rootId t.id))
          (t.id, result) (At (allCells path t) (path.rootId t.id) next)
  := by
  obtain ⟨hinOrder, h, next, t, ht, rfl, hat⟩ := hstore
  have hnext := hat.height_lt ht
  rw [← hat.idCounter] at hnext
  cases h with
  | zero => exact t.elim
  | succ d =>
      refine ⟨d, ?_, ?_, Nat.le_of_lt hnext, ?_⟩
      · cases d with
        | zero => exact .inl rfl
        | succ d => exact .inr ht.two_mul_pow_le
      · have hreached : store.reached = t.ids := by
          rw [NodeStore.reached, hat.rootNode]
          exact hat.has.reachedBelow_eq (Nat.le_of_lt hnext)
        rw [hreached]
        exact ht.mul_length_ids_le
      · intro key
        have haround : (UPath.root : UPath (K × V) (d + 1) (d + 1)).around t.contents
            = t.contents := UPath.around_root t.contents
        rw [← haround] at hinOrder
        obtain ⟨n, path, t', result, rfl, hpath, hfits, hlands, hfind⟩ :=
          yields_findNodeForInsertion search t.id next hm .root t trivial ht
            hinOrder (UPath.root_surrounded _ _) (Nat.lt_succ_self d)
        rw [UPath.contents_plug t' hpath] at *
        rw [allCells_plug, UPath.id_plug] at *
        exact ⟨n, next, path, t', result, rfl, hpath, hfits, hlands, hat, hfind⟩

/-- Where the bound is the number of levels, an insertion does not take too many steps. -/
theorem insertWithin_ne_endless {h n next : Nat} {search : EntrySearch K V}
    {path : UPath (K × V) (n + 1) h} {t : UTree (K × V) (n + 1)} {result : SearchResult}
    {key : K} (hm : 1 ≤ m) (hinOrder : InOrder false (path.around t.contents))
    (hpath : path.Full m) (hfits : path.Fits m t) (hlands : Lands false key path t result)
    (hat : At (allCells path t) (path.rootId t.id) next store)
    (hfind : Yields (At (allCells path t) (path.rootId t.id) next)
      ((memoryTree m search false).findNodeForInsertion key h (path.rootId t.id)) (t.id, result)
      (At (allCells path t) (path.rootId t.id) next)) (value : V) (store' : NodeStore K V) :
  (memoryTree m search false).insertWithin key value h store ≠ .error .endless store'
  := by
  have hroot : Yields (At (allCells path t) (path.rootId t.id) next)
      (memoryTree m search false).root (path.rootId t.id)
      (At (allCells path t) (path.rootId t.id) next) := yields_root (allCells path t)
  intro hendless
  cases result with
  | found i =>
      have hthrows : Throws (At (allCells path t) (path.rootId t.id) next)
          ((memoryTree m search false).insertWithin key value h) .keyExists
          (At (allCells path t) (path.rootId t.id) next) := by
        apply Yields.bind_throws hroot
        apply Yields.bind_throws hfind
        exact Throws.throw _ _
      obtain ⟨store'', heq, -⟩ := hthrows store hat
      cases hendless.symm.trans heq
  | missing i =>
      obtain ⟨rfl, before, after, hentries, hposition, hbefore, hafter⟩ :=
        hlands.exists_split (.inr (fun _ h => by cases h)) hinOrder
      have hsplit : path.around t.contents = (path.before ++ before) ++ (after ++ path.after) := by
        rw [UPath.around, UTree.contents_leaf, hentries]
        simp
      rw [hsplit] at hinOrder
      have hinOrder' : InOrder false
          ((path.before ++ before) ++ (key, value) :: (after ++ path.after)) :=
        hinOrder.insert hbefore hafter
      have hlength := path.length_add
      obtain ⟨h', t', hinsert⟩ : ∃ (h' : Nat) (t' : UTree (K × V) h'),
          Yields (At (allCells path t) (path.rootId t.id) next)
            ((memoryTree m search false).insertToLeaf h t.id (key, value) before.length) ()
            (At (allCells .root t') t'.id (next + addedNodes m path t)) := by
        obtain ⟨h', t', -, -, hinsert⟩ := yields_insertToLeaf hm hpath hfits hentries
          (fun _ middle hmiddle => placed_of_inOrder path middle hpath
            (hinOrder'.of_hole (List.mem_of_getElem? hmiddle)))
          (show path.length < h by omega)
        exact ⟨h', t', hinsert⟩
      rw [hposition] at hinsert
      have hyields : Yields (At (allCells path t) (path.rootId t.id) next)
          ((memoryTree m search false).insertWithin key value h) ()
          (At (allCells .root t') t'.id (next + addedNodes m path t)) := by
        apply Yields.bind hroot
        apply Yields.bind hfind
        exact hinsert
      obtain ⟨store'', heq, -⟩ := hyields store hat
      cases hendless.symm.trans heq

/-- Where the bound is the number of levels, getting a key does not take too many steps. -/
theorem getWithin_ne_endless {h n next : Nat} {search : EntrySearch K V}
    {path : UPath (K × V) (n + 1) h} {t : UTree (K × V) (n + 1)} {result : SearchResult}
    {key : K} (hfits : path.Fits m t) (hlands : Lands false key path t result)
    (hat : At (allCells path t) (path.rootId t.id) next store)
    (hfind : Yields (At (allCells path t) (path.rootId t.id) next)
      ((memoryTree m search false).findNodeForInsertion key h (path.rootId t.id)) (t.id, result)
      (At (allCells path t) (path.rootId t.id) next)) (store' : NodeStore K V) :
  (memoryTree m search false).getWithin key h store ≠ .error .endless store'
  := by
  have hyields : ∃ entry, Yields (At (allCells path t) (path.rootId t.id) next)
      ((memoryTree m search false).getWithin key h) entry
      (At (allCells path t) (path.rootId t.id) next) := by
    cases result with
    | found i =>
        obtain ⟨before, e, after, hentries, hi, -, -⟩ := hlands.found_mem hfits
        have hcells := allCells_eq path t
        rw [hentries] at hcells
        refine ⟨some e, Yields.bind (yields_root _) (Yields.bind hfind ?_)⟩
        exact Yields.map some (TreeNode.yields_getEntry hcells (congrArg Nat.cast hi))
    | missing i =>
        exact ⟨none, Yields.bind (yields_root _) (Yields.bind hfind (Yields.pure _ none))⟩
  intro hendless
  obtain ⟨entry, hyields⟩ := hyields
  obtain ⟨store'', heq, -⟩ := hyields store hat
  cases hendless.symm.trans heq

/-- What an operation asks for: it does on a tree that counts what it does otherwise, and asks
for at most the given number of nodes. -/
def AsksFor (m : Nat) (search : EntrySearch K V) (store : NodeStore K V)
    (operation : Operation K V) (n : Nat) : Prop :=
  ∃ loads ≤ n, (memoryTree32 m search false).counting.step (store, 0) operation
    = (((memoryTree32 m search false).step store operation).1,
      ((memoryTree32 m search false).step store operation).2, loads)

/-- Getting a key with a bound on the number of levels creates no nodes. -/
theorem getWithin32 (search : EntrySearch K V) (allow : Bool) (key : K) (steps : Nat) :
  (memoryTree32 m search allow).getWithin key steps
    = (memoryTree m search allow).getWithin key steps
  := by
  simp only [Tree.getWithin, findNodeForInsertion32]
  rfl

/-- Where the levels are few enough to get a key, it asks for at most as many nodes. -/
theorem Stores.asksFor_get {search : EntrySearch K V} {key : K} {d : Nat} (hm : 1 ≤ m)
    (hstore : Stores m false contents store) (hd : d ≤ store.idCounter)
    (hends : ∀ store', (memoryTree m search false).getWithin key d store
      ≠ .error .endless store') :
  AsksFor m search store (.get key) d
  := by
  obtain ⟨entry, hget, -⟩ := hstore.get search hm key
  rw [← getWithin32] at hends
  rw [← get32] at hget
  have hplain : (memoryTree32 m search false).getWithin key store.idCounter store
      = .ok entry store := (congrFun (Tree.get_eq _ key) store).symm.trans hget
  have hwithin : (memoryTree32 m search false).getWithin key d store = .ok entry store := by
    rw [← hplain]
    apply (Loads.getWithin _ hd key).eq_of_ne (Loads.getWithin _ (Nat.le_refl _) key) hends
    exact fun _ hendless => by cases hendless.symm.trans hplain
  obtain ⟨loads, hloads, hcount⟩ :=
    (Loads.getWithin (memoryTree32 m search false) hd key).exists_count hends 0
  refine ⟨loads, hloads, ?_⟩
  rw [hwithin, Nat.zero_add] at hcount
  have hcounting : (memoryTree32 m search false).counting.get key (store, 0)
      = .ok entry (store, loads) := (congrFun (Tree.get_eq _ key) (store, 0)).trans hcount
  simp only [Tree.step, Tree.perform, Functor.map, EStateM.map, hcounting, hget]

/-- Where the levels are few enough to insert a key and the ids last, it asks for at most
`m + 3` times as many nodes. -/
theorem Stores.asksFor_insert {search : EntrySearch K V} {key : K} {value : V} {d : Nat}
    (hm : 1 ≤ m) (hstore : Stores m false contents store) (hcounter : store.idCounter ≤ 2 ^ 32)
    (hlast : IdsLast m search store (.insert key value)) (hd : d ≤ store.idCounter)
    (hends : ∀ store', (memoryTree m search false).insertWithin key value d store
      ≠ .error .endless store') :
  AsksFor m search store (.insert key value) (d * (m + 3))
  := by
  obtain ⟨hbound, hend⟩ := hstore.insert_lasts hm hcounter hlast
  have hplain : (memoryTree m search false).insertWithin key value store.idCounter store
      = (memoryTree m search false).insert key value store :=
    (congrFun (Tree.insert_eq (memoryTree m search false) key value) store).symm
  have hwithin : (memoryTree m search false).insertWithin key value d store
      = (memoryTree m search false).insert key value store := by
    rw [← hplain] at hend ⊢
    exact (Loads.insertWithin _ hd key value).eq_of_ne
      (Loads.insertWithin _ (Nat.le_refl store.idCounter) key value) hends hend
  have hwithin32 : (memoryTree32 m search false).insertWithin key value d store
      = (memoryTree m search false).insert key value store := by
    rw [(SameIds.insertWithin m search false key value d).agrees store (hwithin ▸ hbound), hwithin]
  obtain ⟨loads, hloads, hcount⟩ :=
    (Loads.insertWithin (memoryTree32 m search false) hd key value).exists_count
      (fun store' => hwithin32 ▸ hend store') 0
  have hatMost : d + d * Loads.splitLoads (treeMemoryNodeManager32 m search) = d * (m + 3) := by
    rw [Loads.splitLoads, minEntriesPerNode32_eq, Nat.mul_add d m 3, Nat.mul_add d m 2]
    omega
  refine ⟨loads, hatMost ▸ hloads, ?_⟩
  have hcounting : (memoryTree32 m search false).counting.insert key value (store, 0)
      = (memoryTree32 m search false).counting.insertWithin key value store.idCounter (store, 0) :=
    congrFun (Tree.insert_eq _ key value) (store, 0)
  have hinsert := (SameIds.insertKey m search false key value).agrees store hbound
  rw [← hcounting, hwithin32, ← hinsert, Nat.zero_add] at hcount
  simp only [Tree.step, Tree.perform, bind, EStateM.bind, hcount]
  cases (memoryTree32 m search false).insert key value store with
  | ok _ store' => rfl
  | error exception store' => rfl

/-- Getting a key from a low tree asks for few nodes, and so does inserting one. -/
theorem Stores.asksFor (search : EntrySearch K V) (hm : 1 ≤ m)
    (hstore : Stores m false contents store) (hcounter : store.idCounter ≤ 2 ^ 32) :
  ∃ d, Low m contents.length d ∧ m * store.reached.length ≤ contents.length + m
    ∧ ∀ key, AsksFor m search store (.get key) (d + 1)
        ∧ ∀ value, IdsLast m search store (.insert key value) →
          AsksFor m search store (.insert key value) ((d + 1) * (m + 3))
  := by
  obtain ⟨d, hlow, hnodes, hd, hdescent⟩ := hstore.exists_descent search hm
  refine ⟨d, hlow, hnodes, fun key => ?_⟩
  obtain ⟨n, next, path, t, result, haround, hpath, hfits, hlands, hat, hfind⟩ := hdescent key
  have hinOrder := hstore.1
  rw [← haround] at hinOrder
  constructor
  · exact hstore.asksFor_get hm hd (getWithin_ne_endless hfits hlands hat hfind)
  · intro value hlast
    exact hstore.asksFor_insert hm hcounter hlast hd
      (insertWithin_ne_endless hm hinOrder hpath hfits hlands hat hfind value)

end Stored

/-! ### Runs -/

end Datatent.BTree
