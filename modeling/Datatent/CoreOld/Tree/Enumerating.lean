import Datatent.CoreOld.Tree.Duplicates
import Datatent.CoreOld.Tree.Scanning

/-!
# Ranges

The entries from a key on, behind it, up to it and before it are enumerated from the place
where the descent of the iteration ends. On every B-tree, whatever the number of entries of
its nodes and with duplicate keys or without, the four enumerations give exactly the entries
of their range.
-/

namespace Datatent.BTree

variable {K V : Type} [LinearOrder K]

/-- The state stores a tree whose leaves are all at one depth, whose nodes have one child more
than entries and, but for a leaf at the top, at least one entry, and whose entries are in
order. -/
def IsBTree (store : NodeStore K V) : Prop :=
  ∃ (n next : Nat) (t : UTree (K × V) (n + 1)), t.SoundTop ∧ Ordered t.contents
    ∧ At (allCells .root t) t.id next store

/-- Every state that stores entries in a tree with nodes of some size is one of a B-tree. -/
theorem Stores.isBTree {m : Nat} {allow : Bool} {contents : List (K × V)}
    {store : NodeStore K V} (hm : 1 ≤ m) (hstore : Stores m allow contents store) :
  IsBTree store
  := by
  obtain ⟨hinOrder, h, next, t, hrooted, rfl, hat⟩ := hstore
  cases h with
  | zero => exact t.elim
  | succ n => exact ⟨n, next, t, UPath.Fits.soundTop hm hrooted, hinOrder.ordered, hat⟩

/-! ### Enumerations -/

section Enumerations

variable {m n next : Nat} {allow : Bool} {key : K} {t : UTree (K × V) (n + 1)}
  {store : NodeStore K V}

omit [LinearOrder K] in
/-- The walk through a stored tree gives its contents. -/
theorem At.walk_eq (hat : At (allCells .root t) t.id next store) (ht : t.Joined) :
  store.walk = t.contents
  := by
  have hnext := hat.joined_lt ht
  rw [← hat.idCounter] at hnext
  rw [NodeStore.walk, hat.rootNode]
  exact hat.has.walkBelow_eq (Nat.le_of_lt hnext)

/-- The place where an iteration from a key starts: the enumerator comes to the entries on its
right in ascending direction, and to those on its left in descending direction. -/
theorem exists_start (search : EntrySearch K V) (m : Nat) (allow moveLeft : Bool) (key : K)
    (hat : At (allCells .root t) t.id next store) (ht : t.SoundTop)
    (hordered : Ordered t.contents) :
  ∃ (left right : List (K × V)) (id : Nat) (result : SearchResult), t.contents = left ++ right
    ∧ (∀ e ∈ left, OnLeft moveLeft key e) ∧ (∀ e ∈ right, OnRight moveLeft key e)
    ∧ Yields (At (allCells .root t) t.id next)
        ((memoryTree m search allow).findNodeForIteration key moveLeft next t.id) (id, result)
        (At (allCells .root t) t.id next)
    ∧ Comes m t.id next search t .ascending next right
        { currentNode := id, currentEntry := (result.start moveLeft : Int) - 1, current := none,
          doneIterating := false }
    ∧ Comes m t.id next search t .decending next left.reverse
        { currentNode := id, currentEntry := result.start moveLeft, current := none,
          doneIterating := false }
  := by
  have hnext := hat.joined_lt ht.joined
  have haround : Ordered ((UPath.root : UPath (K × V) (n + 1) (n + 1)).around t.contents) := by
    rw [UPath.around_root]
    exact hordered
  obtain ⟨path, leaf, result, before, after, hplug, hstarts, hfind⟩ :=
    exists_findNodeForIteration search allow moveLeft key m t.id next .root t trivial ht
      (fun hne => absurd rfl hne) haround (UPath.root_surrounded _ _) (Nat.lt_of_succ_lt hnext)
  have htree : path.plug leaf = t := hplug
  have hcells : allCells path leaf = allCells .root t := by rw [← allCells_plug, htree]
  have hsteps : path.length < next := by
    have hlength := path.length_add
    omega
  obtain ⟨forward, hforward, hmoveNext⟩ := exists_moveForward_leaf search m t.id next none
    hstarts.sound hstarts.leafSound hstarts.entries hsteps
  obtain ⟨backward, hbackward, hmoveBackward⟩ := exists_moveBackward_leaf search m t.id next none
    hstarts.sound hstarts.leafSound hstarts.entries hsteps
  rw [htree] at hforward hbackward
  rw [hcells, hstarts.position] at hmoveNext hmoveBackward
  refine ⟨path.before ++ before, after ++ path.after, leaf.id, result, ?_, hstarts.left,
    hstarts.right, hfind, ?_, ?_⟩
  · rw [← htree, hstarts.contents_eq]
  · exact comes_of_atNext search m t.id next hnext hforward hmoveNext
  · exact comes_of_atPrevious search m t.id next hnext hbackward hmoveBackward

/-- An enumeration gives the entries that its enumerator comes to. -/
theorem Comes.enumerate {search : EntrySearch K V} {direction : TreeTraverseDirection}
    {start : TreeM (NodeStore K V) (TreeEnumerator K V)} {enumerator : TreeEnumerator K V}
    {entries : List (K × V)} {rounds : Nat}
    (hcomes : Comes m t.id next search t direction next entries enumerator)
    (hstart : Yields (At (allCells .root t) t.id next) start enumerator
      (At (allCells .root t) t.id next)) (hrounds : entries.length < rounds)
    (hat : At (allCells .root t) t.id next store) :
  (memoryTree m search allow).enumerate direction start rounds store = .ok entries store
  := by
  have hyields : Yields (At (allCells .root t) t.id next)
      ((memoryTree m search allow).enumerate direction start rounds) entries
      (At (allCells .root t) t.id next) := by
    apply Yields.bind hstart
    apply Yields.bind (yields_steps _)
    exact hcomes.toList hrounds
  obtain ⟨store', heq, hat'⟩ := hyields store hat
  rw [heq, hat.unique hat']

omit [LinearOrder K] in
/-- The parts of a list on the two sides of a place are given by what holds on each side. -/
theorem filter_sides {left right : List (K × V)} {p q : K × V → Prop} [DecidablePred p]
    [DecidablePred q] (hleft : ∀ e ∈ left, p e) (hright : ∀ e ∈ right, q e)
    (hsides : ∀ e, p e → ¬ q e) :
  (left ++ right).filter (fun e => decide (p e)) = left
    ∧ (left ++ right).filter (fun e => decide (q e)) = right
  := by
  have hleft' : ∀ e ∈ left, ¬ q e := fun e he => hsides e (hleft e he)
  have hright' : ∀ e ∈ right, ¬ p e := fun e he hp => hsides e hp (hright e he)
  constructor
  · rw [List.filter_append, List.filter_eq_self.mpr, List.filter_eq_nil_iff.mpr,
      List.append_nil]
    · simpa using hright'
    · simpa using hleft
  · rw [List.filter_append, List.filter_eq_nil_iff.mpr, List.filter_eq_self.mpr,
      List.nil_append]
    · simpa using hright
    · simpa using hleft'

/-- The enumerations from a key on and before it, each of them to its end. -/
theorem enumerate_at (search : EntrySearch K V) (m : Nat) (allow : Bool) (key : K) {rounds : Nat}
    (hat : At (allCells .root t) t.id next store) (ht : t.SoundTop)
    (hordered : Ordered t.contents) (hrounds : t.contents.length < rounds) :
  (memoryTree m search allow).enumerate .ascending
      ((memoryTree m search allow).largerThanOrEqualTo key) rounds store
      = .ok (t.contents.filter (fun e => key ≤ e.1)) store
    ∧ (memoryTree m search allow).enumerate .decending
        ((memoryTree m search allow).lessThan key) rounds store
        = .ok (t.contents.filter (fun e => e.1 < key)).reverse store
  := by
  obtain ⟨left, right, id, result, hcontents, hleft, hright, hfind, hascending, hdecending⟩ :=
    exists_start search m allow true key hat ht hordered
  rw [hcontents] at hrounds ⊢
  rw [List.length_append] at hrounds
  have hsides := filter_sides (p := fun e => e.1 < key) (q := fun e => key ≤ e.1) hleft hright
    (fun e => not_le_of_gt)
  rw [hsides.1, hsides.2]
  constructor
  · apply hascending.enumerate _ (Nat.lt_of_le_of_lt (Nat.le_add_left _ _) hrounds) hat
    apply Yields.bind (yields_steps _)
    apply Yields.bind (yields_root _)
    apply Yields.bind hfind
    exact Yields.pure _ _
  · apply hdecending.enumerate _ _ hat
    · apply Yields.bind (yields_steps _)
      apply Yields.bind (yields_root _)
      apply Yields.bind hfind
      exact Yields.pure _ _
    · rw [List.length_reverse]
      exact Nat.lt_of_le_of_lt (Nat.le_add_right _ _) hrounds

/-- The enumerations behind a key and up to it, each of them to its end. -/
theorem enumerate_behind (search : EntrySearch K V) (m : Nat) (allow : Bool) (key : K)
    {rounds : Nat} (hat : At (allCells .root t) t.id next store) (ht : t.SoundTop)
    (hordered : Ordered t.contents) (hrounds : t.contents.length < rounds) :
  (memoryTree m search allow).enumerate .ascending
      ((memoryTree m search allow).largerThan key) rounds store
      = .ok (t.contents.filter (fun e => key < e.1)) store
    ∧ (memoryTree m search allow).enumerate .decending
        ((memoryTree m search allow).lessThanOrEqualTo key) rounds store
        = .ok (t.contents.filter (fun e => e.1 ≤ key)).reverse store
  := by
  obtain ⟨left, right, id, result, hcontents, hleft, hright, hfind, hascending, hdecending⟩ :=
    exists_start search m allow false key hat ht hordered
  rw [hcontents] at hrounds ⊢
  rw [List.length_append] at hrounds
  have hsides := filter_sides (p := fun e => e.1 ≤ key) (q := fun e => key < e.1) hleft hright
    (fun e => not_lt_of_ge)
  rw [hsides.1, hsides.2]
  constructor
  · apply hascending.enumerate _ (Nat.lt_of_le_of_lt (Nat.le_add_left _ _) hrounds) hat
    apply Yields.bind (yields_steps _)
    apply Yields.bind (yields_root _)
    apply Yields.bind hfind
    cases result with
    | found i =>
        have hpassed : ((SearchResult.found i).start false : Int) - 1 = i := by
          exact Int.add_sub_cancel i 1
        rw [hpassed]
        exact Yields.pure _ _
    | missing i => exact Yields.pure _ _
  · apply hdecending.enumerate _ _ hat
    · apply Yields.bind (yields_steps _)
      apply Yields.bind (yields_root _)
      apply Yields.bind hfind
      cases result with
      | found i => exact Yields.pure _ _
      | missing i => exact Yields.pure _ _
    · rw [List.length_reverse]
      exact Nat.lt_of_le_of_lt (Nat.le_add_right _ _) hrounds

/-- On every B-tree the enumerations of the four ranges of a key come to an end, and give the
entries of their range in order or in reverse order. -/
theorem IsBTree.enumerate_ranges (search : EntrySearch K V) (m : Nat) (allow : Bool) (key : K)
    {rounds : Nat} (hstore : IsBTree store) (hrounds : store.walk.length < rounds) :
  (memoryTree m search allow).enumerate .ascending
      ((memoryTree m search allow).largerThanOrEqualTo key) rounds store
      = .ok (store.walk.filter (fun e => key ≤ e.1)) store
    ∧ (memoryTree m search allow).enumerate .ascending
        ((memoryTree m search allow).largerThan key) rounds store
        = .ok (store.walk.filter (fun e => key < e.1)) store
    ∧ (memoryTree m search allow).enumerate .decending
        ((memoryTree m search allow).lessThanOrEqualTo key) rounds store
        = .ok (store.walk.filter (fun e => e.1 ≤ key)).reverse store
    ∧ (memoryTree m search allow).enumerate .decending
        ((memoryTree m search allow).lessThan key) rounds store
        = .ok (store.walk.filter (fun e => e.1 < key)).reverse store
  := by
  obtain ⟨n, next, t, ht, hordered, hat⟩ := hstore
  rw [hat.walk_eq ht.joined] at hrounds ⊢
  obtain ⟨hlargerOrEqual, hless⟩ := enumerate_at search m allow key hat ht hordered hrounds
  obtain ⟨hlarger, hlessOrEqual⟩ := enumerate_behind search m allow key hat ht hordered hrounds
  exact ⟨hlargerOrEqual, hlarger, hlessOrEqual, hless⟩

/-- Entries with one key in two leaves and the node above them. -/
def equalEntries : List (Nat × Nat) :=
  [(1, 0), (1, 1), (2, 2), (1, 3)]

/-- The state after inserting these entries to a tree with duplicate keys. -/
def equalStore : NodeStore Nat Nat :=
  Run.final (insertStep 1 listBinarySearch) NodeStore.init equalEntries

/-- The state stores a tree with the entries of its walk. -/
theorem stores_equalStore :
  Stores 1 true equalStore.walk equalStore
  := by
  have hrun : Run.Along (insertStep 1 listBinarySearch)
      (fun store entry => insertionFindsPlaces 1 listBinarySearch store entry = true)
      NodeStore.init equalEntries :=
    ⟨by decide, by decide, by decide, by decide, trivial⟩
  obtain ⟨contents, -, hstore⟩ := stores_run (Nat.le_refl 1) (stores_init 1 true) hrun
  have hstores : Stores 1 true contents equalStore := hstore
  rw [hstores.walk_eq]
  exact hstores

theorem equalStore_isBTree :
  IsBTree equalStore
  := by
  exact stores_equalStore.isBTree (Nat.le_refl 1)

/-- The entries up to a key that is in several nodes, in descending direction. -/
theorem enumerate_ranges_equal :
  (memoryTree 1 listBinarySearch true).enumerate .decending
      ((memoryTree 1 listBinarySearch true).lessThanOrEqualTo 1) 5 equalStore
    = .ok (equalStore.walk.filter (fun e => e.1 ≤ 1)).reverse equalStore
  := by
  have hrounds : equalStore.walk.length < 5 := by decide +kernel
  exact (equalStore_isBTree.enumerate_ranges listBinarySearch 1 true 1 hrounds).2.2.1

end Enumerations

end Datatent.BTree
