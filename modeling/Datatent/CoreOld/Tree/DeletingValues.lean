import Datatent.CoreOld.Tree.Enumerating
import Datatent.CoreOld.Tree.Removing

/-!
# Deleting the entries with a key and a value

In a tree with duplicate keys `Tree.Delete` is given a value besides the key. A scan from the
key on removes the first entry that matches both, and the next scan begins with a new
enumerator in the tree as the removal has left it. Every scan but the last removes one entry
that matches, so the loop ends, and the other entries stay in their order.
-/

namespace Datatent.BTree

variable {K V : Type} [LinearOrder K] {m h next : Nat} {search : EntrySearch K V}
  {valueComparer : V → V → Int} {key : K} {value : V} {rounds : Nat}

/-- The entry has the key, and a value that compares equal to the given one. -/
def Matches (valueComparer : V → V → Int) (key : K) (value : V) (e : K × V) : Prop :=
  e.1 = key ∧ valueComparer e.2 value = 0

instance : DecidablePred (Matches valueComparer key value : K × V → Prop) :=
  fun e => inferInstanceAs (Decidable (e.1 = key ∧ valueComparer e.2 value = 0))

/-! ### One scan -/

/-- In ordered entries no entry matches from one behind the key on. -/
theorem not_matches_of_lt {e : K × V} {rest : List (K × V)} (hordered : Ordered (e :: rest))
    (hlt : key < e.1) :
  ∀ e' ∈ e :: rest, ¬ Matches valueComparer key value e'
  := by
  intro e' he' hmatches
  have hle : e.1 ≤ e'.1 := by
    rcases List.mem_cons.mp he' with rfl | he'
    · exact le_refl (α := K) _
    · exact (List.pairwise_cons.mp hordered).1 e' he'
  exact ne_of_gt (lt_of_lt_of_le hlt hle) hmatches.1

/-- A round of a scan that has moved to an entry: the scan ends behind the key, removes an entry
with the value, and goes on otherwise. -/
theorem yields_removeNext {t : UTree (K × V) h} {start enumerator : TreeEnumerator K V}
    {e : K × V} {removed : Bool} {Q : NodeStore K V → Prop} (hcurrent : enumerator.current = some e)
    (hmove : Yields (At (allCells .root t) t.id next)
      (TreeEnumerator.moveNext (treeMemoryNodeManager m search) next start) (true, enumerator)
      (At (allCells .root t) t.id next))
    (hrest : Yields (At (allCells .root t) t.id next)
      (if key < e.1 then pure false
        else if valueComparer e.2 value = 0 then do
          TreeNode.remove (treeMemoryNodeManager m search) next enumerator.currentNode
            enumerator.currentEntry
          return true
        else (memoryTree m search true).removeNext valueComparer key value next rounds enumerator)
      removed Q) :
  Yields (At (allCells .root t) t.id next)
    ((memoryTree m search true).removeNext valueComparer key value next (rounds + 1) start)
    removed Q
  := by
  rw [Tree.removeNext]
  apply Yields.bind hmove
  dsimp only
  rw [if_pos rfl, hcurrent]
  exact hrest

/-- An enumerator that moves through entries from the key on removes one that matches, if there
is one, and leaves the tree as it is otherwise. -/
theorem exists_removeNext (hm : 1 ≤ m) {t : UTree (K × V) h} (ht : t.Rooted m)
    (hsteps : h < next) (valueComparer : V → V → Int) (value : V) :
  ∀ {rest passed : List (K × V)} {start : TreeEnumerator K V}
    {result : Bool × TreeEnumerator K V} {rounds : Nat}, AtNext t passed rest result →
      Yields (At (allCells .root t) t.id next)
        (TreeEnumerator.moveNext (treeMemoryNodeManager m search) next start) result
        (At (allCells .root t) t.id next) →
      (∀ e ∈ rest, key ≤ e.1) → Ordered rest → rest.length < rounds →
      (∃ before e after, rest = before ++ e :: after ∧ Matches valueComparer key value e
        ∧ ∃ (h' : Nat) (t' : UTree (K × V) h'), t'.Rooted m
          ∧ t'.contents = passed ++ before ++ after
          ∧ Yields (At (allCells .root t) t.id next)
              ((memoryTree m search true).removeNext valueComparer key value next rounds start)
              true (At (allCells .root t') t'.id next))
      ∨ ((∀ e ∈ rest, ¬ Matches valueComparer key value e)
        ∧ Yields (At (allCells .root t) t.id next)
            ((memoryTree m search true).removeNext valueComparer key value next rounds start)
            false (At (allCells .root t) t.id next))
  | [], passed, start, ⟨moved, enumerator⟩, rounds + 1, hnext, hmove, _, _, _ => by
      obtain rfl : moved = false := hnext
      right
      constructor
      · intro e he
        cases he
      · rw [Tree.removeNext]
        apply Yields.bind hmove
        exact Yields.pure _ false
  | e :: rest, passed, start, ⟨moved, ⟨node, entry, current, done⟩⟩, rounds + 1, hnext, hmove,
      hkeys, hordered, hrounds => by
      obtain ⟨rfl, rfl, rfl, i, rfl, hplace⟩ := hnext
      by_cases hlt : key < e.1
      · right
        refine ⟨not_matches_of_lt hordered hlt, yields_removeNext rfl hmove ?_⟩
        apply Yields.ite_pos hlt
        exact Yields.pure _ false
      · have hkey : e.1 = key :=
          le_antisymm (le_of_not_gt hlt) (hkeys e List.mem_cons_self)
        by_cases hvalue : valueComparer e.2 value = 0
        · left
          obtain ⟨h', t', hrooted, hcontents, hremove⟩ :=
            (Located.of_place ht hplace).yields_remove hm hsteps
          refine ⟨[], e, rest, rfl, ⟨hkey, hvalue⟩, h', t', hrooted, ?_,
            yields_removeNext rfl hmove ?_⟩
          · rw [hcontents, List.append_nil]
          · apply Yields.ite_neg hlt
            apply Yields.ite_pos hvalue
            exact Yields.bind hremove (Yields.pure _ true)
        · obtain ⟨result, hnext', hmove'⟩ :=
            exists_moveNext_of_place search m t.id next (some e) hplace hsteps
          have hscan := exists_removeNext hm ht hsteps valueComparer value hnext' hmove'
            (fun e' he' => hkeys e' (List.mem_cons_of_mem e he'))
            (List.pairwise_cons.mp hordered).2 (Nat.lt_of_succ_lt_succ hrounds)
          rcases hscan with
            ⟨before, e', after, rfl, hmatches, h', t', hrooted, hcontents, hyields⟩
            | ⟨hnone, hyields⟩
          · left
            refine ⟨e :: before, e', after, rfl, hmatches, h', t', hrooted, ?_,
              yields_removeNext rfl hmove ?_⟩
            · rw [hcontents, List.append_cons passed e before]
            · apply Yields.ite_neg hlt
              apply Yields.ite_neg hvalue
              exact hyields
          · right
            constructor
            · intro e' he' hmatches
              rcases List.mem_cons.mp he' with rfl | he'
              · exact hvalue hmatches.2
              · exact hnone e' he' hmatches
            · apply yields_removeNext rfl hmove
              apply Yields.ite_neg hlt
              apply Yields.ite_neg hvalue
              exact hyields

section Scans

variable {contents : List (K × V)} {store : NodeStore K V}

/-- One scan of a stored tree: `true` is returned when an entry was removed. -/
theorem Stores.removeFirst (search : EntrySearch K V) (hm : 1 ≤ m)
    (hstore : Stores m true contents store) (valueComparer : V → V → Int) (key : K) (value : V)
    (hrounds : contents.length < rounds) :
  (∃ before e after store', contents = before ++ e :: after ∧ Matches valueComparer key value e
      ∧ (memoryTree m search true).removeFirst valueComparer key value rounds store
        = .ok true store'
      ∧ Stores m true (before ++ after) store')
    ∨ ((∀ e ∈ contents, ¬ Matches valueComparer key value e)
      ∧ (memoryTree m search true).removeFirst valueComparer key value rounds store
        = .ok false store)
  := by
  have hinOrder := hstore.1
  obtain ⟨h, next, t, passed, rest, enumerator, result, rfl, ht, hnext, hat, hsplit, hpassed,
    hkeys, hmoved, hlarger, hmove⟩ := hstore.exists_first search hm key
  have hprefix : ∀ {removed : Bool} {Q : NodeStore K V → Prop},
      Yields (At (allCells .root t) t.id next)
        ((memoryTree m search true).removeNext valueComparer key value next rounds enumerator)
        removed Q →
      Yields (At (allCells .root t) t.id next)
        ((memoryTree m search true).removeFirst valueComparer key value rounds) removed Q := by
    intro removed Q hrest
    apply Yields.bind hlarger
    apply Yields.bind (yields_steps _)
    exact hrest
  rw [hsplit] at hinOrder hrounds ⊢
  have hordered : Ordered rest :=
    hinOrder.ordered.sublist (List.sublist_append_right passed rest)
  have hbound : rest.length < rounds := by
    rw [List.length_append] at hrounds
    omega
  rcases exists_removeNext hm ht hnext valueComparer value hmoved hmove hkeys hordered hbound with
    ⟨before, e, after, rfl, hmatches, h', t', hrooted, hcontents, hyields⟩ | ⟨hnone, hyields⟩
  · left
    obtain ⟨store', heq, hat'⟩ := hprefix hyields store hat
    refine ⟨passed ++ before, e, after, store', ?_, hmatches, heq, ?_, h', next, t', hrooted,
      hcontents, hat'⟩
    · rw [List.append_assoc]
    · rw [← List.append_assoc] at hinOrder
      exact hinOrder.sublist
        ((List.sublist_cons_self e after).append_left (passed ++ before))
  · right
    constructor
    · intro e he hmatches
      rcases List.mem_append.mp he with he | he
      · exact ne_of_lt (hpassed e he) hmatches.1
      · exact hnone e he hmatches
    · obtain ⟨store', heq, hat'⟩ := hprefix hyields store hat
      rw [heq, hat.unique hat']

/-! ### All scans -/

omit [LinearOrder K] in
/-- Removing an entry that is filtered out anyway. -/
theorem filter_append_cons {p : K × V → Prop} [DecidablePred p] {before after : List (K × V)}
    {e : K × V} (he : ¬ p e) :
  (before ++ e :: after).filter (fun e => p e) = (before ++ after).filter (fun e => p e)
  := by
  rw [List.filter_append, List.filter_append, List.filter_cons_of_neg (by simpa using he)]

omit [LinearOrder K] in
/-- One entry fewer is left when an entry that is not filtered out is removed. -/
theorem length_filter_append_cons {p : K × V → Prop} [DecidablePred p]
    {before after : List (K × V)} {e : K × V} (he : p e) :
  ((before ++ e :: after).filter (fun e => p e)).length
    = ((before ++ after).filter (fun e => p e)).length + 1
  := by
  rw [List.filter_append, List.filter_append, List.filter_cons_of_pos (by simpa using he),
    List.length_append, List.length_append, List.length_cons, Nat.add_assoc]

/-- The scans come to an end with a number of rounds above the number of entries that match,
and leave the entries that do not. -/
theorem Stores.removeAll (search : EntrySearch K V) (hm : 1 ≤ m) (valueComparer : V → V → Int)
    (key : K) (value : V) :
  ∀ {scans : Nat} {contents : List (K × V)} {store : NodeStore K V} (deleted : Bool),
    Stores m true contents store → contents.length < rounds →
      (contents.filter (fun e => Matches valueComparer key value e)).length < scans →
        ∃ returned store', (memoryTree m search true).removeAll valueComparer key value rounds
              scans deleted store = .ok returned store'
          ∧ (returned = true
            ↔ deleted = true ∨ ∃ e ∈ contents, Matches valueComparer key value e)
          ∧ Stores m true (contents.filter (fun e => ¬ Matches valueComparer key value e)) store'
  | scans + 1, contents, store, deleted, hstore, hrounds, hscans => by
      rcases hstore.removeFirst search hm valueComparer key value hrounds with
        ⟨before, e, after, store', rfl, hmatches, hremove, hstore'⟩ | ⟨hnone, hremove⟩
      · have hrounds' : (before ++ after).length < rounds := by
          rw [List.length_append, List.length_cons] at hrounds
          rw [List.length_append]
          omega
        rw [length_filter_append_cons hmatches] at hscans
        obtain ⟨returned, store'', hall, hreturned, hstore''⟩ :=
          Stores.removeAll search hm valueComparer key value true hstore' hrounds'
            (Nat.lt_of_succ_lt_succ hscans)
        refine ⟨returned, store'', ?_, ?_, ?_⟩
        · rw [← hall, Tree.removeAll, EStateM.bind_apply_of_ok hremove]
          rfl
        · constructor
          · intro _
            right
            exact ⟨e, List.mem_append_right before List.mem_cons_self, hmatches⟩
          · intro _
            exact hreturned.mpr (.inl rfl)
        · rw [filter_append_cons (not_not_intro hmatches)]
          exact hstore''
      · use deleted, store
        refine ⟨?_, ?_, ?_⟩
        · rw [Tree.removeAll, EStateM.bind_apply_of_ok hremove]
          rfl
        · constructor
          · exact .inl
          · rintro (hdeleted | ⟨e, he, hmatches⟩)
            · exact hdeleted
            · exact absurd hmatches (hnone e he)
        · rw [List.filter_eq_self.mpr (fun e he => decide_eq_true (hnone e he))]
          exact hstore

/-- Deleting a key and a value ends, returns `true` exactly if an entry matches both, and
leaves a tree with the other entries in their order. -/
theorem Stores.deleteValue_removesMatches (search : EntrySearch K V) (hm : 1 ≤ m)
    (hstore : Stores m true contents store) (valueComparer : V → V → Int) (key : K) (value : V)
    (hrounds : contents.length < rounds) :
  ∃ returned store', (memoryTree m search true).deleteValue valueComparer rounds key value store
      = .ok returned store'
    ∧ (returned = true ↔ ∃ e ∈ contents, Matches valueComparer key value e)
    ∧ Stores m true (contents.filter (fun e => ¬ Matches valueComparer key value e)) store'
  := by
  have hscans : (contents.filter (fun e => Matches valueComparer key value e)).length < rounds :=
    lt_of_le_of_lt (List.length_filter_le _ contents) hrounds
  obtain ⟨returned, store', hall, hreturned, hstore'⟩ :=
    Stores.removeAll search hm valueComparer key value false hstore hrounds hscans
  refine ⟨returned, store', ?_, ?_, hstore'⟩
  · rw [Tree.deleteValue, memoryTree, if_pos rfl]
    exact EStateM.bind_apply_of_ok hall _
  · rw [hreturned, or_iff_right Bool.false_ne_true]

/-- Values that compare equal when both are even or both are odd. -/
def parityComparer (value value' : Nat) : Int :=
  (value % 2 : Int) - (value' % 2 : Int)

/-- Deleting the odd values of a key that is in several nodes. -/
theorem deleteValue_parity :
  ∃ store', (memoryTree 1 listBinarySearch true).deleteValue parityComparer 5 1 1 equalStore
      = .ok true store'
    ∧ Stores 1 true [(1, 0), (2, 2)] store'
  := by
  have hrounds : equalStore.walk.length < 5 := by decide +kernel
  obtain ⟨returned, store', hdelete, hreturned, hstore'⟩ :=
    Stores.deleteValue_removesMatches listBinarySearch (Nat.le_refl 1) stores_equalStore
      parityComparer 1 1 hrounds
  have hmatches : ∃ e ∈ equalStore.walk, Matches parityComparer 1 1 e :=
    ⟨(1, 1), by decide +kernel, rfl, by decide⟩
  have hcontents : equalStore.walk.filter (fun e => ¬ Matches parityComparer 1 1 e)
      = [(1, 0), (2, 2)] := by
    decide +kernel
  rw [hreturned.mpr hmatches] at hdelete
  rw [hcontents] at hstore'
  exact ⟨store', hdelete, hstore'⟩

end Scans

end Datatent.BTree
