import Mathlib.Data.List.TakeDrop
import Mathlib.Order.Lattice

/-!
# Searching entries

The entries of a node are pairs of a key and a value. `List.BinarySearch` looks for a key
among entries in order of their keys; among several entries with the key it may return any.
`binarySearchFirst` and `binarySearchLast` go on to the first and to the last of them.
-/

namespace Datatent.BTree

variable {K V : Type}

/-- What `List.BinarySearch` returns: the index of an entry, or (as a complement) the position
where an entry with the key would be inserted. -/
inductive SearchResult where
  | found (index : Nat)
  | missing (position : Nat)
deriving DecidableEq, Repr

/-- The index or the position: `result >= 0 ? result : ~result`. -/
def SearchResult.position : SearchResult → Nat
  | found i => i
  | missing i => i

variable [LinearOrder K]

/-- Entries whose keys do not decrease. -/
def Ordered (entries : List (K × V)) : Prop :=
  entries.Pairwise (fun e e' => e.1 ≤ e'.1)

/-- A result that gives an entry with the key, or the position where one would be inserted. -/
def Answers (entries : List (K × V)) (key : K) : SearchResult → Prop
  | .found i => ∃ e, entries[i]? = some e ∧ e.1 = key
  | .missing i => i ≤ entries.length ∧ (∀ e ∈ entries.take i, e.1 < key)
      ∧ ∀ e ∈ entries.drop i, key < e.1

/-- A search for a key that does what is documented of `List.BinarySearch` on ordered
entries. -/
structure EntrySearch (K V : Type) [LinearOrder K] where
  search : List (K × V) → K → SearchResult
  answers : ∀ {entries : List (K × V)} (key : K), Ordered entries →
    Answers entries key (search entries key)

namespace EntrySearch

variable {find : EntrySearch K V} {entries : List (K × V)} {key : K} {i : Nat}

/-- A found entry with the entries before and after it. -/
theorem split_of_found (hordered : Ordered entries) (h : find.search entries key = .found i) :
  ∃ before e after, entries = before ++ e :: after ∧ before.length = i ∧ e.1 = key
  := by
  have hanswers := find.answers key hordered
  rw [h] at hanswers
  obtain ⟨e, he, hkey⟩ := hanswers
  obtain ⟨hi, rfl⟩ := List.getElem?_eq_some_iff.mp he
  refine ⟨entries.take i, entries[i], entries.drop (i + 1), ?_, ?_, hkey⟩
  · rw [List.getElem_cons_drop, List.take_append_drop]
  · rw [List.length_take]
    omega

/-- The entries before and after the position of a missing key. -/
theorem split_of_missing (hordered : Ordered entries)
    (h : find.search entries key = .missing i) :
  ∃ before after, entries = before ++ after ∧ before.length = i
    ∧ (∀ e ∈ before, e.1 < key) ∧ ∀ e ∈ after, key < e.1
  := by
  have hanswers := find.answers key hordered
  rw [h] at hanswers
  obtain ⟨hi, hbefore, hafter⟩ := hanswers
  refine ⟨entries.take i, entries.drop i, (List.take_append_drop i entries).symm, ?_, hbefore,
    hafter⟩
  rw [List.length_take]
  omega

/-- A missing key is missing between the entries up to and those from it on. -/
theorem missing_eq {before after : List (K × V)} (hordered : Ordered (before ++ after))
    (hbefore : ∀ e ∈ before, e.1 ≤ key) (hafter : ∀ e ∈ after, key ≤ e.1)
    (h : find.search (before ++ after) key = .missing i) :
  i = before.length
  := by
  obtain ⟨es, es', hsplit, rfl, hes, hes'⟩ := split_of_missing hordered h
  rcases List.append_eq_append_iff.mp hsplit with ⟨l, rfl, hl⟩ | ⟨l, rfl, hl⟩
  · cases l with
    | nil => rw [List.append_nil]
    | cons e l =>
        have hlt := hes e (List.mem_append_right before List.mem_cons_self)
        have hle := hafter e (by rw [hl]; exact List.mem_cons_self)
        exact absurd hlt (not_lt_of_ge hle)
  · cases l with
    | nil => rw [List.append_nil]
    | cons e l =>
        have hle := hbefore e (List.mem_append_right es List.mem_cons_self)
        have hlt := hes' e (by rw [hl]; exact List.mem_cons_self)
        exact absurd hlt (not_lt_of_ge hle)

/-- The position of a key between the entries below and those above it. -/
theorem position_eq {before after : List (K × V)} (hordered : Ordered (before ++ after))
    (hbefore : ∀ e ∈ before, e.1 < key) (hafter : ∀ e ∈ after, key < e.1) :
  (find.search (before ++ after) key).position = before.length
  := by
  cases hsearch : find.search (before ++ after) key with
  | found i =>
      obtain ⟨es, e, es', hsplit, -, hkey⟩ := split_of_found hordered hsearch
      have hmem : e ∈ before ++ after := by
        rw [hsplit]
        exact List.mem_append_right es List.mem_cons_self
      rcases List.mem_append.mp hmem with hmem | hmem
      · exact absurd hkey (ne_of_lt (hbefore e hmem))
      · exact absurd hkey (ne_of_gt (hafter e hmem))
  | missing i =>
      exact missing_eq hordered (fun e he => le_of_lt (hbefore e he))
        (fun e he => le_of_lt (hafter e he)) hsearch

/-- Without entries there is only one position. -/
theorem search_nil :
  find.search [] key = .missing 0
  := by
  have hanswers := find.answers key (List.Pairwise.nil : Ordered ([] : List (K × V)))
  cases hsearch : find.search [] key with
  | found i =>
      rw [hsearch] at hanswers
      obtain ⟨e, he, -⟩ := hanswers
      cases he
  | missing i =>
      rw [hsearch] at hanswers
      rw [Nat.le_zero.mp hanswers.1]

end EntrySearch

/-! ### First and last occurrences -/

/-- Move from an index back as long as the entry before has the key. -/
def moveBack (entries : List (K × V)) (key : K) : Nat → Nat
  | 0 => 0
  | i + 1 =>
      match entries[i]? with
      | some e => if e.1 = key then moveBack entries key i else i + 1
      | none => i + 1

/-- Move from an index on as long as the entry after has the key, for at most the given
number of entries. -/
def moveOn (entries : List (K × V)) (key : K) : Nat → Nat → Nat
  | 0, i => i
  | n + 1, i =>
      match entries[i + 1]? with
      | some e => if e.1 = key then moveOn entries key n (i + 1) else i
      | none => i

/-- The search that returns the first of several entries with the key. -/
def binarySearchFirst (find : EntrySearch K V) (entries : List (K × V)) (key : K) :
    SearchResult :=
  match find.search entries key with
  | .found i => .found (moveBack entries key i)
  | .missing i => .missing i

/-- The search that returns the last of several entries with the key. -/
def binarySearchLast (find : EntrySearch K V) (entries : List (K × V)) (key : K) :
    SearchResult :=
  match find.search entries key with
  | .found i => .found (moveOn entries key entries.length i)
  | .missing i => .missing i

/-- Moving back from an entry with the key comes to the first such entry. -/
theorem moveBack_spec {entries : List (K × V)} {key : K} (hordered : Ordered entries) :
  ∀ {i : Nat} {e : K × V}, entries[i]? = some e → e.1 = key →
    (∃ e, entries[moveBack entries key i]? = some e ∧ e.1 = key)
      ∧ ∀ e ∈ entries.take (moveBack entries key i), e.1 < key
  | 0, e, he, hkey => by
      refine ⟨⟨e, he, hkey⟩, ?_⟩
      rw [moveBack, List.take_zero]
      simp
  | i + 1, e, he, hkey => by
      obtain ⟨hi, rfl⟩ := List.getElem?_eq_some_iff.mp he
      have hbefore : entries[i]? = some entries[i] := List.getElem?_eq_getElem (by omega)
      rw [moveBack, hbefore]
      dsimp only
      split
      · rename_i hsame
        exact moveBack_spec hordered hbefore hsame
      · rename_i hne
        refine ⟨⟨_, he, hkey⟩, ?_⟩
        intro e' hmem
        obtain ⟨j, hj, rfl⟩ := List.getElem_of_mem hmem
        rw [List.length_take] at hj
        rw [List.getElem_take]
        have hle : entries[i].1 ≤ key := by
          rw [← hkey]
          exact List.pairwise_iff_getElem.mp hordered _ _ _ _ (by omega)
        have hlast : entries[i].1 < key := lt_of_le_of_ne hle hne
        rcases Nat.lt_or_eq_of_le (show j ≤ i by omega) with hlt | rfl
        · exact lt_of_le_of_lt (List.pairwise_iff_getElem.mp hordered _ _ _ _ hlt) hlast
        · exact hlast

/-- The first search splits ordered entries into those below the key and those from the key
on; the first of these has the key when it is found. -/
theorem binarySearchFirst_spec (find : EntrySearch K V) {entries : List (K × V)}
    (hordered : Ordered entries) (key : K) :
  ∃ before after, entries = before ++ after
    ∧ before.length = (binarySearchFirst find entries key).position
    ∧ (∀ e ∈ before, e.1 < key) ∧ ∀ e ∈ after, key ≤ e.1
  := by
  cases hsearch : find.search entries key with
  | missing i =>
      obtain ⟨before, after, rfl, hi, hbefore, hafter⟩ :=
        EntrySearch.split_of_missing hordered hsearch
      refine ⟨before, after, rfl, ?_, hbefore, fun e he => le_of_lt (hafter e he)⟩
      rw [binarySearchFirst, hsearch]
      exact hi
  | found i =>
      have hanswers := find.answers key hordered
      rw [hsearch] at hanswers
      obtain ⟨e, he, hkey⟩ := hanswers
      obtain ⟨⟨e', he', hkey'⟩, hbefore⟩ := moveBack_spec hordered he hkey
      obtain ⟨hi, rfl⟩ := List.getElem?_eq_some_iff.mp he'
      refine ⟨_, _, (List.take_append_drop (moveBack entries key i) entries).symm, ?_, hbefore,
        ?_⟩
      · rw [List.length_take, binarySearchFirst, hsearch]
        exact Nat.min_eq_left (Nat.le_of_lt hi)
      · rw [List.drop_eq_getElem_cons hi]
        intro e' hmem
        rcases List.mem_cons.mp hmem with rfl | hmem
        · exact le_of_eq hkey'.symm
        · rw [← hkey']
          obtain ⟨j, hj, rfl⟩ := List.getElem_of_mem hmem
          rw [List.length_drop] at hj
          rw [List.getElem_drop]
          exact List.pairwise_iff_getElem.mp hordered _ _ _ _ (by omega)

/-- Moving on from an entry with the key comes to the last such entry, when it may go on to
the end. -/
theorem moveOn_spec {entries : List (K × V)} {key : K} (hordered : Ordered entries) :
  ∀ {n i : Nat} {e : K × V}, entries[i]? = some e → e.1 = key → entries.length ≤ i + 1 + n →
    (∃ e, entries[moveOn entries key n i]? = some e ∧ e.1 = key)
      ∧ ∀ e ∈ entries.drop (moveOn entries key n i + 1), key < e.1
  | 0, i, e, he, hkey, hn => by
      refine ⟨⟨e, he, hkey⟩, ?_⟩
      rw [moveOn, List.drop_of_length_le (by omega)]
      simp
  | n + 1, i, e, he, hkey, hn => by
      obtain ⟨hi, rfl⟩ := List.getElem?_eq_some_iff.mp he
      rw [moveOn]
      cases hnext : entries[i + 1]? with
      | none =>
          refine ⟨⟨_, he, hkey⟩, ?_⟩
          rw [List.drop_of_length_le (List.getElem?_eq_none_iff.mp hnext)]
          simp
      | some e' =>
          dsimp only
          obtain ⟨hi', rfl⟩ := List.getElem?_eq_some_iff.mp hnext
          split
          · rename_i hsame
            exact moveOn_spec hordered hnext hsame (by omega)
          · rename_i hne
            refine ⟨⟨_, he, hkey⟩, ?_⟩
            have hle : key ≤ entries[i + 1].1 := by
              rw [← hkey]
              exact List.pairwise_iff_getElem.mp hordered _ _ _ _ (by omega)
            have hlt : key < entries[i + 1].1 := lt_of_le_of_ne hle (Ne.symm hne)
            intro e' hmem
            obtain ⟨j, hj, rfl⟩ := List.getElem_of_mem hmem
            rw [List.length_drop] at hj
            rw [List.getElem_drop]
            rcases Nat.eq_zero_or_pos j with rfl | hpos
            · exact hlt
            · exact lt_of_lt_of_le hlt
                (List.pairwise_iff_getElem.mp hordered _ _ _ _ (by omega))

/-- How many entries are before the place behind which a last search goes on. -/
def SearchResult.passed : SearchResult → Nat
  | .found i => i + 1
  | .missing i => i

/-- The last search splits ordered entries into those up to the key and those behind it. -/
theorem binarySearchLast_spec (find : EntrySearch K V) {entries : List (K × V)}
    (hordered : Ordered entries) (key : K) :
  ∃ before after, entries = before ++ after
    ∧ before.length = (binarySearchLast find entries key).passed
    ∧ (∀ e ∈ before, e.1 ≤ key) ∧ ∀ e ∈ after, key < e.1
  := by
  cases hsearch : find.search entries key with
  | missing i =>
      obtain ⟨before, after, rfl, hi, hbefore, hafter⟩ :=
        EntrySearch.split_of_missing hordered hsearch
      refine ⟨before, after, rfl, ?_, fun e he => le_of_lt (hbefore e he), hafter⟩
      rw [binarySearchLast, hsearch]
      exact hi
  | found i =>
      have hanswers := find.answers key hordered
      rw [hsearch] at hanswers
      obtain ⟨e, he, hkey⟩ := hanswers
      obtain ⟨⟨e', he', hkey'⟩, hafter⟩ :=
        moveOn_spec (n := entries.length) hordered he hkey (by omega)
      obtain ⟨hi, rfl⟩ := List.getElem?_eq_some_iff.mp he'
      refine ⟨_, _, (List.take_append_drop (moveOn entries key entries.length i + 1)
        entries).symm, ?_, ?_, hafter⟩
      · rw [List.length_take, binarySearchLast, hsearch]
        exact Nat.min_eq_left hi
      · intro e' hmem
        obtain ⟨j, hj, rfl⟩ := List.getElem_of_mem hmem
        rw [List.length_take] at hj
        rw [List.getElem_take]
        apply le_trans _ (le_of_eq hkey')
        rcases Nat.lt_or_eq_of_le (show j ≤ moveOn entries key entries.length i by omega)
          with hlt | rfl
        · exact List.pairwise_iff_getElem.mp hordered _ _ _ _ hlt
        · exact le_refl _

/-! ### The search of the library -/

/-- The loop of `Array.BinarySearch` from `lo` up to, but without, `hi`. The loop is given
at least as many rounds as there are entries between them. -/
def searchBetween (entries : List (K × V)) (key : K) : Nat → Nat → Nat → SearchResult
  | 0, lo, _ => .missing lo
  | rounds + 1, lo, hi =>
      if lo < hi then
        let i := lo + (hi - 1 - lo) / 2
        match entries[i]? with
        | none => .missing lo
        | some e =>
            if e.1 = key then .found i
            else if e.1 < key then searchBetween entries key rounds (i + 1) hi
            else searchBetween entries key rounds lo i
      else .missing lo

/-- The loop returns an entry with the key, or where one would be inserted. -/
theorem searchBetween_spec {entries : List (K × V)} {key : K} (hordered : Ordered entries) :
  ∀ {rounds lo hi : Nat}, hi - lo ≤ rounds → lo ≤ hi → hi ≤ entries.length →
    (∀ e ∈ entries.take lo, e.1 < key) → (∀ e ∈ entries.drop hi, key < e.1) →
      Answers entries key (searchBetween entries key rounds lo hi)
  | 0, lo, hi, hrounds, hle, hhi, hbefore, hafter => by
      obtain rfl : lo = hi := by omega
      exact ⟨hhi, hbefore, hafter⟩
  | rounds + 1, lo, hi, hrounds, hle, hhi, hbefore, hafter => by
      rw [searchBetween]
      split
      · rename_i hlt
        have hi' : lo + (hi - 1 - lo) / 2 < hi := by omega
        have hget : entries[lo + (hi - 1 - lo) / 2]?
            = some entries[lo + (hi - 1 - lo) / 2] := List.getElem?_eq_getElem (by omega)
        dsimp only
        rw [hget]
        dsimp only
        split
        · rename_i heq
          exact ⟨_, hget, heq⟩
        · rename_i hne
          split
          · rename_i hsmall
            apply searchBetween_spec hordered (by omega) (by omega) hhi _ hafter
            intro e hmem
            obtain ⟨j, hj, rfl⟩ := List.getElem_of_mem hmem
            rw [List.length_take] at hj
            rw [List.getElem_take]
            rcases Nat.lt_or_eq_of_le (show j ≤ lo + (hi - 1 - lo) / 2 by omega) with hjlt | rfl
            · exact lt_of_le_of_lt (List.pairwise_iff_getElem.mp hordered _ _ _ _ hjlt) hsmall
            · exact hsmall
          · rename_i hbig
            have hbig := lt_of_le_of_ne (not_lt.mp hbig) (Ne.symm hne)
            apply searchBetween_spec hordered (by omega) (by omega) (by omega) hbefore
            intro e hmem
            obtain ⟨j, hj, rfl⟩ := List.getElem_of_mem hmem
            rw [List.length_drop] at hj
            rw [List.getElem_drop]
            rcases Nat.eq_zero_or_pos j with rfl | hpos
            · exact hbig
            · exact lt_of_lt_of_le hbig
                (List.pairwise_iff_getElem.mp hordered _ _ _ _ (by omega))
      · obtain rfl : lo = hi := by omega
        exact ⟨hhi, hbefore, hafter⟩

/-- `List.BinarySearch` with a comparer of keys. -/
def listBinarySearch : EntrySearch K V where
  search entries key := searchBetween entries key entries.length 0 entries.length
  answers := by
    intro entries key hordered
    apply searchBetween_spec hordered (by omega) (Nat.zero_le _) (Nat.le_refl _)
    · simp
    · simp

end Datatent.BTree
