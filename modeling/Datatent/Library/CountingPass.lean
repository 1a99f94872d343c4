import Datatent.Library.Distribution
import Mathlib.Data.List.Range

/-!
# The loops of a counting pass

A pass of a counting sort counts the elements of the buckets in a table (`count`), adds the
counts up to the positions where the buckets start (`offsetsFrom`, or `offsetsRotated` where
another bucket is the first one), and puts the elements one after the other to the next position
of their bucket (`scatter`). Every access to the table and to the target is checked. With a table
and a target that are large enough the pass puts the distributed elements to the target and
leaves what is around them (`scatter_eq`).
-/

namespace Distribution

variable {α ε : Type}

/-- Count the elements: every element adds one to the entry of its digit. -/
def count (outside : ε) (digit : α → Nat) : List Nat → List α → Except ε (List Nat)
  | table, [] => .ok table
  | table, a :: xs =>
      match table[digit a]? with
      | none => .error outside
      | some n => count outside digit (table.set (digit a) (n + 1)) xs

/-- Add the counts up: every entry becomes the sum of those before it and the offset. Nothing
where an entry is the given number, so that its bucket holds all elements. -/
def offsetsFrom (length : Nat) : Nat → List Nat → Option (List Nat × Nat)
  | offset, [] => some ([], offset)
  | offset, n :: table =>
      if n = length then none
      else (offsetsFrom length (offset + n) table).map (fun (offsets, rest) =>
        (offset :: offsets, rest))

/-- Add the counts up from a bucket on, and then those of the buckets before it. -/
def offsetsRotated (length base start : Nat) (table : List Nat) : Option (List Nat) := do
  let (high, offset) ← offsetsFrom length base (table.drop start)
  let (low, _) ← offsetsFrom length offset (table.take start)
  some (low ++ high)

/-- Put the elements to the next positions of their buckets. -/
def scatter (outside : ε) (digit : α → Nat) :
    List Nat → List α → List α → Except ε (List Nat × List α)
  | offsets, target, [] => .ok (offsets, target)
  | offsets, target, a :: xs =>
      match offsets[digit a]? with
      | none => .error outside
      | some j =>
          if j < target.length then
            scatter outside digit (offsets.set (digit a) (j + 1)) (target.set j a) xs
          else .error outside

variable {digit : α → Nat} {order : List Nat} {xs : List α}

/-! ### Counting -/

/-- Every entry of the table grows by the number of elements of its bucket. -/
theorem count_eq (outside : ε) {b : Nat} (f : Nat → Nat) (h : ∀ a ∈ xs, digit a < b) :
  count outside digit ((List.range b).map f) xs
    = .ok ((List.range b).map (fun d => f d + size digit xs d))
  := by
  induction xs generalizing f with
  | nil => rfl
  | cons a xs ih =>
      have ha := h a List.mem_cons_self
      have hentry : ((List.range b).map f)[digit a]? = some (f (digit a)) := by
        rw [List.getElem?_map, List.getElem?_range ha]
        rfl
      have hset : ((List.range b).map f).set (digit a) (f (digit a) + 1)
          = (List.range b).map (fun d => f d + if digit a = d then 1 else 0) := by
        apply List.ext_getElem?
        intro i
        rw [List.getElem?_set, List.length_map, List.length_range, if_pos ha,
          List.getElem?_map, List.getElem?_map]
        split
        · rename_i hi
          rw [← hi, List.getElem?_range ha, Option.map_some, if_pos rfl]
        · rename_i hi
          cases hrange : (List.range b)[i]? with
          | none => rfl
          | some d =>
              obtain ⟨-, rfl⟩ := List.getElem?_eq_some_iff.mp hrange
              rw [List.getElem_range, Option.map_some, Option.map_some, if_neg hi,
                Nat.add_zero]
      rw [count, hentry]
      dsimp only
      rw [hset, ih _ (fun a' ha' => h a' (List.mem_cons_of_mem a ha'))]
      congr 1
      apply List.map_congr_left
      intro d _
      rw [size_cons]
      omega

/-- Counting with an empty table of `b` buckets. -/
theorem count_replicate (outside : ε) {b : Nat} (h : ∀ a ∈ xs, digit a < b) :
  count outside digit (List.replicate b 0) xs = .ok ((List.range b).map (size digit xs))
  := by
  have hzero : List.replicate b 0 = (List.range b).map (fun _ => 0) := by
    rw [List.map_const', List.length_range]
  rw [hzero, count_eq outside _ h]
  simp only [Nat.zero_add]

/-! ### Where buckets start -/

/-- Where a bucket starts when the buckets of an order lie one after the other. -/
def startOf (f : Nat → Nat) : Nat → List Nat → Nat → Nat
  | base, [], _ => base
  | base, e :: order, d => if e = d then base else startOf f (base + f e) order d

/-- Buckets start behind the base. -/
theorem le_startOf (f : Nat → Nat) (base : Nat) (order : List Nat) (d : Nat) :
  base ≤ startOf f base order d
  := by
  induction order generalizing base with
  | nil => exact Nat.le_refl base
  | cons e order ih =>
      rw [startOf]
      split
      · exact Nat.le_refl base
      · have hle := ih (base + f e)
        omega

/-- Buckets end before the sum of all sizes. -/
theorem startOf_add_le {f : Nat → Nat} {base d : Nat} (hd : d ∈ order) :
  startOf f base order d + f d ≤ base + (order.map f).sum
  := by
  induction order generalizing base with
  | nil => cases hd
  | cons e order ih =>
      rw [startOf, List.map_cons, List.sum_cons]
      split
      · rename_i he
        rw [he]
        omega
      · rename_i he
        rcases List.mem_cons.mp hd with rfl | hd
        · exact absurd rfl he
        · have hle : startOf f (base + f e) order d + f d ≤ base + f e + (order.map f).sum := ih hd
          omega

/-- Two buckets lie one after the other. -/
theorem startOf_disjoint {f : Nat → Nat} {base d e : Nat} (hd : d ∈ order) (he : e ∈ order)
    (hne : d ≠ e) :
  startOf f base order d + f d ≤ startOf f base order e
    ∨ startOf f base order e + f e ≤ startOf f base order d
  := by
  induction order generalizing base with
  | nil => cases hd
  | cons c order ih =>
      rw [startOf, startOf]
      by_cases hcd : c = d
      · have hce : c ≠ e := fun h => hne (hcd.symm.trans h)
        rw [if_pos hcd, if_neg hce, ← hcd]
        exact .inl (le_startOf f _ order e)
      · by_cases hce : c = e
        · rw [if_neg hcd, if_pos hce, ← hce]
          exact .inr (le_startOf f _ order d)
        · rw [if_neg hcd, if_neg hce]
          apply ih
          · exact (List.mem_cons.mp hd).resolve_left (fun h => hcd h.symm)
          · exact (List.mem_cons.mp he).resolve_left (fun h => hce h.symm)

/-- The buckets of the first of two orders start as they do without the second one. -/
theorem startOf_append_left {f : Nat → Nat} {base d : Nat} {order' : List Nat} (hd : d ∈ order) :
  startOf f base (order ++ order') d = startOf f base order d
  := by
  induction order generalizing base with
  | nil => cases hd
  | cons e order ih =>
      rw [List.cons_append, startOf, startOf]
      split
      · rfl
      · rename_i he
        exact ih ((List.mem_cons.mp hd).resolve_left (fun h => he h.symm))

/-- The buckets of the second of two orders start behind those of the first one. -/
theorem startOf_append_right {f : Nat → Nat} {base d : Nat} {order' : List Nat}
    (hd : d ∉ order) :
  startOf f base (order ++ order') d = startOf f (base + (order.map f).sum) order' d
  := by
  induction order generalizing base with
  | nil => rfl
  | cons e order ih =>
      obtain ⟨hne, hrest⟩ := not_or.mp (fun h => hd (List.mem_cons.mpr h))
      rw [List.cons_append, startOf, if_neg (fun h => hne h.symm), ih hrest, List.map_cons,
        List.sum_cons, Nat.add_assoc]

/-- Consecutive buckets start where the ones before them end. -/
theorem startOf_range' (f : Nat → Nat) {n i : Nat} (s base : Nat) (hi : i < n) :
  startOf f base (List.range' s n) (s + i) = base + ((List.range' s i).map f).sum
  := by
  induction n generalizing s base i with
  | zero => omega
  | succ n ih =>
      rw [List.range'_succ, startOf]
      cases i with
      | zero =>
          rw [if_pos (Nat.add_zero s).symm]
          rfl
      | succ i =>
          have hstep : s + (i + 1) = s + 1 + i := by omega
          rw [if_neg (by omega), List.range'_succ, List.map_cons, List.sum_cons, hstep,
            ih (s + 1) (base + f s) (by omega), Nat.add_assoc]

/-- The added-up counts of consecutive buckets are the positions where they start. -/
theorem offsetsFrom_eq {length : Nat} {f : Nat → Nat} (n : Nat) {s base : Nat}
    (h : ∀ d, s ≤ d → d < s + n → f d ≠ length) :
  offsetsFrom length base ((List.range' s n).map f)
    = some ((List.range' s n).map (startOf f base (List.range' s n)),
        base + ((List.range' s n).map f).sum)
  := by
  induction n generalizing s base with
  | zero => rfl
  | succ n ih =>
      rw [List.range'_succ, List.map_cons, offsetsFrom, if_neg (h s (Nat.le_refl s) (by omega)),
        ih (fun d hd hd' => h d (by omega) (by omega)), Option.map_some, List.map_cons,
        List.sum_cons, startOf, if_pos rfl, Nat.add_assoc]
      have hrest : (List.range' (s + 1) n).map (startOf f base (s :: List.range' (s + 1) n))
          = (List.range' (s + 1) n).map (startOf f (base + f s) (List.range' (s + 1) n)) := by
        apply List.map_congr_left
        intro d hd
        rw [List.mem_range'_1] at hd
        rw [startOf, if_neg (by omega)]
      rw [hrest]

/-- A bucket with all elements ends the adding up. -/
theorem offsetsFrom_eq_none {length : Nat} {table : List Nat} (h : length ∈ table)
    (base : Nat) :
  offsetsFrom length base table = none
  := by
  induction table generalizing base with
  | nil => cases h
  | cons n table ih =>
      rw [offsetsFrom]
      split
      · rfl
      · rename_i hn
        rw [ih ((List.mem_cons.mp h).resolve_left (fun hl => hn hl.symm)), Option.map_none]

/-- Adding up keeps the number of entries. -/
theorem offsetsFrom_length {length offset last : Nat} {table offsets : List Nat}
    (h : offsetsFrom length offset table = some (offsets, last)) :
  offsets.length = table.length
  := by
  induction table generalizing offset offsets with
  | nil =>
      cases h
      rfl
  | cons n table ih =>
      rw [offsetsFrom] at h
      split at h
      · cases h
      · obtain ⟨⟨offsets', last'⟩, hrest, heq⟩ := Option.map_eq_some_iff.mp h
        cases heq
        exact congrArg (· + 1) (ih hrest)

/-- Adding up the counts from any bucket on gives the positions where the buckets start when
they lie one after the other from that one on. -/
theorem offsetsRotated_eq {length b start : Nat} {f : Nat → Nat} (base : Nat)
    (hstart : start ≤ b) (h : ∀ d < b, f d ≠ length) :
  ∃ offsets, offsetsRotated length base start ((List.range b).map f) = some offsets
    ∧ offsets.length = b
    ∧ ∀ d < b, offsets[d]? = some (startOf f base (rotated b start) d)
  := by
  have hsplit : (List.range b).map f
      = (List.range' 0 start).map f ++ (List.range' start (b - start)).map f := by
    rw [← List.map_append, List.range_eq_range']
    congr 1
    have happend := @List.range'_append 0 start (b - start) 1
    rw [Nat.one_mul, Nat.zero_add, Nat.add_sub_cancel' hstart] at happend
    exact happend.symm
  have hfront : ((List.range' 0 start).map f).length = start := by
    rw [List.length_map, List.length_range']
  obtain ⟨low, hlow⟩ : ∃ low, low = (List.range' 0 start).map
      (startOf f (base + ((List.range' start (b - start)).map f).sum) (List.range' 0 start)) :=
    ⟨_, rfl⟩
  obtain ⟨high, hhigh⟩ : ∃ high, high = (List.range' start (b - start)).map
      (startOf f base (List.range' start (b - start))) := ⟨_, rfl⟩
  have hlowLength : low.length = start := by
    rw [hlow, List.length_map, List.length_range']
  refine ⟨low ++ high, ?_, ?_, ?_⟩
  · rw [offsetsRotated, hsplit, List.drop_left' hfront, List.take_left' hfront,
      offsetsFrom_eq _ (fun d _ hd => h d (by omega)), Option.bind_eq_bind, Option.bind_some]
    dsimp only
    rw [offsetsFrom_eq _ (fun d _ hd => h d (by omega)), Option.bind_some, hlow, hhigh]
  · rw [List.length_append, hlowLength, hhigh, List.length_map, List.length_range']
    omega
  · intro d hd
    by_cases hd' : d < start
    · rw [List.getElem?_append_left (by omega), hlow, List.getElem?_map,
        List.getElem?_range' hd', rotated, startOf_append_right]
      · rw [Nat.zero_add, Nat.one_mul]
        rfl
      · rw [List.mem_range'_1]
        omega
    · have hentry : (List.range' start (b - start))[d - start]? = some d := by
        rw [List.getElem?_range' (by omega)]
        congr 1
        omega
      rw [List.getElem?_append_right (by omega), hlowLength, hhigh, List.getElem?_map, hentry,
        rotated, startOf_append_left]
      · rfl
      · rw [List.mem_range'_1]
        omega

/-- A bucket with all elements ends the adding up from any bucket on. -/
theorem offsetsRotated_eq_none {length : Nat} {table : List Nat} (h : length ∈ table)
    (base start : Nat) :
  offsetsRotated length base start table = none
  := by
  rw [offsetsRotated]
  cases hhigh : offsetsFrom length base (table.drop start) with
  | none => rfl
  | some high =>
      rw [← List.take_append_drop start table] at h
      have hlow : length ∈ table.take start := by
        apply (List.mem_append.mp h).resolve_right
        intro hdrop
        rw [offsetsFrom_eq_none hdrop] at hhigh
        cases hhigh
      rw [Option.bind_eq_bind, Option.bind_some]
      dsimp only
      rw [offsetsFrom_eq_none hlow]
      rfl

/-- Adding up the counts of a list: nothing where all its elements are in one bucket, and else the
positions where the buckets start. -/
theorem offsetsRotated_cases {b start : Nat} (digit : α → Nat) (xs : List α) (base : Nat)
    (hstart : start ≤ b) :
  (offsetsRotated xs.length base start ((List.range b).map (size digit xs)) = none
      ∧ ∃ d, ∀ a ∈ xs, digit a = d)
    ∨ ∃ offsets, offsetsRotated xs.length base start ((List.range b).map (size digit xs))
        = some offsets
      ∧ offsets.length = b
      ∧ ∀ d < b, offsets[d]? = some (startOf (size digit xs) base (rotated b start) d)
  := by
  by_cases hall : ∃ d < b, size digit xs d = xs.length
  · left
    obtain ⟨d, hd, hsize⟩ := hall
    have hmem : xs.length ∈ (List.range b).map (size digit xs) :=
      List.mem_map.mpr ⟨d, List.mem_range.mpr hd, hsize⟩
    exact ⟨offsetsRotated_eq_none hmem base start, d, digit_eq_of_size hsize⟩
  · right
    apply offsetsRotated_eq base hstart
    intro d hd hsize
    exact hall ⟨d, hd, hsize⟩

/-- Beginning with the first bucket there is nothing left to add up behind the last one. -/
theorem offsetsRotated_zero (length base : Nat) (table : List Nat) :
  offsetsRotated length base 0 table = (offsetsFrom length base table).map Prod.fst
  := by
  rw [offsetsRotated, List.drop_zero, List.take_zero]
  cases offsetsFrom length base table with
  | none => rfl
  | some high => rfl

/-- What lies where the buckets are is one bucket after the other. -/
theorem getElem?_of_startOf {f : Nat → Nat} {B : Nat → List α} {target : List α}
    (hB : ∀ d, (B d).length = f d) (horder : order.Nodup) {base : Nat}
    (h : ∀ d ∈ order, ∀ k < f d, target[startOf f base order d + k]? = (B d)[k]?) :
  ∀ i < (order.map f).sum, target[base + i]? = (order.flatMap B)[i]?
  := by
  induction order generalizing base with
  | nil =>
      intro i hi
      simp at hi
  | cons e order ih =>
      obtain ⟨he, horder⟩ := List.nodup_cons.mp horder
      intro i hi
      rw [List.map_cons, List.sum_cons] at hi
      rw [List.flatMap_cons]
      by_cases hfirst : i < f e
      · have hbucket := h e List.mem_cons_self i hfirst
        rw [startOf, if_pos rfl] at hbucket
        rw [hbucket, List.getElem?_append_left (by rw [hB]; exact hfirst)]
      · have hrest : ∀ d ∈ order, ∀ k < f d,
            target[startOf f (base + f e) order d + k]? = (B d)[k]? := by
          intro d hd k hk
          have hbucket := h d (List.mem_cons_of_mem e hd) k hk
          have hne : e ≠ d := by
            rintro rfl
            exact he hd
          rwa [startOf, if_neg hne] at hbucket
        rw [List.getElem?_append_right (by rw [hB]; omega), hB,
          ← ih horder hrest (i - f e) (by omega)]
        congr 1
        omega

/-! ### Putting the elements to their places -/

/-- The table and the target after the first elements were put to their places. -/
structure Scattered (digit : α → Nat) (order : List Nat) (base : Nat) (xs target done : List α)
    (offsets : List Nat) (target' : List α) : Prop where
  length : target'.length = target.length
  offsets : ∀ d ∈ order,
    offsets[d]? = some (startOf (size digit xs) base order d + size digit done d)
  placed : ∀ d ∈ order, ∀ k < size digit done d,
    target'[startOf (size digit xs) base order d + k]? = (done.filter (digit · = d))[k]?
  around : ∀ i, i < base ∨ base + xs.length ≤ i → target'[i]? = target[i]?

section Scatter

variable {base : Nat} {target done rest : List α} {offsets : List Nat} {target' : List α}
  {a : α}

/-- The next place of a bucket lies in it. -/
theorem size_lt (hxs : xs = done ++ a :: rest) :
  size digit done (digit a) < size digit xs (digit a)
  := by
  rw [hxs, size_append, size_cons, if_pos rfl]
  omega

/-- One further element is put to its place. -/
theorem Scattered.step (h : Scattered digit order base xs target done offsets target')
    (horder : order.Nodup) (hmem : ∀ a ∈ xs, digit a ∈ order)
    (hxs : xs = done ++ a :: rest) (hroom : base + xs.length ≤ target.length) :
  ∃ j, offsets[digit a]? = some j ∧ j < target'.length
    ∧ Scattered digit order base xs target (done ++ [a]) (offsets.set (digit a) (j + 1))
      (target'.set j a)
  := by
  have ha : digit a ∈ order := hmem a (by rw [hxs]; simp)
  have hlt : size digit done (digit a) < size digit xs (digit a) := size_lt hxs
  have hle : startOf (size digit xs) base order (digit a) + size digit xs (digit a)
      ≤ base + (order.map (size digit xs)).sum := startOf_add_le ha
  rw [sum_size horder hmem] at hle
  have hbase := le_startOf (size digit xs) base order (digit a)
  have hsize : ∀ d, size digit (done ++ [a]) d
      = size digit done d + if digit a = d then 1 else 0 := by
    intro d
    rw [size_append, size_cons]
    congr 1
    exact Nat.zero_add _
  have hlength := h.length
  refine ⟨_, h.offsets _ ha, by omega, ?_, ?_, ?_, ?_⟩
  · rw [List.length_set, hlength]
  · intro d hd
    have hentry := h.offsets d hd
    rw [hsize, List.getElem?_set]
    split
    · rename_i hda
      rw [if_pos (List.getElem?_eq_some_iff.mp (h.offsets _ ha)).1, ← hda, Nat.add_assoc]
    · rw [Nat.add_zero]
      exact hentry
  · intro d hd k hk
    rw [hsize] at hk
    rw [List.getElem?_set, List.filter_append]
    by_cases hda : digit a = d
    · subst hda
      rw [if_pos rfl] at hk
      by_cases hlast : k = size digit done (digit a)
      · have hself : [a].filter (digit · = digit a) = [a] := by
          rw [List.filter_singleton, decide_eq_true rfl]
          rfl
        rw [hlast, if_pos rfl, if_pos (by omega), hself, size,
          List.getElem?_append_right (Nat.le_refl _), Nat.sub_self]
        rfl
      · rw [if_neg (by omega), h.placed _ hd k (by omega),
          List.getElem?_append_left (by rw [← size]; omega)]
    · rw [if_neg hda] at hk
      have hdisjoint : startOf (size digit xs) base order (digit a) + size digit xs (digit a)
            ≤ startOf (size digit xs) base order d
          ∨ startOf (size digit xs) base order d + size digit xs d
            ≤ startOf (size digit xs) base order (digit a) := startOf_disjoint ha hd hda
      have hwhole : size digit done d ≤ size digit xs d := by
        rw [hxs, size_append]
        omega
      rw [if_neg (by omega), h.placed d hd k (by omega),
        List.getElem?_append_left (by rw [← size]; omega)]
  · intro i hi
    rw [List.getElem?_set, if_neg (by omega)]
    exact h.around i hi

/-- All elements are put to their places. -/
theorem scatter_run (outside : ε) (horder : order.Nodup) (hmem : ∀ a ∈ xs, digit a ∈ order)
    (hroom : base + xs.length ≤ target.length) (hxs : xs = done ++ rest)
    (h : Scattered digit order base xs target done offsets target') :
  ∃ offsets' target'', scatter outside digit offsets target' rest = .ok (offsets', target'')
    ∧ offsets'.length = offsets.length
    ∧ Scattered digit order base xs target xs offsets' target''
  := by
  induction rest generalizing done offsets target' with
  | nil =>
      rw [List.append_nil] at hxs
      rw [← hxs] at h
      exact ⟨offsets, target', rfl, rfl, h⟩
  | cons a rest ih =>
      obtain ⟨j, hj, hlt, hstep⟩ := h.step horder hmem hxs hroom
      have hnext : xs = (done ++ [a]) ++ rest := by
        rw [hxs, List.append_assoc, List.singleton_append]
      obtain ⟨offsets', target'', hscatter, hlength, hdone⟩ := ih hnext hstep
      refine ⟨offsets', target'', ?_, ?_, hdone⟩
      · rw [scatter, hj]
        dsimp only
        rw [if_pos hlt, hscatter]
      · rw [hlength, List.length_set]

/-- With the positions where the buckets start in the table and room in the target, the
distributed elements are put to the target from the base on, and what is around them stays. -/
theorem scatter_eq (outside : ε) (horder : order.Nodup) (hmem : ∀ a ∈ xs, digit a ∈ order)
    (hroom : base + xs.length ≤ target.length)
    (hoffsets : ∀ d ∈ order, offsets[d]? = some (startOf (size digit xs) base order d)) :
  ∃ offsets', scatter outside digit offsets target xs
      = .ok (offsets', target.take base ++ (distribute digit order xs
        ++ target.drop (base + xs.length)))
    ∧ offsets'.length = offsets.length
  := by
  have hstart : Scattered digit order base xs target [] offsets target := by
    constructor
    · rfl
    · exact hoffsets
    · intro d hd k hk
      cases hk
    · intro i _
      rfl
  obtain ⟨offsets', target', hscatter, hlength, hdone⟩ :=
    scatter_run outside horder hmem hroom (List.nil_append xs).symm hstart
  refine ⟨offsets', ?_, hlength⟩
  rw [hscatter]
  congr 2
  have htotal := sum_size horder hmem
  have hdistribute : (distribute digit order xs).length = xs.length :=
    (distribute_perm horder hmem).length_eq
  have htake : (target.take base).length = base := by
    rw [List.length_take]
    omega
  apply List.ext_getElem?
  intro i
  by_cases hfront : i < base
  · rw [hdone.around i (.inl hfront), List.getElem?_append_left (by omega),
      List.getElem?_take_of_lt hfront]
  · rw [List.getElem?_append_right (by omega), htake]
    by_cases hmiddle : i < base + xs.length
    · have hi : i - base < (order.map (size digit xs)).sum := by
        rw [htotal]
        omega
      have hbuckets := getElem?_of_startOf (fun d => rfl) horder hdone.placed (i - base) hi
      rw [Nat.add_sub_cancel' (Nat.le_of_not_lt hfront)] at hbuckets
      rw [List.getElem?_append_left (by omega)]
      exact hbuckets
    · rw [hdone.around i (.inr (Nat.le_of_not_lt hmiddle)),
        List.getElem?_append_right (by omega), List.getElem?_drop, hdistribute]
      congr 1
      omega

end Scatter

end Distribution
