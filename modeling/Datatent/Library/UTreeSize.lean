import Datatent.Library.UTree
import Mathlib.Algebra.Group.Action.Defs
import Mathlib.Algebra.Order.BigOperators.Group.List
import Mathlib.Algebra.Order.Ring.Nat

/-!
# The size of a uniform tree

In a tree whose nodes all have at least `m` entries the number of entries grows with the
`m + 1`-th power of the height. So the height of a tree is at most logarithmic in the number of
its entries, and there are at most `1 / m` as many nodes as entries, besides the root.
-/

namespace UTree

variable {E : Type}

/-- The number of elements of lists with entries between them. -/
theorem length_interleave :
  ∀ {ls : List (List E)} {es : List E}, ls.length = es.length + 1 →
    (interleave ls es).length = (ls.map List.length).sum + es.length
  | [l], [], _ => by simp [interleave]
  | l :: l' :: ls, e :: es, h => by
      have ih : (interleave (l' :: ls) es).length = _ := length_interleave (by simpa using h)
      simp only [interleave, List.length_append, List.length_cons, ih, List.map_cons,
        List.sum_cons]
      omega

/-- The contents of a node that is not a leaf, counted with one more for each of its
children. -/
theorem Linked.length_contents {n : Nat} {t : UTree E (n + 2)} (ht : t.Linked) :
  t.contents.length + 1 = (t.children.map (fun c => c.contents.length + 1)).sum
  := by
  have hlength := ht (Nat.succ_ne_zero n)
  have hsum : ∀ ts : List (UTree E (n + 1)), (ts.map (fun c => c.contents.length + 1)).sum
      = (ts.map (fun c => c.contents.length)).sum + ts.length := by
    intro ts
    rw [List.sum_map_add, List.map_const', List.sum_replicate, smul_eq_mul, mul_one]
  rw [hsum, contents_eq, length_interleave (by rw [List.length_map, hlength]), List.map_map,
    hlength, Nat.add_assoc]
  rfl

/-- Where every child has at least `k` entries, counted with one more, so have as many times as
the node has children. -/
theorem Linked.mul_le {n k : Nat} {t : UTree E (n + 2)} (ht : t.Linked)
    (hchildren : ∀ c ∈ t.children, k ≤ c.contents.length + 1) :
  (t.entries.length + 1) * k ≤ t.contents.length + 1
  := by
  have hsum := List.card_nsmul_le_sum (t.children.map (fun c => c.contents.length + 1)) k
    (List.forall_mem_map.mpr hchildren)
  rwa [List.length_map, ht (Nat.succ_ne_zero n), smul_eq_mul, ← ht.length_contents] at hsum

/-- A full tree has at least as many entries as one with the fewest entries in every node. -/
theorem Full.pow_le {m : Nat} :
  ∀ {n : Nat} {t : UTree E n}, t.Full m → (m + 1) ^ n ≤ t.contents.length + 1
  | 0, t, _ => t.elim
  | 1, t, h => by
      rw [pow_one, contents_leaf]
      exact Nat.succ_le_succ h.1
  | n + 2, t, h => by
      have hchildren := h.2.2.1.mul_le fun c hc => Full.pow_le (h.2.2.2 c hc)
      rw [pow_succ']
      exact (Nat.mul_le_mul_right _ (Nat.succ_le_succ h.1)).trans hchildren

/-- A root that is not a leaf has twice as many entries as a full tree below it. -/
theorem Rooted.two_mul_pow_le {m n : Nat} {t : UTree E (n + 2)} (h : t.Rooted m) :
  2 * (m + 1) ^ (n + 1) ≤ t.contents.length + 1
  := by
  have hentries : 1 ≤ t.entries.length := h.1
  have hchildren := h.2.2.linked.mul_le fun c hc => (h.2.2.full c hc).pow_le
  exact (Nat.mul_le_mul_right _ (Nat.succ_le_succ hentries)).trans hchildren

/-- Trees each of which has enough entries for its nodes have enough together. -/
theorem mul_length_ids_forest {m n : Nat} {ts : List (UTree E n)}
    (h : ∀ c ∈ ts, m * c.ids.length ≤ c.contents.length) :
  m * (ts.map ids).flatten.length + ts.length ≤ (ts.map (fun c => c.contents.length + 1)).sum
  := by
  induction ts with
  | nil => exact Nat.le_refl _
  | cons c ts ih =>
      have hc := h c List.mem_cons_self
      have hrest := ih fun c' hc' => h c' (List.mem_cons_of_mem c hc')
      rw [List.map_cons, List.map_cons, List.flatten_cons, List.length_append, List.sum_cons,
        List.length_cons, Nat.mul_add]
      omega

/-- The entries of a full tree are enough for `m` in each of its nodes. -/
theorem Full.mul_length_ids_le {m : Nat} :
  ∀ {n : Nat} {t : UTree E n}, t.Full m → m * t.ids.length ≤ t.contents.length
  | 0, t, _ => t.elim
  | 1, t, h => by
      rw [contents_leaf, ids_eq, children_leaf]
      simpa using h.1
  | n + 2, t, h => by
      have hlength := h.2.2.1.length_contents
      have hsum := mul_length_ids_forest (fun c hc => Full.mul_length_ids_le (h.2.2.2 c hc))
      rw [h.2.2.1 (Nat.succ_ne_zero n)] at hsum
      rw [ids_eq, List.length_cons, Nat.mul_succ]
      have hm := h.1
      omega

/-- The entries of a root are enough for `m` in each node below it. -/
theorem Rooted.mul_length_ids_le {m : Nat} :
  ∀ {n : Nat} {t : UTree E n}, t.Rooted m → m * t.ids.length ≤ t.contents.length + m
  | 0, t, _ => t.elim
  | 1, t, _ => by
      rw [ids_eq, children_leaf]
      simp
  | n + 2, t, h => by
      have hlength := h.2.2.linked.length_contents
      have hsum := mul_length_ids_forest (fun c hc => (h.2.2.full c hc).mul_length_ids_le)
      rw [h.2.2.linked (Nat.succ_ne_zero n)] at hsum
      rw [ids_eq, List.length_cons, Nat.mul_succ]
      omega

end UTree
