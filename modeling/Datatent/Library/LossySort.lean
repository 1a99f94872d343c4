import Mathlib.Algebra.GroupWithZero.Nat
import Mathlib.Data.List.Forall2
import Mathlib.Data.List.Perm.Basic
import Mathlib.Algebra.BigOperators.Group.List.Basic

/-!
# Sorting that may lose elements

A procedure that should sort a list may overwrite elements by lighter ones instead of exchanging
them. The weight of the list tells what it did: where no weight is lost nothing was overwritten,
and where something was overwritten the result is no permutation. So it is enough to know when a
part of the procedure keeps the weight (`Outcome`), and the parts of a list that are sorted one
after the other are put together (`Outcome.flatten`).
-/

namespace LossySort

variable {α : Type}

/-- The weight of a list. -/
def total (weight : α → Nat) (xs : List α) : Nat :=
  (xs.map weight).sum

/-- The second list is what a procedure makes of the first one: never heavier, and sorted if and
only if the condition holds, which is where no weight is lost. -/
structure Outcome (weight : α → Nat) (le : α → α → Prop) (good : Prop) (xs ys : List α) :
    Prop where
  length : ys.length = xs.length
  total_le : total weight ys ≤ total weight xs
  good_of_total : total weight ys = total weight xs → good
  sorts : good → ys.Perm xs ∧ ys.Pairwise le

variable {weight : α → Nat} {le : α → α → Prop} {good good' : Prop} {xs xs' ys : List α}

theorem total_append (weight : α → Nat) (xs ys : List α) :
  total weight (xs ++ ys) = total weight xs + total weight ys
  := by
  rw [total, List.map_append, List.sum_append]
  rfl

theorem total_cons (weight : α → Nat) (a : α) (xs : List α) :
  total weight (a :: xs) = weight a + total weight xs
  := by
  rw [total, List.map_cons, List.sum_cons]
  rfl

/-- A permutation has the same weight. -/
theorem total_perm (h : xs.Perm ys) :
  total weight xs = total weight ys
  := (h.map weight).sum_eq

/-- A list that is in order already is sorted by leaving it as it is. -/
theorem outcome_self (h : good → xs.Pairwise le) (hgood : good) :
  Outcome weight le good xs xs
  := by
  constructor
  · rfl
  · exact Nat.le_refl _
  · intro _
    exact hgood
  · intro hgood
    exact ⟨List.Perm.refl xs, h hgood⟩

/-- The condition is exactly when the procedure sorts. -/
theorem Outcome.sorts_iff (h : Outcome weight le good xs ys) :
  (ys.Perm xs ∧ ys.Pairwise le) ↔ good
  := by
  constructor
  · rintro ⟨hperm, -⟩
    exact h.good_of_total (total_perm hperm)
  · exact h.sorts

/-- Conditions that say the same. -/
theorem Outcome.congr (h : Outcome weight le good xs ys) (hiff : good ↔ good') :
  Outcome weight le good' xs ys
  := by
  rwa [propext hiff] at h

/-- What a procedure makes of a permutation of a list. -/
theorem Outcome.of_perm (h : Outcome weight le good xs' ys) (hperm : xs'.Perm xs) :
  Outcome weight le good xs ys
  := by
  constructor
  · rw [h.length, hperm.length_eq]
  · rw [← total_perm hperm]
    exact h.total_le
  · rw [← total_perm hperm]
    exact h.good_of_total
  · intro hgood
    obtain ⟨hys, hordered⟩ := h.sorts hgood
    exact ⟨hys.trans hperm, hordered⟩

/-- The parts of a list that lie in order one after the other are sorted one after the other. -/
theorem Outcome.flatten {good : List α → Prop} {groups results : List (List α)}
    (h : List.Forall₂ (fun xs ys => Outcome weight le (good xs) xs ys) groups results)
    (hordered : groups.Pairwise (fun xs xs' => ∀ a ∈ xs, ∀ b ∈ xs', le a b)) :
  Outcome weight le (∀ xs ∈ groups, good xs) groups.flatten results.flatten
  := by
  induction h with
  | nil =>
      apply outcome_self
      · intro _
        exact List.Pairwise.nil
      · intro xs hxs
        cases hxs
  | cons hfirst _ ih =>
      rw [List.pairwise_cons] at hordered
      have hrest := ih hordered.2
      have hle := hfirst.total_le
      have hle' := hrest.total_le
      rw [List.flatten_cons, List.flatten_cons]
      constructor
      · rw [List.length_append, List.length_append, hfirst.length, hrest.length]
      · rw [total_append, total_append]
        omega
      · rw [total_append, total_append]
        intro htotal zs hzs
        rcases List.mem_cons.mp hzs with rfl | hzs
        · exact hfirst.good_of_total (by omega)
        · exact hrest.good_of_total (by omega) zs hzs
      · intro hgood
        obtain ⟨hperm, hys⟩ := hfirst.sorts (hgood _ List.mem_cons_self)
        obtain ⟨hperm', hys'⟩ := hrest.sorts (fun zs hzs => hgood zs (List.mem_cons_of_mem _ hzs))
        refine ⟨hperm.append hperm', List.pairwise_append.mpr ⟨hys, hys', ?_⟩⟩
        intro a ha b hb
        obtain ⟨zs, hzs, hbzs⟩ := List.mem_flatten.mp (hperm'.mem_iff.mp hb)
        exact hordered.1 zs hzs a (hperm.mem_iff.mp ha) b hbzs

end LossySort
