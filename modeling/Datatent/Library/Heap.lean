import Mathlib.Data.Multiset.MapFold
import Mathlib.Data.Multiset.ZeroCons
import Mathlib.Logic.Function.Basic

/-!
# Heaps and their cells

A heap maps numbers to values. `heap.Holds cells` says that its cells, the pairs of a number
and its value, are exactly those of a multiset, each number occurring once. The cells of a
structure in the heap are put together with `+`, and the rules say what writing, adding and
removing one cell does to them.
-/

/-- A heap of values. -/
abbrev Heap (α : Type) := Nat → Option α

namespace Heap

variable {α : Type}

/-- The heap with a cell written. -/
def put (heap : Heap α) (id : Nat) (x : α) : Heap α :=
  Function.update heap id (some x)

/-- The heap without a cell. -/
def erase (heap : Heap α) (id : Nat) : Heap α :=
  Function.update heap id none

/-- The cells of the heap are those of the multiset. -/
structure Holds (heap : Heap α) (cells : Multiset (Nat × α)) : Prop where
  nodup : (cells.map Prod.fst).Nodup
  cell : ∀ id x, heap id = some x ↔ (id, x) ∈ cells

variable {heap : Heap α} {cells : Multiset (Nat × α)} {id : Nat} {x y : α}

/-- A cell that is written is found. -/
@[simp]
theorem put_self :
  heap.put id x id = some x
  := Function.update_self _ _ _

/-- Writing a cell leaves the other ones. -/
theorem put_of_ne {id' : Nat} (h : id' ≠ id) :
  heap.put id x id' = heap id'
  := Function.update_of_ne h _ _

/-- A cell of a heap where a cell is written is this one or another cell of the heap. -/
theorem put_eq_some {id' : Nat} :
  heap.put id x id' = some y ↔ (id' = id ∧ x = y) ∨ (id' ≠ id ∧ heap id' = some y)
  := by
  rw [put, Function.update_apply]
  split
  · rename_i hid
    simp [hid]
  · rename_i hid
    simp [hid]

/-- A cell of a heap without a cell is another cell of the heap. -/
theorem erase_eq_some {id' : Nat} :
  heap.erase id id' = some y ↔ id' ≠ id ∧ heap id' = some y
  := by
  rw [erase, Function.update_apply]
  split
  · rename_i hid
    simp [hid]
  · rename_i hid
    simp [hid]

/-- The heap without cells. -/
theorem Holds.empty :
  Holds (fun _ => none : Heap α) 0
  := by
  constructor
  · simp
  · simp

/-- The numbers of the other cells differ from that of a cell. -/
theorem Holds.ne (h : heap.Holds ((id, x) ::ₘ cells)) {id' : Nat} {x' : α}
    (hmem : (id', x') ∈ cells) :
  id' ≠ id
  := by
  rintro rfl
  have hnodup := h.nodup
  rw [Multiset.map_cons, Multiset.nodup_cons] at hnodup
  exact hnodup.1 (Multiset.mem_map.mpr ⟨_, hmem, rfl⟩)

/-- Removing a cell. -/
theorem Holds.erase (h : heap.Holds ((id, x) ::ₘ cells)) :
  (heap.erase id).Holds cells
  := by
  constructor
  · have hnodup := h.nodup
    rw [Multiset.map_cons, Multiset.nodup_cons] at hnodup
    exact hnodup.2
  · intro id' x'
    by_cases hid : id' = id
    · subst hid
      constructor
      · simp [Heap.erase]
      · intro hmem
        exact absurd rfl (h.ne hmem)
    · rw [Heap.erase, Function.update_of_ne hid, h.cell, Multiset.mem_cons, Prod.mk.injEq]
      tauto

/-- Adding a cell. -/
theorem Holds.put_new (h : heap.Holds cells) (hid : id ∉ cells.map Prod.fst) :
  (heap.put id x).Holds ((id, x) ::ₘ cells)
  := by
  constructor
  · rw [Multiset.map_cons, Multiset.nodup_cons]
    exact ⟨hid, h.nodup⟩
  · intro id' x'
    rw [Multiset.mem_cons, Prod.mk.injEq]
    by_cases hne : id' = id
    · subst hne
      rw [put, Function.update_self]
      constructor
      · intro heq
        cases heq
        exact .inl ⟨rfl, rfl⟩
      · rintro (⟨-, rfl⟩ | hmem)
        · rfl
        · exact absurd (Multiset.mem_map.mpr ⟨_, hmem, rfl⟩) hid
    · rw [put, Function.update_of_ne hne, h.cell]
      tauto

/-- Writing a cell. -/
theorem Holds.put (h : heap.Holds ((id, x) ::ₘ cells)) :
  (heap.put id y).Holds ((id, y) ::ₘ cells)
  := by
  have hnodup := h.nodup
  rw [Multiset.map_cons, Multiset.nodup_cons] at hnodup
  have herase := h.erase.put_new (x := y) hnodup.1
  have hput : (heap.erase id).put id y = heap.put id y := by
    rw [Heap.erase, Heap.put, Heap.put, Function.update_idem]
  rwa [hput] at herase

end Heap
