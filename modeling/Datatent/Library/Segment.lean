import Mathlib.Data.List.Basic

/-!
# Linked segments

Numbered places are linked: a place leads to the number of the next one. `Segment link a ids b`
says that following the links from `a` goes through the places `ids` and arrives at `b`. A
segment is put together and taken apart at either end, and depends only on the links of the
places it goes through.
-/

/-- Following the links from `a` goes through the places `ids` and arrives at `b`. -/
inductive Segment (link : Nat → Option Nat) : Nat → List Nat → Nat → Prop
  | nil (a : Nat) : Segment link a [] a
  | cons {a b next : Nat} {ids : List Nat} (hlink : link a = some next)
      (hrest : Segment link next ids b) : Segment link a (a :: ids) b

namespace Segment

variable {link link' : Nat → Option Nat} {a b c id : Nat} {ids ids' : List Nat}

/-- A segment through no places. -/
theorem nil_iff :
  Segment link a [] b ↔ a = b
  := by
  constructor
  · rintro ⟨⟩
    rfl
  · rintro rfl
    exact nil a

/-- A segment through some places starts with the first one. -/
theorem cons_iff :
  Segment link a (id :: ids) b ↔ a = id ∧ ∃ next, link id = some next ∧ Segment link next ids b
  := by
  constructor
  · rintro (_ | ⟨hlink, hrest⟩)
    exact ⟨rfl, _, hlink, hrest⟩
  · rintro ⟨rfl, next, hlink, hrest⟩
    exact cons hlink hrest

/-- Two segments, one after the other. -/
theorem append_iff :
  Segment link a (ids ++ ids') c ↔ ∃ b, Segment link a ids b ∧ Segment link b ids' c
  := by
  induction ids generalizing a with
  | nil =>
      constructor
      · intro h
        exact ⟨a, nil a, h⟩
      · rintro ⟨b, hnil, h⟩
        rw [nil_iff] at hnil
        subst hnil
        exact h
  | cons id ids ih =>
      rw [List.cons_append, cons_iff]
      constructor
      · rintro ⟨rfl, next, hlink, hrest⟩
        obtain ⟨b, hfirst, hsecond⟩ := ih.mp hrest
        exact ⟨b, cons hlink hfirst, hsecond⟩
      · rintro ⟨b, hfirst, hsecond⟩
        obtain ⟨rfl, next, hlink, hrest⟩ := cons_iff.mp hfirst
        exact ⟨rfl, next, hlink, ih.mpr ⟨b, hrest, hsecond⟩⟩

/-- A segment with a last place. -/
theorem concat_iff :
  Segment link a (ids ++ [id]) b ↔ Segment link a ids id ∧ link id = some b
  := by
  rw [append_iff]
  constructor
  · rintro ⟨c, hfirst, hlast⟩
    obtain ⟨rfl, next, hlink, hnil⟩ := cons_iff.mp hlast
    rw [nil_iff] at hnil
    subst hnil
    exact ⟨hfirst, hlink⟩
  · rintro ⟨hfirst, hlink⟩
    exact ⟨id, hfirst, cons hlink (nil b)⟩

/-- A segment depends only on the links of its places. -/
theorem congr (h : Segment link a ids b) (hlink : ∀ id ∈ ids, link' id = link id) :
  Segment link' a ids b
  := by
  induction h with
  | nil a => exact nil a
  | cons hnext _ ih =>
      apply cons
      · rw [hlink _ List.mem_cons_self, hnext]
      · apply ih
        intro id hid
        exact hlink id (List.mem_cons_of_mem _ hid)

end Segment

/-- The places met on the way from `a` until the links lead to `b`, as many as the fuel
allows. -/
def placesFrom (link : Nat → Option Nat) (b : Nat) : Nat → Nat → List Nat
  | 0, _ => []
  | fuel + 1, a =>
      match link a with
      | none => []
      | some next => a :: if next = b then [] else placesFrom link b fuel next

/-- The places of a segment that comes to its end once. -/
theorem Segment.placesFrom_eq {link : Nat → Option Nat} {a b fuel : Nat} {ids : List Nat}
    (h : Segment link a ids b) (hne : ids ≠ []) (hend : b ∉ ids.tail) (hfuel : ids.length ≤ fuel) :
  placesFrom link b fuel a = ids
  := by
  induction h generalizing fuel with
  | nil a => exact absurd rfl hne
  | @cons a b next ids hlink hrest ih =>
      cases fuel with
      | zero => exact absurd hfuel (Nat.not_succ_le_zero _)
      | succ fuel =>
          rw [placesFrom, hlink]
          dsimp only
          cases ids with
          | nil =>
              rw [nil_iff] at hrest
              rw [if_pos hrest]
          | cons id ids =>
              obtain ⟨rfl, -⟩ := cons_iff.mp hrest
              have hnext : next ≠ b := by
                rintro rfl
                exact hend List.mem_cons_self
              rw [if_neg hnext, ih (List.cons_ne_nil _ _)]
              · intro hmem
                exact hend (List.mem_cons_of_mem _ hmem)
              · exact Nat.le_of_succ_le_succ hfuel
