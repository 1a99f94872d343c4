import Mathlib.Logic.Relation

/-!
# Loops

A loop goes from state to state until its body gives no further one. A loop whose states never
grow, and in which a step that does not make the state smaller leaves it as it is, comes to an
end exactly when it reaches no state that it stays at (`ends_iff_of_size`).
-/

namespace Loop

variable {σ : Type} {next : σ → Option σ} {s t : σ}

/-- The loop with the given body comes to an end. -/
inductive Ends (next : σ → Option σ) : σ → Prop where
  | stop {s : σ} (h : next s = none) : Ends next s
  | more {s t : σ} (h : next s = some t) (ht : Ends next t) : Ends next s

/-- The loop with the given body comes from the first state to the second one. -/
def Reaches (next : σ → Option σ) : σ → σ → Prop :=
  Relation.ReflTransGen (fun s t => next s = some t)

/-- A loop that comes to an end does not stay where it starts. -/
theorem Ends.next_ne (h : Ends next s) :
  next s ≠ some s
  := by
  induction h with
  | stop h =>
      rw [h]
      intro hsame
      cases hsame
  | more h _ ih =>
      intro hsame
      rw [h] at hsame
      cases hsame
      exact ih h

/-- A loop that comes to an end does so from every state it reaches. -/
theorem Ends.of_reaches (h : Ends next s) (hreach : Reaches next s t) :
  Ends next t
  := by
  induction hreach with
  | refl => exact h
  | tail _ hstep ih =>
      cases ih with
      | stop hstop =>
          rw [hstop] at hstep
          cases hstep
      | more hmore ht =>
          rw [hmore] at hstep
          cases hstep
          exact ht

/-- A loop comes to an end when it reaches a state after which there is no further one. -/
theorem ends_iff_exists :
  Ends next s ↔ ∃ t, Reaches next s t ∧ next t = none
  := by
  constructor
  · intro h
    induction h with
    | stop h => exact ⟨_, .refl, h⟩
    | more h _ ih =>
        obtain ⟨t, hreach, hstop⟩ := ih
        exact ⟨t, .head h hreach, hstop⟩
  · rintro ⟨t, hreach, hstop⟩
    induction hreach using Relation.ReflTransGen.head_induction_on with
    | refl => exact .stop hstop
    | head hstep _ ih => exact .more hstep ih

/-- A loop that makes every state it reaches smaller comes to an end. -/
theorem ends_of_size (size : σ → Nat)
    (h : ∀ t, Reaches next s t → ∀ u, next t = some u → size u < size t) :
  Ends next s
  := by
  induction hsize : size s using Nat.strongRecOn generalizing s with
  | _ n ih =>
      cases hnext : next s with
      | none => exact .stop hnext
      | some t =>
          have hlt : size t < size s := h s .refl t hnext
          apply Ends.more hnext
          apply ih (size t) (hsize ▸ hlt) _ rfl
          intro u hreach
          exact h u (.head hnext hreach)

/-- A loop whose steps make the state smaller or leave it as it is comes to an end when it
reaches no state that it stays at, and only then. -/
theorem ends_iff_of_size (size : σ → Nat)
    (h : ∀ s t, next s = some t → t = s ∨ size t < size s) :
  Ends next s ↔ ∀ t, Reaches next s t → next t ≠ some t
  := by
  constructor
  · intro hends t hreach
    exact (hends.of_reaches hreach).next_ne
  · intro hmoves
    apply ends_of_size size
    intro t hreach u hnext
    rcases h t u hnext with rfl | hlt
    · exact absurd hnext (hmoves u hreach)
    · exact hlt

end Loop
