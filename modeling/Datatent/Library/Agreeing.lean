import Datatent.Library.Yields

/-!
# Computations that agree up to a bound

Two computations on the same state, the first of which stands for one without a bound on some
measure of the state, such as a counter. They agree up to the bound (`AgreesUpTo`) when the
second one does what the first one does wherever the first one ends within the bound. That no
part of the first computation makes the measure less is what lets the rules follow the structure
of a computation: where the whole of it ends within the bound, every part of it does.
-/

/-- The state that a computation ended in. -/
def EStateM.Result.state {ε σ α : Type} : EStateM.Result ε σ α → σ
  | .ok _ s => s
  | .error _ s => s

/-- The computation `x` never makes the measure less, and wherever it ends within the bound, the
computation `y` does the same. -/
structure AgreesUpTo {ε σ α : Type} (measure : σ → Nat) (bound : Nat) (x y : EStateM ε σ α) :
    Prop where
  grows : ∀ s, measure s ≤ measure (x s).state
  agrees : ∀ s, measure (x s).state ≤ bound → y s = x s

namespace AgreesUpTo

variable {ε σ α β : Type} {measure : σ → Nat} {bound : Nat} {x y : EStateM ε σ α}

/-- A computation that does not make the measure less agrees with itself. -/
theorem refl (hx : ∀ s, measure s ≤ measure (x s).state) :
  AgreesUpTo measure bound x x
  := ⟨hx, fun _ _ => rfl⟩

/-- Returning a value leaves the state. -/
theorem pure (a : α) :
  AgreesUpTo measure bound (Pure.pure a : EStateM ε σ α) (Pure.pure a)
  := refl fun _ => Nat.le_refl _

/-- Throwing an exception leaves the state. -/
theorem throw (e : ε) :
  AgreesUpTo measure bound (MonadExcept.throw e : EStateM ε σ α) (MonadExcept.throw e)
  := refl fun _ => Nat.le_refl _

/-- A computation followed by another one. -/
theorem bind {f g : α → EStateM ε σ β} (hx : AgreesUpTo measure bound x y)
    (hf : ∀ a, AgreesUpTo measure bound (f a) (g a)) :
  AgreesUpTo measure bound (x >>= f) (y >>= g)
  := by
  constructor
  · intro s
    have hgrows := hx.grows s
    simp only [Bind.bind, EStateM.bind]
    cases hs : x s with
    | ok a s' =>
        rw [hs] at hgrows
        exact Nat.le_trans hgrows ((hf a).grows s')
    | error e s' =>
        rw [hs] at hgrows
        exact hgrows
  · intro s hbound
    have hagrees := hx.agrees s
    simp only [Bind.bind, EStateM.bind] at hbound ⊢
    cases hs : x s with
    | ok a s' =>
        rw [hs] at hagrees hbound
        rw [hagrees (Nat.le_trans ((hf a).grows s') hbound)]
        exact (hf a).agrees s' hbound
    | error e s' =>
        rw [hs] at hagrees hbound
        rw [hagrees hbound]

/-- A choice. -/
theorem ite {c : Prop} [Decidable c] {x' y' : EStateM ε σ α} (hx : AgreesUpTo measure bound x y)
    (hx' : AgreesUpTo measure bound x' y') :
  AgreesUpTo measure bound (if c then x else x') (if c then y else y')
  := by
  split
  · exact hx
  · exact hx'

end AgreesUpTo
