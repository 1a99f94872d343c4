import Datatent.Library.Yields

/-!
# How a computation finishes

A computation that changes a state and may throw finishes in one of two ways. `Finishes x s Q E`
says that from the state `s` the computation `x` returns a value and ends in a state that have
`Q`, or throws an exception in a state that have `E`. The rules follow the structure of a
computation.
-/

/-- From the state the computation returns with `Q` or throws with `E`. -/
def Finishes {ε σ α : Type} (x : EStateM ε σ α) (s : σ) (Q : α → σ → Prop) (E : ε → σ → Prop) :
    Prop :=
  match x s with
  | .ok a s' => Q a s'
  | .error e s' => E e s'

namespace Finishes

variable {ε σ α β : Type} {x : EStateM ε σ α} {f : α → EStateM ε σ β} {s s' : σ} {a : α} {e : ε}
  {Q Q' R : α → σ → Prop} {T : β → σ → Prop} {E E' : ε → σ → Prop}

/-- A computation that returns. -/
theorem of_ok (hx : x s = .ok a s') (hQ : Q a s') :
  Finishes x s Q E
  := by
  rw [Finishes, hx]
  exact hQ

/-- A computation that throws. -/
theorem of_error (hx : x s = .error e s') (hE : E e s') :
  Finishes x s Q E
  := by
  rw [Finishes, hx]
  exact hE

/-- What holds when the computation returns. -/
theorem ok (h : Finishes x s Q E) (hx : x s = .ok a s') :
  Q a s'
  := by
  rwa [Finishes, hx] at h

/-- What holds when the computation throws. -/
theorem error (h : Finishes x s Q E) (hx : x s = .error e s') :
  E e s'
  := by
  rwa [Finishes, hx] at h

/-- Weaker properties after. -/
theorem mono (h : Finishes x s Q E) (hQ : ∀ a s', Q a s' → Q' a s')
    (hE : ∀ e s', E e s' → E' e s') :
  Finishes x s Q' E'
  := by
  cases hx : x s with
  | ok a s' => exact of_ok hx (hQ a s' (h.ok hx))
  | error e s' => exact of_error hx (hE e s' (h.error hx))

/-- A computation that does in one state what it does in another one. -/
theorem congr_state (hx : x s = x s') (h : Finishes x s' Q E) :
  Finishes x s Q E
  := by
  rw [Finishes, hx]
  exact h

/-- A computation followed by another one. -/
theorem bind (hx : Finishes x s R E) (hf : ∀ a s', R a s' → Finishes (f a) s' T E) :
  Finishes (x >>= f) s T E
  := by
  cases h : x s with
  | ok a s' =>
      rw [Finishes, EStateM.bind_apply_of_ok h]
      exact hf a s' (hx.ok h)
  | error e s' =>
      rw [Finishes, EStateM.bind_apply_of_error h]
      exact hx.error h

/-- A computation that returns, followed by another one. -/
theorem bind_of_ok (hx : x s = .ok a s') (hf : Finishes (f a) s' T E) :
  Finishes (x >>= f) s T E
  := by
  rw [Finishes, EStateM.bind_apply_of_ok hx]
  exact hf

end Finishes
