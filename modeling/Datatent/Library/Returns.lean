import Datatent.Library.Yields

/-!
# What a computation that returns has done

Partial correctness of computations that change a state and may throw: `Returns P x Q` says
that whenever the computation `x`, from a state with `P`, returns a value, the value and the
state it ends in have `Q`. The rules follow the structure of a computation.
-/

/-- What the computation returns from a state with `P`, and the state it ends in, have `Q`. -/
structure Returns {ε σ α : Type} (P : σ → Prop) (x : EStateM ε σ α) (Q : α → σ → Prop) :
    Prop where
  of_ok : ∀ {s a s'}, P s → x s = .ok a s' → Q a s'

namespace Returns

variable {ε σ α β : Type} {P R : σ → Prop} {x : EStateM ε σ α} {Q : β → σ → Prop}
  {T : α → σ → Prop}

/-- Returning a value leaves the state. -/
theorem pure {a : α} (h : ∀ s, P s → T a s) :
  Returns P (Pure.pure a : EStateM ε σ α) T
  := by
  constructor
  rintro s _ _ hP ⟨⟩
  exact h s hP

/-- A computation that throws returns nothing. -/
theorem throw (P : σ → Prop) (e : ε) (T : α → σ → Prop) :
  Returns P (MonadExceptOf.throw e : EStateM ε σ α) T
  := by
  constructor
  rintro s _ _ - ⟨⟩

/-- A computation followed by another one. -/
theorem bind {f : α → EStateM ε σ β} (hx : Returns P x T) (hf : ∀ a, Returns (T a) (f a) Q) :
  Returns P (x >>= f) Q
  := by
  constructor
  intro s b s'' hP hrun
  obtain ⟨a, s', hs', hrest⟩ := EStateM.bind_eq_ok.mp hrun
  exact (hf a).of_ok (hx.of_ok hP hs') hrest

/-- A computation that gives a fact about its value, followed by another one. -/
theorem bind_fact {F : α → Prop} {f : α → EStateM ε σ β}
    (hx : Returns P x (fun a s => R s ∧ F a)) (hf : ∀ a, F a → Returns R (f a) Q) :
  Returns P (x >>= f) Q
  := bind hx (fun a => ⟨fun h hrun => (hf a h.2).of_ok h.1 hrun⟩)

/-- The property after in another form. -/
theorem weaken {T' : α → σ → Prop} (hx : Returns P x T) (hT : ∀ a s, T a s → T' a s) :
  Returns P x T'
  := ⟨fun hP hrun => hT _ _ (hx.of_ok hP hrun)⟩

/-- A choice between two computations. -/
theorem ite {c : Prop} [Decidable c] {y : EStateM ε σ α} (hx : c → Returns P x T)
    (hy : ¬ c → Returns P y T) :
  Returns P (if c then x else y) T
  := by
  split
  · exact hx ‹_›
  · exact hy ‹_›

/-- A choice between two computations, followed by another one. -/
theorem ite_bind {c : Prop} [Decidable c] {y : EStateM ε σ α} {f : α → EStateM ε σ β}
    (hx : Returns P x T) (hy : Returns P y T) (hf : ∀ a, Returns (T a) (f a) Q) :
  Returns P (if c then x >>= f else y >>= f) Q
  := ite (fun _ => bind hx hf) (fun _ => bind hy hf)

/-- A computation followed by the application of a function. -/
theorem map {f : α → β} (hx : Returns P x (fun a => Q (f a))) :
  Returns P (f <$> x) Q
  := by
  constructor
  intro s b s' hP hrun
  simp only [Functor.map, EStateM.map] at hrun
  split at hrun
  · rename_i a s'' hs''
    cases hrun
    exact hx.of_ok hP hs''
  · cases hrun

end Returns
