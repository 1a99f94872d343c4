/-!
# Computations on a state

Total correctness of computations that change a state and may throw: `Yields P x a Q` says
that from every state with `P` the computation `x` returns `a`, throws nothing, and ends in a
state with `Q`, and `Throws P x e Q` that it throws `e` in a state with `Q`. The rules follow
the structure of a computation.
-/

/-- From every state with `P` the computation returns `a` and ends in a state with `Q`. -/
def Yields {ε σ α : Type} (P : σ → Prop) (x : EStateM ε σ α) (a : α) (Q : σ → Prop) : Prop :=
  ∀ s, P s → ∃ s', x s = .ok a s' ∧ Q s'

namespace Yields

variable {ε σ α β : Type} {P Q R : σ → Prop} {x : EStateM ε σ α} {a : α} {b : β}

/-- Returning a value leaves the state. -/
theorem pure (P : σ → Prop) (a : α) :
  Yields P (Pure.pure a : EStateM ε σ α) a P
  := fun s h => ⟨s, rfl, h⟩

/-- A computation followed by another one. -/
theorem bind {f : α → EStateM ε σ β} (hx : Yields P x a R) (hf : Yields R (f a) b Q) :
  Yields P (x >>= f) b Q
  := by
  intro s h
  obtain ⟨s', hs', hR⟩ := hx s h
  obtain ⟨s'', hs'', hQ⟩ := hf s' hR
  refine ⟨s'', ?_, hQ⟩
  simp only [Bind.bind, EStateM.bind, hs', hs'']

/-- A computation that comes to returning a value, followed by another one. -/
theorem bind_eq {f : α → EStateM ε σ β} (hx : x = Pure.pure a) (hf : Yields P (f a) b Q) :
  Yields P (x >>= f) b Q
  := by
  subst hx
  exact bind (pure P a) hf

/-- A fact about every state with `P` may be used. -/
theorem of_fact {F : Prop} (hfact : ∀ s, P s → F) (hx : F → Yields P x a Q) :
  Yields P x a Q
  := fun s h => hx (hfact s h) s h

/-- A computation followed by the application of a function. -/
theorem map (f : α → β) (hx : Yields P x a Q) :
  Yields P (f <$> x) (f a) Q
  := by
  intro s h
  obtain ⟨s', hs', hQ⟩ := hx s h
  refine ⟨s', ?_, hQ⟩
  simp only [Functor.map, EStateM.map, hs']

/-- Reading the state and going on with it. -/
theorem get_bind {f : σ → EStateM ε σ β} (h : ∀ s, P s → ∃ s', f s s = .ok b s' ∧ Q s') :
  Yields P (get >>= f) b Q
  := h

/-- A function of the state. -/
theorem map_get {f : σ → β} (h : ∀ s, P s → f s = b) :
  Yields P (f <$> (get : EStateM ε σ σ)) b P
  := by
  intro s hP
  refine ⟨s, ?_, hP⟩
  rw [← h s hP]
  rfl

/-- The property after in another form. -/
theorem weaken {Q' : σ → Prop} (hx : Yields P x a Q) (hQ : ∀ s, Q s → Q' s) :
  Yields P x a Q'
  := by
  intro s h
  obtain ⟨s', hs', h'⟩ := hx s h
  exact ⟨s', hs', hQ s' h'⟩

/-- The choice whose condition holds. -/
theorem ite_pos {c : Prop} [Decidable c] {y : EStateM ε σ α} (hc : c) (hx : Yields P x a Q) :
  Yields P (if c then x else y) a Q
  := by
  rw [if_pos hc]
  exact hx

/-- The choice whose condition fails. -/
theorem ite_neg {c : Prop} [Decidable c] {y : EStateM ε σ α} (hc : ¬ c) (hy : Yields P y a Q) :
  Yields P (if c then x else y) a Q
  := by
  rw [if_neg hc]
  exact hy

end Yields

/-- Reading the state and going on with it, from a state. -/
theorem EStateM.get_bind_apply {ε σ β : Type} (f : σ → EStateM ε σ β) (s : σ) :
  (get >>= f) s = f s s
  := rfl

/-- A computation that changes the state first. -/
theorem EStateM.modify_bind_apply {ε σ β : Type} (f : σ → σ) (g : PUnit → EStateM ε σ β) (s : σ) :
  (modify f >>= g) s = g ⟨⟩ (f s)
  := rfl

/-- A computation that returns, and what follows it. -/
theorem EStateM.bind_apply_of_ok {ε σ α β : Type} {x : EStateM ε σ α} {a : α} {s s' : σ}
    (hx : x s = .ok a s') (f : α → EStateM ε σ β) :
  (x >>= f) s = f a s'
  := by
  simp only [Bind.bind, EStateM.bind, hx]

/-- A computation that starts in the same way in two states, and what follows it. -/
theorem EStateM.bind_congr_state {ε σ α β : Type} {x : EStateM ε σ α} {s s' : σ}
    (hx : x s = x s') (f : α → EStateM ε σ β) :
  (x >>= f) s = (x >>= f) s'
  := by
  simp only [Bind.bind, EStateM.bind, hx]

/-- A computation that throws, and what would follow it. -/
theorem EStateM.bind_apply_of_error {ε σ α β : Type} {x : EStateM ε σ α} {e : ε} {s s' : σ}
    (hx : x s = .error e s') (f : α → EStateM ε σ β) :
  (x >>= f) s = .error e s'
  := by
  simp only [Bind.bind, EStateM.bind, hx]

/-- A sequence of two computations returns when the first one does and the second one does
after it. -/
theorem EStateM.bind_eq_ok {ε σ α β : Type} {x : EStateM ε σ α} {f : α → EStateM ε σ β} {b : β}
    {s s'' : σ} :
  (x >>= f) s = .ok b s'' ↔ ∃ a s', x s = .ok a s' ∧ f a s' = .ok b s''
  := by
  simp only [Bind.bind, EStateM.bind]
  cases x s with
  | ok a s' =>
      constructor
      · exact fun h => ⟨a, s', rfl, h⟩
      · rintro ⟨_, _, ⟨⟩, h⟩
        exact h
  | error e s' =>
      constructor
      · rintro ⟨⟩
      · rintro ⟨_, _, ⟨⟩, _⟩

/-- From every state with `P` the computation throws `e` in a state with `Q`. -/
def Throws {ε σ α : Type} (P : σ → Prop) (x : EStateM ε σ α) (e : ε) (Q : σ → Prop) : Prop :=
  ∀ s, P s → ∃ s', x s = .error e s' ∧ Q s'

section Throws

variable {ε σ α β : Type} {P Q R : σ → Prop} {x : EStateM ε σ α} {a : α} {e : ε}

/-- Throwing leaves the state. -/
theorem Throws.throw (P : σ → Prop) (e : ε) :
  Throws P (throw e : EStateM ε σ α) e P
  := fun s h => ⟨s, rfl, h⟩

/-- A computation followed by one that throws. -/
theorem Yields.bind_throws {f : α → EStateM ε σ β} (hx : Yields P x a R)
    (hf : Throws R (f a) e Q) :
  Throws P (x >>= f) e Q
  := by
  intro s h
  obtain ⟨s', hs', hR⟩ := hx s h
  obtain ⟨s'', hs'', hQ⟩ := hf s' hR
  refine ⟨s'', ?_, hQ⟩
  simp only [Bind.bind, EStateM.bind, hs', hs'']

end Throws
