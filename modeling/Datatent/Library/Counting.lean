import Datatent.Library.Yields

/-!
# Counting what a computation does

A computation is run on a state with a counter beside one on the state alone. The first one
does what the second one does and counts at most some number (`Counts`), unless the second one
ends in a given exception. That exception is for a computation with a bound on its steps that
is too small: a run with a small bound then says how much a run with a larger one counts.
-/

variable {ε σ α β : Type}

/-- A computation that leaves the counter. -/
def EStateM.uncounted (x : EStateM ε σ α) : EStateM ε (σ × Nat) α :=
  fun s =>
    match x s.1 with
    | .ok a s' => .ok a (s', s.2)
    | .error e s' => .error e (s', s.2)

/-- A computation that is counted. -/
def EStateM.counted (x : EStateM ε σ α) : EStateM ε (σ × Nat) α :=
  fun s => x.uncounted (s.1, s.2 + 1)

/-- Unless `x` throws `bad`, the computation `y` comes to the same result and state, which has
the property `P`, and counts at most `n`. -/
def Counts (bad : ε) (n : Nat) (x : EStateM ε σ α) (y : EStateM ε (σ × Nat) α)
    (P : α → Prop) : Prop :=
  ∀ s c,
    match x s with
    | .ok a s' => P a ∧ ∃ k ≤ n, y (s, c) = .ok a (s', c + k)
    | .error e s' => e = bad ∨ ∃ k ≤ n, y (s, c) = .error e (s', c + k)

namespace Counts

variable {bad : ε} {n n' : Nat} {x : EStateM ε σ α} {y : EStateM ε (σ × Nat) α} {P : α → Prop}

/-- Returning a value counts nothing. -/
theorem pure {a : α} (h : P a) :
  Counts bad n (Pure.pure a : EStateM ε σ α) (Pure.pure a) P
  := fun _ _ => ⟨h, 0, Nat.zero_le n, rfl⟩

/-- Throwing an exception counts nothing. -/
theorem throw (e : ε) (P : α → Prop) :
  Counts bad n (MonadExcept.throw e : EStateM ε σ α) (MonadExcept.throw e) P
  := fun _ _ => .inr ⟨0, Nat.zero_le n, rfl⟩

/-- Nothing is said about a computation that throws the exception. -/
theorem throw_bad (n : Nat) (y : EStateM ε (σ × Nat) α) (P : α → Prop) :
  Counts bad n (MonadExcept.throw bad : EStateM ε σ α) y P
  := fun _ _ => .inl rfl

/-- What is not counted. -/
theorem uncounted (x : EStateM ε σ α) :
  Counts bad 0 x x.uncounted (fun _ => True)
  := by
  intro s c
  cases h : x s with
  | ok a s' => exact ⟨trivial, 0, Nat.le_refl 0, by simp only [EStateM.uncounted, h, Nat.add_zero]⟩
  | error e s' => exact .inr ⟨0, Nat.le_refl 0, by simp only [EStateM.uncounted, h, Nat.add_zero]⟩

/-- What is counted. -/
theorem counted (x : EStateM ε σ α) :
  Counts bad 1 x x.counted (fun _ => True)
  := by
  intro s c
  cases h : x s with
  | ok a s' => exact ⟨trivial, 1, Nat.le_refl 1, by simp only [EStateM.counted,
      EStateM.uncounted, h]⟩
  | error e s' => exact .inr ⟨1, Nat.le_refl 1, by simp only [EStateM.counted,
      EStateM.uncounted, h]⟩

/-- A computation followed by another one. -/
theorem bind {f : α → EStateM ε σ β} {g : α → EStateM ε (σ × Nat) β} {Q : β → Prop}
    (hx : Counts bad n x y P) (hf : ∀ a, P a → Counts bad n' (f a) (g a) Q) :
  Counts bad (n + n') (x >>= f) (y >>= g) Q
  := by
  intro s c
  have h := hx s c
  simp only [Bind.bind, EStateM.bind]
  cases hs : x s with
  | ok a s' =>
      rw [hs] at h
      obtain ⟨ha, k, hk, hy⟩ := h
      have hrest := hf a ha s' (c + k)
      dsimp only
      cases hs' : f a s' with
      | ok b s'' =>
          rw [hs'] at hrest
          obtain ⟨hb, k', hk', hg⟩ := hrest
          refine ⟨hb, k + k', Nat.add_le_add hk hk', ?_⟩
          rw [hy]
          dsimp only
          rw [hg, Nat.add_assoc]
      | error e s'' =>
          rw [hs'] at hrest
          rcases hrest with rfl | ⟨k', hk', hg⟩
          · exact .inl rfl
          · refine .inr ⟨k + k', Nat.add_le_add hk hk', ?_⟩
            rw [hy]
            dsimp only
            rw [hg, Nat.add_assoc]
  | error e s' =>
      rw [hs] at h
      rcases h with rfl | ⟨k, hk, hy⟩
      · exact .inl rfl
      · refine .inr ⟨k, Nat.le_trans hk (Nat.le_add_right n n'), ?_⟩
        rw [hy]

/-- A computation that counts nothing followed by another one. -/
theorem bind_free {f : α → EStateM ε σ β} {g : α → EStateM ε (σ × Nat) β} {Q : β → Prop}
    (hx : Counts bad 0 x y P) (hf : ∀ a, P a → Counts bad n (f a) (g a) Q) :
  Counts bad n (x >>= f) (y >>= g) Q
  := by
  rw [← Nat.zero_add n]
  exact bind hx hf

/-- A computation followed by one that counts nothing. -/
theorem bind_into_free {f : α → EStateM ε σ β} {g : α → EStateM ε (σ × Nat) β} {Q : β → Prop}
    (hx : Counts bad n x y P) (hf : ∀ a, P a → Counts bad 0 (f a) (g a) Q) :
  Counts bad n (x >>= f) (y >>= g) Q
  := bind hx hf

/-- A computation followed by the application of a function. -/
theorem map (f : α → β) (hx : Counts bad n x y (fun _ => True)) :
  Counts bad n (f <$> x) (f <$> y) (fun _ => True)
  := by
  rw [map_eq_pure_bind, map_eq_pure_bind]
  exact bind_into_free hx (fun a _ => pure trivial)

/-- A larger number and a weaker property. -/
theorem weaken {P' : α → Prop} (hx : Counts bad n x y P) (hn : n ≤ n') (hP : ∀ a, P a → P' a) :
  Counts bad n' x y P'
  := by
  intro s c
  have h := hx s c
  cases hs : x s with
  | ok a s' =>
      rw [hs] at h
      obtain ⟨ha, k, hk, hy⟩ := h
      exact ⟨hP a ha, k, Nat.le_trans hk hn, hy⟩
  | error e s' =>
      rw [hs] at h
      rcases h with rfl | ⟨k, hk, hy⟩
      · exact .inl rfl
      · exact .inr ⟨k, Nat.le_trans hk hn, hy⟩

/-- A choice. -/
theorem ite {c : Prop} [Decidable c] {x' : EStateM ε σ α} {y' : EStateM ε (σ × Nat) α}
    (hx : c → Counts bad n x y P) (hx' : ¬ c → Counts bad n x' y' P) :
  Counts bad n (if c then x else x') (if c then y else y') P
  := by
  split
  · exact hx ‹_›
  · exact hx' ‹_›

/-- A computation that does not throw the exception counts at most `n`. -/
theorem exists_count {s : σ} (h : Counts bad n x y P) (hx : ∀ s', x s ≠ .error bad s') (c : Nat) :
  ∃ k ≤ n, y (s, c) =
    match x s with
    | .ok a s' => .ok a (s', c + k)
    | .error e s' => .error e (s', c + k)
  := by
  have hcount := h s c
  cases hs : x s with
  | ok a s' =>
      rw [hs] at hcount
      exact hcount.2
  | error e s' =>
      rw [hs] at hcount
      rcases hcount with rfl | hcount
      · exact absurd hs (hx s')
      · exact hcount

/-- Two bounds on the steps of a computation that are large enough lead to the same. -/
theorem eq_of_ne {x' : EStateM ε σ α} {P' : α → Prop} {s : σ} (h : Counts bad n x y P)
    (h' : Counts bad n' x' y P') (hx : ∀ s', x s ≠ .error bad s')
    (hx' : ∀ s', x' s ≠ .error bad s') :
  x s = x' s
  := by
  obtain ⟨k, -, hy⟩ := h.exists_count hx 0
  obtain ⟨k', -, hy'⟩ := h'.exists_count hx' 0
  rw [hy] at hy'
  cases hs : x s with
  | ok a s₁ =>
      rw [hs] at hy'
      cases hs' : x' s with
      | ok a' s₂ =>
          rw [hs'] at hy'
          obtain ⟨rfl, hstate⟩ := EStateM.Result.ok.inj hy'
          rw [(Prod.mk.inj hstate).1]
      | error e' s₂ =>
          rw [hs'] at hy'
          cases hy'
  | error e s₁ =>
      rw [hs] at hy'
      cases hs' : x' s with
      | ok a' s₂ =>
          rw [hs'] at hy'
          cases hy'
      | error e' s₂ =>
          rw [hs'] at hy'
          obtain ⟨rfl, hstate⟩ := EStateM.Result.error.inj hy'
          rw [(Prod.mk.inj hstate).1]

end Counts
