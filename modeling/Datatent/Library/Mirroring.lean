import Datatent.Library.Returns

/-!
# A computation that mirrors another one

Two computations on different states, the second of which is the reference. The first one mirrors
it (`Mirrors`) when from related states it comes to the same value, under a translation of the
values, and to a related state. It may always give up with an exception of a given kind, such as
one about a lack of room. Of the exceptions of the reference only some are told: where the
reference throws another one, nothing is asked of the first computation.
-/

/-- The exceptions that a computation may give up with, the exceptions of the reference that it
throws as well, and how the states are related after one of these. -/
structure Mirroring (ε σ τ : Type) where
  GivesUp : ε → Prop
  Told : ε → Prop
  After : σ → τ → Prop

variable {ε σ τ α α' β β' : Type}

/-- From states related by `R` the computation `x` does what `y` does: it returns the value of
`y`, translated by `f`, in a state that is related by `Q`, or throws what `y` throws. -/
structure Mirrors (M : Mirroring ε σ τ) (R : σ → τ → Prop) (x : EStateM ε σ α)
    (y : EStateM ε τ β) (f : β → α) (Q : β → σ → τ → Prop) : Prop where
  run : ∀ {s t}, R s t → (∃ e s', x s = .error e s' ∧ M.GivesUp e) ∨
    match y t with
    | .ok b t' => ∃ s', x s = .ok (f b) s' ∧ Q b s' t'
    | .error e t' => M.Told e → ∃ s', x s = .error e s' ∧ M.After s' t'

namespace Mirrors

variable {M : Mirroring ε σ τ} {R U : σ → τ → Prop} {x : EStateM ε σ α} {y : EStateM ε τ β}
  {f : β → α} {g : β' → α'} {P Y : β → σ → τ → Prop} {Q : β' → σ → τ → Prop}

/-- Returning the translated value. -/
theorem pure {a : α} {b : β} (ha : a = f b) (h : ∀ s t, R s t → P b s t) :
  Mirrors M R (Pure.pure a : EStateM ε σ α) (Pure.pure b : EStateM ε τ β) f P
  := ⟨fun hR => .inr ⟨_, congrArg (EStateM.Result.ok · _) ha, h _ _ hR⟩⟩

/-- Nothing is asked where the reference throws an exception that is not told. -/
theorem untold {e : ε} (h : ¬ M.Told e) :
  Mirrors M R x (MonadExceptOf.throw e : EStateM ε τ β) f P
  := ⟨fun _ => .inr (fun htold => absurd htold h)⟩

/-- Throwing the same exception. -/
theorem throw (e : ε) (h : ∀ s t, R s t → M.After s t) :
  Mirrors M R (MonadExceptOf.throw e : EStateM ε σ α) (MonadExceptOf.throw e : EStateM ε τ β) f P
  := ⟨fun hR => .inr (fun _ => ⟨_, rfl, h _ _ hR⟩)⟩

/-- From every two related states the first computation gives up, the reference throws an
exception that is not told, or both return. -/
theorem of_run (h : ∀ s t, R s t → (∃ e s', x s = .error e s' ∧ M.GivesUp e)
      ∨ (∃ e t', y t = .error e t' ∧ ¬ M.Told e)
      ∨ ∃ b s' t', x s = .ok (f b) s' ∧ y t = .ok b t' ∧ P b s' t') :
  Mirrors M R x y f P
  := by
  constructor
  intro s t hR
  rcases h s t hR with hgives | ⟨e, t', hy, htold⟩ | ⟨b, s', t', hx, hy, hb⟩
  · exact .inl hgives
  · rw [hy]
    exact .inr (fun h => absurd h htold)
  · rw [hy]
    exact .inr ⟨s', hx, hb⟩

/-- Related states by another relation before and after. -/
theorem weaken (hxy : Mirrors M R x y f P) (hR : ∀ s t, U s t → R s t)
    (hP : ∀ b s t, P b s t → Y b s t) :
  Mirrors M U x y f Y
  := by
  constructor
  intro s t h
  rcases hxy.run (hR s t h) with hgives | hrun
  · exact .inl hgives
  · refine .inr ?_
    cases hy : y t with
    | ok b t' =>
        rw [hy] at hrun
        obtain ⟨s', hx, hb⟩ := hrun
        exact ⟨s', hx, hP b s' t' hb⟩
    | error e t' =>
        rw [hy] at hrun
        exact hrun

/-- A fact about all related states may be used. -/
theorem of_fact {F : Prop} (hfact : ∀ s t, R s t → F) (hxy : F → Mirrors M R x y f P) :
  Mirrors M R x y f P
  := ⟨fun hR => (hxy (hfact _ _ hR)).run hR⟩

/-- Computations followed by other ones. -/
theorem bind {k : α → EStateM ε σ α'} {l : β → EStateM ε τ β'} (hxy : Mirrors M R x y f P)
    (hkl : ∀ b, Mirrors M (P b) (k (f b)) (l b) g Q) :
  Mirrors M R (x >>= k) (y >>= l) g Q
  := by
  constructor
  intro s t h
  rcases hxy.run h with ⟨e, s', hx, hgives⟩ | hrun
  · exact .inl ⟨e, s', EStateM.bind_apply_of_error hx k, hgives⟩
  · cases hy : y t with
    | ok b t' =>
        rw [hy] at hrun
        obtain ⟨s', hx, hb⟩ := hrun
        rw [EStateM.bind_apply_of_ok hx, EStateM.bind_apply_of_ok hy]
        exact (hkl b).run hb
    | error e t' =>
        rw [hy] at hrun
        rw [EStateM.bind_apply_of_error hy]
        refine .inr (fun htold => ?_)
        obtain ⟨s', hx, hafter⟩ := hrun htold
        exact ⟨s', EStateM.bind_apply_of_error hx k, hafter⟩

/-- Computations that give a fact about their value, followed by other ones. -/
theorem bind_fact {F : β → Prop} {k : α → EStateM ε σ α'} {l : β → EStateM ε τ β'}
    (hxy : Mirrors M R x y f (fun b s t => P b s t ∧ F b))
    (hkl : ∀ b, F b → Mirrors M (P b) (k (f b)) (l b) g Q) :
  Mirrors M R (x >>= k) (y >>= l) g Q
  := bind hxy (fun b => ⟨fun h => (hkl b h.2).run h.1⟩)

/-- Computations followed by the application of functions. -/
theorem map {k : α → α'} {l : β → β'} (hxy : Mirrors M R x y f (fun b => Q (l b)))
    (hkl : ∀ b, k (f b) = g (l b)) :
  Mirrors M R (k <$> x) (l <$> y) g Q
  := by
  rw [map_eq_pure_bind, map_eq_pure_bind]
  exact bind hxy (fun b => pure (hkl b) (fun _ _ h => h))

/-- A choice by conditions that are equivalent. -/
theorem ite {c d : Prop} [Decidable c] [Decidable d] {x' : EStateM ε σ α} {y' : EStateM ε τ β}
    (hcd : c ↔ d) (hxy : d → Mirrors M R x y f P) (hxy' : ¬ d → Mirrors M R x' y' f P) :
  Mirrors M R (if c then x else x') (if d then y else y') f P
  := by
  by_cases hd : d
  · rw [if_pos hd, if_pos (hcd.mpr hd)]
    exact hxy hd
  · rw [if_neg hd, if_neg (fun hc => hd (hcd.mp hc))]
    exact hxy' hd

/-- What the reference does besides. -/
theorem and_returns {I : τ → Prop} {J : β → τ → Prop} (hxy : Mirrors M R x y f P)
    (hR : ∀ s t, R s t → I t) (hy : Returns I y J) :
  Mirrors M R x y f (fun b s t => P b s t ∧ J b t)
  := by
  constructor
  intro s t h
  rcases hxy.run h with hgives | hrun
  · exact .inl hgives
  · refine .inr ?_
    cases hrest : y t with
    | ok b t' =>
        rw [hrest] at hrun
        obtain ⟨s', hx, hb⟩ := hrun
        exact ⟨s', hx, hb, hy.of_ok (hR s t h) hrest⟩
    | error e t' =>
        rw [hrest] at hrun
        exact hrun

/-- Computations, where what the reference does gives a fact, followed by other ones. -/
theorem bind_returns {I : τ → Prop} {G : β → τ → Prop} {k : α → EStateM ε σ α'}
    {l : β → EStateM ε τ β'} (hxy : Mirrors M R x y f P) (hR : ∀ s t, R s t → I t)
    (hy : Returns I y G)
    (hkl : ∀ b t₀, G b t₀ → Mirrors M (P b) (k (f b)) (l b) g Q) :
  Mirrors M R (x >>= k) (y >>= l) g Q
  := bind (hxy.and_returns hR hy) (fun b => ⟨fun h => (hkl b _ h.2).run h.1⟩)

/-- The reference keeps a property of its state. -/
theorem keep {I : τ → Prop} {F : β → Prop}
    (hxy : Mirrors M R x y f (fun b s t => P b s t ∧ F b)) (hy : Returns I y (fun _ => I)) :
  Mirrors M (fun s t => R s t ∧ I t) x y f (fun b s t => (P b s t ∧ I t) ∧ F b)
  := by
  have hkeep := (hxy.weaken (U := fun s t => R s t ∧ I t) (fun _ _ h => h.1)
    (fun _ _ _ h => h)).and_returns (fun _ _ h => h.2) hy
  exact hkeep.weaken (fun _ _ h => h) (fun _ _ _ h => ⟨⟨h.1.1, h.2⟩, h.1.2⟩)

/-- Every state of the reference is looked at on its own. -/
theorem of_reference {I : τ → Prop}
    (hxy : ∀ t₀, I t₀ → Mirrors M (fun s t => R s t ∧ t = t₀) x y f P) :
  Mirrors M (fun s t => R s t ∧ I t) x y f P
  := ⟨fun h => (hxy _ h.2).run ⟨h.1, rfl⟩⟩

/-- What a computation comes to that does not give up, where the reference returns. -/
theorem of_ok (hxy : Mirrors M R x y f P) {s : σ} {t t' : τ} {b : β} (hR : R s t)
    (hy : y t = .ok b t') :
  (∃ e s', x s = .error e s' ∧ M.GivesUp e) ∨ ∃ s', x s = .ok (f b) s' ∧ P b s' t'
  := by
  have h := hxy.run hR
  rw [hy] at h
  exact h

/-- What a computation comes to that does not give up, where the reference throws. -/
theorem of_error (hxy : Mirrors M R x y f P) {s : σ} {t t' : τ} {e : ε} (hR : R s t)
    (hy : y t = .error e t') (htold : M.Told e) :
  (∃ e' s', x s = .error e' s' ∧ M.GivesUp e') ∨ ∃ s', x s = .error e s' ∧ M.After s' t'
  := by
  have h := hxy.run hR
  rw [hy] at h
  exact h.imp_right (fun hrun => hrun htold)

end Mirrors
