import Mathlib.Data.List.TakeDrop

/-!
# Runs of a machine

A machine takes one step for every input. What every step keeps holds after every run
(`invariant`), and what a step keeps under a condition on the state before it holds after
every run whose steps all meet the condition (`Along.invariant`). Where a step that misses
the condition breaks a property, the property holds exactly along the runs whose steps all
meet it (`final_iff_along` for a property broken for good, `forall_take_iff_along` for one
asked of every state, `outputs_eq_iff_along` for the outputs of a second machine,
`outputs_eq_iff_along_both` where the runs in question depend on that machine too).
-/

namespace Run

variable {σ ι : Type}

/-- The state after a sequence of inputs. -/
def final (step : σ → ι → σ) (s : σ) (inputs : List ι) : σ :=
  inputs.foldl step s

/-- Every step of the run meets the condition in the state before it. -/
def Along (step : σ → ι → σ) (P : σ → ι → Prop) : σ → List ι → Prop
  | _, [] => True
  | s, i :: inputs => P s i ∧ Along step P (step s i) inputs

variable {step : σ → ι → σ} {I J : σ → Prop} {P : σ → ι → Prop}

instance decidableAlong [∀ s i, Decidable (P s i)] :
    ∀ (s : σ) (inputs : List ι), Decidable (Along step P s inputs)
  | _, [] => inferInstanceAs (Decidable True)
  | s, i :: inputs =>
      haveI := decidableAlong (step s i) inputs
      inferInstanceAs (Decidable (P s i ∧ Along step P (step s i) inputs))

/-- A run that goes on after another one. -/
theorem final_append (s : σ) (inputs inputs' : List ι) :
  final step s (inputs ++ inputs') = final step (final step s inputs) inputs'
  := List.foldl_append

/-- What every step keeps holds after every run. -/
theorem invariant (hstep : ∀ s i, I s → I (step s i)) :
  ∀ {s : σ} (inputs : List ι), I s → I (final step s inputs)
  | _, [], h => h
  | _, i :: inputs, h => invariant hstep inputs (hstep _ i h)

/-- Every run meets a condition that all steps meet. -/
theorem along_of_forall (h : ∀ s i, P s i) :
  ∀ {s : σ} (inputs : List ι), Along step P s inputs
  | _, [] => trivial
  | s, i :: inputs => ⟨h s i, along_of_forall h inputs⟩

/-- The steps of the first part of a run meet a condition that all its steps meet. -/
theorem Along.take :
  ∀ {s : σ} {inputs : List ι} (n : Nat), Along step P s inputs → Along step P s (inputs.take n)
  | _, _, 0, _ => trivial
  | _, [], _ + 1, _ => trivial
  | _, _ :: _, n + 1, h => ⟨h.1, Along.take n h.2⟩

/-- What a step keeps under a condition holds after every run whose steps all meet it. -/
theorem Along.invariant (hstep : ∀ s i, I s → P s i → I (step s i)) {s : σ} {inputs : List ι}
    (hrun : Along step P s inputs) (h : I s) :
  I (final step s inputs)
  := by
  induction inputs generalizing s with
  | nil => exact h
  | cons i inputs ih => exact ih hrun.2 (hstep s i h hrun.1)

/-- Along a run a condition that keeps an invariant can be replaced by one that follows from
both. -/
theorem Along.imp {Q : σ → ι → Prop} (hstep : ∀ s i, I s → P s i → I (step s i))
    (himp : ∀ s i, I s → P s i → Q s i) :
  ∀ {s : σ} {inputs : List ι}, Along step P s inputs → I s → Along step Q s inputs
  | _, [], _, _ => trivial
  | _, _ :: _, hrun, h =>
      ⟨himp _ _ h hrun.1, Along.imp hstep himp hrun.2 (hstep _ _ h hrun.1)⟩

/-- A condition on a part of the state is met along a run when that part meets it along the run
that it goes through itself. -/
theorem along_comap {τ : Type} {step' : τ → ι → τ} {Q : τ → ι → Prop} (f : σ → τ)
    (hstep : ∀ s i, f (step s i) = step' (f s) i) :
  ∀ {s : σ} (inputs : List ι),
    Along step (fun s i => Q (f s) i) s inputs ↔ Along step' Q (f s) inputs
  | _, [] => Iff.rfl
  | s, i :: inputs => by
      rw [Along, Along, along_comap f hstep inputs, hstep]

/-- A property that the invariant gives and that a step missing the condition breaks for good
holds after exactly the runs whose steps all meet the condition. -/
theorem final_iff_along (hstep : ∀ s i, I s → P s i → I (step s i)) (hgood : ∀ s, I s → J s)
    (hbad : ∀ s i, I s → ¬ P s i → ∀ inputs, ¬ J (final step (step s i) inputs)) :
  ∀ {s : σ} (inputs : List ι), I s → (J (final step s inputs) ↔ Along step P s inputs)
  | s, [], h => ⟨fun _ => trivial, fun _ => hgood s h⟩
  | s, i :: inputs, h => by
      by_cases hi : P s i
      · apply Iff.trans (final_iff_along hstep hgood hbad inputs (hstep s i h hi))
        exact ⟨fun hrest => ⟨hi, hrest⟩, fun hall => hall.2⟩
      · constructor
        · intro hfinal
          exact absurd hfinal (hbad s i h hi inputs)
        · intro hall
          exact absurd hall.1 hi

/-- A property that the invariant gives and that a step missing the condition breaks holds
after every part of exactly the runs whose steps all meet the condition. -/
theorem forall_take_iff_along (hstep : ∀ s i, I s → P s i → I (step s i))
    (hgood : ∀ s, I s → J s) (hbad : ∀ s i, I s → ¬ P s i → ¬ J (step s i)) :
  ∀ {s : σ} (inputs : List ι), I s →
    ((∀ n, J (final step s (inputs.take n))) ↔ Along step P s inputs)
  := by
  intro s inputs h
  constructor
  · intro hall
    induction inputs generalizing s with
    | nil => trivial
    | cons i inputs ih =>
        have hi : P s i := by
          by_contra hi
          exact hbad s i h hi (hall 1)
        exact ⟨hi, ih (hstep s i h hi) (fun n => hall (n + 1))⟩
  · intro hrun n
    exact hgood _ ((hrun.take n).invariant hstep h)

/-! ### Machines with outputs -/

section Outputs

variable {τ ο : Type}

/-- The outputs of a machine that gives one at every step. -/
def outputs (step : σ → ι → ο × σ) : σ → List ι → List ο
  | _, [] => []
  | s, i :: inputs => (step s i).1 :: outputs step (step s i).2 inputs

/-- The outputs of a run that goes on after another one. -/
theorem outputs_append (step : σ → ι → ο × σ) (inputs' : List ι) :
  ∀ (s : σ) (inputs : List ι), outputs step s (inputs ++ inputs')
    = outputs step s inputs ++ outputs step (final (fun s i => (step s i).2) s inputs) inputs'
  | _, [] => rfl
  | s, i :: inputs => by
      have ih := outputs_append step inputs' (step s i).2 inputs
      rw [List.cons_append, outputs, ih]
      rfl

/-- Machines whose steps, under a condition on the first one, give the same outputs and keep a
relation of their states give the same outputs along every run whose steps all meet it, and come
to related states. -/
theorem Along.outputs_eq {step : σ → ι → ο × σ} {step' : τ → ι → ο × τ} {R : σ → τ → Prop}
    {P : σ → ι → Prop}
    (hstep : ∀ s t i, R s t → P s i → (step s i).1 = (step' t i).1
      ∧ R (step s i).2 (step' t i).2) :
  ∀ {s : σ} {t : τ} {inputs : List ι}, Along (fun s i => (step s i).2) P s inputs → R s t →
    outputs step s inputs = outputs step' t inputs
      ∧ R (final (fun s i => (step s i).2) s inputs) (final (fun t i => (step' t i).2) t inputs)
  | _, _, [], _, h => ⟨rfl, h⟩
  | s, t, i :: inputs, hrun, h => by
      obtain ⟨hout, hrel⟩ := hstep s t i h hrun.1
      obtain ⟨hrest, hfinal⟩ := Along.outputs_eq hstep hrun.2 hrel
      refine ⟨?_, hfinal⟩
      rw [outputs, outputs, hout, hrest]

/-- Machines whose steps give the same outputs and keep a relation of their states give the
same outputs along every run, and come to related states. -/
theorem outputs_eq {step : σ → ι → ο × σ} {step' : τ → ι → ο × τ} {R : σ → τ → Prop}
    (hstep : ∀ s t i, R s t → (step s i).1 = (step' t i).1 ∧ R (step s i).2 (step' t i).2)
    {s : σ} {t : τ} (inputs : List ι) (h : R s t) :
  outputs step s inputs = outputs step' t inputs
    ∧ R (final (fun s i => (step s i).2) s inputs) (final (fun t i => (step' t i).2) t inputs)
  := by
  have hrun : Along (fun s i => (step s i).2) (fun _ _ => True) s inputs :=
    along_of_forall (fun _ _ => trivial) inputs
  exact hrun.outputs_eq (fun s t i hrel _ => hstep s t i hrel) h

/-- Machines whose steps, in a domain and under a condition, give the same outputs and keep a
relation of their states, and where a step missing the condition gives another output, give
the same outputs along exactly the runs whose steps all meet the condition. -/
theorem outputs_eq_iff_along {step : σ → ι → ο × σ} {step' : τ → ι → ο × τ} {R : σ → τ → Prop}
    {D P : σ → ι → Prop}
    (hstep : ∀ s t i, R s t → D s i → P s i →
      (step s i).1 = (step' t i).1 ∧ R (step s i).2 (step' t i).2)
    (hbad : ∀ s t i, R s t → D s i → ¬ P s i → (step s i).1 ≠ (step' t i).1) :
  ∀ {s : σ} {t : τ} (inputs : List ι), R s t → Along (fun s i => (step s i).2) D s inputs →
    (outputs step s inputs = outputs step' t inputs
      ↔ Along (fun s i => (step s i).2) P s inputs)
  | _, _, [], _, _ => ⟨fun _ => trivial, fun _ => rfl⟩
  | s, t, i :: inputs, h, hdomain => by
      rw [outputs, outputs, List.cons.injEq]
      by_cases hi : P s i
      · obtain ⟨hout, hrel⟩ := hstep s t i h hdomain.1 hi
        have hrest := outputs_eq_iff_along hstep hbad inputs hrel hdomain.2
        exact ⟨fun heq => ⟨hi, hrest.mp heq.2⟩, fun hall => ⟨hout, hrest.mpr hall.2⟩⟩
      · constructor
        · intro heq
          exact absurd heq.1 (hbad s t i h hdomain.1 hi)
        · intro hall
          exact absurd hall.1 hi

/-- Two machines that take the same inputs, with the outputs of the first one. -/
def both (step : σ → ι → ο × σ) (step' : τ → ι → ο × τ) (p : σ × τ) (i : ι) : ο × σ × τ :=
  ((step p.1 i).1, (step p.1 i).2, (step' p.2 i).2)

/-- The same for a domain and a condition on the states of both machines. -/
theorem outputs_eq_iff_along_both {step : σ → ι → ο × σ} {step' : τ → ι → ο × τ}
    {R : σ → τ → Prop} {D : σ × τ → ι → Prop} {P : σ → ι → Prop}
    (hstep : ∀ s t i, R s t → D (s, t) i → P s i →
      (step s i).1 = (step' t i).1 ∧ R (step s i).2 (step' t i).2)
    (hbad : ∀ s t i, R s t → D (s, t) i → ¬ P s i → (step s i).1 ≠ (step' t i).1)
    {s : σ} {t : τ} (inputs : List ι) (h : R s t)
    (hdomain : Along (fun p i => (both step step' p i).2) D (s, t) inputs) :
  outputs step s inputs = outputs step' t inputs
    ↔ Along (fun s i => (step s i).2) P s inputs
  := by
  have hpair : outputs (both step step') (s, t) inputs = outputs step' t inputs
      ↔ Along (fun p i => (both step step' p i).2) (fun p i => P p.1 i) (s, t) inputs := by
    apply outputs_eq_iff_along (R := fun p t => p.2 = t ∧ R p.1 t) (D := D)
    · rintro ⟨s, t⟩ _ i ⟨rfl, h⟩ hi hgood
      obtain ⟨hout, hrel⟩ := hstep s t i h hi hgood
      exact ⟨hout, rfl, hrel⟩
    · rintro ⟨s, t⟩ _ i ⟨rfl, h⟩ hi hmiss
      exact hbad s t i h hi hmiss
    · exact ⟨rfl, h⟩
    · exact hdomain
  have hfirst : outputs (both step step') (s, t) inputs = outputs step s inputs :=
    (outputs_eq (R := fun p s => p.1 = s)
      (by
        rintro p _ i rfl
        exact ⟨rfl, rfl⟩)
      inputs rfl).1
  rw [hfirst] at hpair
  exact hpair.trans (along_comap Prod.fst (fun _ _ => rfl) inputs)

end Outputs

end Run
