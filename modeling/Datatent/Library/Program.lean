import Datatent.Library.Yields

/-!
# Programs that make calls

A program written against an interface: it ends with a value or an exception, or makes a call
and goes on with what comes back, a reply or the exception that the call threw. What a call
does is up to a handler, which is an implementation of the interface.

`Ends` says that with a handler a program comes to a value without a call that throws. When one
handler simulates another one, whatever program ends with the second one ends with the first
one in the same way (`Ends.simulate`).
-/

/-- A program over an interface of calls, each with its type of replies. -/
inductive Program {Call : Type} (Reply : Call → Type) (ε α : Type) where
  | done (result : Except ε α)
  | call (c : Call) (next : Except ε (Reply c) → Program Reply ε α)

namespace Program

variable {Call : Type} {Reply : Call → Type} {ε α β σ τ : Type}

/-- A program that goes on with what another one comes to, be it a value or an exception. -/
def andThen : Program Reply ε α → (Except ε α → Program Reply ε β) → Program Reply ε β
  | done result, f => f result
  | call c next, f => call c (fun reply => (next reply).andThen f)

instance : Monad (Program Reply ε) where
  pure a := done (.ok a)
  bind x f := x.andThen fun
    | .ok a => f a
    | .error e => done (.error e)

/-- A program that throws. -/
def raise (e : ε) : Program Reply ε α :=
  done (.error e)

/-- A program of one call. -/
def perform (c : Call) : Program Reply ε (Reply c) :=
  call c done

/-- A program and what is done after it in any case, as by `finally`. -/
def ensure (x : Program Reply ε α) (cleanup : Program Reply ε Unit) : Program Reply ε α :=
  x.andThen fun result => do
    cleanup
    done result

/-- A program and what is done after it where it throws. -/
def onError (x : Program Reply ε α) (cleanup : Program Reply ε Unit) : Program Reply ε α :=
  x.andThen fun
    | .ok a => done (.ok a)
    | .error e => do
        cleanup
        done (.error e)

/-- What a program comes to, as a value. -/
def attempt (x : Program Reply ε α) : Program Reply ε (Except ε α) :=
  x.andThen fun result => done (.ok result)

/-! ### Running a program -/

/-- Run a program with a handler of its calls. -/
def run (handler : (c : Call) → EStateM ε σ (Reply c)) : Program Reply ε α → EStateM ε σ α
  | done (.ok a) => pure a
  | done (.error e) => throw e
  | call c next => fun s =>
      match handler c s with
      | .ok reply s' => (next (.ok reply)).run handler s'
      | .error e s' => (next (.error e)).run handler s'

/-- From the state the program comes to a value without a call that throws, and the value and
the state it ends in have `Q`. -/
def Ends (handler : (c : Call) → EStateM ε σ (Reply c)) :
    Program Reply ε α → σ → (α → σ → Prop) → Prop
  | done (.ok a), s, Q => Q a s
  | done (.error _), _, _ => False
  | call c next, s, Q =>
      match handler c s with
      | .ok reply s' => (next (.ok reply)).Ends handler s' Q
      | .error _ _ => False

namespace Ends

variable {handler : (c : Call) → EStateM ε σ (Reply c)}
  {handler' : (c : Call) → EStateM ε τ (Reply c)} {x : Program Reply ε α}
  {Q Q' : α → σ → Prop} {T : β → σ → Prop} {s : σ} {t : τ}

/-- A program after another one. -/
theorem andThen {f : Except ε α → Program Reply ε β}
    (h : x.Ends handler s (fun a s' => (f (.ok a)).Ends handler s' T)) :
  (x.andThen f).Ends handler s T
  := by
  induction x generalizing s with
  | done result =>
      cases result with
      | ok a => exact h
      | error e => exact h.elim
  | call c next ih =>
      rw [Ends] at h
      rw [Program.andThen, Ends]
      cases hreply : handler c s with
      | ok reply s' =>
          rw [hreply] at h
          exact ih (.ok reply) h
      | error e s' =>
          rw [hreply] at h
          exact h.elim

/-- A value. -/
theorem pure {a : α} (h : Q a s) :
  (Pure.pure a : Program Reply ε α).Ends handler s Q
  := h

/-- A program and one that depends on its value. -/
theorem bind {f : α → Program Reply ε β}
    (h : x.Ends handler s (fun a s' => (f a).Ends handler s' T)) :
  (x >>= f).Ends handler s T
  := andThen h

/-- One call. -/
theorem perform {c : Call} {reply : Reply c} {s' : σ} {Q : Reply c → σ → Prop}
    (hcall : handler c s = .ok reply s') (h : Q reply s') :
  (Program.perform c : Program Reply ε (Reply c)).Ends handler s Q
  := by
  rw [Program.perform, Ends, hcall]
  exact h

/-- Another property of the value and the state. -/
theorem mono (h : x.Ends handler s Q) (hQ : ∀ a s', Q a s' → Q' a s') :
  x.Ends handler s Q'
  := by
  induction x generalizing s with
  | done result =>
      cases result with
      | ok a => exact hQ a s h
      | error e => exact h
  | call c next ih =>
      rw [Ends] at h ⊢
      cases hreply : handler c s with
      | ok reply s' =>
          rw [hreply] at h
          exact ih (.ok reply) h
      | error e s' =>
          rw [hreply] at h
          exact h.elim

/-- A program and what is done after it. -/
theorem ensure {cleanup : Program Reply ε Unit}
    (h : x.Ends handler s (fun a s' => cleanup.Ends handler s' (fun _ s'' => Q a s''))) :
  (x.ensure cleanup).Ends handler s Q
  := by
  apply andThen
  apply h.mono
  intro a s' hcleanup
  apply bind
  exact hcleanup

/-- A program that does not throw, and what would be done if it did. -/
theorem onError {cleanup : Program Reply ε Unit} (h : x.Ends handler s Q) :
  (x.onError cleanup).Ends handler s Q
  := andThen h

/-- A program that does not throw comes to its value. -/
theorem attempt {Q : Except ε α → σ → Prop}
    (h : x.Ends handler s (fun a s' => Q (.ok a) s')) :
  x.attempt.Ends handler s Q
  := andThen h

/-- A program that ends returns the value when it is run. -/
theorem exists_run (h : x.Ends handler s Q) :
  ∃ a s', x.run handler s = .ok a s' ∧ Q a s'
  := by
  induction x generalizing s with
  | done result =>
      cases result with
      | ok a => exact ⟨a, s, rfl, h⟩
      | error e => exact h.elim
  | call c next ih =>
      rw [Ends] at h
      cases hreply : handler c s with
      | ok reply s' =>
          rw [hreply] at h
          simp only [Program.run, hreply]
          exact ih (.ok reply) h
      | error e s' =>
          rw [hreply] at h
          exact h.elim

/-- A program that ends comes to what it returns when it is run. -/
theorem run_eq (h : x.Ends handler s Q) :
  x.Ends handler s (fun a s' => x.run handler s = .ok a s')
  := by
  induction x generalizing s with
  | done result =>
      cases result with
      | ok a => rfl
      | error e => exact h
  | call c next ih =>
      rw [Ends] at h ⊢
      cases hreply : handler c s with
      | ok reply s' =>
          rw [hreply] at h
          simp only [Program.run, hreply]
          exact ih (.ok reply) h
      | error e s' =>
          rw [hreply] at h
          exact h.elim

/-- A program that ends with one handler ends in the same way with another one that simulates
the calls which do not throw. -/
theorem simulate {R : σ → τ → Prop} {Q : α → τ → Prop}
    (hstep : ∀ c s t reply t', R s t → handler' c t = .ok reply t' →
      ∃ s', handler c s = .ok reply s' ∧ R s' t')
    (h : x.Ends handler' t Q) (hR : R s t) :
  x.Ends handler s (fun a s' => ∃ t', R s' t' ∧ Q a t')
  := by
  induction x generalizing s t with
  | done result =>
      cases result with
      | ok a => exact ⟨t, hR, h⟩
      | error e => exact h
  | call c next ih =>
      rw [Ends] at h
      cases hreply : handler' c t with
      | ok reply t' =>
          rw [hreply] at h
          obtain ⟨s', hcall, hR'⟩ := hstep c s t reply t' hR hreply
          rw [Ends, hcall]
          exact ih (.ok reply) h hR'
      | error e t' =>
          rw [hreply] at h
          exact h.elim

end Ends

end Program
