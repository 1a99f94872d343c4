/-!
# Computations that may fail

How a sequence of computations in `Except` ends in a result.
-/

namespace Except

variable {ε α β : Type}

/-- A sequence of two computations has a result when the first has one and the second,
continuing from it, has one. -/
theorem bind_eq_ok_iff {x : Except ε α} {f : α → Except ε β} {b : β} :
  (x >>= f) = .ok b ↔ ∃ a, x = .ok a ∧ f a = .ok b
  := by
  cases x with
  | error e =>
      constructor
      · intro h
        cases h
      · rintro ⟨a, h, -⟩
        cases h
  | ok a =>
      constructor
      · intro h
        exact ⟨a, rfl, h⟩
      · rintro ⟨a', h, hf⟩
        cases h
        exact hf

@[simp]
theorem ok_bind (a : α) (f : α → Except ε β) :
  ((.ok a : Except ε α) >>= f) = f a
  := rfl

@[simp]
theorem error_bind (e : ε) (f : α → Except ε β) :
  ((.error e : Except ε α) >>= f) = .error e
  := rfl

end Except
