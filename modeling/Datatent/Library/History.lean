import Datatent.Library.Run

/-!
# Histories of an atomic object

An atomic object takes calls one after another and answers each of them at once. The calls of
concurrent clients are linearised when those that took effect can be put into an order in which
the object gives their answers, and which keeps two calls in the order they had in time when
one of them returned before the other was made.
-/

/-- An atomic object: the state after a call, and the answers it may give to a call. -/
structure AtomicObject (σ ι ο : Type) where
  next : σ → ι → σ
  Answers : σ → ι → ο → Prop

namespace AtomicObject

variable {σ ι ο κ : Type} (object : AtomicObject σ ι ο)

/-- The state after a call with its answer. -/
def after (s : σ) (call : ι × ο) : σ := object.next s call.1

/-- Calls with the answers the object may give to them, one after another. -/
def Legal (s : σ) (calls : List (ι × ο)) : Prop :=
  Run.Along object.after (fun s call => object.Answers s call.1 call.2) s calls

/-- A history of calls, each under its name, linearises what the clients see. The object may
give the answers in the order of the history; every call is in it once; the calls in it were
made, and all that returned are in it with their answers; and no call comes behind one that was
made after it returned. -/
structure Linearises (s : σ) (Made : κ → ι → Prop) (Returned : κ → ο → Prop)
    (Before : κ → κ → Prop) (history : List (κ × ι × ο)) : Prop where
  legal : object.Legal s (history.map Prod.snd)
  once : (history.map Prod.fst).Nodup
  made : ∀ call input output, (call, input, output) ∈ history → Made call input
  complete : ∀ call output, Returned call output → ∃ input, (call, input, output) ∈ history
  order : (history.map Prod.fst).Pairwise (fun call call' => ¬ Before call' call)

end AtomicObject
