import Datatent.CoreOld.Records.OpenBlocks
import Datatent.Library.Run

/-!
# Clients of the block storage

Any programs whatever use the block storage one after another, and between them it may be
constructed anew over the same bytes. As long as the programs keep to the contract they cannot
tell it from the array of blocks: they come to the same values.
-/

namespace Datatent.Records

open Blocks

variable {E α : Type}

/-- What happens to the block storage: a client runs a program, or the storage is dropped and
constructed anew over its bytes, with a stream at some position. -/
inductive ClientAction (E α : Type) where
  | run (program : BlockProgram E α)
  | reopen (position : Nat)

namespace ClientAction

/-- An action on the block storage: the value of the program, and the objects after it. -/
def onStream (storage : BlockStorage) (s : ObjectStore) :
    ClientAction E α → Option α × ObjectStore
  | run program =>
      match program.run (ObjectStore.perform storage) s with
      | .ok a s' => (some a, s')
      | .error _ s' => (none, s')
  | reopen position =>
      (none, ObjectStore.over { bytes := s.storage.stream.bytes, position := position })

/-- An action on the array of blocks. -/
def onArray {blockContentSize : Nat} (t : OpenBlocks blockContentSize) :
    ClientAction E α → Option α × OpenBlocks blockContentSize
  | run program =>
      match program.run OpenBlocks.perform t with
      | .ok a t' => (some a, t')
      | .error _ t' => (none, t')
  | reopen _ => (none, { t with serials := fun _ => none, made := 0 })

/-- The action is within the contract: no call of the program is refused, and the storage is
dropped only when no object is open. -/
def Within {blockContentSize : Nat} (t : OpenBlocks blockContentSize) :
    ClientAction E α → Prop
  | run program => program.Ends OpenBlocks.perform t (fun _ _ => True)
  | reopen _ => t.serials = fun _ => none

/-- The array without blocks. -/
def noBlocks (blockContentSize : Nat) : OpenBlocks blockContentSize where
  blocks := []
  small := fun _ h => absurd h List.not_mem_nil
  serials := fun _ => none
  made := 0

/-- An action within the contract comes to the same value on the block storage as on the array,
and the storage represents the array after it. -/
theorem agrees_step {storage : BlockStorage} (hheader : 48 ≤ storage.blockHeaderSize)
    (hsize : 4096 ≤ storage.blockSize ∧ storage.blockSize ≤ 2 ^ 21)
    {s : ObjectStore}
    {t : OpenBlocks storage.blockContentSize} (h : Agrees storage s t)
    (action : ClientAction E α) (hwithin : action.Within t) :
  (action.onStream storage s).1 = (action.onArray t).1
    ∧ Agrees storage (action.onStream storage s).2 (action.onArray t).2
  := by
  cases action with
  | run program =>
      obtain ⟨a, s', hstream, t', hagrees, harray⟩ := (hwithin.run_eq.simulate
        (R := Agrees storage) (fun c s t reply t' hagrees hcall =>
          hagrees.perform hheader hsize c hcall) h).exists_run
      simp only [onStream, onArray, harray, hstream]
      exact ⟨trivial, hagrees⟩
  | reopen position => exact ⟨rfl, h.reopen hwithin rfl⟩

/-- A program comes to the same value on the block storage as on the array, and leaves the
stream with the bytes of as many blocks as the array has. -/
def Alike (storage : BlockStorage)
    (p : ObjectStore × OpenBlocks storage.blockContentSize) : ClientAction E α → Prop
  | run program => ∃ a s t, program.run (ObjectStore.perform storage) p.1 = .ok a s
      ∧ program.run OpenBlocks.perform p.2 = .ok a t
      ∧ s.storage.stream.bytes.length = t.blocks.length * storage.blockSize
  | reopen _ => True

/-- An action on the block storage and on the array. -/
def onBoth (storage : BlockStorage) (p : ObjectStore × OpenBlocks storage.blockContentSize)
    (action : ClientAction E α) : ObjectStore × OpenBlocks storage.blockContentSize :=
  ((action.onStream storage p.1).2, (action.onArray p.2).2)

/-- Along every sequence of actions that are within the contract, all programs come to the same
values on a block storage over a stream that is empty at first as on the array of blocks. -/
theorem alike_of_within {storage : BlockStorage} (hheader : 48 ≤ storage.blockHeaderSize)
    (hsize : 4096 ≤ storage.blockSize ∧ storage.blockSize ≤ 2 ^ 21)
    (position : Nat) {actions : List (ClientAction E α)}
    (hwithin : Run.Along (fun t (action : ClientAction E α) => (action.onArray t).2)
      (fun t action => action.Within t) (noBlocks storage.blockContentSize) actions) :
  Run.Along (onBoth storage) (fun p (action : ClientAction E α) => action.Alike storage p)
    (ObjectStore.over { bytes := [], position := position },
      noBlocks storage.blockContentSize) actions
  := by
  apply Run.Along.imp (I := fun p => Agrees storage p.1 p.2)
    (P := fun p (action : ClientAction E α) => action.Within p.2)
  · rintro ⟨s, t⟩ action h hwithin
    exact (agrees_step hheader hsize h action hwithin).2
  · rintro ⟨s, t⟩ action h hwithin
    obtain ⟨hvalue, hagrees⟩ := agrees_step hheader hsize h action hwithin
    cases action with
    | run program =>
        obtain ⟨a, t', harray, -⟩ := hwithin.exists_run
        simp only [onStream, onArray, harray] at hvalue hagrees
        cases hstream : program.run (ObjectStore.perform storage) s with
        | ok b s' =>
            rw [hstream] at hvalue hagrees
            cases hvalue
            exact ⟨a, s', t', hstream, harray, hagrees.represents.length_eq⟩
        | error e s' =>
            rw [hstream] at hvalue
            cases hvalue
    | reopen position => trivial
  · exact (Run.along_comap Prod.snd (fun _ _ => rfl) actions).mpr hwithin
  · exact agrees_empty storage position

/-- Three bytes are written to a new block, and found through another storage over the bytes. -/
theorem alike_disk :
  let disk : BlockStorage := ⟨4096, 48, by decide, by decide, by decide⟩
  let keep : BlockProgram Empty Bytes := do
    let block ← Program.perform ObjectCall.createNew
    Program.perform (ObjectCall.write block [1, 2, 3] 0 5 3)
    Program.perform (ObjectCall.dispose block)
    return []
  let load : BlockProgram Empty Bytes :=
    Program.call (.find 0) fun
      | .ok (some block) => Program.perform (ObjectCall.read block [0, 0] 0 6 2)
      | _ => return []
  Run.Along (onBoth disk) (fun p action => action.Alike disk p)
    (ObjectStore.over { bytes := [], position := 7 }, noBlocks disk.blockContentSize)
    [run keep, reopen 0, run load]
  := by
  refine alike_of_within (by decide) (by decide) 7 ⟨trivial, ?_, ?_, trivial⟩
  · simp only [onArray, bind, Program.perform, Program.andThen, Program.run]
    change Function.update (Function.update (fun _ => none) 0 (some 0)) 0 none = fun _ => none
    rw [Function.update_idem, Function.update_eq_self]
  · simp only [onArray, bind, Program.perform, Program.andThen, Program.run]
    exact True.intro

end ClientAction

end Datatent.Records
