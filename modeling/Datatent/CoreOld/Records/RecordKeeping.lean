import Datatent.CoreOld.Records.RecordSession

/-!
# Keeping records

In a session of calls on live records that all return, every live record is found with the data
last given for it and no deleted record is found, as long as no record is updated with no data
and none gets more data than `find` reads.
-/

namespace Datatent.Records

variable {blockContentSize : Nat}

/-- Creating a record in an empty storage is creating it behind block 0. -/
theorem create_nil (data : Bytes) :
  create data ([] : List (Block blockContentSize)) = create data [Block.new blockContentSize]
  := EStateM.bind_congr_state allocateBlock_nil _

/-- Block 0 alone keeps no record. -/
theorem layout_new (blockContentSize : Nat) :
  Layout ⟨[Block.new blockContentSize], [], []⟩ ⟨[], 0, []⟩ []
  := by
  constructor
  · exact tracks_new blockContentSize
  · intro r hr
    cases hr
  · exact List.Perm.refl _
  · intro id hid
    cases hid

namespace RecordSession

/-- The call creates a record or is about a live one, and it returns. -/
def Legal (s : RecordSession blockContentSize) (call : RecordCall) : Prop :=
  s.OnLive call ∧ s.returns call = true

instance (s : RecordSession blockContentSize) (call : RecordCall) : Decidable (s.Legal call) :=
  inferInstanceAs (Decidable (_ ∧ _))

/-- The live records are found with their data, and the deleted ones are not found. -/
def FindsAll (s : RecordSession blockContentSize) : Prop :=
  (∀ entry ∈ s.live, s.found entry.1 = some (some entry.2))
    ∧ ∀ id ∈ s.deleted, s.found id = some none

/-- The record that a call is about, unless it creates one. -/
def about : RecordCall → Option Nat
  | .create _ => none
  | .update id _ => some id
  | .delete id => some id

/-- What is found for the other live records does not change. -/
def LeavesOthers (s : RecordSession blockContentSize) (call : RecordCall) : Prop :=
  ∀ id ∈ s.live.map Prod.fst, about call ≠ some id → (s.step call).found id = s.found id

/-- The data of a call are not too large to be read, and a record is updated with some data. -/
def WithinLimits : RecordCall → Prop
  | .create data => data.length ≤ maxRecordSize
  | .update _ data => data ≠ [] ∧ data.length ≤ maxRecordSize
  | .delete _ => True

instance (call : RecordCall) : Decidable (WithinLimits call) :=
  match call with
  | .create data => inferInstanceAs (Decidable (data.length ≤ maxRecordSize))
  | .update _ data => inferInstanceAs (Decidable (data ≠ [] ∧ data.length ≤ maxRecordSize))
  | .delete _ => inferInstanceAs (Decidable True)

/-- Nothing was created yet, or the storage has a layout. -/
def LaidOut (s : RecordSession blockContentSize) : Prop :=
  s = new blockContentSize ∨ ∃ t records, Layout s t records

/-- No live record is too large to be read. -/
def Readable (s : RecordSession blockContentSize) : Prop :=
  ∀ entry ∈ s.live, entry.2.length ≤ maxRecordSize

section

variable {s : RecordSession blockContentSize} {call : RecordCall}

/-- In a session with a layout the live records are found and the deleted ones are not. -/
theorem LaidOut.findsAll (h : s.LaidOut) (hreadable : s.Readable) :
  s.FindsAll
  := by
  obtain rfl | ⟨t, records, hlayout⟩ := h
  · constructor
    · intro entry hentry
      cases hentry
    · intro id hid
      cases hid
  · constructor
    · intro entry hentry
      exact hlayout.found_live hentry (hreadable entry hentry)
    · intro id hid
      exact hlayout.found_deleted hid

/-- The first record that is created. -/
theorem step_create_new (data : Bytes) :
  (new blockContentSize).step (.create data)
    = (⟨[Block.new blockContentSize], [], []⟩ : RecordSession blockContentSize).step
      (.create data)
  := by
  have hsame := @create_nil blockContentSize data
  rw [step, step, new, hsame]
  cases create data [Block.new blockContentSize] with
  | ok id blocks => rfl
  | error e blocks => rfl

/-- A call that creates a record in a session that has a layout, or will have one. -/
theorem LaidOut.exists_layout (h : s.LaidOut) (data : Bytes) :
  ∃ s' t records, Layout s' t records
    ∧ s.step (.create data) = s'.step (.create data)
    ∧ s.returns (.create data) = s'.returns (.create data)
  := by
  obtain rfl | ⟨t, records, hlayout⟩ := h
  · refine ⟨_, _, _, layout_new blockContentSize, step_create_new data, ?_⟩
    have hsame := @create_nil blockContentSize data
    rw [returns, returns, new, hsame]
  · exact ⟨s, t, records, hlayout, rfl, rfl⟩

/-- A legal call within the limits gives a session with a layout again. -/
theorem LaidOut.step (h : s.LaidOut) (hsize : 4 ≤ blockContentSize) (hlegal : s.Legal call)
    (hlimits : WithinLimits call) :
  (s.step call).LaidOut
  := by
  obtain ⟨hon, hreturns⟩ := hlegal
  cases call with
  | create data =>
      obtain ⟨s', t, records, hlayout, hstep, hsame⟩ := h.exists_layout data
      rw [hsame, returns] at hreturns
      rw [hstep]
      cases hcall : create data s'.blocks with
      | ok id blocks => exact .inr (hlayout.create hsize hcall)
      | error e blocks =>
          rw [hcall] at hreturns
          cases hreturns
  | update id data =>
      obtain rfl | ⟨t, records, hlayout⟩ := h
      · cases hon
      · rw [returns] at hreturns
        cases hcall : update id data s.blocks with
        | ok _ blocks => exact .inr (hlayout.update hsize hon hlimits.1 hcall)
        | error e blocks =>
            rw [hcall] at hreturns
            cases hreturns
  | delete id =>
      obtain rfl | ⟨t, records, hlayout⟩ := h
      · cases hon
      · rw [returns] at hreturns
        cases hcall : delete id s.blocks with
        | ok _ blocks => exact .inr (hlayout.delete hsize hon hcall)
        | error e blocks =>
            rw [hcall] at hreturns
            cases hreturns

/-- A call within the limits leaves no live record that is too large. -/
theorem Readable.step (h : s.Readable) (hlimits : WithinLimits call) :
  (s.step call).Readable
  := by
  have hothers : ∀ id, ∀ entry ∈ s.others id, entry.2.length ≤ maxRecordSize := by
    intro id entry hentry
    exact h entry (List.mem_filter.mp hentry).1
  cases call with
  | create data =>
      rw [RecordSession.step]
      split
      · intro entry hentry
        obtain rfl | hentry := List.mem_cons.mp hentry
        · exact hlimits
        · exact hothers _ entry hentry
      · exact h
  | update id data =>
      rw [RecordSession.step]
      split
      · intro entry hentry
        obtain ⟨entry, hbefore, rfl⟩ := List.mem_map.mp hentry
        split
        · exact hlimits.2
        · exact h entry hbefore
      · exact h
  | delete id =>
      rw [RecordSession.step]
      split
      · exact hothers id
      · exact h

/-- The other live records stay live. -/
theorem LaidOut.mem_step (h : s.LaidOut) (hsize : 4 ≤ blockContentSize) {entry : Nat × Bytes}
    (hentry : entry ∈ s.live) (habout : about call ≠ some entry.1) :
  entry ∈ (s.step call).live
  := by
  have hothers : ∀ id, entry.1 ≠ id → entry ∈ s.others id := by
    intro id hne
    exact List.mem_filter.mpr ⟨hentry, decide_eq_true hne⟩
  cases call with
  | create data =>
      rw [RecordSession.step]
      split
      · rename_i id blocks hcall
        obtain rfl | ⟨t, records, hlayout⟩ := h
        · cases hentry
        · dsimp only
          rw [hlayout.housed.others_of_create (by omega) hcall]
          exact List.mem_cons_of_mem _ hentry
      · exact hentry
  | update id data =>
      have hne : ¬ entry.1 = id := fun heq => habout (congrArg some heq.symm)
      rw [RecordSession.step]
      split
      · exact List.mem_map.mpr ⟨entry, hentry, if_neg hne⟩
      · exact hentry
  | delete id =>
      have hne : entry.1 ≠ id := fun heq => habout (congrArg some heq.symm)
      rw [RecordSession.step]
      split
      · exact hothers id hne
      · exact hentry

end

/-- In a session within the limits the records are found at each moment, and a call leaves the
other ones. -/
theorem findsAll_of_withinLimits (hsize : 4 ≤ blockContentSize) {calls : List RecordCall}
    (hlegal : Run.Along step (fun s call => s.Legal call ∧ WithinLimits call)
      (new blockContentSize) calls) :
  (∀ n, (Run.final step (new blockContentSize) (calls.take n)).FindsAll)
    ∧ Run.Along step LeavesOthers (new blockContentSize) calls
  := by
  have hstep : ∀ (s : RecordSession blockContentSize) call, s.LaidOut ∧ s.Readable →
      s.Legal call ∧ WithinLimits call → (s.step call).LaidOut ∧ (s.step call).Readable := by
    rintro s call ⟨hlaid, hreadable⟩ ⟨hcall, hlimits⟩
    exact ⟨hlaid.step hsize hcall hlimits, hreadable.step hlimits⟩
  have hnew : (new blockContentSize).LaidOut ∧ (new blockContentSize).Readable := by
    constructor
    · exact .inl rfl
    · intro entry hentry
      cases hentry
  constructor
  · intro n
    obtain ⟨hlaid, hreadable⟩ := (hlegal.take n).invariant hstep hnew
    exact hlaid.findsAll hreadable
  · apply Run.Along.imp hstep _ hlegal hnew
    rintro s call hbefore hcall id hid habout
    obtain ⟨hlaid, hreadable⟩ := hstep s call hbefore hcall
    obtain ⟨entry, hentry, rfl⟩ := List.mem_map.mp hid
    rw [(hlaid.findsAll hreadable).1 entry (hbefore.1.mem_step hsize hentry habout),
      (hbefore.1.findsAll hbefore.2).1 entry hentry]

/-- A record that grows to three blocks, shrinks and is deleted, next to one of no data. -/
theorem findsAll_four :
  (∀ n, (Run.final step (new 4) ([.create [1, 2, 3], .create [],
      .update 1 [1, 2, 3, 4, 5, 6, 7, 8, 9], .update 1 [4], .delete 1,
      .create [5, 6, 7, 8, 9]].take n)).FindsAll)
    ∧ Run.Along step LeavesOthers (new 4) [.create [1, 2, 3], .create [],
      .update 1 [1, 2, 3, 4, 5, 6, 7, 8, 9], .update 1 [4], .delete 1, .create [5, 6, 7, 8, 9]]
  := findsAll_of_withinLimits (by decide) (by decide)

/-- In every session of legal calls the records are kept. -/
def KeepsRecords (blockContentSize : Nat) : Prop :=
  ∀ calls : List RecordCall, Run.Along step Legal (new blockContentSize) calls →
    (∀ n, (Run.final step (new blockContentSize) (calls.take n)).FindsAll)
      ∧ Run.Along step LeavesOthers (new blockContentSize) calls

/-- A record that is updated with no data is found with its old data. -/
theorem not_keepsRecords :
  ¬ KeepsRecords 4
  := by
  intro h
  obtain ⟨hfinds, -⟩ := h [.create [1, 2, 3], .update 1 []] (by decide)
  have hfound := (hfinds 2).1 (1, []) (by decide)
  exact absurd hfound (by decide)

end RecordSession

end Datatent.Records
