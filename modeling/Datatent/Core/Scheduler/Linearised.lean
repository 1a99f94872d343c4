import Datatent.Core.IO.FileImage
import Datatent.Core.Scheduler.Serialised

/-!
# The scheduler is linearisable

In every run the requests that were executed, in this order, are calls of the data file: each
response is one that the file as the requests before have left it gives, the response of a
call that returned is among them, and a call that was made after another one had returned
comes behind it.
-/

namespace Datatent.DefaultScheduler

variable (rent : Nat → UInt32 → Bytes) (faults : Nat → FileSystemService.StreamFaults)
  (stream : DataFileStream) (events : List SchedulerEvent)

/-- The `i`-th call was made with the request. -/
def Made (scheduler : DefaultScheduler) (i : Nat) (request : IORequest) : Prop :=
  ∃ state, scheduler.callers[i]? = some ⟨request, state⟩

/-- The `i`-th call has returned the response. -/
def Returned (scheduler : DefaultScheduler) (i : Nat) (response : IOResponse) : Prop :=
  ∃ request, scheduler.callers[i]? = some ⟨request, .returned (.ok response)⟩

/-- At some time of the run the `i`-th call has returned and the `j`-th one is not made yet. -/
def Before (i j : Nat) : Prop :=
  ∃ n, (∃ response, (run rent faults stream (events.take n)).Returned i response)
    ∧ (run rent faults stream (events.take n)).callers.length ≤ j

/-- The executed requests with their responses, each under the number of its call. -/
def history (scheduler : DefaultScheduler) : List (Nat × IORequest × IOResponse) :=
  scheduler.executed.map (fun execution =>
    (execution.1.source, execution.1.request, execution.2))

variable {rent faults stream events} {scheduler : DefaultScheduler}

/-! ### What is accepted -/

/-- An event puts items behind those that were accepted. -/
theorem accepted_step (rent : Nat → UInt32 → Bytes)
    (faults : Nat → FileSystemService.StreamFaults) (scheduler : DefaultScheduler)
    (event : SchedulerEvent) :
  scheduler.accepted <+: (scheduler.step rent faults event).accepted
  := by
  cases event with
  | schedule request => exact List.prefix_refl _
  | waitToWrite caller =>
      simp only [step, waitToWrite]
      split
      · split
        · exact List.prefix_refl _
        · exact List.prefix_refl _
      · exact List.prefix_refl _
  | write caller =>
      simp only [step, write]
      split
      · split
        · exact List.prefix_append _ _
        · exact List.prefix_refl _
      · exact List.prefix_refl _
  | receive caller =>
      simp only [step, receive]
      split
      · split
        · exact List.prefix_refl _
        · exact List.prefix_refl _
      · exact List.prefix_refl _
  | reader =>
      rw [step, (readerStep_frame rent faults scheduler).2.1]

/-- Events put items behind those that were accepted. -/
theorem accepted_final (rent : Nat → UInt32 → Bytes)
    (faults : Nat → FileSystemService.StreamFaults) (scheduler : DefaultScheduler)
    (events : List SchedulerEvent) :
  scheduler.accepted <+: (Run.final (step rent faults) scheduler events).accepted
  := by
  apply Run.invariant (I := fun next : DefaultScheduler => scheduler.accepted <+: next.accepted)
  · intro next event h
    exact h.trans (accepted_step rent faults next event)
  · exact List.prefix_refl _

/-- The items accepted in a first part of a run are the first ones of the run. -/
theorem accepted_take (n : Nat) :
  (run rent faults stream (events.take n)).accepted <+: (run rent faults stream events).accepted
  := by
  have hsplit : run rent faults stream events
      = Run.final (step rent faults) (run rent faults stream (events.take n)) (events.drop n) := by
    rw [run, run, Run.final, Run.final, Run.final, ← List.foldl_append, List.take_append_drop]
  rw [hsplit]
  exact accepted_final rent faults _ _

/-- The item of a call that has returned is accepted. -/
theorem Attended.accepted_of_returned (h : Attended scheduler) {i : Nat} {response : IOResponse}
    (hreturned : scheduler.Returned i response) :
  i ∈ scheduler.accepted.map Item.source
  := by
  obtain ⟨request, hcaller⟩ := hreturned
  exact List.mem_map.mpr ⟨_, (h.accounted i _ hcaller).1, rfl⟩

/-- An accepted item has the request of its call. -/
theorem Attended.made (h : Attended scheduler) {item : Item} (hitem : item ∈ scheduler.accepted) :
  scheduler.Made item.source item.request
  := by
  have hsource : item.source ∈ scheduler.accepted.map Item.source :=
    List.mem_map.mpr ⟨item, hitem, rfl⟩
  obtain ⟨⟨request, state⟩, hcaller⟩ :
      ∃ caller, scheduler.callers[item.source]? = some caller :=
    ⟨_, List.getElem?_eq_getElem (h.known _ hsource)⟩
  have hown : ∀ {request' : IORequest}, ⟨item.source, request'⟩ ∈ scheduler.accepted →
      item.request = request' := by
    intro request' hmem
    exact congrArg Item.request (List.inj_on_of_nodup_map h.once hitem hmem rfl)
  have haccounted := h.accounted _ _ hcaller
  refine ⟨state, ?_⟩
  cases state with
  | waitToWrite => exact absurd hsource haccounted
  | writing => exact absurd hsource haccounted
  | awaiting => rw [hown haccounted, hcaller]
  | returned result => rw [hown haccounted.1, hcaller]

/-- No item is accepted behind that of a call that was made after its own had returned. -/
theorem not_before_of_accepted :
  ((run rent faults stream events).accepted.map Item.source).Pairwise
    (fun i j => ¬ Before rent faults stream events j i)
  := by
  have honce := (queued_run rent faults stream events).2.once
  rw [List.pairwise_iff_getElem]
  rintro p q hp hq hlt ⟨n, ⟨response, hreturned⟩, hlength⟩
  have hattended := (queued_run rent faults stream (events.take n)).2
  have hinitial : (run rent faults stream (events.take n)).accepted.map Item.source
      <+: (run rent faults stream events).accepted.map Item.source := (accepted_take n).map _
  obtain ⟨q', hq', heq⟩ := List.mem_iff_getElem.mp (hattended.accepted_of_returned hreturned)
  have hsame : q' = q := by
    apply (List.getElem?_inj (hq'.trans_le hinitial.length_le) honce).mp
    rw [List.getElem?_eq_getElem hq, ← heq, List.getElem?_eq_getElem (hq'.trans_le
      hinitial.length_le), ← hinitial.getElem hq']
  have hp' : p < ((run rent faults stream (events.take n)).accepted.map Item.source).length := by
    omega
  have hknown := hattended.known _ (List.getElem_mem hp')
  rw [hinitial.getElem hp'] at hknown
  omega

/-! ### Runs -/

theorem map_fst_history (scheduler : DefaultScheduler) :
  scheduler.history.map Prod.fst = (scheduler.executed.map Prod.fst).map Item.source
  := by
  rw [history, List.map_map, List.map_map]
  rfl

theorem map_snd_history (scheduler : DefaultScheduler) :
  scheduler.history.map Prod.snd = scheduler.requests.zip scheduler.responses
  := by
  rw [history, requests, responses, List.map_map, List.zip_map']
  rfl

/-- In every run, over every stream and whenever it throws, the executed requests linearise what
the callers see: they are calls of the data file as it was at first, in an order that the callers
cannot tell from the time of their calls. The arrays of the pool are as long as they are asked to
be. -/
theorem linearised_run (hrent : ∀ n length, length.toNat ≤ (rent n length).length)
    (faults : Nat → FileSystemService.StreamFaults) (stream : DataFileStream)
    (events : List SchedulerEvent) :
  dataFile.Linearises stream.image (run rent faults stream events).Made
    (run rent faults stream events).Returned (Before rent faults stream events)
    (run rent faults stream events).history
  := by
  obtain ⟨hqueued, hattended⟩ := queued_run rent faults stream events
  have horder := hqueued.prefix_accepted
  constructor
  · obtain ⟨left, hserial, -⟩ := hqueued.serial
    rw [map_snd_history]
    exact FileSystemService.legal_of_serial hrent hserial
  · rw [map_fst_history]
    exact hattended.once.sublist (horder.map _).sublist
  · intro i request response hmem
    obtain ⟨⟨item, response'⟩, hexecuted, heq⟩ := List.mem_map.mp hmem
    cases heq
    exact hattended.made (horder.subset (List.mem_map.mpr ⟨_, hexecuted, rfl⟩))
  · rintro i response ⟨request, hcaller⟩
    obtain ⟨response', heq, hexecuted, -⟩ := hqueued.own hattended hcaller
    cases heq
    exact ⟨request, List.mem_map.mpr ⟨_, hexecuted, rfl⟩⟩
  · rw [map_fst_history]
    exact not_before_of_accepted.sublist (horder.map _).sublist

/-- A request for the header of the first page. -/
def pageHeader (direction : IORequestDirection) (payload : Bytes) : IORequest where
  id := 0
  requestDirection := direction
  address := Address.create .page 0 0 0
  payload := payload
  ioRequestProperties := { flush := true, onlyHeader := true }

/-- A call that reads the header of the first page is made before one that writes it, and comes
behind it. -/
theorem linearised_some :
  let rent : Nat → UInt32 → Bytes := fun _ length => List.replicate length.toNat 0
  let faults : Nat → FileSystemService.StreamFaults := fun _ => .none
  let events : List SchedulerEvent :=
    [.schedule (pageHeader .read []), .schedule (pageHeader .write (List.replicate 92 7)),
      .waitToWrite 0, .waitToWrite 1, .write 1, .reader, .reader, .write 0, .reader, .reader,
      .reader, .reader, .reader, .receive 1, .reader, .reader, .receive 0]
  dataFile.Linearises (⟨[], 0⟩ : DataFileStream).image (run rent faults ⟨[], 0⟩ events).Made
      (run rent faults ⟨[], 0⟩ events).Returned (Before rent faults ⟨[], 0⟩ events)
      (run rent faults ⟨[], 0⟩ events).history
    ∧ (run rent faults ⟨[], 0⟩ events).history.map Prod.fst = [1, 0]
  := ⟨linearised_run (fun _ _ => (List.length_replicate ..).ge) _ _ _, by decide +kernel⟩

end Datatent.DefaultScheduler
