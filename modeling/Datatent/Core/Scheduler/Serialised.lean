import Datatent.Core.Scheduler.DefaultScheduler

/-!
# The scheduler serialises its requests

In every state of every run the requests executed so far are the first ones of those the
channel accepted, in this order, and the stream and the responses are those of executing them
one after another as a whole. The proof keeps two invariants apart: one on the way of an item
through the channel and the reader (`Queued`), one on the callers (`Attended`).
-/

namespace Datatent

/-- The item that is taken and not executed yet. -/
def ReaderState.inService : ReaderState → List Item
  | .waitToRead | .tryRead | .responding _ _ => []
  | .serving item | .transferring item _ | .faulted item _ => [item]

/-- The result that is not set yet. -/
def ReaderState.pending : ReaderState → List (Nat × Except Fault IOResponse)
  | .responding item response => [(item.source, .ok response)]
  | _ => []

/-- How the stream differs from the one the executed requests left: an exception of the stream
itself may leave any other one. -/
def ReaderState.Moved (rent : UInt32 → Bytes) (faults : FileSystemService.StreamFaults)
    (left stream : DataFileStream) : ReaderState → Prop
  | .transferring item transfer =>
      FileSystemService.begin rent faults item.request left = (.ok transfer, stream)
  | .faulted _ _ => faults = .none → stream.bytes = left.bytes
  | _ => stream = left

namespace DefaultScheduler

/-- The requests that were executed. -/
def requests (scheduler : DefaultScheduler) : List IORequest :=
  scheduler.executed.map (fun execution => execution.1.request)

/-- The responses to them. -/
def responses (scheduler : DefaultScheduler) : List IOResponse :=
  scheduler.executed.map (fun execution => execution.2)

/-- What it means for the requests to be serialised, over a stream. The executed requests are
the first of the accepted ones and no call is accepted twice; a caller returns with the
response to its own request, under its id and address; and the responses and the bytes of the
stream are those of executing the requests one after another. -/
structure Serialised (rent : Nat → UInt32 → Bytes) (stream : DataFileStream)
    (scheduler : DefaultScheduler) : Prop where
  order : scheduler.executed.map Prod.fst <+: scheduler.accepted
  once : (scheduler.accepted.map Item.source).Nodup
  own : ∀ (i : Nat) (request : IORequest) (result : Except Fault IOResponse),
    scheduler.callers[i]? = some ⟨request, .returned result⟩ →
      ∃ response, result = .ok response ∧ (⟨i, request⟩, response) ∈ scheduler.executed
        ∧ response.id = request.id ∧ response.address = request.address
  serial : ∃ stream', FileSystemService.serial rent 0 scheduler.requests stream
      = .ok (scheduler.responses, stream')
    ∧ scheduler.stream.bytes = stream'.bytes

/-! ### The way of an item -/

/-- The accepted items are those executed, then the one in service, then those in the channel;
the responses to the executed ones are set or pending; and the stream is the one the executed
requests left, up to what the request in service did to it. -/
structure Queued (rent : Nat → UInt32 → Bytes) (faults : Nat → FileSystemService.StreamFaults)
    (stream : DataFileStream) (scheduler : DefaultScheduler) : Prop where
  order : scheduler.accepted
    = scheduler.executed.map Prod.fst ++ scheduler.reader.inService ++ scheduler.responseChannel
  results : scheduler.executed.map (fun execution => (execution.1.source, .ok execution.2))
    = scheduler.results ++ scheduler.reader.pending
  responses : ∀ execution ∈ scheduler.executed, execution.2.id = execution.1.request.id
    ∧ execution.2.address = execution.1.request.address
  serial : ∃ left, FileSystemService.serial rent 0 scheduler.requests stream
      = .ok (scheduler.responses, left)
    ∧ scheduler.reader.Moved (rent scheduler.executed.length) (faults scheduler.executed.length)
      left scheduler.stream

variable {rent : Nat → UInt32 → Bytes} {faults : Nat → FileSystemService.StreamFaults}
  {stream : DataFileStream} {scheduler : DefaultScheduler}

/-- A step of the reader keeps the items on their way. -/
theorem Queued.readerStep (h : Queued rent faults stream scheduler) :
  Queued rent faults stream (scheduler.readerStep rent faults)
  := by
  obtain ⟨horder, hresults, hresponses, left, hserial, hmoved⟩ := h
  rw [DefaultScheduler.readerStep]
  cases hreader : scheduler.reader with
  | waitToRead =>
      rw [hreader] at horder hresults hmoved
      dsimp only
      split
      · exact ⟨by rw [hreader]; exact horder, by rw [hreader]; exact hresults, hresponses, left,
          hserial, by rw [hreader]; exact hmoved⟩
      · exact ⟨horder, hresults, hresponses, left, hserial, hmoved⟩
  | tryRead =>
      rw [hreader] at horder hresults hmoved
      dsimp only
      cases hchannel : scheduler.responseChannel with
      | nil =>
          rw [hchannel] at horder
          exact ⟨horder, hresults, hresponses, left, hserial, hmoved⟩
      | cons item items =>
          rw [hchannel] at horder
          refine ⟨?_, hresults, hresponses, left, hserial, hmoved⟩
          simpa [ReaderState.inService] using horder
  | serving item =>
      rw [hreader] at horder hresults hmoved
      dsimp only
      obtain rfl : scheduler.stream = left := hmoved
      have hbytes := FileSystemService.begin_bytes (rent scheduler.executed.length)
        (faults scheduler.executed.length) item.request scheduler.stream
      cases hbegin : FileSystemService.begin (rent scheduler.executed.length)
          (faults scheduler.executed.length) item.request scheduler.stream with
      | mk outcome begun =>
          cases outcome with
          | error fault =>
              rw [hbegin] at hbytes
              exact ⟨horder, hresults, hresponses, _, hserial, fun _ => hbytes⟩
          | ok transfer => exact ⟨horder, hresults, hresponses, _, hserial, hbegin⟩
  | transferring item transfer =>
      rw [hreader] at horder hresults hmoved
      have hserve := FileSystemService.serve_of_begin hmoved
      have hnext := FileSystemService.serial_append item.request hserial
        (by rw [Nat.zero_add, requests, List.length_map]; exact hserve)
      dsimp only
      cases hfault : (faults scheduler.executed.length).transfer scheduler.stream transfer with
      | some thrown =>
          refine ⟨horder, hresults, hresponses, left, hserial, ?_⟩
          intro hnone
          rw [hnone] at hfault
          cases hfault
      | none =>
          refine ⟨?_, ?_, ?_, _, ?_, rfl⟩
          · simpa [ReaderState.inService] using horder
          · simp only [List.map_append, hresults, ReaderState.pending, List.append_nil]
            rfl
          · intro execution hmem
            rcases List.mem_append.mp hmem with hmem | hmem
            · exact hresponses execution hmem
            · cases List.mem_singleton.mp hmem
              exact ⟨rfl, rfl⟩
          · simpa [requests, DefaultScheduler.responses] using hnext
  | responding item response =>
      rw [hreader] at horder hresults hmoved
      dsimp only
      refine ⟨horder, ?_, hresponses, left, hserial, hmoved⟩
      simp only [ReaderState.pending, List.append_nil]
      exact hresults
  | faulted item fault => exact ⟨horder, hresults, hresponses, left, hserial, hmoved⟩

/-- An accepted item is put behind the others. -/
theorem Queued.write (h : Queued rent faults stream scheduler) (caller : Nat) :
  Queued rent faults stream (scheduler.write caller)
  := by
  obtain ⟨horder, hresults, hresponses, left, hserial, hmoved⟩ := h
  rw [DefaultScheduler.write]
  split
  · split
    · refine ⟨?_, hresults, hresponses, left, hserial, hmoved⟩
      dsimp only [setCaller]
      rw [horder, List.append_assoc]
    · exact ⟨horder, hresults, hresponses, left, hserial, hmoved⟩
  · exact ⟨horder, hresults, hresponses, left, hserial, hmoved⟩

/-- What only changes the callers keeps the items on their way. -/
theorem Queued.setCallers (h : Queued rent faults stream scheduler) (callers : List Caller) :
  Queued rent faults stream { scheduler with callers := callers }
  := ⟨h.order, h.results, h.responses, h.serial⟩

/-- Every event keeps the items on their way. -/
theorem Queued.step (h : Queued rent faults stream scheduler) (event : SchedulerEvent) :
  Queued rent faults stream (scheduler.step rent faults event)
  := by
  cases event with
  | schedule request => exact h.setCallers _
  | waitToWrite caller =>
      simp only [DefaultScheduler.step, waitToWrite]
      split
      · split
        · exact h.setCallers _
        · exact h
      · exact h
  | write caller => exact h.write caller
  | receive caller =>
      simp only [DefaultScheduler.step, receive]
      split
      · split
        · exact h.setCallers _
        · exact h
      · exact h
  | reader => exact h.readerStep

/-! ### The callers -/

/-- What has happened to the item of a caller. -/
def Accounted (scheduler : DefaultScheduler) (i : Nat) : Caller → Prop
  | ⟨_, .waitToWrite⟩ | ⟨_, .writing⟩ => i ∉ scheduler.accepted.map Item.source
  | ⟨request, .awaiting⟩ => ⟨i, request⟩ ∈ scheduler.accepted
  | ⟨request, .returned result⟩ =>
      ⟨i, request⟩ ∈ scheduler.accepted ∧ (i, result) ∈ scheduler.results

/-- No call is accepted twice, the items of all callers are accounted for, and there is no
other item. -/
structure Attended (scheduler : DefaultScheduler) : Prop where
  once : (scheduler.accepted.map Item.source).Nodup
  accounted : ∀ i caller, scheduler.callers[i]? = some caller → scheduler.Accounted i caller
  known : ∀ i ∈ scheduler.accepted.map Item.source, i < scheduler.callers.length

/-- What is accepted stays accepted, and results stay set. -/
theorem Accounted.mono {next : DefaultScheduler} {i : Nat} {caller : Caller}
    (h : scheduler.Accounted i caller) (haccepted : scheduler.accepted = next.accepted)
    (hresults : scheduler.results ⊆ next.results) :
  next.Accounted i caller
  := by
  obtain ⟨request, state⟩ := caller
  cases state with
  | waitToWrite => rwa [Accounted, ← haccepted]
  | writing => rwa [Accounted, ← haccepted]
  | awaiting => rwa [Accounted, ← haccepted]
  | returned result =>
      obtain ⟨hitem, hresult⟩ := h
      rw [Accounted, ← haccepted]
      exact ⟨hitem, hresults hresult⟩

/-- A caller that moves on is accounted for as long as its new state is. -/
theorem Attended.setCaller (h : Attended scheduler) {i : Nat} {request : IORequest}
    {state : CallerState} (hstate : scheduler.Accounted i ⟨request, state⟩) :
  Attended (scheduler.setCaller i request state)
  := by
  constructor
  · exact h.once
  · intro j caller hcaller
    rw [DefaultScheduler.setCaller, List.getElem?_set] at hcaller
    split at hcaller
    · rename_i heq
      subst heq
      split at hcaller
      · cases hcaller
        exact hstate
      · cases hcaller
    · exact h.accounted j caller hcaller
  · intro j hj
    rw [DefaultScheduler.setCaller, List.length_set]
    exact h.known j hj

/-- A step of the reader does not touch the callers and takes back no result. -/
theorem readerStep_frame (rent : Nat → UInt32 → Bytes)
    (faults : Nat → FileSystemService.StreamFaults) (scheduler : DefaultScheduler) :
  (scheduler.readerStep rent faults).callers = scheduler.callers
    ∧ (scheduler.readerStep rent faults).accepted = scheduler.accepted
    ∧ scheduler.results ⊆ (scheduler.readerStep rent faults).results
  := by
  rw [readerStep]
  split
  · split
    · exact ⟨rfl, rfl, List.Subset.refl _⟩
    · exact ⟨rfl, rfl, List.Subset.refl _⟩
  · split
    · exact ⟨rfl, rfl, List.Subset.refl _⟩
    · exact ⟨rfl, rfl, List.Subset.refl _⟩
  · split
    · exact ⟨rfl, rfl, List.Subset.refl _⟩
    · exact ⟨rfl, rfl, List.Subset.refl _⟩
  · split
    · exact ⟨rfl, rfl, List.Subset.refl _⟩
    · exact ⟨rfl, rfl, List.Subset.refl _⟩
  · exact ⟨rfl, rfl, List.subset_append_left _ _⟩
  · exact ⟨rfl, rfl, List.Subset.refl _⟩

/-- A step of the reader keeps the callers accounted for. -/
theorem Attended.readerStep (h : Attended scheduler) :
  Attended (scheduler.readerStep rent faults)
  := by
  obtain ⟨hcallers, haccepted, hresults⟩ := readerStep_frame rent faults scheduler
  constructor
  · rw [haccepted]
    exact h.once
  · intro i caller hcaller
    rw [hcallers] at hcaller
    exact (h.accounted i caller hcaller).mono haccepted.symm hresults
  · rw [haccepted, hcallers]
    exact h.known

/-- A caller whose item is accepted is accounted for as awaiting its result. -/
theorem Attended.write (h : Attended scheduler) (i : Nat) :
  Attended (scheduler.write i)
  := by
  rw [DefaultScheduler.write]
  split
  · rename_i request hcaller
    have hnew : i ∉ scheduler.accepted.map Item.source := h.accounted i _ hcaller
    have hlt : i < scheduler.callers.length := (List.getElem?_eq_some_iff.mp hcaller).1
    split
    · constructor
      · rw [List.map_append, List.map_singleton, List.nodup_append]
        refine ⟨h.once, List.nodup_singleton _, ?_⟩
        intro j hj k hk heq
        cases List.mem_singleton.mp hk
        apply hnew
        rw [← show j = i from heq]
        exact hj
      · intro j caller hj
        rw [DefaultScheduler.setCaller, List.getElem?_set] at hj
        by_cases heq : i = j
        · subst heq
          rw [if_pos rfl, if_pos hlt] at hj
          cases hj
          exact List.mem_append_right _ List.mem_cons_self
        · rw [if_neg heq] at hj
          have hold := h.accounted j caller hj
          obtain ⟨request', state⟩ := caller
          cases state with
          | waitToWrite => simpa [Accounted, Ne.symm heq] using hold
          | writing => simpa [Accounted, Ne.symm heq] using hold
          | awaiting => exact List.mem_append_left _ hold
          | returned result => exact ⟨List.mem_append_left _ hold.1, hold.2⟩
      · intro j hj
        rw [DefaultScheduler.setCaller, List.length_set]
        rw [List.map_append, List.map_singleton] at hj
        rcases List.mem_append.mp hj with hj | hj
        · exact h.known j hj
        · cases List.mem_singleton.mp hj
          exact hlt
    · exact h
  · exact h

/-- Every event keeps the callers accounted for. -/
theorem Attended.step (h : Attended scheduler) (event : SchedulerEvent) :
  Attended (scheduler.step rent faults event)
  := by
  cases event with
  | schedule request =>
      constructor
      · exact h.once
      · intro i caller hcaller
        simp only [DefaultScheduler.step, schedule] at hcaller
        rw [List.getElem?_append] at hcaller
        split at hcaller
        · exact h.accounted i caller hcaller
        · rename_i hle
          rw [List.getElem?_singleton] at hcaller
          split at hcaller
          · cases hcaller
            intro hmem
            exact hle (h.known i hmem)
          · cases hcaller
      · intro i hi
        simp only [DefaultScheduler.step, schedule, List.length_append]
        have hknown := h.known i hi
        omega
  | waitToWrite i =>
      simp only [DefaultScheduler.step, waitToWrite]
      split
      · rename_i request hcaller
        split
        · have hnew := h.accounted i _ hcaller
          exact h.setCaller hnew
        · exact h
      · exact h
  | write i => exact h.write i
  | receive i =>
      simp only [DefaultScheduler.step, receive]
      split
      · rename_i request hcaller
        split
        · rename_i result hresult
          obtain ⟨before, after, hset, -⟩ := List.lookup_eq_some_iff.mp hresult
          have hmem : (i, result) ∈ scheduler.results := by
            rw [hset]
            exact List.mem_append_right _ List.mem_cons_self
          exact h.setCaller ⟨h.accounted i _ hcaller, hmem⟩
        · exact h
      · exact h
  | reader => exact h.readerStep

/-! ### Runs -/

/-- The executed items are the first ones of those that the channel accepted. -/
theorem Queued.prefix_accepted (h : Queued rent faults stream scheduler) :
  scheduler.executed.map Prod.fst <+: scheduler.accepted
  := by
  use scheduler.reader.inService ++ scheduler.responseChannel
  rw [← List.append_assoc, h.order]

/-- A call that has returned has the response to its own request. -/
theorem Queued.own (hqueued : Queued rent faults stream scheduler) (hattended : Attended scheduler)
    {i : Nat} {request : IORequest} {result : Except Fault IOResponse}
    (hcaller : scheduler.callers[i]? = some ⟨request, .returned result⟩) :
  ∃ response, result = .ok response ∧ (⟨i, request⟩, response) ∈ scheduler.executed
    ∧ response.id = request.id ∧ response.address = request.address
  := by
  obtain ⟨hitem, hresult⟩ := hattended.accounted i _ hcaller
  have hset : (i, result) ∈ scheduler.executed.map
      (fun execution => (execution.1.source, Except.ok execution.2)) := by
    rw [hqueued.results]
    exact List.mem_append_left _ hresult
  obtain ⟨⟨item, response⟩, hexecuted, heq⟩ := List.mem_map.mp hset
  cases heq
  have hitem' : item ∈ scheduler.accepted :=
    hqueued.prefix_accepted.subset (List.mem_map.mpr ⟨_, hexecuted, rfl⟩)
  have hown : item = ⟨item.source, request⟩ :=
    List.inj_on_of_nodup_map hattended.once hitem' hitem rfl
  have hresponse := hqueued.responses _ hexecuted
  rw [hown] at hexecuted hresponse
  exact ⟨response, rfl, hexecuted, hresponse⟩

/-- In every run the items are on their way and the callers are accounted for. -/
theorem queued_run (rent : Nat → UInt32 → Bytes) (faults : Nat → FileSystemService.StreamFaults)
    (stream : DataFileStream) (events : List SchedulerEvent) :
  Queued rent faults stream (run rent faults stream events)
    ∧ Attended (run rent faults stream events)
  := by
  apply Run.invariant
    (I := fun scheduler => Queued rent faults stream scheduler ∧ Attended scheduler)
    (fun scheduler event h => ⟨h.1.step event, h.2.step event⟩) events
  constructor
  · refine ⟨rfl, rfl, ?_, stream, rfl, rfl⟩
    intro execution h
    cases h
  · refine ⟨List.nodup_nil, ?_, ?_⟩
    · intro i caller h
      cases h
    · intro i h
      cases h

/-- Where the items are on their way and the callers accounted for, the requests are serialised,
if the stream does not throw. -/
theorem serialised_of_queued (hqueued : Queued rent (fun _ => .none) stream scheduler)
    (hattended : Attended scheduler) :
  Serialised rent stream scheduler
  := by
  constructor
  · exact hqueued.prefix_accepted
  · exact hattended.once
  · intro i request result hcaller
    exact hqueued.own hattended hcaller
  · obtain ⟨left, hserial, hmoved⟩ := hqueued.serial
    use left, hserial
    cases hreader : scheduler.reader with
    | transferring item transfer =>
        rw [hreader] at hmoved
        have hbytes := FileSystemService.begin_bytes (rent scheduler.executed.length)
          .none item.request left
        rw [hmoved] at hbytes
        exact hbytes
    | faulted item fault =>
        rw [hreader] at hmoved
        exact hmoved rfl
    | waitToRead =>
        rw [hreader] at hmoved
        exact congrArg _ hmoved
    | tryRead =>
        rw [hreader] at hmoved
        exact congrArg _ hmoved
    | serving item =>
        rw [hreader] at hmoved
        exact congrArg _ hmoved
    | responding item response =>
        rw [hreader] at hmoved
        exact congrArg _ hmoved

/-- In every run, over every stream that does not throw and with whatever the pool hands out, the
scheduler serialises the requests. -/
theorem serialised_run (rent : Nat → UInt32 → Bytes) (stream : DataFileStream)
    (events : List SchedulerEvent) :
  Serialised rent stream (run rent (fun _ => .none) stream events)
  := by
  obtain ⟨hqueued, hattended⟩ := queued_run rent (fun _ => .none) stream events
  exact serialised_of_queued hqueued hattended

end DefaultScheduler

end Datatent
