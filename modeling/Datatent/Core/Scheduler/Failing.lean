import Datatent.Core.Scheduler.Serialised

/-!
# Requests that cannot be served

Nothing in the reader catches an exception of the file system service or of its stream: it leaves
the loop without setting a result, and no step is left. The scheduler keeps serving along exactly
the runs in which the reader takes only requests that can be served by the stream at that time.
-/

namespace Datatent.DefaultScheduler

open FileSystemService (Serves StreamFaults)

variable (rent : Nat → UInt32 → Bytes) (faults : Nat → StreamFaults)

/-- Serving the item ends in the fault: the reader, left to itself, keeps the item in service until
it is out of its loop. -/
def Fails (scheduler : DefaultScheduler) (item : Item) (fault : Fault) : Prop :=
  ∃ n, ((readerStep rent faults)^[n] scheduler).reader = .faulted item fault
    ∧ ∀ k < n, item ∈ ((readerStep rent faults)^[k] scheduler).reader.inService

/-- The reader, left to itself, comes to take the item at the head of the channel. -/
def TakesHead (scheduler : DefaultScheduler) : Prop :=
  ∀ item items, scheduler.responseChannel = item :: items →
    ∃ n, ((readerStep rent faults)^[n] scheduler).reader = .serving item

/-- A failing request gets its failure as its result, and the reader comes to take the item
at the head of the channel. -/
structure KeepsServing (scheduler : DefaultScheduler) : Prop where
  reports : ∀ item fault, scheduler.Fails rent faults item fault →
    ∃ n, (item.source, .error fault) ∈ ((readerStep rent faults)^[n] scheduler).results
  takesHead : scheduler.TakesHead rent faults

/-- An event that lets the reader take an item lets it take one whose request can be served by the
stream. -/
def TakesServiceable (scheduler : DefaultScheduler) : SchedulerEvent → Prop
  | .reader => scheduler.reader = .tryRead →
      ∀ item ∈ scheduler.responseChannel.head?,
        Serves (rent scheduler.executed.length) (faults scheduler.executed.length)
          scheduler.stream item.request
  | _ => True

/-- The reader is in its loop, the item it is about to serve can be served, and the transfer it is
about to make does not throw; the results are responses. -/
structure Alive (scheduler : DefaultScheduler) : Prop where
  serving : ∀ item, scheduler.reader = .serving item →
    Serves (rent scheduler.executed.length) (faults scheduler.executed.length) scheduler.stream
      item.request
  transferring : ∀ item transfer, scheduler.reader = .transferring item transfer →
    (faults scheduler.executed.length).transfer scheduler.stream transfer = none
  looping : ∀ item fault, scheduler.reader ≠ .faulted item fault
  results : ∀ source fault, (source, .error fault) ∉ scheduler.results

variable {rent faults} {scheduler : DefaultScheduler}

/-! ### Steps of the reader -/

/-- Where a step of the reader leaves the channel, it is enough that the head is taken from
there on. -/
theorem takesHead_of_readerStep
    (hchannel : (scheduler.readerStep rent faults).responseChannel = scheduler.responseChannel)
    (h : (scheduler.readerStep rent faults).TakesHead rent faults) :
  scheduler.TakesHead rent faults
  := by
  intro item items hhead
  obtain ⟨n, hn⟩ := h item items (hchannel.trans hhead)
  use n + 1
  rw [Function.iterate_succ_apply]
  exact hn

theorem takesHead_of_tryRead (rent : Nat → UInt32 → Bytes) (faults : Nat → StreamFaults)
    (h : scheduler.reader = .tryRead) :
  scheduler.TakesHead rent faults
  := by
  intro item items hhead
  use 1
  rw [Function.iterate_one, readerStep, h]
  simp only [hhead]

theorem takesHead_of_waitToRead (h : scheduler.reader = .waitToRead) :
  scheduler.TakesHead rent faults
  := by
  intro item items hhead
  have hstep : scheduler.readerStep rent faults = { scheduler with reader := .tryRead } := by
    rw [readerStep, h]
    simp only [hhead]
    rfl
  have hreader : (scheduler.readerStep rent faults).reader = .tryRead := by rw [hstep]
  have hchannel : (scheduler.readerStep rent faults).responseChannel = item :: items := by
    rw [hstep, hhead]
  obtain ⟨n, hn⟩ := takesHead_of_tryRead rent faults hreader item items hchannel
  use n + 1
  rw [Function.iterate_succ_apply]
  exact hn

theorem takesHead_of_responding {item : Item} {response : IOResponse}
    (h : scheduler.reader = .responding item response) :
  scheduler.TakesHead rent faults
  := by
  apply takesHead_of_readerStep
  · rw [readerStep, h]
  · apply takesHead_of_tryRead rent faults
    rw [readerStep, h]

/-- A transfer that does not throw is followed by its response. -/
theorem readerStep_of_transferring {item : Item} {transfer : FileSystemService.Transfer}
    (h : scheduler.reader = .transferring item transfer)
    (hnone : (faults scheduler.executed.length).transfer scheduler.stream transfer = none) :
  ∃ stream response executed, scheduler.readerStep rent faults
    = { scheduler with
        reader := .responding item response
        stream := stream
        executed := executed }
  := by
  rw [readerStep, h]
  simp only [hnone]
  exact ⟨_, _, _, rfl⟩

theorem takesHead_of_transferring {item : Item} {transfer : FileSystemService.Transfer}
    (h : scheduler.reader = .transferring item transfer)
    (hnone : (faults scheduler.executed.length).transfer scheduler.stream transfer = none) :
  scheduler.TakesHead rent faults
  := by
  obtain ⟨stream, response, executed, hstep⟩ := readerStep_of_transferring h hnone
  apply takesHead_of_readerStep
  · rw [hstep]
  · have hreader : (scheduler.readerStep rent faults).reader = .responding item response := by
      rw [hstep]
    exact takesHead_of_responding hreader

/-- A request that can be served is served. -/
theorem readerStep_of_serving {item : Item} (h : scheduler.reader = .serving item)
    (hserves : Serves (rent scheduler.executed.length) (faults scheduler.executed.length)
      scheduler.stream item.request) :
  ∃ transfer stream, scheduler.readerStep rent faults
      = { scheduler with reader := .transferring item transfer, stream := stream }
    ∧ (faults scheduler.executed.length).transfer stream transfer = none
  := by
  obtain ⟨transfer, stream, hbegin, hnone⟩ := FileSystemService.serves_iff.mp hserves
  refine ⟨transfer, stream, ?_, hnone⟩
  rw [readerStep, h]
  simp only [hbegin]

/-- Out of its loop the reader has no step. -/
theorem iterate_readerStep_of_faulted {item : Item} {fault : Fault}
    (h : scheduler.reader = .faulted item fault) (n : Nat) :
  (readerStep rent faults)^[n] scheduler = scheduler
  := by
  apply Function.iterate_fixed
  rw [readerStep, h]

/-- The results stay if they do in the next step and then on. -/
theorem iterate_results
    (hresults : (scheduler.readerStep rent faults).results = scheduler.results)
    (h : ∀ n, ((readerStep rent faults)^[n] (scheduler.readerStep rent faults)).results
      = (scheduler.readerStep rent faults).results) (n : Nat) :
  ((readerStep rent faults)^[n] scheduler).results = scheduler.results
  := by
  cases n with
  | zero => rfl
  | succ n => rw [Function.iterate_succ_apply, h, hresults]

/-- A transfer that throws ends in the fault, and no result is set. -/
theorem fails_of_transferring {item : Item} {transfer : FileSystemService.Transfer}
    {fault : Fault} {stream : DataFileStream}
    (h : scheduler.reader = .transferring item transfer)
    (hthrows : (faults scheduler.executed.length).transfer scheduler.stream transfer
      = some (fault, stream)) :
  scheduler.Fails rent faults item fault
    ∧ ∀ n, ((readerStep rent faults)^[n] scheduler).results = scheduler.results
  := by
  have hstep : scheduler.readerStep rent faults
      = { scheduler with reader := .faulted item fault, stream := stream } := by
    rw [readerStep, h]
    simp only [hthrows]
  have hfaulted : (scheduler.readerStep rent faults).reader = .faulted item fault := by rw [hstep]
  constructor
  · refine ⟨1, hfaulted, ?_⟩
    intro k hk
    obtain rfl := Nat.lt_one_iff.mp hk
    rw [Function.iterate_zero_apply, h]
    exact List.mem_singleton_self item
  · apply iterate_results
    · rw [hstep]
    · intro n
      rw [iterate_readerStep_of_faulted hfaulted]

/-- A request that cannot be served ends in a fault, and no result is set. -/
theorem exists_fails {item : Item} (h : scheduler.reader = .serving item)
    (hserves : ¬ Serves (rent scheduler.executed.length) (faults scheduler.executed.length)
      scheduler.stream item.request) :
  ∃ fault, scheduler.Fails rent faults item fault
    ∧ ∀ n, ((readerStep rent faults)^[n] scheduler).results = scheduler.results
  := by
  have hservice : item ∈ scheduler.reader.inService := by
    rw [h]
    exact List.mem_singleton_self item
  cases hbegin : FileSystemService.begin (rent scheduler.executed.length)
      (faults scheduler.executed.length) item.request scheduler.stream with
  | mk outcome stream =>
      cases outcome with
      | error fault =>
          have hstep : scheduler.readerStep rent faults
              = { scheduler with reader := .faulted item fault, stream := stream } := by
            rw [readerStep, h]
            simp only [hbegin]
          have hfaulted : (scheduler.readerStep rent faults).reader = .faulted item fault := by
            rw [hstep]
          refine ⟨fault, ⟨1, hfaulted, ?_⟩, ?_⟩
          · intro k hk
            obtain rfl := Nat.lt_one_iff.mp hk
            exact hservice
          · apply iterate_results
            · rw [hstep]
            · intro n
              rw [iterate_readerStep_of_faulted hfaulted]
      | ok transfer =>
          have hstep : scheduler.readerStep rent faults
              = { scheduler with reader := .transferring item transfer, stream := stream } := by
            rw [readerStep, h]
            simp only [hbegin]
          cases hthrown : (faults scheduler.executed.length).transfer stream transfer with
          | none =>
              exact absurd (FileSystemService.serves_iff.mpr ⟨transfer, stream, hbegin, hthrown⟩)
                hserves
          | some thrown =>
              obtain ⟨fault, stream'⟩ := thrown
              obtain ⟨⟨n, hfaulted, hkeeps⟩, hresults⟩ :=
                @fails_of_transferring rent faults (scheduler.readerStep rent faults) item transfer
                  fault stream' (by rw [hstep]) (by rw [hstep]; exact hthrown)
              refine ⟨fault, ⟨n + 1, hfaulted, ?_⟩, iterate_results (by rw [hstep]) hresults⟩
              intro k hk
              cases k with
              | zero => exact hservice
              | succ k => exact hkeeps k (Nat.lt_of_succ_lt_succ hk)

/-! ### A reader in its loop -/

/-- A reader that neither is serving an item nor has failed is in its loop. -/
theorem alive_of_results (hservice : scheduler.reader.inService = [])
    (hresults : ∀ source fault, (source, .error fault) ∉ scheduler.results) :
  scheduler.Alive rent faults
  := by
  have hnone : ∀ item, item ∉ scheduler.reader.inService := by
    rw [hservice]
    exact fun item => List.not_mem_nil
  constructor
  · intro item h
    exact absurd (by rw [h]; exact List.mem_singleton_self item) (hnone item)
  · intro item transfer h
    exact absurd (by rw [h]; exact List.mem_singleton_self item) (hnone item)
  · intro item fault h
    exact absurd (by rw [h]; exact List.mem_singleton_self item) (hnone item)
  · exact hresults

/-- The events of the callers leave the reader, its stream and the results. -/
theorem step_frame (rent : Nat → UInt32 → Bytes) (faults : Nat → StreamFaults)
    (scheduler : DefaultScheduler) {event : SchedulerEvent} (h : event ≠ .reader) :
  (scheduler.step rent faults event).reader = scheduler.reader
    ∧ (scheduler.step rent faults event).stream = scheduler.stream
    ∧ (scheduler.step rent faults event).executed = scheduler.executed
    ∧ (scheduler.step rent faults event).results = scheduler.results
  := by
  cases event with
  | schedule request => exact ⟨rfl, rfl, rfl, rfl⟩
  | waitToWrite caller =>
      simp only [step, waitToWrite]
      split
      · split
        · exact ⟨rfl, rfl, rfl, rfl⟩
        · exact ⟨rfl, rfl, rfl, rfl⟩
      · exact ⟨rfl, rfl, rfl, rfl⟩
  | write caller =>
      simp only [step, write]
      split
      · split
        · exact ⟨rfl, rfl, rfl, rfl⟩
        · exact ⟨rfl, rfl, rfl, rfl⟩
      · exact ⟨rfl, rfl, rfl, rfl⟩
  | receive caller =>
      simp only [step, receive]
      split
      · split
        · exact ⟨rfl, rfl, rfl, rfl⟩
        · exact ⟨rfl, rfl, rfl, rfl⟩
      · exact ⟨rfl, rfl, rfl, rfl⟩
  | reader => exact absurd rfl h

/-- A step of the reader that takes at most a request that can be served keeps it in its
loop. -/
theorem Alive.readerStep (h : scheduler.Alive rent faults)
    (htakes : scheduler.TakesServiceable rent faults .reader) :
  (scheduler.readerStep rent faults).Alive rent faults
  := by
  cases hreader : scheduler.reader with
  | waitToRead =>
      rw [DefaultScheduler.readerStep, hreader]
      dsimp only
      split
      · exact h
      · exact alive_of_results rfl h.results
  | tryRead =>
      rw [DefaultScheduler.readerStep, hreader]
      dsimp only
      have hhead := htakes hreader
      cases hchannel : scheduler.responseChannel with
      | nil => exact alive_of_results rfl h.results
      | cons item items =>
          rw [hchannel] at hhead
          constructor
          · intro item' hserving
            cases hserving
            exact hhead item rfl
          · intro item' transfer htransferring
            cases htransferring
          · intro item' fault hfaulted
            cases hfaulted
          · exact h.results
  | serving item =>
      obtain ⟨transfer, stream, hstep, hnone⟩ :=
        readerStep_of_serving hreader (h.serving item hreader)
      rw [hstep]
      constructor
      · intro item' hserving
        cases hserving
      · intro item' transfer' htransferring
        cases htransferring
        exact hnone
      · intro item' fault hfaulted
        cases hfaulted
      · exact h.results
  | transferring item transfer =>
      obtain ⟨stream, response, executed, hstep⟩ :=
        @readerStep_of_transferring rent faults _ _ _ hreader (h.transferring item transfer hreader)
      rw [hstep]
      exact alive_of_results rfl h.results
  | responding item response =>
      rw [DefaultScheduler.readerStep, hreader]
      apply alive_of_results rfl
      intro source fault hmem
      rcases List.mem_append.mp hmem with hmem | hmem
      · exact h.results source fault hmem
      · cases List.mem_singleton.mp hmem
  | faulted item fault => exact absurd hreader (h.looping item fault)

/-- In its loop the reader ends in no fault. -/
theorem Alive.not_fails (h : scheduler.Alive rent faults) (item : Item) (fault : Fault) :
  ¬ scheduler.Fails rent faults item fault
  := by
  rintro ⟨n, hfaulted, hkeeps⟩
  induction n generalizing scheduler with
  | zero => exact h.looping item fault hfaulted
  | succ n ih =>
      have hservice := hkeeps 0 (Nat.succ_pos n)
      refine ih (h.readerStep ?_) hfaulted ?_
      · intro hreader
        rw [Function.iterate_zero_apply, hreader] at hservice
        cases hservice
      · intro k hk
        exact hkeeps (k + 1) (Nat.succ_lt_succ hk)

/-- In its loop the reader comes to take the item at the head of the channel, and no request
fails. -/
theorem Alive.keepsServing (h : scheduler.Alive rent faults) :
  scheduler.KeepsServing rent faults
  := by
  constructor
  · intro item fault hfails
    exact absurd hfails (h.not_fails item fault)
  · cases hreader : scheduler.reader with
    | waitToRead => exact takesHead_of_waitToRead hreader
    | tryRead => exact takesHead_of_tryRead rent faults hreader
    | serving item =>
        obtain ⟨transfer, stream, hstep, hnone⟩ :=
          readerStep_of_serving hreader (h.serving item hreader)
        apply takesHead_of_readerStep
        · rw [hstep]
        · rw [hstep]
          exact takesHead_of_transferring rfl hnone
    | transferring item transfer =>
        exact takesHead_of_transferring hreader (h.transferring item transfer hreader)
    | responding item response => exact takesHead_of_responding hreader
    | faulted item fault => exact absurd hreader (h.looping item fault)

/-! ### Runs -/

/-- An event that lets the reader take at most a request that can be served keeps it in its
loop. -/
theorem Alive.step {event : SchedulerEvent} (h : scheduler.Alive rent faults)
    (htakes : scheduler.TakesServiceable rent faults event) :
  (scheduler.step rent faults event).Alive rent faults
  := by
  by_cases hevent : event = .reader
  · subst hevent
    exact h.readerStep htakes
  · obtain ⟨hreader, hstream, hexecuted, hresults⟩ := step_frame rent faults scheduler hevent
    constructor
    · rw [hreader, hstream, hexecuted]
      exact h.serving
    · rw [hreader, hstream, hexecuted]
      exact h.transferring
    · rw [hreader]
      exact h.looping
    · rw [hresults]
      exact h.results

/-- Once the reader has taken a request that cannot be served, no result reports it. -/
theorem Alive.not_keepsServing {event : SchedulerEvent} (h : scheduler.Alive rent faults)
    (htakes : ¬ scheduler.TakesServiceable rent faults event) :
  ¬ (scheduler.step rent faults event).KeepsServing rent faults
  := by
  cases event with
  | reader =>
      simp only [TakesServiceable, Classical.not_forall] at htakes
      obtain ⟨hreader, item, hhead, hserves⟩ := htakes
      obtain ⟨items, hchannel⟩ : ∃ items, scheduler.responseChannel = item :: items := by
        cases hchannel : scheduler.responseChannel with
        | nil =>
            rw [hchannel] at hhead
            cases hhead
        | cons item' items =>
            rw [hchannel] at hhead
            cases hhead
            exact ⟨items, rfl⟩
      have hstep : scheduler.step rent faults .reader
          = { scheduler with responseChannel := items, reader := .serving item } := by
        rw [DefaultScheduler.step, DefaultScheduler.readerStep, hreader]
        simp only [hchannel]
      intro hkeeps
      rw [hstep] at hkeeps
      obtain ⟨fault, hfails, hresults⟩ := @exists_fails rent faults
        { scheduler with responseChannel := items, reader := .serving item } item rfl hserves
      obtain ⟨n, hmem⟩ := hkeeps.reports item fault hfails
      rw [hresults] at hmem
      exact h.results _ _ hmem
  | schedule request => exact absurd trivial htakes
  | waitToWrite caller => exact absurd trivial htakes
  | write caller => exact absurd trivial htakes
  | receive caller => exact absurd trivial htakes

/-- The scheduler keeps serving in every state of a run exactly when the reader takes only
requests that can be served by the stream at that time. -/
theorem keepsServing_iff_takesServiceable (rent : Nat → UInt32 → Bytes)
    (faults : Nat → StreamFaults) (stream : DataFileStream) (events : List SchedulerEvent) :
  (∀ n, (run rent faults stream (events.take n)).KeepsServing rent faults)
    ↔ Run.Along (step rent faults) (TakesServiceable rent faults) (create stream) events
  := by
  apply Run.forall_take_iff_along (I := Alive rent faults)
  · intro scheduler event h htakes
    exact h.step htakes
  · intro scheduler h
    exact h.keepsServing
  · intro scheduler event h htakes
    exact h.not_keepsServing htakes
  · apply alive_of_results rfl
    intro source fault hmem
    cases hmem

/-- The law of the scheduler: it keeps serving in every state of every run, whenever the stream
throws. -/
def ServingLaw : Prop :=
  ∀ (rent : Nat → UInt32 → Bytes) (faults : Nat → StreamFaults) (stream : DataFileStream)
    (events : List SchedulerEvent) (n : Nat),
    (run rent faults stream (events.take n)).KeepsServing rent faults

/-- A request to read what an address without a scope stands for. -/
def scopelessRequest : IORequest where
  id := 0
  requestDirection := .read
  address := ⟨0⟩
  payload := []
  ioRequestProperties := { flush := false, onlyHeader := false }

/-- The law of the scheduler fails on a stream that never throws: a caller puts a request with an
address without a scope into the channel, and the reader takes it. -/
theorem not_servingLaw :
  ¬ ServingLaw
  := by
  intro hlaw
  have hrun := (keepsServing_iff_takesServiceable (fun _ length => List.replicate length.toNat 0)
    (fun _ => .none) ⟨[], 0⟩
    [.schedule scopelessRequest, .waitToWrite 0, .write 0, .reader, .reader]).mp (hlaw _ _ _ _)
  obtain ⟨-, -, -, -, htakes, -⟩ := hrun
  obtain ⟨offset, length, hrange, -⟩ := htakes rfl ⟨0, scopelessRequest⟩ rfl
  cases hrange

end Datatent.DefaultScheduler
