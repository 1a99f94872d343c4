import Datatent.Core.Scheduler.Failing
import Datatent.Core.Scheduler.Linearised
import Mathlib.Data.List.TakeWhile

/-!
# Which calls can return

No event takes an item out of the channel other than the reader, in the order of the channel,
and the reader stops at the first request that cannot be served. So in every state of every
run a call can return if and only if its own request can be served and those of all items
ahead of it. Nothing else blocks it: neither the bound of the channel nor what the other
callers do. What can be served is a matter of the request and of the limits of the stream.
-/

namespace Datatent.DefaultScheduler

open FileSystemService (StreamFaults StreamLimits)

variable (rent : Nat → UInt32 → Bytes) (faults : Nat → StreamFaults)

/-- The call can return: there are further events after which it has. -/
def CanReturn (scheduler : DefaultScheduler) (i : Nat) : Prop :=
  ∃ events response, (Run.final (step rent faults) scheduler events).Returned i response

/-- The accepted items ahead of a call: those in front of its own one, and all of them as long
as its own is not accepted. -/
def ahead (scheduler : DefaultScheduler) (i : Nat) : List Item :=
  scheduler.accepted.takeWhile (fun item => item.source ≠ i)

/-- The items are on their way, the callers are accounted for, the executed requests are within the
limits, and a reader out of its loop is so for one that is not. -/
structure Consistent (limits : StreamLimits) (stream : DataFileStream)
    (scheduler : DefaultScheduler) : Prop where
  queued : Queued rent (fun _ => limits.toFaults) stream scheduler
  attended : Attended scheduler
  executed : ∀ item ∈ scheduler.executed.map Prod.fst, limits.Takes item.request
  stopped : ∀ item fault, scheduler.reader = .faulted item fault → ¬ limits.Takes item.request

variable {rent faults} {limits : StreamLimits} {stream : DataFileStream}
  {scheduler : DefaultScheduler} {i : Nat} {request : IORequest}

/-! ### Steps -/

/-- A request is within the limits if both steps of its call succeed. -/
theorem takes_of_begin {transfer : FileSystemService.Transfer} {rent : UInt32 → Bytes}
    {stream stream' : DataFileStream}
    (hbegin : FileSystemService.begin rent limits.toFaults request stream
      = (.ok transfer, stream')) :
  limits.Takes request ↔ limits.toFaults.transfer stream' transfer = none
  := by
  rw [← @StreamLimits.serves_iff_takes rent, FileSystemService.serves_iff]
  constructor
  · rintro ⟨transfer', stream'', hbegin', hnone⟩
    cases hbegin.symm.trans hbegin'
    exact hnone
  · intro hnone
    exact ⟨transfer, stream', hbegin, hnone⟩

/-- A request within the limits gets through the first step of its call. -/
theorem exists_begin (rent : UInt32 → Bytes) (stream : DataFileStream)
    (htakes : limits.Takes request) :
  ∃ transfer stream', FileSystemService.begin rent limits.toFaults request stream
      = (.ok transfer, stream')
    ∧ limits.toFaults.transfer stream' transfer = none
  := FileSystemService.serves_iff.mp (StreamLimits.serves_iff_takes.mpr htakes)

/-- The reader executes what is within the limits and leaves its loop for a request that is not. -/
theorem Consistent.readerStep (h : Consistent rent limits stream scheduler) :
  Consistent rent limits stream (scheduler.readerStep rent (fun _ => limits.toFaults))
  := by
  suffices hnext : (∀ item ∈ (scheduler.readerStep rent fun _ => limits.toFaults).executed.map
        Prod.fst, limits.Takes item.request)
      ∧ ∀ item fault, (scheduler.readerStep rent fun _ => limits.toFaults).reader
        = .faulted item fault → ¬ limits.Takes item.request by
    exact ⟨h.queued.readerStep, h.attended.readerStep, hnext.1, hnext.2⟩
  obtain ⟨left, -, hmoved⟩ := h.queued.serial
  have hexecuted := h.executed
  have hstopped := h.stopped
  rw [DefaultScheduler.readerStep]
  cases hreader : scheduler.reader with
  | waitToRead =>
      dsimp only
      split
      · exact ⟨hexecuted, hstopped⟩
      · exact ⟨hexecuted, fun item fault hfaulted => by cases hfaulted⟩
  | tryRead =>
      dsimp only
      split
      · exact ⟨hexecuted, fun item fault hfaulted => by cases hfaulted⟩
      · exact ⟨hexecuted, fun item fault hfaulted => by cases hfaulted⟩
  | serving served =>
      dsimp only
      split
      · rename_i hbegin
        refine ⟨hexecuted, ?_⟩
        intro item fault' hfaulted htakes
        cases hfaulted
        obtain ⟨transfer, stream', hok, -⟩ :=
          exists_begin (rent scheduler.executed.length) scheduler.stream htakes
        cases hbegin.symm.trans hok
      · exact ⟨hexecuted, fun item fault hfaulted => by cases hfaulted⟩
  | transferring served transfer =>
      rw [hreader] at hmoved
      have htakes := takes_of_begin hmoved
      dsimp only
      split
      · rename_i hthrown
        refine ⟨hexecuted, ?_⟩
        intro item fault' hfaulted
        cases hfaulted
        rw [htakes, hthrown]
        exact Option.some_ne_none _
      · rename_i hnone
        refine ⟨?_, fun item fault hfaulted => by cases hfaulted⟩
        intro item hitem
        rw [List.map_append, List.mem_append, List.map_singleton, List.mem_singleton] at hitem
        obtain hitem | rfl := hitem
        · exact hexecuted item hitem
        · exact htakes.mpr hnone
  | responding served response =>
      exact ⟨hexecuted, fun item fault hfaulted => by cases hfaulted⟩
  | faulted served fault' =>
      dsimp only
      exact ⟨hexecuted, hstopped⟩

/-- Every event keeps the scheduler consistent. -/
theorem Consistent.step (h : Consistent rent limits stream scheduler) (event : SchedulerEvent) :
  Consistent rent limits stream (scheduler.step rent (fun _ => limits.toFaults) event)
  := by
  by_cases hevent : event = .reader
  · subst hevent
    exact h.readerStep
  · obtain ⟨hreader, -, hexecuted, -⟩ :=
      step_frame rent (fun _ => limits.toFaults) scheduler hevent
    refine ⟨h.queued.step event, h.attended.step event, ?_, ?_⟩
    · rw [hexecuted]
      exact h.executed
    · rw [hreader]
      exact h.stopped

/-- A consistent scheduler stays consistent. -/
theorem Consistent.final (h : Consistent rent limits stream scheduler)
    (events : List SchedulerEvent) :
  Consistent rent limits stream
    (Run.final (DefaultScheduler.step rent (fun _ => limits.toFaults)) scheduler events)
  := Run.invariant (I := Consistent rent limits stream) (fun _ event h => h.step event) events h

/-- In every run the scheduler is consistent. -/
theorem consistent_run (rent : Nat → UInt32 → Bytes) (limits : StreamLimits)
    (stream : DataFileStream) (events : List SchedulerEvent) :
  Consistent rent limits stream (run rent (fun _ => limits.toFaults) stream events)
  := by
  apply Consistent.final
  obtain ⟨hqueued, hattended⟩ := queued_run rent (fun _ => limits.toFaults) stream []
  refine ⟨hqueued, hattended, ?_, ?_⟩
  · intro item hitem
    cases hitem
  · intro item fault hfaulted
    cases hfaulted

/-- A caller that moves on keeps its request. -/
theorem Made.setCaller (h : scheduler.Made i request) {j : Nat} {request' : IORequest}
    {state : CallerState} {state' : CallerState}
    (hcaller : scheduler.callers[j]? = some ⟨request', state⟩) :
  (scheduler.setCaller j request' state').Made i request
  := by
  obtain ⟨before, h⟩ := h
  rw [Made, DefaultScheduler.setCaller, List.getElem?_set]
  by_cases hsame : j = i
  · subst hsame
    cases hcaller.symm.trans h
    rw [if_pos rfl, if_pos (List.getElem?_eq_some_iff.mp h).1]
    exact ⟨state', rfl⟩
  · rw [if_neg hsame]
    exact ⟨before, h⟩

/-- A call that was made stays made, with its request. -/
theorem Made.step (h : scheduler.Made i request) (event : SchedulerEvent) :
  (scheduler.step rent faults event).Made i request
  := by
  cases event with
  | schedule request' =>
      obtain ⟨state, hcaller⟩ := h
      refine ⟨state, ?_⟩
      rw [DefaultScheduler.step, schedule, List.getElem?_append_left
        (List.getElem?_eq_some_iff.mp hcaller).1, hcaller]
  | waitToWrite j =>
      simp only [DefaultScheduler.step, waitToWrite]
      split
      · rename_i request' hcaller
        split
        · exact h.setCaller hcaller
        · exact h
      · exact h
  | write j =>
      simp only [DefaultScheduler.step, write]
      split
      · rename_i request' hcaller
        split
        · exact h.setCaller hcaller
        · exact h
      · exact h
  | receive j =>
      simp only [DefaultScheduler.step, receive]
      split
      · rename_i request' hcaller
        split
        · exact h.setCaller hcaller
        · exact h
      · exact h
  | reader =>
      rw [DefaultScheduler.step, Made, (readerStep_frame rent faults scheduler).1]
      exact h

/-- A call that was made stays made. -/
theorem Made.final (h : scheduler.Made i request) (events : List SchedulerEvent) :
  (Run.final (DefaultScheduler.step rent faults) scheduler events).Made i request
  := by
  induction events generalizing scheduler with
  | nil => exact h
  | cons event events ih => exact ih (h.step event)

/-- What can be reached from the state after an event can be reached. -/
theorem CanReturn.of_step (event : SchedulerEvent)
    (h : (scheduler.step rent faults event).CanReturn rent faults i) :
  scheduler.CanReturn rent faults i
  := by
  obtain ⟨events, h⟩ := h
  exact ⟨event :: events, h⟩

/-! ### Only what can be served is executed -/

/-- The items ahead of a call that is executed later are executed then. -/
theorem mem_of_mem_ahead {executed accepted accepted' : List Item} {own item : Item}
    (hexecuted : executed <+: accepted') (haccepted : accepted <+: accepted')
    (hown : own ∈ executed)
    (hitem : item ∈ accepted.takeWhile (fun item => item.source ≠ own.source)) :
  item ∈ executed
  := by
  rcases List.prefix_or_prefix_of_prefix haccepted hexecuted with hle | ⟨rest, rfl⟩
  · exact hle.subset (List.takeWhile_subset _ hitem)
  · obtain ⟨before, after, rfl⟩ := List.append_of_mem hown
    rw [List.append_assoc, List.cons_append] at hitem
    have hmem : item ∈ before := by
      rw [List.takeWhile_append] at hitem
      split at hitem
      · simpa using hitem
      · exact List.takeWhile_subset _ hitem
    exact List.mem_append_left _ hmem

/-- A call that has returned has a request that can be served, and so have the items that were
ahead of it. -/
theorem Consistent.serviceable_of_returned (h : Consistent rent limits stream scheduler)
    {accepted : List Item} (haccepted : accepted <+: scheduler.accepted)
    (hmade : scheduler.Made i request) {response : IOResponse}
    (hreturned : scheduler.Returned i response) :
  limits.Takes request
    ∧ ∀ item ∈ accepted.takeWhile (fun item => item.source ≠ i), limits.Takes item.request
  := by
  obtain ⟨state, hstate⟩ := hmade
  obtain ⟨request', hcaller⟩ := hreturned
  rw [hcaller] at hstate
  obtain rfl : request' = request := congrArg Caller.request (Option.some.inj hstate)
  obtain ⟨response', -, hexecuted, -⟩ := h.queued.own h.attended hcaller
  have hown : ⟨i, request'⟩ ∈ scheduler.executed.map Prod.fst :=
    List.mem_map.mpr ⟨_, hexecuted, rfl⟩
  refine ⟨h.executed ⟨i, request'⟩ hown, ?_⟩
  intro item hitem
  apply h.executed item
  exact mem_of_mem_ahead h.queued.prefix_accepted haccepted hown hitem

/-- A call that can return has a request that can be served, and so have the items ahead of
it. -/
theorem Consistent.serviceable_of_canReturn (h : Consistent rent limits stream scheduler)
    (hmade : scheduler.Made i request)
    (hreturn : scheduler.CanReturn rent (fun _ => limits.toFaults) i) :
  limits.Takes request ∧ ∀ item ∈ scheduler.ahead i, limits.Takes item.request
  := by
  obtain ⟨events, response, hreturned⟩ := hreturn
  exact (h.final events).serviceable_of_returned (accepted_final rent _ scheduler events)
    (hmade.final events) hreturned

/-! ### What can be served is executed -/

/-- The number of steps the reader has to take for the items it has and those in the
channel. -/
def work (scheduler : DefaultScheduler) : Nat :=
  5 * scheduler.responseChannel.length
    + match scheduler.reader with
      | .waitToRead => 1
      | .tryRead => 0
      | .serving _ => 4
      | .transferring _ _ => 3
      | .responding _ _ => 2
      | .faulted _ _ => 0

/-- A reader that has an item it can serve, or finds one in the channel, has less to do after
its step. -/
theorem Consistent.work_readerStep (h : Consistent rent limits stream scheduler)
    (hserving : ∀ item ∈ scheduler.reader.inService, limits.Takes item.request)
    (hchannel : scheduler.reader.inService = [] → scheduler.reader.pending = [] →
      scheduler.responseChannel ≠ []) :
  (scheduler.readerStep rent (fun _ => limits.toFaults)).work < scheduler.work
  := by
  obtain ⟨left, -, hmoved⟩ := h.queued.serial
  cases hreader : scheduler.reader with
  | waitToRead =>
      rw [hreader] at hchannel
      rw [work, work, DefaultScheduler.readerStep, hreader]
      dsimp only
      rw [if_neg (by rw [List.isEmpty_iff]; exact hchannel rfl rfl)]
      dsimp only
      omega
  | tryRead =>
      rw [hreader] at hchannel
      obtain ⟨item, items, hcons⟩ := List.exists_cons_of_ne_nil (hchannel rfl rfl)
      rw [work, work, DefaultScheduler.readerStep, hreader, hcons]
      dsimp only
      rw [List.length_cons]
      omega
  | serving item =>
      rw [hreader] at hserving
      have hserves : FileSystemService.Serves (rent scheduler.executed.length) limits.toFaults
          scheduler.stream item.request :=
        StreamLimits.serves_iff_takes.mpr (hserving item (List.mem_singleton_self item))
      obtain ⟨transfer, stream, hstep, -⟩ :=
        @readerStep_of_serving rent (fun _ => limits.toFaults) _ _ hreader hserves
      rw [work, work, hstep, hreader]
      dsimp only
      omega
  | transferring item transfer =>
      rw [hreader] at hserving hmoved
      have hnone := (takes_of_begin hmoved).mp (hserving item (List.mem_singleton_self item))
      obtain ⟨stream, response, executed, hstep⟩ :=
        @readerStep_of_transferring rent (fun _ => limits.toFaults) _ _ _ hreader hnone
      rw [work, work, hstep, hreader]
      dsimp only
      omega
  | responding item response =>
      rw [work, work, DefaultScheduler.readerStep, hreader]
      dsimp only
      omega
  | faulted item fault =>
      apply absurd _ (h.stopped item fault hreader)
      apply hserving
      rw [hreader]
      exact List.mem_singleton_self item

/-- The item in service can be served where all accepted items can, or all ahead of a call
that is not executed, and its own one. -/
theorem Consistent.inService_serviceable (h : Consistent rent limits stream scheduler)
    (hahead : ∀ item ∈ scheduler.ahead i, limits.Takes item.request)
    (hown : ∀ item ∈ scheduler.accepted, item.source = i → limits.Takes item.request)
    (hnot : i ∉ (scheduler.executed.map Prod.fst).map Item.source) :
  ∀ item ∈ scheduler.reader.inService, limits.Takes item.request
  := by
  intro item hitem
  have horder := h.queued.order
  have hmem : item ∈ scheduler.accepted := by
    rw [horder]
    exact List.mem_append_left _ (List.mem_append_right _ hitem)
  by_cases hsame : item.source = i
  · exact hown item hmem hsame
  · apply hahead
    obtain ⟨rest, hservice⟩ : ∃ rest, scheduler.reader.inService = item :: rest := by
      cases hreader : scheduler.reader with
      | waitToRead | tryRead | responding =>
          rw [hreader] at hitem
          cases hitem
      | serving served | transferring served _ | faulted served _ =>
          rw [hreader] at hitem
          cases List.mem_singleton.mp hitem
          exact ⟨[], rfl⟩
    have hother : ∀ executed ∈ scheduler.executed.map Prod.fst,
        decide (executed.source ≠ i) = true := by
      intro executed hexecuted
      rw [decide_eq_true_iff]
      rintro rfl
      exact hnot (List.mem_map.mpr ⟨executed, hexecuted, rfl⟩)
    rw [ahead, horder, hservice, List.append_assoc, List.takeWhile_append_of_pos hother,
      List.cons_append, List.takeWhile_cons_of_pos (by rwa [decide_eq_true_iff])]
    exact List.mem_append_right _ List.mem_cons_self

/-- The result of an executed call is set once its response is not pending any more. -/
theorem Queued.exists_result (h : Queued rent faults stream scheduler)
    (hexecuted : i ∈ (scheduler.executed.map Prod.fst).map Item.source)
    (hpending : scheduler.reader.pending = []) :
  ∃ response, scheduler.results.lookup i = some (.ok response)
  := by
  have hresults := h.results
  rw [hpending, List.append_nil] at hresults
  rw [← hresults]
  clear hresults h hpending
  generalize scheduler.executed = executed at hexecuted ⊢
  induction executed with
  | nil => cases hexecuted
  | cons execution executed ih =>
      rw [List.map_cons, List.lookup_cons]
      by_cases hsame : i = execution.1.source
      · subst hsame
        rw [beq_self_eq_true]
        exact ⟨execution.2, rfl⟩
      · rw [beq_false_of_ne hsame]
        apply ih
        rcases List.mem_cons.mp hexecuted with heq | hmem
        · exact absurd heq hsame
        · exact hmem

/-- As long as the result of an accepted item is not set the reader has less to do after its
step, if the request and those of the items ahead can be served. -/
theorem Consistent.work_lt (h : Consistent rent limits stream scheduler)
    (hitem : ⟨i, request⟩ ∈ scheduler.accepted)
    (hnone : ∀ response, scheduler.results.lookup i ≠ some (.ok response))
    (hserviceable : limits.Takes request)
    (hahead : ∀ item ∈ scheduler.ahead i, limits.Takes item.request) :
  (scheduler.readerStep rent (fun _ => limits.toFaults)).work < scheduler.work
  := by
  have hown : ∀ item ∈ scheduler.accepted, item.source = i → limits.Takes item.request := by
    intro item hmem hsource
    rw [List.inj_on_of_nodup_map h.attended.once hmem hitem hsource]
    exact hserviceable
  have hnot : scheduler.reader.pending = [] →
      i ∉ (scheduler.executed.map Prod.fst).map Item.source := by
    intro hpending hexecuted
    obtain ⟨response, hresult⟩ := h.queued.exists_result hexecuted hpending
    exact hnone response hresult
  have hserving : ∀ item ∈ scheduler.reader.inService, limits.Takes item.request := by
    intro item hmem
    have hpending : scheduler.reader.pending = [] := by
      cases hreader : scheduler.reader with
      | responding =>
          rw [hreader] at hmem
          cases hmem
      | _ => rfl
    exact h.inService_serviceable hahead hown (hnot hpending) item hmem
  apply h.work_readerStep hserving
  intro hservice hpending hchannel
  apply hnot hpending
  have horder := h.queued.order
  rw [hservice, hchannel, List.append_nil, List.append_nil] at horder
  rw [← horder]
  exact List.mem_map.mpr ⟨_, hitem, rfl⟩

/-- A call that awaits its result can return if its request and those of the items ahead of it
can be served. -/
theorem Consistent.canReturn_of_awaiting (h : Consistent rent limits stream scheduler)
    (hcaller : scheduler.callers[i]? = some ⟨request, .awaiting⟩)
    (hserviceable : limits.Takes request)
    (hahead : ∀ item ∈ scheduler.ahead i, limits.Takes item.request) :
  scheduler.CanReturn rent (fun _ => limits.toFaults) i
  := by
  induction hwork : scheduler.work using Nat.strong_induction_on generalizing scheduler with
  | _ n ih =>
      by_cases hresult : ∃ response, scheduler.results.lookup i = some (.ok response)
      · obtain ⟨response, hresult⟩ := hresult
        refine ⟨[.receive i], response, request, ?_⟩
        have hstep : scheduler.step rent (fun _ => limits.toFaults) (.receive i)
            = scheduler.setCaller i request (.returned (.ok response)) := by
          simp only [DefaultScheduler.step, receive, hcaller, hresult]
        change (scheduler.step rent (fun _ => limits.toFaults) (.receive i)).callers[i]? = _
        rw [hstep, DefaultScheduler.setCaller,
          List.getElem?_set_self (List.getElem?_eq_some_iff.mp hcaller).1]
      · have hnone := not_exists.mp hresult
        have hlt := h.work_lt (h.attended.accounted i _ hcaller) hnone hserviceable hahead
        obtain ⟨hcallers, haccepted, -⟩ :=
          readerStep_frame rent (fun _ => limits.toFaults) scheduler
        apply CanReturn.of_step .reader
        apply ih _ (hwork ▸ hlt) h.readerStep _ _ rfl
        · rw [hcallers, hcaller]
        · rw [ahead, haccepted]
          exact hahead

/-- The reader makes room in the channel if all accepted items can be served. -/
theorem Consistent.canReturn_of_room (h : Consistent rent limits stream scheduler)
    (hall : ∀ item ∈ scheduler.accepted, limits.Takes item.request)
    (hroom : ∀ next : DefaultScheduler, Consistent rent limits stream next →
      next.callers = scheduler.callers → next.accepted = scheduler.accepted →
      next.responseChannel.length < capacity →
      next.CanReturn rent (fun _ => limits.toFaults) i) :
  scheduler.CanReturn rent (fun _ => limits.toFaults) i
  := by
  induction hwork : scheduler.work using Nat.strong_induction_on generalizing scheduler with
  | _ n ih =>
      by_cases hlength : scheduler.responseChannel.length < capacity
      · exact hroom scheduler h rfl rfl hlength
      · have hserving : ∀ item ∈ scheduler.reader.inService, limits.Takes item.request := by
          intro item hitem
          apply hall
          rw [h.queued.order]
          exact List.mem_append_left _ (List.mem_append_right _ hitem)
        have hlt := h.work_readerStep hserving
          (by
            rintro - - hnil
            rw [hnil] at hlength
            exact hlength (by decide))
        obtain ⟨hcallers, haccepted, -⟩ :=
          readerStep_frame rent (fun _ => limits.toFaults) scheduler
        apply CanReturn.of_step .reader
        apply ih _ (hwork ▸ hlt) h.readerStep _ _ rfl
        · rwa [haccepted]
        · rw [hcallers, haccepted]
          exact hroom

/-- A call whose item is not accepted can return if its request and those of all accepted items
can be served. -/
theorem Consistent.canReturn_of_writing (h : Consistent rent limits stream scheduler)
    (hcaller : scheduler.callers[i]? = some ⟨request, .writing⟩)
    (hserviceable : limits.Takes request)
    (hall : ∀ item ∈ scheduler.accepted, limits.Takes item.request) :
  scheduler.CanReturn rent (fun _ => limits.toFaults) i
  := by
  apply h.canReturn_of_room hall
  intro next hnext hcallers haccepted hlength
  rw [← hcallers] at hcaller
  have hstep : next.step rent (fun _ => limits.toFaults) (.write i)
      = { next.setCaller i request .awaiting with
          responseChannel := next.responseChannel ++ [⟨i, request⟩]
          accepted := next.accepted ++ [⟨i, request⟩] } := by
    simp only [DefaultScheduler.step, write, hcaller, if_pos hlength]
  apply CanReturn.of_step (.write i)
  apply (hnext.step (.write i)).canReturn_of_awaiting _ hserviceable
  · intro item hitem
    rw [ahead, hstep] at hitem
    rcases List.mem_append.mp (List.takeWhile_subset _ hitem) with hmem | hmem
    · rw [haccepted] at hmem
      exact hall item hmem
    · cases List.mem_singleton.mp hmem
      exact hserviceable
  · rw [hstep]
    exact List.getElem?_set_self (List.getElem?_eq_some_iff.mp hcaller).1

/-- The same for a call that waits to write. -/
theorem Consistent.canReturn_of_waitToWrite (h : Consistent rent limits stream scheduler)
    (hcaller : scheduler.callers[i]? = some ⟨request, .waitToWrite⟩)
    (hserviceable : limits.Takes request)
    (hall : ∀ item ∈ scheduler.accepted, limits.Takes item.request) :
  scheduler.CanReturn rent (fun _ => limits.toFaults) i
  := by
  apply h.canReturn_of_room hall
  intro next hnext hcallers haccepted hlength
  rw [← hcallers] at hcaller
  have hstep : next.step rent (fun _ => limits.toFaults) (.waitToWrite i)
      = next.setCaller i request .writing := by
    simp only [DefaultScheduler.step, waitToWrite, hcaller, if_pos hlength]
  apply CanReturn.of_step (.waitToWrite i)
  apply (hnext.step (.waitToWrite i)).canReturn_of_writing _ hserviceable
  · rw [hstep]
    exact haccepted ▸ hall
  · rw [hstep]
    exact List.getElem?_set_self (List.getElem?_eq_some_iff.mp hcaller).1

/-! ### Runs -/

/-- As long as a call is not accepted all accepted items are ahead of it. -/
theorem ahead_eq_accepted (h : i ∉ scheduler.accepted.map Item.source) :
  scheduler.ahead i = scheduler.accepted
  := by
  rw [ahead, List.takeWhile_eq_self_iff]
  intro item hitem
  rw [decide_eq_true_iff]
  rintro rfl
  exact h (List.mem_map.mpr ⟨item, hitem, rfl⟩)

end Datatent.DefaultScheduler
