import Datatent.Core.IO.FileSystemTransfer
import Datatent.Library.Run

/-!
# The scheduler

Any number of callers put requests into a bounded channel, each with a completion source of
its own, and one reader takes them out and serves them. A run is a sequence of events in any
order: a call of `ScheduleFileSystemRequest`, a step of one of the callers, a step of the
reader. An event that cannot happen in a state changes nothing. The array pool and the exceptions
of the stream are parameters: `rent n` hands out the arrays for the `n`-th request that is served,
and `faults n` says when the stream throws for it.
-/

namespace Datatent

/-- What is in the channel: a request with its completion source. The source is the number of
the call that created it. -/
structure Item where
  source : Nat
  request : IORequest

/-- Where a call of `ScheduleFileSystemRequest` stands. -/
inductive CallerState where
  | waitToWrite
  | writing
  | awaiting
  | returned (result : Except Fault IOResponse)

/-- A call of `ScheduleFileSystemRequest`. -/
structure Caller where
  request : IORequest
  state : CallerState

/-- Where the reader stands: in `WaitToReadAsync`, before `TryRead`, with an item it has taken,
with an item for which the position is set, with a response, or out of its loop with an
exception. -/
inductive ReaderState where
  | waitToRead
  | tryRead
  | serving (item : Item)
  | transferring (item : Item) (transfer : FileSystemService.Transfer)
  | responding (item : Item) (response : IOResponse)
  | faulted (item : Item) (fault : Fault)

/-- The scheduler with its callers and the stream of its file system service. The results are
those of the completion sources; `accepted` lists all items the channel has taken and
`executed` those whose transfer was made, with the responses. -/
structure DefaultScheduler where
  callers : List Caller
  responseChannel : List Item
  reader : ReaderState
  stream : DataFileStream
  results : List (Nat × Except Fault IOResponse)
  accepted : List Item
  executed : List (Item × IOResponse)

/-- What can happen next. -/
inductive SchedulerEvent where
  | schedule (request : IORequest)
  | waitToWrite (caller : Nat)
  | write (caller : Nat)
  | receive (caller : Nat)
  | reader

namespace DefaultScheduler

/-- The bound of the channel. -/
def capacity : Nat := 100

/-- The scheduler with no callers and an empty channel. -/
def create (stream : DataFileStream) : DefaultScheduler where
  callers := []
  responseChannel := []
  reader := .waitToRead
  stream := stream
  results := []
  accepted := []
  executed := []

/-- A new call of `ScheduleFileSystemRequest`. -/
def schedule (scheduler : DefaultScheduler) (request : IORequest) : DefaultScheduler :=
  { scheduler with callers := scheduler.callers ++ [⟨request, .waitToWrite⟩] }

/-- The scheduler with the given state of a caller. -/
def setCaller (scheduler : DefaultScheduler) (caller : Nat) (request : IORequest)
    (state : CallerState) : DefaultScheduler :=
  { scheduler with callers := scheduler.callers.set caller ⟨request, state⟩ }

/-- `WaitToWriteAsync` of a caller comes back once the channel has room. -/
def waitToWrite (scheduler : DefaultScheduler) (caller : Nat) : DefaultScheduler :=
  match scheduler.callers[caller]? with
  | some ⟨request, .waitToWrite⟩ =>
      if scheduler.responseChannel.length < capacity then
        scheduler.setCaller caller request .writing
      else scheduler
  | _ => scheduler

/-- `WriteAsync` of a caller puts its item into the channel once the channel has room. -/
def write (scheduler : DefaultScheduler) (caller : Nat) : DefaultScheduler :=
  match scheduler.callers[caller]? with
  | some ⟨request, .writing⟩ =>
      if scheduler.responseChannel.length < capacity then
        { scheduler.setCaller caller request .awaiting with
          responseChannel := scheduler.responseChannel ++ [⟨caller, request⟩]
          accepted := scheduler.accepted ++ [⟨caller, request⟩] }
      else scheduler
  | _ => scheduler

/-- A caller returns with the result of its source once there is one. -/
def receive (scheduler : DefaultScheduler) (caller : Nat) : DefaultScheduler :=
  match scheduler.callers[caller]? with
  | some ⟨request, .awaiting⟩ =>
      match scheduler.results.lookup caller with
      | some result => scheduler.setCaller caller request (.returned result)
      | none => scheduler
  | _ => scheduler

variable (rent : Nat → UInt32 → Bytes) (faults : Nat → FileSystemService.StreamFaults)

/-- The next step of `Reader`. An exception leaves the method; nothing catches it. -/
def readerStep (scheduler : DefaultScheduler) : DefaultScheduler :=
  match scheduler.reader with
  | .waitToRead =>
      if scheduler.responseChannel.isEmpty then scheduler
      else { scheduler with reader := .tryRead }
  | .tryRead =>
      match scheduler.responseChannel with
      | [] => { scheduler with reader := .waitToRead }
      | item :: items =>
          { scheduler with responseChannel := items, reader := .serving item }
  | .serving item =>
      match FileSystemService.begin (rent scheduler.executed.length)
          (faults scheduler.executed.length) item.request scheduler.stream with
      | (.error fault, stream) =>
          { scheduler with reader := .faulted item fault, stream := stream }
      | (.ok transfer, stream) =>
          { scheduler with reader := .transferring item transfer, stream := stream }
  | .transferring item transfer =>
      match (faults scheduler.executed.length).transfer scheduler.stream transfer with
      | some (fault, stream) =>
          { scheduler with reader := .faulted item fault, stream := stream }
      | none =>
          let (payload, stream) := transfer.run scheduler.stream
          let response := FileSystemService.respond item.request payload
          { scheduler with
            reader := .responding item response
            stream := stream
            executed := scheduler.executed ++ [(item, response)] }
  | .responding item response =>
      { scheduler with
        reader := .tryRead
        results := scheduler.results ++ [(item.source, .ok response)] }
  | .faulted _ _ => scheduler

/-- The scheduler after an event. -/
def step (scheduler : DefaultScheduler) : SchedulerEvent → DefaultScheduler
  | .schedule request => scheduler.schedule request
  | .waitToWrite caller => scheduler.waitToWrite caller
  | .write caller => scheduler.write caller
  | .receive caller => scheduler.receive caller
  | .reader => scheduler.readerStep rent faults

/-- The scheduler after a sequence of events, over a stream. -/
def run (stream : DataFileStream) (events : List SchedulerEvent) : DefaultScheduler :=
  Run.final (step rent faults) (create stream) events

end DefaultScheduler

end Datatent
