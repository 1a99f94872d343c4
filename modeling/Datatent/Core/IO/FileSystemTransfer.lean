import Datatent.Core.IO.FileSystemService

/-!
# The two steps of a call to the file system service

`Read` and `Write` set the position of the stream and then transfer from there. Between the
two steps the position is the only trace of the call in the stream. A call that is carried
out in two steps without another one in between does what it does as a whole (`serve`). The
stream may throw in each of the steps; which calls it lets through is a parameter.
-/

namespace Datatent.FileSystemService

open Constants

/-- What remains to be done once the position is set: fill an array, or put bytes to the
stream and flush it. -/
inductive Transfer where
  | read (buffer : Bytes)
  | write (payload : Bytes) (flush : Bool)

/-- When a stream throws: as its position is set, which leaves it as it was, and as a transfer is
made at its position, which may leave another stream. -/
structure StreamFaults where
  setPosition : DataFileStream → Nat → Option Fault
  transfer : DataFileStream → Transfer → Option (Fault × DataFileStream)

/-- A stream that never throws. -/
def StreamFaults.none : StreamFaults where
  setPosition := fun _ _ => Option.none
  transfer := fun _ _ => Option.none

/-- The length of the transfer a request asks for, where its address demands the given one. -/
def transferLength (request : IORequest) (length : UInt32) : Except Fault UInt32 :=
  if request.ioRequestProperties.onlyHeader then
    match request.address.scope with
    | some scope => .ok (getHeaderLengthForScope scope)
    | none => .error .argumentOutOfRange
  else .ok length

/-- `Write` up to the transfer. The position is set before the payload is looked at. -/
def beginWrite (faults : StreamFaults) (writeRequest : IORequest) (stream : DataFileStream) :
    Except Fault Transfer × DataFileStream :=
  match writeRequest.address.toPosition with
  | .error fault => (.error fault, stream)
  | .ok (offset, length) =>
      match faults.setPosition stream offset.toNat with
      | some fault => (.error fault, stream)
      | none =>
          let transfer := do
            let length ← transferLength writeRequest length
            let payload ← Span.sliceFirst writeRequest.payload (toInt length)
            return Transfer.write payload writeRequest.ioRequestProperties.flush
          (transfer, { stream with position := offset.toNat })

/-- `Read` up to the transfer. The position is set once the array is rented. -/
def beginRead (rent : UInt32 → Bytes) (faults : StreamFaults) (readRequest : IORequest)
    (stream : DataFileStream) : Except Fault Transfer × DataFileStream :=
  match readRequest.address.toPosition with
  | .error fault => (.error fault, stream)
  | .ok (offset, length) =>
      match transferLength readRequest length with
      | .error fault => (.error fault, stream)
      | .ok length =>
          match faults.setPosition stream offset.toNat with
          | some fault => (.error fault, stream)
          | none => (.ok (.read (rent length)), { stream with position := offset.toNat })

/-- A call up to the transfer. -/
def begin (rent : UInt32 → Bytes) (faults : StreamFaults) (request : IORequest)
    (stream : DataFileStream) : Except Fault Transfer × DataFileStream :=
  match request.requestDirection with
  | .read => beginRead rent faults request stream
  | .write => beginWrite faults request stream

/-- The transfer at the position of the stream, with the payload of the response. -/
def Transfer.run (stream : DataFileStream) : Transfer → Bytes × DataFileStream
  | .read buffer =>
      let transferred := (stream.bytes.drop stream.position).take buffer.length
      (Bytes.overwrite buffer 0 transferred,
        { stream with position := stream.position + transferred.length })
  | .write payload flush =>
      let stream := stream.write payload
      ([], if flush then stream.flush else stream)

/-- The response to a request with the given payload. -/
def respond (request : IORequest) (payload : Bytes) : IOResponse where
  id := request.id
  address := request.address
  payload := payload

/-- A call as a whole, with the response to its request. -/
def serve (rent : UInt32 → Bytes) (request : IORequest) (stream : DataFileStream) :
    Except Fault (IOResponse × DataFileStream) :=
  match request.requestDirection with
  | .read => read rent request stream
  | .write => do
      let stream ← write request stream
      return (respond request [], stream)

variable {rent : UInt32 → Bytes} {faults : StreamFaults} {request : IORequest}
  {stream : DataFileStream}

/-- The range of a request is the position of its address with the length of the transfer. -/
theorem range_eq (request : IORequest) :
  range request = do
    let (offset, length) ← request.address.toPosition
    let length ← transferLength request length
    return (offset, length)
  := by
  unfold range transferLength
  congr 1
  funext ⟨offset, length⟩
  by_cases hheader : request.ioRequestProperties.onlyHeader = true
  · simp only [if_pos hheader]
    cases request.address.scope with
    | none => rfl
    | some scope => rfl
  · simp only [if_neg hheader]
    rfl

/-- A call without a range fails in its first step. -/
theorem begin_of_error (rent : UInt32 → Bytes) (faults : StreamFaults) (stream : DataFileStream)
    {fault : Fault} (h : range request = .error fault) :
  ∃ fault', (begin rent faults request stream).1 = .error fault'
  := by
  rw [range_eq] at h
  simp only [begin, beginRead, beginWrite]
  cases hposition : request.address.toPosition with
  | error fault' =>
      rw [hposition] at h
      cases h
      cases request.requestDirection with
      | read => exact ⟨fault, rfl⟩
      | write => exact ⟨fault, rfl⟩
  | ok position =>
      obtain ⟨offset, length⟩ := position
      simp only [hposition, Except.ok_bind] at h
      cases hlength : transferLength request length with
      | error fault' =>
          rw [hlength] at h
          cases h
          cases request.requestDirection with
          | read => exact ⟨fault, by simp only [hlength]⟩
          | write =>
              simp only [hlength, Except.error_bind]
              split
              · exact ⟨_, rfl⟩
              · exact ⟨fault, rfl⟩
      | ok length' =>
          rw [hlength] at h
          cases h

/-- A call with a range fails in its first step where the stream does not take the position. -/
theorem begin_of_setPosition (rent : UInt32 → Bytes) {offset length : UInt32} {fault : Fault}
    (h : range request = .ok (offset, length))
    (hset : faults.setPosition stream offset.toNat = some fault) :
  (begin rent faults request stream).1 = .error fault
  := by
  rw [range_eq] at h
  obtain ⟨⟨offset', length'⟩, hposition, h⟩ := Except.bind_eq_ok_iff.mp h
  obtain ⟨length'', hlength, h⟩ := Except.bind_eq_ok_iff.mp h
  cases h
  simp only [begin, beginRead, beginWrite, hposition, hlength, hset]
  cases request.requestDirection with
  | read => rfl
  | write => rfl

/-- A call with a range sets the position to its offset. -/
theorem begin_of_range {offset length : UInt32} (h : range request = .ok (offset, length))
    (hset : faults.setPosition stream offset.toNat = none) :
  begin rent faults request stream =
    (match request.requestDirection with
      | .read => .ok (.read (rent length))
      | .write => do
          let payload ← Span.sliceFirst request.payload (toInt length)
          return .write payload request.ioRequestProperties.flush,
      { stream with position := offset.toNat })
  := by
  rw [range_eq] at h
  obtain ⟨⟨offset', length'⟩, hposition, h⟩ := Except.bind_eq_ok_iff.mp h
  obtain ⟨length'', hlength, h⟩ := Except.bind_eq_ok_iff.mp h
  cases h
  simp only [begin, beginRead, beginWrite, hposition, hlength, hset, Except.ok_bind]
  cases request.requestDirection with
  | read => rfl
  | write => rfl

/-- The first step of a call only sets the position. -/
theorem begin_bytes (rent : UInt32 → Bytes) (faults : StreamFaults) (request : IORequest)
    (stream : DataFileStream) :
  (begin rent faults request stream).2.bytes = stream.bytes
  := by
  rw [begin]
  cases request.requestDirection with
  | read =>
      simp only [beginRead]
      split
      · rfl
      · split
        · rfl
        · split
          · rfl
          · rfl
  | write =>
      simp only [beginWrite]
      split
      · rfl
      · split
        · rfl
        · rfl

/-- The transfer a request asks for at the length it demands. -/
def asked (rent : UInt32 → Bytes) (request : IORequest) (length : UInt32) : Transfer :=
  match request.requestDirection with
  | .read => .read (rent length)
  | .write => .write (request.payload.take length.toNat) request.ioRequestProperties.flush

/-- The length of a range is a positive signed number. -/
theorem length_of_range {offset length : UInt32} (hrange : range request = .ok (offset, length)) :
  length.toNat < 2 ^ 31
  := by
  cases hscope : request.address.scope with
  | none =>
      rw [range_of_scope_none hscope] at hrange
      cases hrange
  | some scope =>
      obtain ⟨offset', length', hrange', -, hlt⟩ := range_of_scope hscope
      cases hrange.symm.trans hrange'
      exact hlt

/-- The first step of a call succeeds with the transfer its request asks for, where its payload is
long enough and the stream takes the position. -/
theorem begin_eq_ok_iff {transfer : Transfer} {stream' : DataFileStream} :
  begin rent faults request stream = (.ok transfer, stream')
    ↔ ∃ offset length, range request = .ok (offset, length)
      ∧ (request.requestDirection = .write → length.toNat ≤ request.payload.length)
      ∧ faults.setPosition stream offset.toNat = none
      ∧ transfer = asked rent request length
      ∧ stream' = { stream with position := offset.toNat }
  := by
  constructor
  · intro h
    cases hrange : range request with
    | error fault =>
        obtain ⟨fault', herror⟩ := begin_of_error rent faults stream hrange
        rw [h] at herror
        cases herror
    | ok position =>
        obtain ⟨offset, length⟩ := position
        refine ⟨offset, length, rfl, ?_⟩
        cases hset : faults.setPosition stream offset.toNat with
        | some fault =>
            have herror := begin_of_setPosition rent hrange hset
            rw [h] at herror
            cases herror
        | none =>
            rw [begin_of_range hrange hset] at h
            rw [asked]
            cases hdirection : request.requestDirection with
            | read =>
                rw [hdirection] at h
                cases h
                exact ⟨fun hwrite => absurd hwrite (by decide), rfl, rfl, rfl⟩
            | write =>
                rw [hdirection] at h
                obtain ⟨hpayload, rfl⟩ := Prod.mk.inj h
                obtain ⟨payload, hslice, hpayload⟩ := Except.bind_eq_ok_iff.mp hpayload
                obtain ⟨n, hn, hle, rfl⟩ := Span.sliceFirst_eq_ok_iff.mp hslice
                rw [toInt_of_lt (length_of_range hrange)] at hn
                obtain rfl : length.toNat = n := by omega
                cases hpayload
                exact ⟨fun _ => hle, rfl, rfl, rfl⟩
  · rintro ⟨offset, length, hrange, hpayload, hset, rfl, rfl⟩
    rw [begin_of_range hrange hset, asked]
    cases hdirection : request.requestDirection with
    | read => rfl
    | write =>
        have hslice := Span.sliceFirst_eq_ok_iff.mpr
          ⟨length.toNat, toInt_of_lt (length_of_range hrange), hpayload hdirection, rfl⟩
        rw [hslice]
        rfl

/-- The two steps of a call, one after the other, are the call as a whole. -/
theorem serve_of_begin {transfer : Transfer} {stream' : DataFileStream}
    (h : begin rent faults request stream = (.ok transfer, stream')) :
  serve rent request stream
    = .ok (respond request (transfer.run stream').1, (transfer.run stream').2)
  := by
  obtain ⟨offset, length, hrange, hpayload, -, rfl, rfl⟩ := begin_eq_ok_iff.mp h
  rw [serve, asked]
  cases hdirection : request.requestDirection with
  | read =>
      simp only [read, hrange, Except.ok_bind]
      rfl
  | write =>
      have hwrite : write request stream = _ :=
        write_of_range hrange (length_of_range hrange) (hpayload hdirection)
      simp only [hwrite, Except.ok_bind, Transfer.run, DataFileStream.flush, ite_self]
      rfl

/-! ### Requests one after another -/

/-- Requests one after another, each as a whole; the arrays for the `n`-th call come from
`rent n`. -/
def serial (rent : Nat → UInt32 → Bytes) :
    Nat → List IORequest → DataFileStream → Except Fault (List IOResponse × DataFileStream)
  | _, [], stream => .ok ([], stream)
  | n, request :: requests, stream => do
      let (response, stream) ← serve (rent n) request stream
      let (responses, stream) ← serial rent (n + 1) requests stream
      return (response :: responses, stream)

/-- A further request is served in the stream the others leave. -/
theorem serial_append {rent : Nat → UInt32 → Bytes} (request : IORequest)
    {response : IOResponse} {stream'' : DataFileStream} :
  ∀ {n : Nat} {requests : List IORequest} {stream stream' : DataFileStream}
    {responses : List IOResponse},
    serial rent n requests stream = .ok (responses, stream') →
      serve (rent (n + requests.length)) request stream' = .ok (response, stream'') →
        serial rent n (requests ++ [request]) stream = .ok (responses ++ [response], stream'')
  := by
  intro n requests
  induction requests generalizing n with
  | nil =>
      intro stream stream' responses h hserve
      cases h
      rw [List.length_nil, Nat.add_zero] at hserve
      rw [List.nil_append, serial, hserve]
      rfl
  | cons first requests ih =>
      intro stream stream' responses h hserve
      obtain ⟨⟨response₁, stream₁⟩, hfirst, h⟩ := Except.bind_eq_ok_iff.mp h
      obtain ⟨⟨responses₁, stream₂⟩, hrest, h⟩ := Except.bind_eq_ok_iff.mp h
      cases h
      rw [List.length_cons, Nat.add_comm requests.length, ← Nat.add_assoc] at hserve
      have hrest := ih hrest hserve
      rw [List.cons_append, serial, hfirst]
      simp only [Except.ok_bind, hrest]
      rfl

/-! ### Requests that can be served -/

/-- The address has a scope, and the payload of a write is as long as the address demands. -/
def Serviceable (request : IORequest) : Prop :=
  ∃ offset length, range request = .ok (offset, length)
    ∧ (request.requestDirection = .write → length.toNat ≤ request.payload.length)

/-- The request can be served, and the stream lets its position and its transfer through. -/
def Serves (rent : UInt32 → Bytes) (faults : StreamFaults) (stream : DataFileStream)
    (request : IORequest) : Prop :=
  ∃ offset length, range request = .ok (offset, length)
    ∧ (request.requestDirection = .write → length.toNat ≤ request.payload.length)
    ∧ faults.setPosition stream offset.toNat = none
    ∧ faults.transfer { stream with position := offset.toNat } (asked rent request length) = none

/-- Both steps of a call succeed exactly when its request can be served by the stream. -/
theorem serves_iff :
  Serves rent faults stream request
    ↔ ∃ transfer stream', begin rent faults request stream = (.ok transfer, stream')
      ∧ faults.transfer stream' transfer = none
  := by
  constructor
  · rintro ⟨offset, length, hrange, hpayload, hset, htransfer⟩
    exact ⟨_, _, begin_eq_ok_iff.mpr ⟨offset, length, hrange, hpayload, hset, rfl, rfl⟩, htransfer⟩
  · rintro ⟨transfer, stream', hbegin, htransfer⟩
    obtain ⟨offset, length, hrange, hpayload, hset, rfl, rfl⟩ := begin_eq_ok_iff.mp hbegin
    exact ⟨offset, length, hrange, hpayload, hset, htransfer⟩

/-! ### Streams with limits -/

/-- The limits of a stream: at which positions it throws as they are set or read at, and where it
throws as a number of bytes is written. It keeps its bytes then. -/
structure StreamLimits where
  setPosition : Nat → Option Fault
  read : Nat → Option Fault
  write : Nat → Nat → Option Fault

namespace StreamLimits

/-- When a stream with the limits throws. -/
def toFaults (limits : StreamLimits) : StreamFaults where
  setPosition := fun _ position => limits.setPosition position
  transfer := fun stream transfer =>
    match transfer with
    | .read _ => (limits.read stream.position).map fun fault => (fault, stream)
    | .write payload _ =>
        (limits.write stream.position payload.length).map fun fault => (fault, stream)

/-- A `MemoryStream` over an array of a fixed size. Positions are signed numbers of 32 bits, and
what does not fit into the array cannot be written. -/
def memoryStream (size : Nat) : StreamLimits where
  setPosition := fun position => if position < 2 ^ 31 then none else some .argumentOutOfRange
  read := fun _ => none
  write := fun position count =>
    if 2 ^ 31 ≤ position + count then some .io
    else if size < position + count then some .notSupported
    else none

/-- The request can be served, and its range is within the limits. -/
def Takes (limits : StreamLimits) (request : IORequest) : Prop :=
  ∃ offset length, range request = .ok (offset, length)
    ∧ limits.setPosition offset.toNat = none
    ∧ (request.requestDirection = .read → limits.read offset.toNat = none)
    ∧ (request.requestDirection = .write → length.toNat ≤ request.payload.length
      ∧ limits.write offset.toNat length.toNat = none)

/-- A stream with limits serves the requests within them. -/
theorem serves_iff_takes {limits : StreamLimits} :
  Serves rent limits.toFaults stream request ↔ limits.Takes request
  := by
  constructor
  · rintro ⟨offset, length, hrange, hpayload, hset, htransfer⟩
    refine ⟨offset, length, hrange, hset, ?_, ?_⟩
    · intro hread
      rw [asked, hread] at htransfer
      exact Option.map_eq_none_iff.mp htransfer
    · intro hwrite
      rw [asked, hwrite] at htransfer
      have hnone := Option.map_eq_none_iff.mp htransfer
      rw [List.length_take_of_le (hpayload hwrite)] at hnone
      exact ⟨hpayload hwrite, hnone⟩
  · rintro ⟨offset, length, hrange, hset, hread, hwrite⟩
    refine ⟨offset, length, hrange, fun h => (hwrite h).1, hset, ?_⟩
    rw [asked]
    cases hdirection : request.requestDirection with
    | read => exact Option.map_eq_none_iff.mpr (hread hdirection)
    | write =>
        obtain ⟨hle, hnone⟩ := hwrite hdirection
        apply Option.map_eq_none_iff.mpr
        rw [List.length_take_of_le hle]
        exact hnone

end StreamLimits

end Datatent.FileSystemService
