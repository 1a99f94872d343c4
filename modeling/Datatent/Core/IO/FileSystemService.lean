import Datatent.Core.Common.Address
import Datatent.Shared.DataFileStream
import Mathlib.Data.List.GetD

/-!
# The file system service

Requests to the data file and how `FileSystemServiceBase` serves them: it moves the position
of the stream to the offset of the address and transfers from there.
-/

namespace Datatent

open Constants

/-- Read or write. -/
inductive IORequestDirection where
  | read
  | write
deriving DecidableEq, Repr

/-- The flags of a request. -/
structure IoRequestProperties where
  flush : Bool
  onlyHeader : Bool
deriving DecidableEq, Repr

/-- A request to the underlying file system. -/
structure IORequest where
  id : BitVec 128
  requestDirection : IORequestDirection
  address : Address
  payload : Bytes
  ioRequestProperties : IoRequestProperties

/-- The response to a request. -/
structure IOResponse where
  id : BitVec 128
  address : Address
  payload : Bytes

namespace FileSystemService

/-- The length of the header for a scope. -/
def getHeaderLengthForScope : AddressScope → UInt32
  | .block => BLOCK_HEADER_SIZE
  | .page => PAGE_HEADER_SIZE
  | .document => DOCUMENT_HEADER_SIZE

/-- The offset and the length of the transfer a request asks for. -/
def range (request : IORequest) : Except Fault (UInt32 × UInt32) := do
  let (offset, length) ← request.address.toPosition
  if request.ioRequestProperties.onlyHeader then
    match request.address.scope with
    | some scope => return (offset, getHeaderLengthForScope scope)
    | none => .error .argumentOutOfRange
  else
    return (offset, length)

/-- Write the payload of the request to the stream. -/
def write (writeRequest : IORequest) (stream : DataFileStream) :
    Except Fault DataFileStream := do
  let (offset, length) ← range writeRequest
  let payload ← Span.sliceFirst writeRequest.payload (toInt length)
  let stream := { stream with position := offset.toNat }.write payload
  return if writeRequest.ioRequestProperties.flush then stream.flush else stream

/-- Read what the request asks for into the buffer that `rent` hands out for its length. The
whole buffer is offered to the stream. -/
def read (rent : UInt32 → Bytes) (readRequest : IORequest) (stream : DataFileStream) :
    Except Fault (IOResponse × DataFileStream) := do
  let (offset, length) ← range readRequest
  let buffer := rent length
  let transferred := (stream.bytes.drop offset.toNat).take buffer.length
  return (
    { id := readRequest.id
      address := readRequest.address
      payload := Bytes.overwrite buffer 0 transferred },
    { stream with position := offset.toNat + transferred.length })

/-- A valid address has a position, of a length that is a positive signed number. -/
theorem toPosition_of_scope {address : Address} {scope : AddressScope}
    (hscope : address.scope = some scope) :
  ∃ offset length, address.toPosition = .ok (offset, length)
    ∧ 0 < length.toNat ∧ length.toNat < 2 ^ 31
  := by
  rw [Address.toPosition, hscope]
  cases scope with
  | block => exact ⟨_, _, rfl, by decide, by decide⟩
  | page => exact ⟨_, _, rfl, by decide, by decide⟩
  | document => exact ⟨_, _, rfl, by decide, by decide⟩

/-- A request with a valid address has a range, of a length that is a positive signed
number. -/
theorem range_of_scope {request : IORequest} {scope : AddressScope}
    (hscope : request.address.scope = some scope) :
  ∃ offset length, range request = .ok (offset, length)
    ∧ 0 < length.toNat ∧ length.toNat < 2 ^ 31
  := by
  obtain ⟨offset, length, hposition, hpos, hlt⟩ := toPosition_of_scope hscope
  rw [range, hposition, Except.ok_bind, hscope]
  by_cases hheader : request.ioRequestProperties.onlyHeader = true
  · refine ⟨offset, getHeaderLengthForScope scope, if_pos hheader, ?_⟩
    cases scope with
    | block => decide
    | page => decide
    | document => decide
  · exact ⟨offset, length, if_neg hheader, hpos, hlt⟩

/-- A request whose address has no scope has no range. -/
theorem range_of_scope_none {request : IORequest} (hscope : request.address.scope = none) :
  range request = .error .invalidOperation
  := by
  rw [range, Address.toPosition, hscope]
  rfl

/-- The range depends on the address and the flags of the request. -/
theorem range_congr {request request' : IORequest}
    (haddress : request'.address = request.address)
    (hproperties : request'.ioRequestProperties = request.ioRequestProperties) :
  range request' = range request
  := by
  rw [range, range, haddress, hproperties]

/-- A write with enough payload puts the payload to the range of the request. -/
theorem write_of_range {writeRequest : IORequest} {stream : DataFileStream}
    {offset length : UInt32} (hrange : range writeRequest = .ok (offset, length))
    (hlength : length.toNat < 2 ^ 31) (hpayload : length.toNat ≤ writeRequest.payload.length) :
  write writeRequest stream = .ok
    ({ stream with position := offset.toNat }.write
      (writeRequest.payload.take length.toNat))
  := by
  have hfirst := Span.sliceFirst_eq_ok_iff.mpr
    ⟨length.toNat, toInt_of_lt hlength, hpayload, rfl⟩
  simp only [write, hrange, Except.ok_bind, hfirst, DataFileStream.flush, ite_self]
  rfl

/-- The response to a read begins with the bytes of the stream in the range of the request. -/
theorem read_of_range {rent : UInt32 → Bytes} {readRequest : IORequest}
    {stream : DataFileStream} {offset length : UInt32}
    (hrange : range readRequest = .ok (offset, length))
    (hrent : length.toNat ≤ (rent length).length) :
  ∃ response stream', read rent readRequest stream = .ok (response, stream')
    ∧ stream'.bytes = stream.bytes
    ∧ ∀ i < length.toNat, offset.toNat + i < stream.bytes.length →
        response.payload.getD i 0 = stream.byteAt (offset.toNat + i)
  := by
  let transferred := (stream.bytes.drop offset.toNat).take (rent length).length
  refine ⟨
    { id := readRequest.id
      address := readRequest.address
      payload := Bytes.overwrite (rent length) 0 transferred },
    { stream with position := offset.toNat + transferred.length }, ?_, rfl, ?_⟩
  · rw [read, hrange]
    rfl
  intro i hi hend
  have htransferred : transferred.length
      = min (rent length).length (stream.bytes.length - offset.toNat) := by
    rw [List.length_take, List.length_drop]
  rw [DataFileStream.byteAt, List.getD_eq_getElem?_getD, List.getD_eq_getElem?_getD]
  have hwritten : (Bytes.overwrite (rent length) 0 transferred)[0 + i]? = transferred[i]? :=
    Bytes.getElem?_overwrite_of_mem (by omega) (by omega)
  rw [Nat.zero_add] at hwritten
  rw [hwritten, List.getElem?_take_of_lt (by omega), List.getElem?_drop]

end FileSystemService

end Datatent
