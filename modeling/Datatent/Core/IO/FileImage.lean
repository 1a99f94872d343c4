import Datatent.Core.IO.FileSystemTransfer
import Datatent.Library.History

/-!
# The data file as an atomic object

What a data file is for: it has a byte at every position up to its end, a write puts bytes to
a range at once, and a read finds the bytes of a range as they are at that moment. The file
system service serves requests as this object does.
-/

namespace Datatent

open FileSystemService

/-- A file: where it ends and its bytes. -/
structure FileImage where
  length : Nat
  byteAt : Nat → UInt8

namespace FileImage

/-- The file with bytes put to it at an offset; it grows as far as needed. -/
def write (image : FileImage) (offset : Nat) (data : Bytes) : FileImage where
  length := max image.length (offset + data.length)
  byteAt i :=
    if offset ≤ i ∧ i < offset + data.length then data.getD (i - offset) 0 else image.byteAt i

/-- The payload begins with the bytes of the file in a range, as far as the file goes. -/
def Shows (image : FileImage) (offset length : Nat) (payload : Bytes) : Prop :=
  ∀ i < length, offset + i < image.length → payload.getD i 0 = image.byteAt (offset + i)

/-- The file after a request. -/
def next (image : FileImage) (request : IORequest) : FileImage :=
  match request.requestDirection, range request with
  | .write, .ok (offset, length) =>
      image.write offset.toNat (request.payload.take length.toNat)
  | _, _ => image

/-- The responses to a request: they have its id and its address, and the response to a read
shows the range that the request asks for. -/
def Answers (image : FileImage) (request : IORequest) (response : IOResponse) : Prop :=
  response.id = request.id ∧ response.address = request.address
    ∧ match request.requestDirection with
      | .read => ∃ offset length, range request = .ok (offset, length)
          ∧ image.Shows offset.toNat length.toNat response.payload
      | .write => response.payload = []

end FileImage

/-- The data file as an object that serves requests at once. -/
def dataFile : AtomicObject FileImage IORequest IOResponse where
  next := FileImage.next
  Answers := FileImage.Answers

namespace DataFileStream

/-- The file that a stream is over. -/
def image (stream : DataFileStream) : FileImage where
  length := stream.bytes.length
  byteAt := stream.byteAt

/-- The position of the stream is no part of the file. -/
theorem image_congr {stream stream' : DataFileStream} (h : stream.bytes = stream'.bytes) :
  stream.image = stream'.image
  := by
  rw [image, image, h]
  congr 1
  funext i
  rw [byteAt, byteAt, h]

/-- The end of the file after a write. -/
theorem length_write {stream : DataFileStream} {s : Bytes} (hne : s ≠ []) :
  (stream.write s).bytes.length = max stream.bytes.length (stream.position + s.length)
  := by
  rw [write, if_neg (by rwa [List.isEmpty_iff]), Bytes.length_overwrite]
  · rw [List.length_append, List.length_replicate]
    omega
  · rw [List.length_append, List.length_replicate]
    omega

/-- Writing to the stream writes to the file. -/
theorem image_write {stream : DataFileStream} {s : Bytes} (hne : s ≠ []) :
  (stream.write s).image = stream.image.write stream.position s
  := by
  have hbytes : (stream.write s).byteAt
      = (stream.image.write stream.position s).byteAt := by
    funext i
    simp only [FileImage.write, image]
    split
    · rename_i hin
      obtain ⟨k, rfl⟩ := Nat.exists_eq_add_of_le hin.1
      rw [byteAt_write_of_mem stream (by omega), Nat.add_sub_cancel_left]
    · rename_i hout
      exact byteAt_write_of_disjoint (by omega)
  rw [image, hbytes, length_write hne]
  rfl

end DataFileStream

namespace FileSystemService

variable {rent : UInt32 → Bytes} {request : IORequest} {stream stream' : DataFileStream}
  {response : IOResponse}

/-- The length of a range is that of an address with a scope. -/
theorem range_bounds {offset length : UInt32} (h : range request = .ok (offset, length)) :
  0 < length.toNat ∧ length.toNat < 2 ^ 31
  := by
  cases hscope : request.address.scope with
  | none =>
      rw [range_of_scope_none hscope] at h
      cases h
  | some scope =>
      obtain ⟨offset', length', hrange, hpos, hlt⟩ := range_of_scope hscope
      cases h.symm.trans hrange
      exact ⟨hpos, hlt⟩

/-- A call that returns has a range, and a write has the payload for it. -/
theorem serviceable_of_serve (h : serve rent request stream = .ok (response, stream')) :
  Serviceable request
  := by
  rw [serve] at h
  cases hdirection : request.requestDirection with
  | read =>
      rw [hdirection] at h
      obtain ⟨⟨offset, length⟩, hrange, -⟩ := Except.bind_eq_ok_iff.mp h
      exact ⟨offset, length, hrange, fun hwrite => by cases hdirection.symm.trans hwrite⟩
  | write =>
      rw [hdirection] at h
      obtain ⟨written, hwrite, -⟩ := Except.bind_eq_ok_iff.mp h
      obtain ⟨⟨offset, length⟩, hrange, hwrite⟩ := Except.bind_eq_ok_iff.mp hwrite
      obtain ⟨payload, hslice, -⟩ := Except.bind_eq_ok_iff.mp hwrite
      obtain ⟨n, hn, hle, -⟩ := Span.sliceFirst_eq_ok_iff.mp hslice
      rw [toInt_of_lt (range_bounds hrange).2] at hn
      exact ⟨offset, length, hrange, fun _ => by omega⟩

/-- A call as a whole answers as the data file does and leaves the file after it. The arrays
of the pool are as long as they are asked to be. -/
theorem answers_of_serve (hrent : ∀ length, length.toNat ≤ (rent length).length)
    (h : serve rent request stream = .ok (response, stream')) :
  dataFile.Answers stream.image request response
    ∧ stream'.image = dataFile.next stream.image request
  := by
  obtain ⟨offset, length, hrange, hpayload⟩ := serviceable_of_serve h
  obtain ⟨hpos, hlt⟩ := range_bounds hrange
  rw [serve] at h
  simp only [dataFile, FileImage.Answers, FileImage.next]
  cases hdirection : request.requestDirection with
  | read =>
      rw [hdirection] at h
      obtain ⟨response', stream'', hread, hbytes, hshows⟩ : ∃ response' stream'',
          read rent request stream = .ok (response', stream'')
            ∧ stream''.bytes = stream.bytes
            ∧ ∀ i < length.toNat, offset.toNat + i < stream.bytes.length →
                response'.payload.getD i 0 = stream.byteAt (offset.toNat + i) :=
        read_of_range hrange (hrent length)
      have hresponse : response'.id = request.id ∧ response'.address = request.address := by
        rw [read, hrange] at hread
        cases hread
        exact ⟨rfl, rfl⟩
      cases hread.symm.trans h
      exact ⟨⟨hresponse.1, hresponse.2, offset, length, hrange, hshows⟩,
        DataFileStream.image_congr hbytes⟩
  | write =>
      rw [hdirection, write_of_range hrange hlt (hpayload hdirection)] at h
      cases h
      refine ⟨⟨rfl, rfl, rfl⟩, ?_⟩
      rw [hrange, DataFileStream.image_write]
      · rfl
      · apply List.ne_nil_of_length_pos
        rw [List.length_take]
        have hle := hpayload hdirection
        omega

/-- Requests served one after another are calls of the data file with its answers. -/
theorem legal_of_serial {rent : Nat → UInt32 → Bytes}
    (hrent : ∀ n length, length.toNat ≤ (rent n length).length) :
  ∀ {n : Nat} {requests : List IORequest} {responses : List IOResponse}
    {stream stream' : DataFileStream},
    serial rent n requests stream = .ok (responses, stream') →
      dataFile.Legal stream.image (requests.zip responses)
  | _, [], _, _, _, h => by
      cases h
      trivial
  | n, request :: requests, responses, stream, stream', h => by
      obtain ⟨⟨response, left⟩, hserve, h⟩ := Except.bind_eq_ok_iff.mp h
      obtain ⟨⟨rest, stream''⟩, hserial, h⟩ := Except.bind_eq_ok_iff.mp h
      cases h
      obtain ⟨hanswers, hnext⟩ := answers_of_serve (hrent n) hserve
      refine ⟨hanswers, ?_⟩
      rw [AtomicObject.after, ← hnext]
      exact legal_of_serial hrent hserial

end FileSystemService

end Datatent
