import Datatent.Core.IO.FileSystemService

/-!
# Blocks from responses

A block takes the payload of a response as its memory. The payload is the whole array that
the pool handed out for the read, so what is in it behind the transferred bytes is what the
array held before. It is data of the file alone, of the requested length, exactly when the
pool hands out an array of the requested length and the range lies in the file.
-/

namespace Datatent

/-- A block: the response it was built from and its memory. -/
structure BaseBlock where
  ioResponse : IOResponse
  memory : Bytes

/-- The block of a response. -/
def BaseBlock.create (ioResponse : IOResponse) : BaseBlock where
  ioResponse := ioResponse
  memory := ioResponse.payload

/-- An array pool by the sizes of its arrays: for a requested length it hands out an array of
at least this length. -/
structure ArrayPool where
  size : UInt32 → Nat
  le_size : ∀ length, length.toNat ≤ size length

/-- The arrays are of the sizes of the pool; what they hold is arbitrary. -/
def ArrayPool.HandsOut (pool : ArrayPool) (rent : UInt32 → Bytes) : Prop :=
  ∀ length, (rent length).length = pool.size length

namespace FileSystemService

/-- The payload of the response to a read of what `request` asks for in a file with the given
bytes depends on these alone, and the block built from it covers exactly the requested
length. -/
def ReadsFileData (pool : ArrayPool) (request : IORequest) (bytes : Bytes) : Prop :=
  ∃ payload : Bytes, ∀ (request' : IORequest) (stream : DataFileStream) (rent : UInt32 → Bytes),
    request'.address = request.address →
      request'.ioRequestProperties = request.ioRequestProperties →
        stream.bytes = bytes → pool.HandsOut rent →
          ∃ offset length response stream', range request' = .ok (offset, length)
            ∧ read rent request' stream = .ok (response, stream')
            ∧ response.payload = payload
            ∧ (BaseBlock.create response).memory.length = length.toNat

/-- The pool hands out an array of the requested length, and the range lies in the file. -/
def CoversRange (pool : ArrayPool) (request : IORequest) (bytes : Bytes) : Prop :=
  ∃ offset length, range request = .ok (offset, length)
    ∧ pool.size length = length.toNat ∧ offset.toNat + length.toNat ≤ bytes.length

/-! ### What a read returns -/

/-- The payload of the response to a read: the transferred bytes over what the array held. -/
theorem read_payload (rent : UInt32 → Bytes) {request : IORequest} (stream : DataFileStream)
    {offset length : UInt32} (hrange : range request = .ok (offset, length)) :
  ∃ response stream', read rent request stream = .ok (response, stream')
    ∧ response.payload = (stream.bytes.drop offset.toNat).take (rent length).length
      ++ (rent length).drop (stream.bytes.length - offset.toNat)
  := by
  rw [read, hrange, Except.ok_bind]
  refine ⟨_, _, rfl, ?_⟩
  simp only [Bytes.overwrite, List.take_zero, List.nil_append, Nat.zero_add, List.length_take,
    List.length_drop]
  congr 1
  by_cases hle : (rent length).length ≤ stream.bytes.length - offset.toNat
  · rw [Nat.min_eq_left hle, List.drop_of_length_le hle, List.drop_length]
  · rw [Nat.min_eq_right (by omega)]

/-- The payload of the response has the length of the array. -/
theorem length_payload {rented bytes : Bytes} {offset : Nat} :
  ((bytes.drop offset).take rented.length ++ rented.drop (bytes.length - offset)).length
    = rented.length
  := by
  rw [List.length_append, List.length_take, List.length_drop, List.length_drop]
  omega

/-- Arrays of the sizes of a pool that hold one byte over and over. -/
def filled (pool : ArrayPool) (b : UInt8) (length : UInt32) : Bytes :=
  List.replicate (pool.size length) b

theorem handsOut_filled (pool : ArrayPool) (b : UInt8) :
  pool.HandsOut (filled pool b)
  := by
  intro length
  exact List.length_replicate

variable {pool : ArrayPool} {request : IORequest} {bytes : Bytes}

/-- A read into an array of the requested length whose range lies in the file returns the
bytes of the range. -/
theorem readsFileData_of_coversRange (h : CoversRange pool request bytes) :
  ReadsFileData pool request bytes
  := by
  obtain ⟨offset, length, hrange, hsize, hend⟩ := h
  use (bytes.drop offset.toNat).take length.toNat
  rintro request' stream rent haddress hproperties rfl hrent
  have hrange' := (range_congr haddress hproperties).trans hrange
  obtain ⟨response, stream', hread, hpayload⟩ := read_payload rent stream hrange'
  have hlength : (rent length).length = length.toNat := (hrent length).trans hsize
  have hrest : (rent length).drop (stream.bytes.length - offset.toNat) = [] := by
    apply List.drop_of_length_le
    omega
  rw [hrest, List.append_nil, hlength] at hpayload
  refine ⟨offset, length, response, stream', hrange', hread, hpayload, ?_⟩
  rw [BaseBlock.create, hpayload, List.length_take, List.length_drop]
  omega

/-- A read that returns the bytes of the file alone is one into an array of the requested
length whose range lies in the file. -/
theorem coversRange_of_readsFileData {scope : AddressScope}
    (hscope : request.address.scope = some scope) (h : ReadsFileData pool request bytes) :
  CoversRange pool request bytes
  := by
  obtain ⟨payload, h⟩ := h
  obtain ⟨offset, length, hrange, hpos, -⟩ := range_of_scope hscope
  -- two runs that differ only in what the array held
  have hrun : ∀ b, payload = (bytes.drop offset.toNat).take (pool.size length)
        ++ (filled pool b length).drop (bytes.length - offset.toNat)
      ∧ payload.length = length.toNat := by
    intro b
    obtain ⟨offset', length', response, stream', hrange', hread, hpayload, hlength⟩ :=
      h request ⟨bytes, 0⟩ (filled pool b) rfl rfl rfl (handsOut_filled pool b)
    obtain ⟨response', stream'', hread', hpayload'⟩ :=
      read_payload (filled pool b) ⟨bytes, 0⟩ hrange
    cases hrange.symm.trans hrange'
    cases hread.symm.trans hread'
    rw [handsOut_filled pool b length] at hpayload'
    exact ⟨hpayload.symm.trans hpayload', by rw [← hpayload]; exact hlength⟩
  have hsize : pool.size length = length.toNat := by
    obtain ⟨hpayload, hlength⟩ := hrun 0
    rw [← hlength, hpayload, ← handsOut_filled pool 0 length, length_payload]
  use offset, length, hrange, hsize
  by_contra hend
  have hzero := congrArg (fun l => l.getLast?) ((hrun 0).1.symm.trans (hrun 1).1)
  have hcount : 0 < pool.size length - (bytes.length - offset.toNat) := by
    omega
  simp [filled, List.drop_replicate, List.getLast?_append, List.getLast?_replicate,
    Nat.ne_of_gt hcount] at hzero

/-! ### The law of reads -/

/-- The law of reads: whatever the pool hands out, a read of a valid address returns data of
the file alone. -/
def ReadLaw : Prop :=
  ∀ (pool : ArrayPool) (request : IORequest) (bytes : Bytes) (scope : AddressScope),
    request.address.scope = some scope → ReadsFileData pool request bytes

/-- A read of a valid address returns data of the file alone exactly when the pool hands out
an array of the requested length and the range lies in the file. -/
theorem readsFileData_iff_coversRange {scope : AddressScope}
    (hscope : request.address.scope = some scope) :
  ReadsFileData pool request bytes ↔ CoversRange pool request bytes
  := ⟨coversRange_of_readsFileData hscope, readsFileData_of_coversRange⟩

/-- A pool of arrays of at least 128 bytes. -/
def smallPool : ArrayPool where
  size length := max 128 length.toNat
  le_size length := le_max_right 128 length.toNat

/-- A request for the header of the first block. -/
def headerRequest : IORequest where
  id := 0
  requestDirection := .read
  address := Address.create .block 0 0 0
  payload := []
  ioRequestProperties := { flush := false, onlyHeader := true }

/-- A request for the first block. -/
def blockRequest : IORequest :=
  { headerRequest with ioRequestProperties := { flush := false, onlyHeader := false } }

/-- The range of the first block, for its header and as a whole. -/
theorem range_first :
  range headerRequest = .ok (2048, 92) ∧ range blockRequest = .ok (2048, 6409292)
  := by
  decide

/-- A read of the first block of a file that holds it returns data of the file alone. -/
theorem readsFileData_block :
  ReadsFileData smallPool blockRequest (List.replicate 6411340 0)
  := by
  have hscope : blockRequest.address.scope = some .block := by decide
  apply (readsFileData_iff_coversRange hscope).mpr
  refine ⟨2048, 6409292, range_first.2, by decide, ?_⟩
  rw [List.length_replicate]
  decide

/-- The law of reads fails: the header of the first block is read into an array of 128 bytes
and comes back with 36 bytes behind it. -/
theorem not_readLaw :
  ¬ ReadLaw
  := by
  intro hlaw
  have hscope : headerRequest.address.scope = some .block := by decide
  have hreads := hlaw smallPool headerRequest (List.replicate 6411340 0) .block hscope
  obtain ⟨offset, length, hrange, hsize, -⟩ := (readsFileData_iff_coversRange hscope).mp hreads
  cases range_first.1.symm.trans hrange
  revert hsize
  decide

end FileSystemService

end Datatent
