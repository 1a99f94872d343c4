import Datatent.Library.Bytes
import Datatent.Library.Except
import Datatent.Shared.Constants

/-!
# Spans

Slices of a byte memory, the numbers read from them and the raw copies of `SpanExtensions`.
A slice that reaches to the end of the memory it was taken from is the list of its bytes.
-/

namespace Datatent

/-- What ends a call other than a result: an exception of the runtime, a raw copy that
leaves the slice it was given, or a loop that never ends. -/
inductive Fault where
  | nullReference
  | argument
  | argumentOutOfRange
  | invalidOperation
  | invalidCast
  | overflow
  | notSupported
  | io
  | outsideSlice
  | endless
deriving DecidableEq, Repr

/-- The unchecked conversion of an unsigned number to a signed one. -/
def toInt (x : UInt32) : Int := x.toBitVec.toInt

/-- The conversion of a number below `2 ^ 31` keeps its value. -/
theorem toInt_of_lt {x : UInt32} (h : x.toNat < 2 ^ 31) :
  toInt x = x.toNat
  := by
  rw [toInt, BitVec.toInt_eq_toNat_of_lt]
  · rfl
  · change 2 * x.toNat < 2 ^ 32
    omega

/-- The conversion of a number from `2 ^ 31` on is negative. -/
theorem toInt_of_le {x : UInt32} (h : 2 ^ 31 ≤ x.toNat) :
  toInt x < 0
  := by
  have hx : x.toNat < 2 ^ 32 := x.toNat_lt
  rw [toInt, BitVec.toInt_eq_toNat_cond, if_neg]
  · change (x.toNat : Int) - (2 ^ 32 : Nat) < 0
    omega
  · change ¬ 2 * x.toNat < 2 ^ 32
    omega

/-- A conversion with a natural number as its result keeps the value. -/
theorem toInt_eq_natCast {x : UInt32} {n : Nat} (h : toInt x = n) :
  x.toNat = n
  := by
  by_cases hx : x.toNat < 2 ^ 31
  · rw [toInt_of_lt hx] at h
    omega
  · have hneg := toInt_of_le (x := x) (by omega)
    omega

namespace Span

/-- `Memory.Slice(start)`: the slice from `start` to the end. -/
def slice (memory : Bytes) (start : Int) : Except Fault Bytes :=
  if 0 ≤ start ∧ start ≤ memory.length then .ok (memory.drop start.toNat)
  else .error .argumentOutOfRange

/-- `Memory.Slice(0, length)`: the slice of the first `length` bytes. -/
def sliceFirst (memory : Bytes) (length : Int) : Except Fault Bytes :=
  if 0 ≤ length ∧ length ≤ memory.length then .ok (memory.take length.toNat)
  else .error .argumentOutOfRange

/-- The number of type `ushort` at `offset`. -/
def readUInt16 (span : Bytes) (offset : Nat) : UInt16 :=
  UInt16.ofNat (Bytes.readLE (span.drop offset) 2)

/-- The number of type `uint` at `offset`. -/
def readUInt32 (span : Bytes) (offset : Nat) : UInt32 :=
  UInt32.ofNat (Bytes.readLE (span.drop offset) 4)

/-- A copy of `length` bytes from `offset` on; the copy does not check the end of the span.
An empty slice is pinned to a null pointer, from which no byte can be copied. -/
def readBytes (span : Bytes) (offset : Nat) (length : Int) : Except Fault Bytes :=
  if length < 0 then .error .overflow
  else if span.length < offset then .error .argumentOutOfRange
  else if span.length = offset ∧ 0 < length then .error .nullReference
  else if span.length < offset + length.toNat then .error .outsideSlice
  else .ok ((span.drop offset).take length.toNat)

/-- The span with `bytes` copied to `offset`; the copy does not check the end of the span.
An empty slice is pinned to a null pointer, to which no byte can be copied. -/
def writeBytes (memory : Bytes) (offset : Nat) (bytes : Bytes) : Except Fault Bytes :=
  if memory.length < offset then .error .argumentOutOfRange
  else if memory.length = offset ∧ 0 < bytes.length then .error .nullReference
  else if memory.length < offset + bytes.length then .error .outsideSlice
  else .ok (Bytes.overwrite memory offset bytes)

/-- `MemoryMarshal.Write`: the span with the bytes of a structure copied to its front. -/
def writeStruct (memory : Bytes) (bytes : Bytes) : Except Fault Bytes :=
  if memory.length < bytes.length then .error .argumentOutOfRange
  else .ok (Bytes.overwrite memory 0 bytes)

/-- A copy that fits into the span replaces a range of its bytes. -/
theorem writeBytes_of_le {memory bytes : Bytes} {offset : Nat}
    (h : offset + bytes.length ≤ memory.length) :
  writeBytes memory offset bytes = .ok (Bytes.overwrite memory offset bytes)
  := by
  rw [writeBytes, if_neg (by omega), if_neg (by omega), if_neg (by omega)]

/-- A copy to an offset past the span throws. -/
theorem writeBytes_of_lt {memory bytes : Bytes} {offset : Nat} (h : memory.length < offset) :
  writeBytes memory offset bytes = .error .argumentOutOfRange
  := by
  rw [writeBytes, if_pos h]

/-- A copy of some bytes to the end of the span throws. -/
theorem writeBytes_of_end {memory bytes : Bytes} {offset : Nat}
    (h : memory.length = offset) (hbytes : 0 < bytes.length) :
  writeBytes memory offset bytes = .error .nullReference
  := by
  rw [writeBytes, if_neg (by omega), if_pos ⟨h, hbytes⟩]

/-- A copy that begins in the span and does not fit into it leaves the span. -/
theorem writeBytes_of_overrun {memory bytes : Bytes} {offset : Nat}
    (h : offset < memory.length) (hbytes : memory.length < offset + bytes.length) :
  writeBytes memory offset bytes = .error .outsideSlice
  := by
  rw [writeBytes, if_neg (by omega), if_neg (by omega), if_pos hbytes]

/-- A slice lies within the memory it is taken from. -/
theorem slice_eq_ok_iff {memory rest : Bytes} {start : Int} :
  slice memory start = .ok rest
    ↔ ∃ n : Nat, start = n ∧ n ≤ memory.length ∧ rest = memory.drop n
  := by
  rw [slice]
  split
  · rename_i h
    obtain ⟨n, rfl⟩ := Int.eq_ofNat_of_zero_le h.1
    constructor
    · intro hrest
      cases hrest
      exact ⟨n, rfl, by omega, rfl⟩
    · rintro ⟨n', hn', -, rfl⟩
      rw [hn', Int.toNat_natCast]
  · constructor
    · intro hrest
      cases hrest
    · rintro ⟨n, rfl, hn, -⟩
      omega

/-- A slice of the first bytes lies within the memory it is taken from. -/
theorem sliceFirst_eq_ok_iff {memory first : Bytes} {length : Int} :
  sliceFirst memory length = .ok first
    ↔ ∃ n : Nat, length = n ∧ n ≤ memory.length ∧ first = memory.take n
  := by
  rw [sliceFirst]
  split
  · rename_i h
    obtain ⟨n, rfl⟩ := Int.eq_ofNat_of_zero_le h.1
    constructor
    · intro hfirst
      cases hfirst
      exact ⟨n, rfl, by omega, rfl⟩
    · rintro ⟨n', hn', -, rfl⟩
      rw [hn', Int.toNat_natCast]
  · constructor
    · intro hfirst
      cases hfirst
    · rintro ⟨n, rfl, hn, -⟩
      omega

/-- The value of a `ushort` field. -/
theorem readUInt16_toNat (span : Bytes) (offset : Nat) :
  (readUInt16 span offset).toNat = Bytes.readLE (span.drop offset) 2
  := by
  have h := Bytes.readLE_lt (span.drop offset) 2
  rw [readUInt16, UInt16.toNat_ofNat', Nat.mod_eq_of_lt (by simpa using h)]

/-- The value of a `uint` field. -/
theorem readUInt32_toNat (span : Bytes) (offset : Nat) :
  (readUInt32 span offset).toNat = Bytes.readLE (span.drop offset) 4
  := by
  have h := Bytes.readLE_lt (span.drop offset) 4
  rw [readUInt32, UInt32.toNat_ofNat', Nat.mod_eq_of_lt (by simpa using h)]

/-- The low byte of a `ushort` field is the byte it begins with. -/
theorem readUInt16_zero_mod (span : Bytes) :
  (readUInt16 span 0).toNat % 256 = (span.headD 0).toNat
  := by
  have hhead : (span.headD 0).toNat < 256 := UInt8.toNat_lt _
  rw [readUInt16_toNat, List.drop_zero]
  simp only [Bytes.readLE]
  omega

end Span

end Datatent
