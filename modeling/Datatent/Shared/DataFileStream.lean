import Datatent.Library.Bytes
import Mathlib.Data.List.GetD

/-!
# The data file

A stream over the data file: the bytes of the file and the position of the next transfer. The
file grows as it is written to or given a length.
-/

namespace Datatent

/-- The data file: its bytes and the position of the next transfer. -/
structure DataFileStream where
  bytes : Bytes
  position : Nat

namespace DataFileStream

/-- The byte at a position; zero past the end. -/
def byteAt (stream : DataFileStream) (i : Nat) : UInt8 :=
  stream.bytes.getD i 0

/-- `Stream.Write`: the bytes are put at the position, the file grows as far as needed, and
a gap behind its old end is filled with zeros. -/
def write (stream : DataFileStream) (s : Bytes) : DataFileStream where
  bytes :=
    if s.isEmpty then stream.bytes
    else Bytes.overwrite
      (stream.bytes ++ List.replicate (stream.position + s.length - stream.bytes.length) 0)
      stream.position s
  position := stream.position + s.length

/-- `Stream.Read`: as many bytes as asked for from the position on, as far as there are any. -/
def read (stream : DataFileStream) (count : Nat) : Bytes × DataFileStream :=
  let transferred := (stream.bytes.drop stream.position).take count
  (transferred, { stream with position := stream.position + transferred.length })

/-- `Stream.SetLength`: the end is cut off or zeros are put behind it. -/
def setLength (stream : DataFileStream) (length : Nat) : DataFileStream :=
  { stream with
    bytes := stream.bytes.take length ++ List.replicate (length - stream.bytes.length) 0 }

/-- `Stream.Flush`: what the stream holds stays as it is. -/
def flush (stream : DataFileStream) : DataFileStream := stream

/-- A byte outside the written range is the old one. -/
theorem byteAt_write_of_disjoint {stream : DataFileStream} {s : Bytes} {i : Nat}
    (hi : i < stream.position ∨ stream.position + s.length ≤ i) :
  (stream.write s).byteAt i = stream.byteAt i
  := by
  rw [byteAt, byteAt, write]
  split
  · rfl
  · have hroom : stream.position + s.length ≤ (stream.bytes
        ++ List.replicate (stream.position + s.length - stream.bytes.length) 0).length := by
      rw [List.length_append, List.length_replicate]
      omega
    have hgrown : ∀ i, (stream.bytes ++ List.replicate
        (stream.position + s.length - stream.bytes.length) 0).getD i 0
          = stream.bytes.getD i 0 := by
      intro i
      by_cases hlt : i < stream.bytes.length
      · rw [List.getD_append _ _ _ _ hlt]
      · have hpast : stream.bytes.getD i 0 = 0 := List.getD_eq_default _ _ (by omega)
        rw [List.getD_append_right _ _ _ _ (by omega), hpast, List.getD_eq_getElem?_getD,
          List.getElem?_replicate]
        split
        · rfl
        · rfl
    rw [List.getD_eq_getElem?_getD]
    rcases hi with hi | hi
    · rw [Bytes.getElem?_overwrite_of_lt hroom hi, ← List.getD_eq_getElem?_getD, hgrown]
    · rw [Bytes.getElem?_overwrite_of_le hroom hi, ← List.getD_eq_getElem?_getD, hgrown]

/-- A byte of the written range is the one written. -/
theorem byteAt_write_of_mem (stream : DataFileStream) {s : Bytes} {i : Nat}
    (hi : i < s.length) :
  (stream.write s).byteAt (stream.position + i) = s.getD i 0
  := by
  have hroom : stream.position + s.length ≤ (stream.bytes
      ++ List.replicate (stream.position + s.length - stream.bytes.length) 0).length := by
    rw [List.length_append, List.length_replicate]
    omega
  rw [byteAt, write, if_neg, List.getD_eq_getElem?_getD, List.getD_eq_getElem?_getD,
    Bytes.getElem?_overwrite_of_mem hroom hi]
  rw [List.isEmpty_iff]
  rintro rfl
  simp at hi

/-- A write within the file replaces bytes of the file. -/
theorem write_of_le {stream : DataFileStream} {s : Bytes}
    (hinside : stream.position + s.length ≤ stream.bytes.length) :
  stream.write s = { bytes := Bytes.overwrite stream.bytes stream.position s
                     position := stream.position + s.length }
  := by
  rw [write, Nat.sub_eq_zero_of_le hinside, List.replicate_zero, List.append_nil]
  split
  · rename_i hempty
    rw [List.isEmpty_iff.mp hempty, Bytes.overwrite_nil]
  · rfl

theorem length_setLength {stream : DataFileStream} {length : Nat}
    (hle : stream.bytes.length ≤ length) :
  (stream.setLength length).bytes.length = length
  := by
  rw [setLength, List.take_of_length_le hle, List.length_append, List.length_replicate]
  omega

end DataFileStream

end Datatent
