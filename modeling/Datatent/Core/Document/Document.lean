import Datatent.Core.IO.SpanExtensions

/-!
# Documents

A document is a header of `DOCUMENT_HEADER_SIZE` bytes followed by its content. The walk
over the documents of a memory (`getNextDocumentSliceAndAdjustOffset`) goes from document to
document and stops at a zero byte or where no header fits.
-/

namespace Datatent

open Constants

namespace Document

/-- Header position of the document id. -/
def DOCUMENT_ID : Nat := 0

/-- Header position of the content length. -/
def DOCUMENT_LENGTH : Nat := 2

/-- Header position of the flag of a deleted document. -/
def DOCUMENT_IS_DELETED : Nat := 6

/-- The document header. -/
structure DocumentHeader where
  documentId : UInt16
  contentLength : UInt32
  isDeleted : Bool
deriving DecidableEq, Repr

/-- The bytes of a document header; those past the fields are zero. -/
def DocumentHeader.toBytes (header : DocumentHeader) : Bytes :=
  Bytes.toLE 2 header.documentId.toNat ++ (Bytes.toLE 4 header.contentLength.toNat
    ++ ((if header.isDeleted then 1 else 0) :: List.replicate 41 0))

/-- The document header at the front of a span. -/
def DocumentHeader.read (span : Bytes) : Except Fault DocumentHeader :=
  if span.length < DOCUMENT_HEADER_SIZE.toNat then .error .argumentOutOfRange
  else .ok
    { documentId := Span.readUInt16 span DOCUMENT_ID
      contentLength := Span.readUInt32 span DOCUMENT_LENGTH
      isDeleted := (span.getD DOCUMENT_IS_DELETED 0) ≠ 0 }

end Document

/-- A document and the memory slice it operates on. -/
structure Document where
  slice : Bytes
  header : Document.DocumentHeader
deriving DecidableEq, Repr

namespace Document

/-- The slice of the document at the front of `memory` with its id, and the memory after
it; no slice where the memory holds no further document. -/
def getNextDocumentSliceAndAdjustOffset (memory : Bytes) :
    Except Fault (Option Bytes × UInt16 × Bytes) :=
  if memory.isEmpty ∨ memory.length < DOCUMENT_HEADER_SIZE.toNat then .ok (none, 0, memory)
  else if memory.headD 0 = 0 then .ok (none, 0, memory)
  else do
    let id := Span.readUInt16 memory DOCUMENT_ID
    let docLength := Span.readUInt32 memory DOCUMENT_LENGTH
    let docSlice ← Span.sliceFirst memory (toInt (docLength + DOCUMENT_HEADER_SIZE))
    let memory ← Span.slice memory (toInt (docLength + DOCUMENT_HEADER_SIZE))
    return (some docSlice, id, memory)

/-- The document held by a slice. -/
def ofSlice (documentSlice : Bytes) : Except Fault Document := do
  let header ← DocumentHeader.read documentSlice
  return { slice := documentSlice, header := header }

/-- An empty document, of which nothing is written yet. -/
def create (documentSlice : Bytes) (id : UInt16) : Document where
  slice := documentSlice
  header := { documentId := id, contentLength := 0, isDeleted := false }

/-- Set the content in the memory and its length in the header kept by the document. -/
def setContent (document : Document) (content : Bytes) : Except Fault Document := do
  let slice ← Span.writeBytes document.slice DOCUMENT_HEADER_SIZE.toNat content
  return {
    slice := slice
    header := { document.header with contentLength := UInt32.ofNat content.length } }

/-- The content held by the memory of the document. -/
def getContent (document : Document) : Except Fault Bytes :=
  Span.readBytes document.slice DOCUMENT_HEADER_SIZE.toNat (toInt document.header.contentLength)

/-- Write the header of the document to its memory. -/
def updateHeader (document : Document) : Except Fault Document := do
  let slice ← Span.writeStruct document.slice document.header.toBytes
  return { document with slice := slice }

/-- Write the content and the header of the document. -/
def update (document : Document) (content : Bytes) : Except Fault Document := do
  let document ← document.setContent content
  document.updateHeader

/-! ### The bytes of a document -/

/-- The header a document with the given id and content is written with. -/
def headerOf (id : UInt16) (content : Bytes) : DocumentHeader where
  documentId := id
  contentLength := UInt32.ofNat content.length
  isDeleted := false

/-- The bytes a document with the given id and content is written as. -/
def encode (id : UInt16) (content : Bytes) : Bytes :=
  (headerOf id content).toBytes ++ content

@[simp]
theorem DocumentHeader.length_toBytes (header : DocumentHeader) :
  header.toBytes.length = 48
  := by
  simp only [toBytes, List.length_append, Bytes.length_toLE, List.length_cons,
    List.length_replicate]

@[simp]
theorem length_encode (id : UInt16) (content : Bytes) :
  (encode id content).length = 48 + content.length
  := by
  rw [encode, List.length_append, DocumentHeader.length_toBytes]

/-- The id at the front of a written document. -/
theorem readUInt16_encode (id : UInt16) (content rest : Bytes) :
  Span.readUInt16 (encode id content ++ rest) DOCUMENT_ID = id
  := by
  apply UInt16.toNat_inj.mp
  rw [Span.readUInt16_toNat, DOCUMENT_ID, List.drop_zero, encode, DocumentHeader.toBytes,
    List.append_assoc, List.append_assoc, Bytes.readLE_toLE_append]
  apply Nat.mod_eq_of_lt
  apply UInt16.toNat_lt

/-- The content length in the header of a written document. -/
theorem readUInt32_encode (id : UInt16) (content rest : Bytes) :
  Span.readUInt32 (encode id content ++ rest) DOCUMENT_LENGTH = UInt32.ofNat content.length
  := by
  apply UInt32.toNat_inj.mp
  rw [Span.readUInt32_toNat, DOCUMENT_LENGTH, encode, DocumentHeader.toBytes,
    List.append_assoc, List.append_assoc, List.drop_append_of_le_length (by simp),
    List.drop_of_length_le (by simp), List.nil_append, List.append_assoc,
    Bytes.readLE_toLE_append]
  apply Nat.mod_eq_of_lt
  apply UInt32.toNat_lt

/-- The bytes of a written header behind its length are zero. -/
theorem getElem?_encode_zero (id : UInt16) (content rest : Bytes) {i : Nat} (h : 6 ≤ i)
    (h' : i < 48) :
  (encode id content ++ rest)[i]? = some 0
  := by
  have hzeros : (headerOf id content).toBytes = (Bytes.toLE 2 id.toNat
      ++ Bytes.toLE 4 (UInt32.ofNat content.length).toNat) ++ List.replicate 42 0 := by
    rw [DocumentHeader.toBytes, List.append_assoc]
    rfl
  rw [encode, List.append_assoc, List.getElem?_append_left (by simp; omega), hzeros,
    List.getElem?_append_right (by simp; omega), List.getElem?_replicate, if_pos]
  simp
  omega

/-- The first byte of a written document is the low byte of its id. -/
theorem headD_encode (id : UInt16) (content rest : Bytes) :
  ((encode id content ++ rest).headD 0).toNat = id.toNat % 256
  := by
  rw [← Span.readUInt16_zero_mod]
  have h := readUInt16_encode id content rest
  rw [DOCUMENT_ID] at h
  rw [h]

/-- The walk reads no document where no header fits or the first byte is zero. -/
theorem getNext_of_end {memory : Bytes} (h : memory.length < 48 ∨ memory.headD 0 = 0) :
  getNextDocumentSliceAndAdjustOffset memory = .ok (none, 0, memory)
  := by
  rw [getNextDocumentSliceAndAdjustOffset, DOCUMENT_HEADER_SIZE_toNat]
  split
  · rfl
  · rcases h with h | h
    · tauto
    · rw [if_pos h]

/-- What the walk reads at the front of a memory that holds a header with a nonzero first
byte: the slice of the size the header gives and the memory after it. -/
theorem getNext_eq_of_size {memory : Bytes} {size : Nat} (hlength : 48 ≤ memory.length)
    (hhead : memory.headD 0 ≠ 0)
    (hsize : toInt (Span.readUInt32 memory DOCUMENT_LENGTH + DOCUMENT_HEADER_SIZE) = size)
    (hle : size ≤ memory.length) :
  getNextDocumentSliceAndAdjustOffset memory
    = .ok (some (memory.take size), Span.readUInt16 memory DOCUMENT_ID, memory.drop size)
  := by
  have hfirst := Span.sliceFirst_eq_ok_iff.mpr ⟨size, hsize, hle, rfl⟩
  have hrest := Span.slice_eq_ok_iff.mpr ⟨size, hsize, hle, rfl⟩
  rw [getNextDocumentSliceAndAdjustOffset, if_neg, if_neg hhead]
  · simp only [hfirst, hrest, Except.ok_bind]
    rfl
  · rw [List.isEmpty_iff, DOCUMENT_HEADER_SIZE_toNat]
    rintro (rfl | h)
    · simp at hlength
    · omega

/-- The walk throws only because a size does not lie in the memory. -/
theorem getNext_eq_error {memory : Bytes} {fault : Fault}
    (h : getNextDocumentSliceAndAdjustOffset memory = .error fault) :
  fault = .argumentOutOfRange
  := by
  rw [getNextDocumentSliceAndAdjustOffset] at h
  split at h
  · cases h
  · split at h
    · cases h
    · simp only [Span.sliceFirst, Span.slice] at h
      split at h
      · cases h
      · cases h
        rfl

/-- A document the walk reads begins with a nonzero byte, and its slice is the front of the
memory of the size its header gives. -/
theorem getNext_eq_some {memory documentSlice rest : Bytes} {id : UInt16}
    (h : getNextDocumentSliceAndAdjustOffset memory = .ok (some documentSlice, id, rest)) :
  memory.headD 0 ≠ 0 ∧ ∃ size : Nat, size ≤ memory.length
    ∧ toInt (Span.readUInt32 memory DOCUMENT_LENGTH + DOCUMENT_HEADER_SIZE) = size
    ∧ documentSlice = memory.take size ∧ rest = memory.drop size
  := by
  rw [getNextDocumentSliceAndAdjustOffset] at h
  split at h
  · cases h
  · split at h
    · cases h
    · rename_i hhead
      obtain ⟨first, hfirst, h⟩ := Except.bind_eq_ok_iff.mp h
      obtain ⟨last, hlast, h⟩ := Except.bind_eq_ok_iff.mp h
      obtain ⟨size, hsize, hle, rfl⟩ := Span.sliceFirst_eq_ok_iff.mp hfirst
      obtain ⟨size', hsize', -, rfl⟩ := Span.slice_eq_ok_iff.mp hlast
      obtain rfl : size = size' := by omega
      cases h
      exact ⟨hhead, size, hle, hsize, rfl, rfl⟩

/-- Where the walk reads no document it leaves the memory as it is. -/
theorem getNext_eq_none {memory rest : Bytes} {id : UInt16}
    (h : getNextDocumentSliceAndAdjustOffset memory = .ok (none, id, rest)) :
  rest = memory ∧ (memory.length < 48 ∨ memory.headD 0 = 0)
  := by
  rw [getNextDocumentSliceAndAdjustOffset, DOCUMENT_HEADER_SIZE_toNat] at h
  split at h
  · rename_i hend
    cases h
    rw [List.isEmpty_iff] at hend
    refine ⟨rfl, ?_⟩
    rcases hend with rfl | hlt
    · exact .inr rfl
    · exact .inl hlt
  · split at h
    · rename_i hhead
      cases h
      exact ⟨rfl, .inr hhead⟩
    · obtain ⟨first, -, h⟩ := Except.bind_eq_ok_iff.mp h
      obtain ⟨last, -, h⟩ := Except.bind_eq_ok_iff.mp h
      cases h

/-- The sum of a length and the size of the header, as the walk computes it. -/
theorem toInt_add_header {length : UInt32} {n : Nat} (hlength : length.toNat = n)
    (hn : n + 48 < 2 ^ 31) :
  toInt (length + DOCUMENT_HEADER_SIZE) = (n + 48 : Nat)
  := by
  have hsum : (length + DOCUMENT_HEADER_SIZE).toNat = n + 48 := by
    rw [UInt32.toNat_add, DOCUMENT_HEADER_SIZE_toNat, hlength]
    omega
  rw [toInt_of_lt (by omega), hsum]

/-- The walk reads a written document whose id has a nonzero low byte. -/
theorem getNext_encode {id : UInt16} {content : Bytes} (rest : Bytes)
    (hid : id.toNat % 256 ≠ 0) (hcontent : content.length + 48 < 2 ^ 31) :
  getNextDocumentSliceAndAdjustOffset (encode id content ++ rest)
    = .ok (some (encode id content), id, rest)
  := by
  have hhead : (encode id content ++ rest).headD 0 ≠ 0 := by
    intro h
    apply hid
    rw [← headD_encode id content rest, h]
    rfl
  have hlength : (UInt32.ofNat content.length).toNat = content.length := by
    rw [UInt32.toNat_ofNat']
    omega
  have hsize : content.length + 48 = (encode id content).length := by
    rw [length_encode, Nat.add_comm]
  have hint : toInt (Span.readUInt32 (encode id content ++ rest) DOCUMENT_LENGTH
      + DOCUMENT_HEADER_SIZE) = (content.length + 48 : Nat) := by
    rw [readUInt32_encode, toInt_add_header hlength hcontent]
  rw [getNext_eq_of_size (by simp; omega) hhead hint (by simp; omega), readUInt16_encode,
    hsize, List.take_left, List.drop_left]

/-- A document that fits into its slice is written to the front of it. -/
theorem update_create {slice content : Bytes} {id : UInt16}
    (h : 48 + content.length ≤ slice.length) :
  (create slice id).update content = .ok
    { slice := Bytes.overwrite slice 0 (encode id content), header := headerOf id content }
  := by
  have hset : (create slice id).setContent content = .ok
      { slice := Bytes.overwrite slice 48 content, header := headerOf id content } := by
    simp only [setContent, create, DOCUMENT_HEADER_SIZE_toNat, Span.writeBytes_of_le h]
    rfl
  have hwrite : Span.writeStruct (Bytes.overwrite slice 48 content) (headerOf id content).toBytes
      = .ok (Bytes.overwrite slice 0 (encode id content)) := by
    have htake : (slice.take 48).length = 48 := by
      rw [List.length_take]
      omega
    rw [Span.writeStruct, Bytes.length_overwrite h, DocumentHeader.length_toBytes,
      if_neg (by omega)]
    congr 1
    simp only [Bytes.overwrite, List.take_zero, List.nil_append, Nat.zero_add,
      DocumentHeader.length_toBytes, length_encode]
    rw [List.drop_append_of_le_length (by omega), List.drop_of_length_le (by omega), encode,
      List.append_assoc, List.nil_append]
  rw [update, hset]
  simp only [bind, Except.bind, updateHeader, hwrite]
  rfl

/-- Writing a document where no header fits throws and writes nothing. -/
theorem update_create_of_lt {slice content : Bytes} {id : UInt16} (h : slice.length < 48) :
  (create slice id).update content = .error .argumentOutOfRange
  := by
  simp only [update, setContent, create, DOCUMENT_HEADER_SIZE_toNat, Span.writeBytes_of_lt h]
  rfl

/-- Writing a document with content where only the header fits throws and writes nothing. -/
theorem update_create_of_end {slice content : Bytes} {id : UInt16}
    (h : slice.length = 48) (hcontent : 0 < content.length) :
  (create slice id).update content = .error .nullReference
  := by
  simp only [update, setContent, create, DOCUMENT_HEADER_SIZE_toNat,
    Span.writeBytes_of_end h hcontent]
  rfl

/-- Writing a document throws and writes nothing where the header and the first byte of the
content, if it has one, do not fit. -/
theorem update_create_of_short {slice content : Bytes} (id : UInt16)
    (h : slice.length < 48 + min content.length 1) :
  ∃ fault, (create slice id).update content = .error fault ∧ fault ≠ .outsideSlice
  := by
  by_cases hheader : slice.length < 48
  · exact ⟨_, update_create_of_lt hheader, by decide⟩
  · exact ⟨_, update_create_of_end (by omega) (by omega), by decide⟩

/-- Writing a document of whose content a part fits copies past the slice. -/
theorem update_create_of_overrun {slice content : Bytes} {id : UInt16}
    (h : 48 < slice.length) (hcontent : slice.length < 48 + content.length) :
  (create slice id).update content = .error .outsideSlice
  := by
  simp only [update, setContent, create, DOCUMENT_HEADER_SIZE_toNat,
    Span.writeBytes_of_overrun h hcontent]
  rfl

/-- A written document read back has its id and its content. -/
theorem ofSlice_encode (id : UInt16) (content : Bytes) :
  ∃ document, ofSlice (encode id content) = .ok document
    ∧ document.slice = encode id content ∧ document.header.documentId = id
    ∧ document.header.contentLength = UInt32.ofNat content.length
  := by
  have hid := readUInt16_encode id content []
  have hlength := readUInt32_encode id content []
  rw [List.append_nil] at hid hlength
  simp only [ofSlice, DocumentHeader.read, DOCUMENT_HEADER_SIZE_toNat, length_encode,
    if_neg (show ¬ 48 + content.length < 48 by omega), hid, hlength]
  exact ⟨_, rfl, rfl, rfl, rfl⟩

/-- A document is read from a slice with room for a header, and its id from the front. -/
theorem ofSlice_eq_ok {slice : Bytes} {document : Document} (h : ofSlice slice = .ok document) :
  48 ≤ slice.length ∧ document.header.documentId = Span.readUInt16 slice 0
  := by
  obtain ⟨header, hread, h⟩ := Except.bind_eq_ok_iff.mp h
  rw [DocumentHeader.read, DOCUMENT_HEADER_SIZE_toNat] at hread
  split at hread
  · cases hread
  · cases hread
    cases h
    constructor
    · omega
    · rfl

/-- A slice throws as a document only because no header fits. -/
theorem ofSlice_eq_error {slice : Bytes} {fault : Fault} (h : ofSlice slice = .error fault) :
  fault = .argumentOutOfRange
  := by
  rw [ofSlice, DocumentHeader.read] at h
  split at h
  · cases h
    rfl
  · cases h

/-- Reading the content of a document returns or throws. -/
theorem getContent_ne_endless (document : Document) :
  document.getContent ≠ .error .endless
  := by
  rw [getContent, Span.readBytes]
  split_ifs
  all_goals
    intro h
    cases h

/-- Writing a document returns or throws. -/
theorem update_ne_endless (document : Document) (content : Bytes) :
  document.update content ≠ .error .endless
  := by
  rw [update, setContent, Span.writeBytes]
  split_ifs
  · intro h
    cases h
  · intro h
    cases h
  · intro h
    cases h
  · simp only [Except.ok_bind, updateHeader, Span.writeStruct, pure, Except.pure]
    split_ifs
    all_goals
      intro h
      cases h

/-- The content of a written document. -/
theorem getContent_encode {document : Document} {id : UInt16} {content : Bytes}
    (hslice : document.slice = encode id content)
    (hheader : document.header.contentLength = UInt32.ofNat content.length)
    (hcontent : content.length + 48 < 2 ^ 31) :
  document.getContent = .ok content
  := by
  have hlength : (UInt32.ofNat content.length).toNat = content.length := by
    rw [UInt32.toNat_ofNat']
    omega
  rw [getContent, hslice, hheader, Span.readBytes, toInt_of_lt (by omega), hlength,
    DOCUMENT_HEADER_SIZE_toNat, Int.toNat_natCast, if_neg (by omega), if_neg (by simp),
    if_neg (by simp only [length_encode]; omega), if_neg (by simp), encode,
    List.drop_append_of_le_length (by simp), List.drop_of_length_le (by simp), List.nil_append,
    List.take_length]

end Document

end Datatent
