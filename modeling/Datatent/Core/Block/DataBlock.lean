import Datatent.Core.IO.FileSystemService
import Datatent.Core.Pages.DataPageManager

/-!
# Data blocks

A data block has a header at the front of its memory and hands the whole memory to its page
manager. In the data file the header of a block and the pages of the block have addresses of
their own. Both in the file and in the memory the first page starts where the header of the
block starts, and every other page is apart from the header.
-/

namespace Datatent

open Constants

/-- The header of a data block. -/
structure DataBlockHeader where
  marker : UInt8
  id : UInt16
  type : UInt8
  numberOfPages : UInt32
deriving DecidableEq, Repr

namespace DataBlock

/-- Header position of the block marker. -/
def BLOCK_MARKER : Nat := 0

/-- Header position of the block id. -/
def BLOCK_ID : Nat := 1

/-- Header position of the block type. -/
def BLOCK_TYPE : Nat := 3

/-- Header position of the number of pages. -/
def BLOCK_NUMBER_OF_PAGES : Nat := 6

/-- The header at the front of the memory of a block. -/
def readHeader (memory : Bytes) : Except Fault DataBlockHeader :=
  if memory.length < BLOCK_HEADER_SIZE.toNat then .error .argumentOutOfRange
  else .ok
    { marker := memory.getD BLOCK_MARKER 0
      id := Span.readUInt16 memory BLOCK_ID
      type := memory.getD BLOCK_TYPE 0
      numberOfPages := Span.readUInt32 memory BLOCK_NUMBER_OF_PAGES }

end DataBlock

/-- A data block: its header and the memory that its page manager operates on. -/
structure DataBlock where
  header : DataBlockHeader
  memory : Bytes

namespace DataBlock

/-- Save the data: whether they are saved, the address of the document, and the block after
the call. -/
def saveData (block : DataBlock) (data : Bytes) (typeId : UInt32) :
    Except Fault (Option Address × DataBlock) := do
  let result ← DataPageManager.saveContent block.memory data typeId
  if result.saved then
    let address := Address.create .document block.header.id result.pageId result.documentId
    return (some address, { block with memory := result.memory })
  else return (none, { block with memory := result.memory })

/-- A block without pages, with the type of a data block in its header. -/
def initEmpty (memory : Bytes) (id : UInt16) : DataBlock where
  header := { marker := 1, id := id, type := 1, numberOfPages := 0 }
  memory := memory

/-- The loop of `getAllPages` from the page with the number `i` on: the pages that are yielded,
and what is thrown after them. -/
def getAllPagesFrom (memory : Bytes) : Nat → Nat → List DataPage × Option Fault
  | 0, _ => ([], none)
  | rounds + 1, i =>
      match DataPageManager.getPageById memory (UInt32.ofNat i) with
      | .error fault => ([], some fault)
      | .ok .null => ([], some .invalidCast)
      | .ok (.data page) =>
          let rest := getAllPagesFrom memory rounds (i + 1)
          (page :: rest.1, rest.2)

/-- The pages of the block, and what is thrown after them. One is taken from the number of
pages without a sign, so for a block without pages the loop has the largest bound. -/
def getAllPages (block : DataBlock) : List DataPage × Option Fault :=
  getAllPagesFrom block.memory (block.header.numberOfPages - 1).toNat 0

end DataBlock

/-! ### The header and the pages of a block -/

namespace Layout

/-- The address of a block. -/
def blockAddress (block : UInt16) : Address :=
  Address.create .block block 0 0

/-- The address of a page of a block. -/
def pageAddress (block page : UInt16) : Address :=
  Address.create .page block page 0

/-- A request for the header of a block. -/
def IsHeaderRequest (block : UInt16) (request : IORequest) : Prop :=
  request.address = blockAddress block ∧ request.ioRequestProperties.onlyHeader = true

/-- A request for a page of a block. -/
def IsPageRequest (block page : UInt16) (request : IORequest) : Prop :=
  request.address = pageAddress block page

/-- The stream positions a request covers. -/
def Covers (request : IORequest) (i : Nat) : Prop :=
  ∃ offset length, FileSystemService.range request = .ok (offset, length)
    ∧ offset.toNat ≤ i ∧ i < offset.toNat + length.toNat

/-- A payload as long as the transfer the request asks for. -/
def Sufficient (request : IORequest) : Prop :=
  ∃ offset length, FileSystemService.range request = .ok (offset, length)
    ∧ length.toNat ≤ request.payload.length

/-- Serving `request` leaves every byte that `other` covers. -/
def Leaves (request other : IORequest) : Prop :=
  ∀ stream, ∃ stream', FileSystemService.write request stream = .ok stream'
    ∧ ∀ i, Covers other i → stream'.byteAt i = stream.byteAt i

/-- In the file, writing the page leaves the header of the block, and writing the header of
the block leaves the page. -/
def SeparateInFile (block page : UInt16) : Prop :=
  ∀ pageRequest headerRequest, IsPageRequest block page pageRequest →
    IsHeaderRequest block headerRequest →
      (Sufficient pageRequest → Leaves pageRequest headerRequest)
        ∧ (Sufficient headerRequest →
            ∀ pageRead, IsPageRequest block page pageRead → Leaves headerRequest pageRead)

/-- The bytes of a block memory in the slot of a page. -/
def slot (memory : Bytes) (page : UInt16) : Bytes :=
  (memory.drop (DataPageManager.slotStart page.toUInt32).toNat).take
    PAGE_SIZE_INCL_HEADER.toNat

/-- In memory, the header that the block reads does not depend on the slot of the page, and
the slot does not depend on the bytes of the header. -/
def SeparateInMemory (page : UInt16) : Prop :=
  ∀ memory memory' : Bytes, memory.length = memory'.length →
    ((∀ i, ¬ ((DataPageManager.slotStart page.toUInt32).toNat ≤ i
          ∧ i < (DataPageManager.slotStart page.toUInt32).toNat
            + PAGE_SIZE_INCL_HEADER.toNat) → memory[i]? = memory'[i]?) →
        DataBlock.readHeader memory = DataBlock.readHeader memory')
      ∧ ((∀ i, ¬ i < BLOCK_HEADER_SIZE.toNat → memory[i]? = memory'[i]?) →
          slot memory page = slot memory' page)

/-! ### The ranges of the requests -/

section Ranges

variable {block page : UInt16} {request : IORequest}

/-- A request for the header of a block covers its first bytes. -/
theorem range_header (hblock : 2048 + (block.toNat + 1) * 6409292 ≤ 2 ^ 32)
    (h : IsHeaderRequest block request) :
  ∃ offset, FileSystemService.range request = .ok (offset, BLOCK_HEADER_SIZE)
    ∧ offset.toNat = Address.exactOffset block.toNat 0
  := by
  obtain ⟨haddress, hheader⟩ := h
  have hscope : request.address.scope = some .block := by
    rw [haddress, blockAddress, Address.create_scope]
  obtain ⟨offset, hposition, hoffset⟩ := Address.toPosition_block hscope
  have hnumber : request.address.block = block := by
    rw [haddress, blockAddress, Address.create_block]
  rw [hnumber, Nat.mod_eq_of_lt (by rw [Address.exactOffset]; omega)] at hoffset
  refine ⟨offset, ?_, hoffset⟩
  simp only [FileSystemService.range, hposition, Except.ok_bind, hheader, if_true, hscope]
  rfl

/-- A request for a page covers the page, or its header. -/
theorem range_page (hblock : 2048 + (block.toNat + 1) * 6409292 ≤ 2 ^ 32)
    (hpage : page.toNat < 100) (h : IsPageRequest block page request) :
  ∃ offset length, FileSystemService.range request = .ok (offset, length)
    ∧ offset.toNat = Address.exactOffset block.toNat page.toNat
    ∧ 0 < length.toNat ∧ length.toNat ≤ 64092
  := by
  rw [IsPageRequest] at h
  have hscope : request.address.scope = some .page := by
    rw [h, pageAddress, Address.create_scope]
  obtain ⟨offset, hposition, hoffset⟩ := Address.toPosition_page hscope
  have hnumber : request.address.block = block := by
    rw [h, pageAddress, Address.create_block]
  have hnumber' : request.address.page = page := by
    rw [h, pageAddress, Address.create_page]
  rw [hnumber, hnumber', Nat.mod_eq_of_lt (by rw [Address.exactOffset]; omega)] at hoffset
  cases hheader : request.ioRequestProperties.onlyHeader with
  | true =>
      refine ⟨offset, PAGE_HEADER_SIZE, ?_, hoffset, by decide, by decide⟩
      simp only [FileSystemService.range, hposition, Except.ok_bind, hheader, if_true, hscope]
      rfl
  | false =>
      refine ⟨offset, PAGE_SIZE_INCL_HEADER, ?_, hoffset, by decide, by decide⟩
      simp only [FileSystemService.range, hposition, Except.ok_bind, hheader]
      rfl

/-- A write leaves what a request with a range of its own covers. -/
theorem leaves_of_disjoint {other : IORequest} {offset length offset' length' : UInt32}
    (hrange : FileSystemService.range request = .ok (offset, length))
    (hlength : length.toNat < 2 ^ 31)
    (hrange' : FileSystemService.range other = .ok (offset', length'))
    (hdisjoint : offset.toNat + length.toNat ≤ offset'.toNat
      ∨ offset'.toNat + length'.toNat ≤ offset.toNat)
    (hsufficient : Sufficient request) :
  Leaves request other
  := by
  intro stream
  obtain ⟨_, _, hsame, hpayload⟩ := hsufficient
  rw [hrange] at hsame
  cases hsame
  refine ⟨_, FileSystemService.write_of_range hrange hlength hpayload, ?_⟩
  rintro i ⟨_, _, hsame, hfrom, hto⟩
  rw [hrange'] at hsame
  cases hsame
  apply DataFileStream.byteAt_write_of_disjoint
  rw [List.length_take, Nat.min_eq_left hpayload]
  change i < offset.toNat ∨ offset.toNat + length.toNat ≤ i
  omega

end Ranges

/-! ### Where the header and the pages are separate -/

section Separate

variable {block page : UInt16}

/-- In the file, a page other than the first one is separate from the header of the block. -/
theorem separateInFile_of_ne_zero (hblock : 2048 + (block.toNat + 1) * 6409292 ≤ 2 ^ 32)
    (hpage : page.toNat < 100) (hne : page ≠ 0) :
  SeparateInFile block page
  := by
  have hpos : 0 < page.toNat := by
    apply Nat.pos_of_ne_zero
    intro hzero
    apply hne
    exact UInt16.toNat_inj.mp hzero
  intro pageRequest headerRequest hpageRequest hheaderRequest
  obtain ⟨offset, hheader, hoffset⟩ := range_header hblock hheaderRequest
  rw [Address.exactOffset] at hoffset
  constructor
  · intro hsufficient
    obtain ⟨offset', length', hrange, hoffset', -, hlength'⟩ :=
      range_page hblock hpage hpageRequest
    rw [Address.exactOffset] at hoffset'
    apply leaves_of_disjoint hrange (by omega) hheader _ hsufficient
    right
    rw [BLOCK_HEADER_SIZE_toNat]
    omega
  · intro hsufficient pageRead hpageRead
    obtain ⟨offset', length', hrange, hoffset', -, hlength'⟩ :=
      range_page hblock hpage hpageRead
    rw [Address.exactOffset] at hoffset'
    apply leaves_of_disjoint hheader (by decide) hrange _ hsufficient
    left
    rw [BLOCK_HEADER_SIZE_toNat]
    omega

/-- In memory, a page other than the first one is separate from the header of the block. -/
theorem separateInMemory_of_ne_zero (hpage : page.toNat < 100) (hne : page ≠ 0) :
  SeparateInMemory page
  := by
  have hpos : 0 < page.toNat := by
    apply Nat.pos_of_ne_zero
    intro hzero
    apply hne
    exact UInt16.toNat_inj.mp hzero
  have hstart : (DataPageManager.slotStart page.toUInt32).toNat = 64092 * page.toNat := by
    rw [DataPageManager.slotStart_toNat (by rw [UInt16.toNat_toUInt32]; omega),
      UInt16.toNat_toUInt32]
  intro memory memory' hlength
  rw [hstart, PAGE_SIZE_INCL_HEADER_toNat, BLOCK_HEADER_SIZE_toNat]
  constructor
  · intro hsame
    have hbyte : ∀ i < 92, memory[i]? = memory'[i]? := by
      intro i hi
      apply hsame
      omega
    rw [DataBlock.readHeader, DataBlock.readHeader, hlength]
    simp only [List.getD_eq_getElem?_getD, Span.readUInt16, Span.readUInt32,
      hbyte _ (show DataBlock.BLOCK_MARKER < 92 by decide),
      hbyte _ (show DataBlock.BLOCK_TYPE < 92 by decide)]
    have hid : Bytes.readLE (memory.drop DataBlock.BLOCK_ID) 2
        = Bytes.readLE (memory'.drop DataBlock.BLOCK_ID) 2 := by
      apply Bytes.readLE_drop_congr
      intro j _ hj
      apply hbyte
      rw [DataBlock.BLOCK_ID] at hj
      omega
    have hpages : Bytes.readLE (memory.drop DataBlock.BLOCK_NUMBER_OF_PAGES) 4
        = Bytes.readLE (memory'.drop DataBlock.BLOCK_NUMBER_OF_PAGES) 4 := by
      apply Bytes.readLE_drop_congr
      intro j _ hj
      apply hbyte
      rw [DataBlock.BLOCK_NUMBER_OF_PAGES] at hj
      omega
    rw [hid, hpages]
  · intro hsame
    rw [slot, slot, hstart]
    congr 1
    apply List.ext_getElem?
    intro j
    rw [List.getElem?_drop, List.getElem?_drop]
    apply hsame
    omega

/-- In the file, the first page covers the header of the block. -/
theorem not_separateInFile_zero (hblock : 2048 + (block.toNat + 1) * 6409292 ≤ 2 ^ 32) :
  ¬ SeparateInFile block 0
  := by
  intro h
  let pageRequest : IORequest :=
    { id := 0
      requestDirection := .write
      address := pageAddress block 0
      payload := List.replicate 64092 1
      ioRequestProperties := { flush := false, onlyHeader := false } }
  let headerRequest : IORequest :=
    { id := 0
      requestDirection := .read
      address := blockAddress block
      payload := []
      ioRequestProperties := { flush := false, onlyHeader := true } }
  obtain ⟨offset, length, hrange, hoffset, hpos, hlength⟩ :=
    range_page hblock (by decide) (rfl : IsPageRequest block 0 pageRequest)
  obtain ⟨offset', hheader, hoffset'⟩ :=
    range_header hblock (⟨rfl, rfl⟩ : IsHeaderRequest block headerRequest)
  have hsame : offset.toNat = offset'.toNat := by
    rw [hoffset, hoffset']
    rfl
  have hpayload : length.toNat ≤ pageRequest.payload.length := by
    rw [List.length_replicate]
    exact hlength
  have hleaves := (h pageRequest headerRequest rfl ⟨rfl, rfl⟩).1
    ⟨offset, length, hrange, hpayload⟩
  obtain ⟨stream', hwrite, hbytes⟩ := hleaves { bytes := [], position := 0 }
  rw [FileSystemService.write_of_range hrange (by omega) hpayload] at hwrite
  cases hwrite
  have hfirst := hbytes offset.toNat
    ⟨offset', _, hheader, by omega, by rw [BLOCK_HEADER_SIZE_toNat]; omega⟩
  have hwritten := DataFileStream.byteAt_write_of_mem { bytes := [], position := offset.toNat }
    (show 0 < (pageRequest.payload.take length.toNat).length by
      rw [List.length_take]
      omega)
  rw [Nat.add_zero] at hwritten
  rw [hwritten, List.getD_eq_getElem?_getD, List.getElem?_take_of_lt hpos,
    List.getElem?_replicate] at hfirst
  revert hfirst
  simp [DataFileStream.byteAt]

/-- The pages that are separate from the header of their block are those other than the first
one. -/
theorem separate_iff (hblock : 2048 + (block.toNat + 1) * 6409292 ≤ 2 ^ 32)
    (hpage : page.toNat < 100) :
  SeparateInFile block page ∧ SeparateInMemory page ↔ page ≠ 0
  := by
  constructor
  · rintro ⟨hfile, -⟩ rfl
    exact not_separateInFile_zero hblock hfile
  · intro hne
    exact ⟨separateInFile_of_ne_zero hblock hpage hne, separateInMemory_of_ne_zero hpage hne⟩

/-- The last page of the last block whose bytes are addressed exactly is separate from the
header of the block. -/
theorem separate_last :
  SeparateInFile 669 99 ∧ SeparateInMemory 99
  := (separate_iff (by decide) (by decide)).mpr (by decide)

/-- The pages of every block are separate from its header. -/
def HeadersAndPagesSeparate : Prop :=
  ∀ block page : UInt16, 2048 + (block.toNat + 1) * 6409292 ≤ 2 ^ 32 → page.toNat < 100 →
    SeparateInFile block page ∧ SeparateInMemory page

/-- Writing ones to the first page of the first block changes the header of the block. -/
theorem not_headersAndPagesSeparate :
  ¬ HeadersAndPagesSeparate
  := by
  intro h
  exact not_separateInFile_zero (by decide) (h 0 0 (by decide) (by decide)).1

end Separate

end Layout

end Datatent
