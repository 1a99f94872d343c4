import Datatent.Library.Double
import Datatent.Shared.DataFileStream
import Mathlib.Logic.Function.Basic

/-!
# Blocks of the old store

`BlockStorage` divides a stream into blocks of one size. A `Block` keeps the first sector of
its part of the stream in memory until it is disposed; what lies behind the first sector is
read from the stream and written to it at once. A header field is a number of 8 bytes in
front of the content.
-/

namespace Datatent.Blocks

/-- What the methods of a block and of a block storage throw. A loop that does not come to an
end throws `endless`; `nullReference` is a method called without a block. -/
inductive BlockException where
  | argument
  | argumentOutOfRange
  | indexOutOfRange
  | dataMisaligned
  | endOfStream
  | objectDisposed
  | nullReference
  | endless
deriving DecidableEq, Repr

/-- The value of an `int` expression: its mathematical value in 32 bits. -/
def int (value : Int) : Int :=
  value.bmod (2 ^ 32)

/-- The sizes of a block storage, as its constructor accepts them. -/
structure BlockStorage where
  blockSize : Nat
  blockHeaderSize : Nat
  header_lt : blockHeaderSize < blockSize
  size_ge : 128 ≤ blockSize
  size_lt : blockSize < 2 ^ 31

namespace BlockStorage

/-- The checks of the constructor. -/
def new (blockSize blockHeaderSize : Nat) (hsize : blockSize < 2 ^ 31) :
    Except BlockException BlockStorage :=
  if hheader : blockHeaderSize ≥ blockSize then .error .argument
  else if hsmall : blockSize < 128 then .error .argument
  else .ok
    { blockSize := blockSize
      blockHeaderSize := blockHeaderSize
      header_lt := Nat.lt_of_not_ge hheader
      size_ge := Nat.le_of_not_lt hsmall
      size_lt := hsize }

/-- The part of a block that is kept in memory. -/
def diskSectorSize (storage : BlockStorage) : Nat :=
  if storage.blockSize ≥ 4096 then 4096 else 128

/-- The part of a block behind its header. -/
def blockContentSize (storage : BlockStorage) : Nat :=
  storage.blockSize - storage.blockHeaderSize

end BlockStorage

/-- A block: its first sector, the header fields that were read or set, and whether the first
sector has to be written back. -/
structure Block where
  id : UInt32
  firstSector : Bytes
  cachedHeaderValue : Vector (Option Int64) 5
  isFirstSectorDirty : Bool
  isDisposed : Bool

/-- A block with the stream it lives in. -/
structure BlockState where
  block : Block
  stream : DataFileStream

/-- The methods of a block. -/
abbrev BlockM := EStateM BlockException BlockState

/-! ### Transfers between buffers -/

/-- `Buffer.BlockCopy`: the destination after the copy. -/
abbrev blockCopy (src : Bytes) (srcOffset : Int) (dst : Bytes) (dstOffset count : Int) :
    BlockM Bytes :=
  Bytes.blockCopy .argumentOutOfRange .argument src srcOffset dst dstOffset count

/-- The number in 8 bytes. -/
def getInt64 (bytes : Bytes) : Int64 :=
  (UInt64.ofNat (Bytes.readLE bytes 8)).toInt64

/-- The 8 bytes of a number. -/
def getBytes (value : Int64) : Bytes :=
  Bytes.toLE 8 value.toUInt64.toNat

/-- Read a number from a buffer. -/
def readBufferInt64 (buffer : Bytes) (bufferOffset : Int) : BlockM Int64 := do
  let longBuffer ← blockCopy buffer bufferOffset (List.replicate 8 0) 0 8
  return getInt64 longBuffer

/-- Write a number to a buffer. -/
def writeBuffer (value : Int64) (buffer : Bytes) (bufferOffset : Int) : BlockM Bytes :=
  blockCopy (getBytes value) 0 buffer bufferOffset 8

/-- Set the position of the stream. -/
def setPosition (position : Int) : BlockM Unit :=
  if position < 0 then throw .argumentOutOfRange
  else modify (fun s => { s with stream := { s.stream with position := position.toNat } })

/-- `Stream.Read`: the buffer after the transfer, and how many bytes were transferred. -/
def streamRead (buffer : Bytes) (offset count : Int) : BlockM (Bytes × Nat) :=
  if offset < 0 ∨ count < 0 then throw .argumentOutOfRange
  else if buffer.length < offset + count then throw .argument
  else do
    let s ← get
    let (transferred, stream) := s.stream.read count.toNat
    set { s with stream := stream }
    return (Bytes.overwrite buffer offset.toNat transferred, transferred.length)

/-- `Stream.Write`. -/
def streamWrite (buffer : Bytes) (offset count : Int) : BlockM Unit :=
  if offset < 0 ∨ count < 0 then throw .argumentOutOfRange
  else if buffer.length < offset + count then throw .argument
  else
    modify (fun s =>
      { s with stream := s.stream.write ((buffer.drop offset.toNat).take count.toNat) })

/-- `Stream.Flush`. -/
def streamFlush : BlockM Unit :=
  modify (fun s => { s with stream := s.stream.flush })

/-! ### The methods of a block -/

namespace Block

/-- A block over its first sector, with nothing cached. -/
def new (id : UInt32) (firstSector : Bytes) : Block where
  id := id
  firstSector := firstSector
  cachedHeaderValue := Vector.replicate 5 none
  isFirstSectorDirty := false
  isDisposed := false

/-- The block with a header field cached, where the field is one of those that are. -/
def cacheHeader (block : Block) (field : Int) (value : Int64) : Block :=
  { block with
    cachedHeaderValue := block.cachedHeaderValue.setIfInBounds field.toNat (some value) }

/-- Where the block begins in the stream. -/
def position (storage : BlockStorage) (block : Block) : Int :=
  block.id.toNat * storage.blockSize

/-- The value of a header field. -/
def getHeader (storage : BlockStorage) (field : Int) : BlockM Int64 := do
  let s ← get
  if s.block.isDisposed then throw .objectDisposed
  else if field < 0 then throw .indexOutOfRange
  else if field ≥ (storage.blockHeaderSize / 8 : Nat) then throw .argument
  else if h : field.toNat < 5 then
    match s.block.cachedHeaderValue[field.toNat] with
    | some value => return value
    | none =>
        let value ← readBufferInt64 s.block.firstSector (int (field * 8))
        modify (fun s => { s with block := s.block.cacheHeader field value })
        return value
  else
    readBufferInt64 s.block.firstSector (int (field * 8))

/-- Set a header field. Unlike `getHeader` there is no upper bound on the field. -/
def setHeader (field : Int) (value : Int64) : BlockM Unit := do
  let s ← get
  if s.block.isDisposed then throw .objectDisposed
  else if field < 0 then throw .indexOutOfRange
  else
    modify (fun s => { s with block := s.block.cacheHeader field value })
    let firstSector ← writeBuffer value s.block.firstSector (int (field * 8))
    modify (fun s =>
      { s with block := { s.block with firstSector := firstSector, isFirstSectorDirty := true } })

/-- The loop of `read`: read from the stream until all data required is copied. -/
def readLoop (storage : BlockStorage) (destOffset count : Int) :
    Nat → Bytes → Int → BlockM Bytes
  | 0, _, _ => throw .endless
  | rounds + 1, dest, dataCopied =>
      if dataCopied < count then do
        let bytesToRead := min (storage.diskSectorSize : Int) (count - dataCopied)
        let (dest, thisRead) ← streamRead dest (destOffset + dataCopied) bytesToRead
        if thisRead = 0 then throw .endOfStream
        else readLoop storage destOffset count rounds dest (dataCopied + thisRead)
      else
        pure dest

/-- Read content of the block into a buffer. The result is the buffer after the call. -/
def read (storage : BlockStorage) (dest : Bytes) (destOffset srcOffset count : Int) :
    BlockM Bytes := do
  let s ← get
  if s.block.isDisposed then throw .objectDisposed
  else if ¬ (count ≥ 0 ∧ int (count + srcOffset) ≤ storage.blockContentSize) then
    throw .argumentOutOfRange
  else if ¬ int (count + destOffset) ≤ dest.length then throw .argumentOutOfRange
  else if int (storage.blockHeaderSize + srcOffset) < storage.diskSectorSize then
    -- part of the data belongs to the first sector
    let toBeCopied :=
      min (int (storage.diskSectorSize - storage.blockHeaderSize - srcOffset)) count
    let dest ← blockCopy s.block.firstSector (int (storage.blockHeaderSize + srcOffset)) dest
      destOffset toBeCopied
    if toBeCopied < count then
      setPosition (s.block.position storage + storage.diskSectorSize)
    readLoop storage destOffset count (count.toNat + 1) dest toBeCopied
  else
    if 0 < count then
      setPosition (s.block.position storage + storage.blockHeaderSize + srcOffset)
    readLoop storage destOffset count (count.toNat + 1) dest 0

/-- The loop of `write`: write to the stream until all data is written. -/
def writeLoop (src : Bytes) (srcOffset count : Int) : Nat → Int → BlockM Unit
  | 0, _ => throw .endless
  | rounds + 1, written =>
      if written < count then do
        let bytesToWrite := min 4096 (count - written)
        streamWrite src (srcOffset + written) bytesToWrite
        streamFlush
        writeLoop src srcOffset count rounds (written + bytesToWrite)
      else
        pure ()

/-- Write the bytes that belong to the first sector. -/
def writeFirstSector (storage : BlockStorage) (src : Bytes) (srcOffset dstOffset count : Int) :
    BlockM Unit := do
  let s ← get
  let thisWrite := min count (int (storage.diskSectorSize - storage.blockHeaderSize - dstOffset))
  let firstSector ← blockCopy src srcOffset s.block.firstSector
    (int (storage.blockHeaderSize + dstOffset)) thisWrite
  modify (fun s =>
    { s with block := { s.block with firstSector := firstSector, isFirstSectorDirty := true } })

/-- Write the bytes that do not belong to the first sector. -/
def writeRest (storage : BlockStorage) (src : Bytes) (srcOffset dstOffset count : Int) :
    BlockM Unit := do
  let s ← get
  setPosition (s.block.position storage
    + max (storage.diskSectorSize : Int) (int (storage.blockHeaderSize + dstOffset)))
  let d := int (storage.diskSectorSize - (storage.blockHeaderSize + dstOffset))
  if d > 0 then
    writeLoop src (srcOffset + d) (count - d) ((count - d).toNat + 1) 0
  else
    writeLoop src srcOffset count (count.toNat + 1) 0

/-- Write a part of a buffer to the content of the block. -/
def write (storage : BlockStorage) (src : Bytes) (srcOffset dstOffset count : Int) :
    BlockM Unit := do
  let s ← get
  if s.block.isDisposed then throw .objectDisposed
  else if ¬ (dstOffset ≥ 0 ∧ int (dstOffset + count) ≤ storage.blockContentSize) then
    throw .argumentOutOfRange
  else if ¬ (srcOffset ≥ 0 ∧ int (srcOffset + count) ≤ src.length) then
    throw .argumentOutOfRange
  else
    if int (storage.blockHeaderSize + dstOffset) < storage.diskSectorSize then
      writeFirstSector storage src srcOffset dstOffset count
    if int (storage.blockHeaderSize + dstOffset + count) > storage.diskSectorSize then
      writeRest storage src srcOffset dstOffset count

/-- Write the first sector back. The length written is 4096, whatever the length of the
sector. -/
def writeBack (storage : BlockStorage) : BlockM Unit := do
  let s ← get
  setPosition (s.block.position storage)
  streamWrite s.block.firstSector 0 4096
  streamFlush
  modify (fun s => { s with block := { s.block with isFirstSectorDirty := false } })

/-- Dispose the block: write the first sector back where it is dirty. The result says whether
`Disposed` is raised. -/
def dispose (storage : BlockStorage) : BlockM Bool := do
  let s ← get
  if s.block.isDisposed then return false
  else
    modify (fun s => { s with block := { s.block with isDisposed := true } })
    if s.block.isFirstSectorDirty then
      writeBack storage
    return true

end Block

/-! ### The block storage -/

/-- What a block storage changes: the stream and its blocks in memory. -/
structure StorageState where
  stream : DataFileStream
  blocks : UInt32 → Option Block

/-- The methods of a block storage. -/
abbrev StorageM := EStateM BlockException StorageState

namespace BlockStorage

/-- A method of the block in memory that has the id. -/
def onBlock {α : Type} (blockId : UInt32) (method : BlockM α) : StorageM α :=
  fun s =>
    match s.blocks blockId with
    | none => .error .nullReference s
    | some block =>
        match method { block := block, stream := s.stream } with
        | .ok a s' => .ok a
            { stream := s'.stream, blocks := Function.update s.blocks blockId (some s'.block) }
        | .error e s' => .error e
            { stream := s'.stream, blocks := Function.update s.blocks blockId (some s'.block) }

/-- Keep a block in memory. -/
def onBlockInitialized (block : Block) : StorageM Unit :=
  modify (fun s => { s with blocks := Function.update s.blocks block.id (some block) })

/-- A disposed block is removed from memory. -/
def handleBlockDisposed (blockId : UInt32) : StorageM Unit :=
  modify (fun s => { s with blocks := Function.update s.blocks blockId none })

/-- The block with an id, where the stream reaches that far: the one in memory, or a new one
over the first sector of its part of the stream. -/
def find (storage : BlockStorage) (blockId : UInt32) : StorageM (Option UInt32) := do
  let s ← get
  if (s.blocks blockId).isSome then return some blockId
  else
    let blockPosition := blockId.toNat * storage.blockSize
    if blockPosition + storage.blockSize > s.stream.bytes.length then return none
    else
      let (transferred, stream) :=
        ({ s.stream with position := blockPosition } : DataFileStream).read storage.diskSectorSize
      set { s with stream := stream }
      let firstSector := List.replicate storage.diskSectorSize 0
      onBlockInitialized (Block.new blockId (Bytes.overwrite firstSector 0 transferred))
      return some blockId

/-- A new block at the end of the stream. Its id is the quotient of the length and the size of a
block, which are doubles. -/
def createNew (storage : BlockStorage) : StorageM UInt32 := do
  let s ← get
  if s.stream.bytes.length % storage.blockSize ≠ 0 then throw .dataMisaligned
  else
    let blockId := UInt32.ofNat
      (Double.ceilQuotient (Double.ofNat s.stream.bytes.length) storage.blockSize)
    let stream := s.stream.setLength (blockId.toNat * storage.blockSize + storage.blockSize)
    set { s with stream := stream.flush }
    onBlockInitialized (Block.new blockId (List.replicate storage.diskSectorSize 0))
    return blockId

/-- Dispose the block in memory that has the id. -/
def dispose (storage : BlockStorage) (blockId : UInt32) : StorageM Unit := do
  let raised ← onBlock blockId (Block.dispose storage)
  if raised then
    handleBlockDisposed blockId

end BlockStorage

/-! ### Sequences of calls -/

/-- A call on a block storage or on one of its blocks. -/
inductive BlockCall where
  | createNew
  | find (blockId : UInt32)
  | getHeader (blockId : UInt32) (field : Int)
  | setHeader (blockId : UInt32) (field : Int) (value : Int64)
  | read (blockId : UInt32) (dest : Bytes) (destOffset srcOffset count : Int)
  | write (blockId : UInt32) (src : Bytes) (srcOffset dstOffset count : Int)
  | dispose (blockId : UInt32)

/-- What a call comes to: the id of a block or of none, the value of a header field, the
buffer read into, nothing, or an exception. -/
inductive BlockResult where
  | block (blockId : Option Nat)
  | header (value : Int64)
  | data (dest : Bytes)
  | done
  | thrown (e : BlockException)
deriving DecidableEq

/-- A call as a computation. -/
def BlockCall.run (storage : BlockStorage) : BlockCall → StorageM BlockResult
  | .createNew => do
      let blockId ← storage.createNew
      return .block (some blockId.toNat)
  | .find blockId => do
      let found ← storage.find blockId
      return .block (found.map UInt32.toNat)
  | .getHeader blockId field => do
      let value ← BlockStorage.onBlock blockId (Block.getHeader storage field)
      return .header value
  | .setHeader blockId field value => do
      BlockStorage.onBlock blockId (Block.setHeader field value)
      return .done
  | .read blockId dest destOffset srcOffset count => do
      let dest ← BlockStorage.onBlock blockId
        (Block.read storage dest destOffset srcOffset count)
      return .data dest
  | .write blockId src srcOffset dstOffset count => do
      BlockStorage.onBlock blockId (Block.write storage src srcOffset dstOffset count)
      return .done
  | .dispose blockId => do
      storage.dispose blockId
      return .done

/-- One call: what it comes to, and the state after it. -/
def step (storage : BlockStorage) (s : StorageState) (call : BlockCall) :
    BlockResult × StorageState :=
  match call.run storage s with
  | .ok result s' => (result, s')
  | .error e s' => (.thrown e, s')

/-- A storage over an empty stream. -/
def StorageState.empty : StorageState where
  stream := { bytes := [], position := 0 }
  blocks := fun _ => none

end Datatent.Blocks
