import Datatent.Library.Bytes
import Datatent.Library.Finishes

/-!
# The record storage

`RecordStorage` keeps records in the blocks of an `IBlockStorage`, which it uses as a growing
array of blocks: a block is found by its number, and a new one is put at the end. A record is
a chain of blocks linked by header fields, and its number is that of its first block. Record 0
belongs to the storage itself: its content are the numbers of the blocks that are free, four
bytes each.

Blocks are disposed of when a method is done with them, which changes nothing in the array.
-/

namespace Datatent.Records

/-- What the methods of the record storage throw. A loop that does not come to an end throws
`endless`, and the array of blocks is full (`storageFull`) when there is no number of 32 bits
left for a new block. -/
inductive RecordException where
  | argumentOutOfRange
  | notSupported
  | invalidData
  | dataMisaligned
  | nullReference
  | blockNotFound
  | storageFull
  | endless
deriving DecidableEq, Repr

/-- A block: its header fields and its content of a fixed size. -/
structure Block (blockContentSize : Nat) where
  nextBlockId : Nat
  recordLength : Nat
  blockContentLength : Nat
  previousBlockId : Nat
  isDeleted : Nat
  content : Bytes
  length_content : content.length = blockContentSize
deriving DecidableEq

namespace Block

variable {blockContentSize : Nat}

/-- A block as the block storage creates it. -/
def new (blockContentSize : Nat) : Block blockContentSize where
  nextBlockId := 0
  recordLength := 0
  blockContentLength := 0
  previousBlockId := 0
  isDeleted := 0
  content := List.replicate blockContentSize 0
  length_content := List.length_replicate

/-- The block with bytes in its content replaced. -/
def write (block : Block blockContentSize) (dstOffset : Nat) (src : Bytes)
    (h : dstOffset + src.length ≤ blockContentSize) : Block blockContentSize :=
  { block with
    content := Bytes.overwrite block.content dstOffset src
    length_content := by
      rw [Bytes.length_overwrite (h.trans_eq block.length_content.symm), block.length_content] }

/-- The block with the header fields of a new one. -/
def clear (block : Block blockContentSize) : Block blockContentSize :=
  { block with
    blockContentLength := 0
    nextBlockId := 0
    previousBlockId := 0
    recordLength := 0
    isDeleted := 0 }

end Block

/-- The methods of the record storage, over the array of blocks. -/
abbrev RecordM (blockContentSize : Nat) :=
  EStateM RecordException (List (Block blockContentSize))

variable {blockContentSize : Nat}

/-! ### The block storage -/

/-- The block with a number, of which there has to be one. -/
def getBlock (id : Nat) : RecordM blockContentSize (Block blockContentSize) := do
  match (← get)[id]? with
  | some block => return block
  | none => throw .nullReference

/-- Change the block with a number. -/
def setBlock (id : Nat) (f : Block blockContentSize → Block blockContentSize) :
    RecordM blockContentSize Unit :=
  modify (fun blocks => blocks.modify id f)

/-- Whether the block storage finds a block with a number. -/
def hasBlock (id : Nat) : RecordM blockContentSize Bool := do
  return decide (id < (← get).length)

/-- A new block at the end of the array. -/
def createNew : RecordM blockContentSize Nat := do
  let blocks ← get
  if blocks.length < 2 ^ 32 then do
    set (blocks ++ [Block.new blockContentSize])
    return blocks.length
  else throw .storageFull

/-- Read bytes from the content of a block. -/
def readContent (id srcOffset count : Nat) : RecordM blockContentSize Bytes := do
  let block ← getBlock id
  if srcOffset + count ≤ blockContentSize then return (block.content.drop srcOffset).take count
  else throw .argumentOutOfRange

/-- Write bytes to the content of a block. -/
def writeContent (id : Nat) (src : Bytes) (dstOffset : Nat) : RecordM blockContentSize Unit :=
  if h : dstOffset + src.length ≤ blockContentSize then
    setBlock id (fun block => block.write dstOffset src h)
  else throw .argumentOutOfRange

section

variable {s : List (Block blockContentSize)} {id : Nat} {block : Block blockContentSize}

/-- Getting a block of the array. -/
theorem getBlock_apply (h : s[id]? = some block) :
  getBlock id s = .ok block s
  := by
  rw [getBlock, EStateM.get_bind_apply, h]
  rfl

/-- A block of the array is found. -/
theorem hasBlock_apply (h : s[id]? = some block) :
  hasBlock id s = .ok true s
  := by
  have hlt := List.getElem?_eq_some_iff.mp h
  rw [hasBlock, EStateM.get_bind_apply, decide_eq_true hlt.1]
  rfl

/-- No block is found behind the end of the array. -/
theorem hasBlock_apply_of_le (h : s.length ≤ id) :
  hasBlock id s = .ok false s
  := by
  rw [hasBlock, EStateM.get_bind_apply, decide_eq_false (Nat.not_lt.mpr h)]
  rfl

/-- Changing a block. -/
theorem setBlock_apply (f : Block blockContentSize → Block blockContentSize) :
  setBlock id f s = .ok ⟨⟩ (s.modify id f)
  := rfl

/-- A block after it was changed. -/
theorem modify_same (f : Block blockContentSize → Block blockContentSize)
    (h : s[id]? = some block) :
  (s.modify id f)[id]? = some (f block)
  := by
  rw [List.getElem?_modify_eq, h]
  rfl

/-- The other blocks after a block was changed. -/
theorem modify_other (f : Block blockContentSize → Block blockContentSize) {j : Nat}
    (h : j ≠ id) :
  (s.modify id f)[j]? = s[j]?
  := List.getElem?_modify_ne f s h.symm

/-- The other blocks after a block was put at the end. -/
theorem getElem?_concat_other (block : Block blockContentSize) {j : Nat} (h : j ≠ s.length) :
  (s ++ [block])[j]? = s[j]?
  := by
  obtain hlt | hgt := Nat.lt_or_gt_of_ne h
  · exact List.getElem?_append_left hlt
  · rw [List.getElem?_eq_none (Nat.le_of_lt hgt), List.getElem?_eq_none]
    rw [List.length_append, List.length_singleton]
    exact hgt

/-- A new block for an array with room. -/
theorem createNew_apply (h : s.length < 2 ^ 32) :
  createNew s = .ok s.length (s ++ [Block.new blockContentSize])
  := by
  rw [createNew, EStateM.get_bind_apply, if_pos h]
  rfl

/-- A full array takes no new block. -/
theorem createNew_full (h : 2 ^ 32 ≤ s.length) :
  createNew s = .error .storageFull s
  := by
  rw [createNew, EStateM.get_bind_apply, if_neg (Nat.not_lt.mpr h)]
  rfl

/-- Reading within the content of a block. -/
theorem readContent_apply {srcOffset count : Nat} (h : s[id]? = some block)
    (hle : srcOffset + count ≤ blockContentSize) :
  readContent id srcOffset count s = .ok ((block.content.drop srcOffset).take count) s
  := by
  rw [readContent, EStateM.bind_apply_of_ok (getBlock_apply h), if_pos hle]
  rfl

/-- Writing within the content of a block. -/
theorem writeContent_apply {src : Bytes} {dstOffset : Nat}
    (hle : dstOffset + src.length ≤ blockContentSize) :
  writeContent id src dstOffset s
    = .ok ⟨⟩ (s.modify id (fun block => block.write dstOffset src hle))
  := by
  rw [writeContent, dif_pos hle]
  rfl

end

/-! ### The blocks of a record -/

/-- Grab the next block of a record; block 0 is created when it never was. -/
def findOrCreate (id : Nat) : RecordM blockContentSize (Block blockContentSize) := do
  if ← hasBlock id then getBlock id
  else if id = 0 then do
    let id ← createNew
    getBlock id
  else throw .blockNotFound

/-- The loop of `findBlocks`, from a block on. -/
def findBlocksFrom : Nat → Nat → RecordM blockContentSize (List Nat)
  | 0, _ => throw .endless
  | fuel + 1, currentBlockId => do
      let block ← findOrCreate currentBlockId
      if block.isDeleted = 1 then throw .invalidData
      else if block.nextBlockId % 2 ^ 32 = 0 then return [currentBlockId]
      else do
        let blocks ← findBlocksFrom fuel (block.nextBlockId % 2 ^ 32)
        return currentBlockId :: blocks

/-- Find all blocks of a record, in order. A chain longer than the array does not end. -/
def findBlocks (recordId : Nat) : RecordM blockContentSize (List Nat) := do
  findBlocksFrom ((← get).length + 1) recordId

/-! ### Space tracking -/

/-- The last block of the space tracking record, and the one before it. -/
def getSpaceTrackingBlock : RecordM blockContentSize (Nat × Option Nat) := do
  let blocks ← findBlocks 0
  match blocks.reverse with
  | [] => throw .blockNotFound
  | lastBlock :: others => return (lastBlock, others.head?)

/-- Write a number behind the content of a block. -/
def appendUInt32ToContent (id value : Nat) : RecordM blockContentSize Unit := do
  let block ← getBlock id
  if block.blockContentLength % 4 ≠ 0 then throw .dataMisaligned
  else writeContent id (Bytes.toLE 4 value) block.blockContentLength

/-- Read the last number of the content of a block. -/
def readUInt32FromTrailingContent (id : Nat) : RecordM blockContentSize Nat := do
  let block ← getBlock id
  if block.blockContentLength % 4 ≠ 0 then throw .dataMisaligned
  else if block.blockContentLength = 0 then throw .invalidData
  else do
    let buffer ← readContent id (block.blockContentLength - 4) 4
    return Bytes.readLE buffer 4

/-- Dequeue the number of a free block. An empty last block of the space tracking record takes
the place of the number that was dequeued from the block before it. -/
def tryFindFreeBlock : RecordM blockContentSize (Option Nat) := do
  let (lastBlock, secondLastBlock) ← getSpaceTrackingBlock
  let currentBlockContentLength := (← getBlock lastBlock).blockContentLength
  if currentBlockContentLength = 0 then
    match secondLastBlock with
    | none => return none
    | some secondLastBlock => do
        let blockId ← readUInt32FromTrailingContent secondLastBlock
        setBlock secondLastBlock
          (fun block => { block with blockContentLength := block.blockContentLength - 4 })
        appendUInt32ToContent secondLastBlock lastBlock
        setBlock secondLastBlock
          (fun block => { block with blockContentLength := block.blockContentLength + 4 })
        setBlock secondLastBlock (fun block => { block with nextBlockId := 0 })
        setBlock lastBlock (fun block => { block with previousBlockId := 0 })
        return some blockId
  else do
    let blockId ← readUInt32FromTrailingContent lastBlock
    setBlock lastBlock
      (fun block => { block with blockContentLength := currentBlockContentLength - 4 })
    return some blockId

/-- A block for use, either one that was free or a new one. -/
def allocateBlock : RecordM blockContentSize Nat := do
  match ← tryFindFreeBlock with
  | none => createNew
  | some reusableBlockId =>
      if ← hasBlock reusableBlockId then do
        setBlock reusableBlockId Block.clear
        return reusableBlockId
      else throw .invalidData

/-- Append the number of a block to the space tracking record, which takes a new block when
its last one is full. -/
def markAsFree (blockId : Nat) : RecordM blockContentSize Unit := do
  let (lastBlock, _) ← getSpaceTrackingBlock
  let contentLength := (← getBlock lastBlock).blockContentLength
  if contentLength + 4 ≤ blockContentSize then do
    appendUInt32ToContent lastBlock blockId
    setBlock lastBlock (fun block => { block with blockContentLength := contentLength + 4 })
  else do
    let targetBlock ← createNew
    setBlock targetBlock (fun block => { block with previousBlockId := lastBlock })
    setBlock lastBlock (fun block => { block with nextBlockId := targetBlock })
    appendUInt32ToContent targetBlock blockId
    setBlock targetBlock (fun block => { block with blockContentLength := 4 })

/-! ### The operations on records -/

/-- The largest record that can be found, 4 MB. -/
def maxRecordSize : Nat := 4194304

/-- The loop of `find`: the data with the contents of the blocks from one on filled in behind
the bytes read. -/
def fillData : Nat → Nat → Bytes → Nat → RecordM blockContentSize Bytes
  | 0, _, _, _ => throw .endless
  | fuel + 1, currentBlock, data, bytesRead => do
      let block ← getBlock currentBlock
      if blockContentSize < block.blockContentLength then throw .invalidData
      else do
        let read ← readContent currentBlock 0 block.blockContentLength
        if data.length < bytesRead + block.blockContentLength then throw .argumentOutOfRange
        else do
          let data := Bytes.overwrite data bytesRead read
          let nextBlockId := block.nextBlockId % 2 ^ 32
          if nextBlockId = 0 then return data
          else if ← hasBlock nextBlockId then
            fillData fuel nextBlockId data (bytesRead + block.blockContentLength)
          else throw .invalidData

/-- The data of a record. The blocks of a chain that ends fill the data or are visited once. -/
def find (recordId : Nat) : RecordM blockContentSize (Option Bytes) := do
  if ← hasBlock recordId then do
    let block ← getBlock recordId
    if block.isDeleted = 1 then return none
    else if block.previousBlockId ≠ 0 then return none
    else if block.recordLength > maxRecordSize then throw .notSupported
    else do
      let fuel := (block.recordLength + 1) * (← get).length + 1
      let data ← fillData fuel recordId (List.replicate block.recordLength 0) 0
      return some data
  else return none

/-- The loop of `create`: the data from its next byte on, written to the current block and to
blocks allocated for it. -/
def writeData : Nat → Nat → Bytes → RecordM blockContentSize Unit
  | 0, _, _ => throw .endless
  | fuel + 1, currentBlock, rest => do
      let thisWrite := min blockContentSize rest.length
      writeContent currentBlock (rest.take thisWrite) 0
      setBlock currentBlock (fun block => { block with blockContentLength := thisWrite })
      if thisWrite < rest.length then do
        let nextBlock ← allocateBlock
        setBlock nextBlock (fun block => { block with previousBlockId := currentBlock })
        setBlock currentBlock (fun block => { block with nextBlockId := nextBlock })
        writeData fuel nextBlock (rest.drop thisWrite)
      else return

/-- A new record with the data that is generated for its number. -/
def createFrom (dataGenerator : Nat → Bytes) : RecordM blockContentSize Nat := do
  let firstBlock ← allocateBlock
  let data := dataGenerator firstBlock
  setBlock firstBlock (fun block => { block with recordLength := data.length })
  if data.length = 0 then return firstBlock
  else do
    writeData data.length firstBlock data
    return firstBlock

/-- A new record with data. -/
def create (data : Bytes) : RecordM blockContentSize Nat :=
  createFrom (fun _ => data)

/-- The loop of `delete`. Where the next block is not found the loop goes on with the current
one, since it is the current one whose presence is checked. -/
def deleteFrom : Nat → Nat → RecordM blockContentSize Unit
  | 0, _ => throw .endless
  | fuel + 1, currentBlock => do
      markAsFree currentBlock
      setBlock currentBlock (fun block => { block with isDeleted := 1 })
      let nextBlockId := (← getBlock currentBlock).nextBlockId % 2 ^ 32
      if nextBlockId = 0 then return
      else if ← hasBlock nextBlockId then deleteFrom fuel nextBlockId
      else deleteFrom fuel currentBlock

/-- Delete a record: its blocks are marked as free one after the other. A chain that goes on
after more blocks than there are in the array does not end before the array is full. -/
def delete (recordId : Nat) : RecordM blockContentSize Unit := do
  if ← hasBlock recordId then do deleteFrom ((← get).length + 1) recordId
  else throw .nullReference

/-- Link a block with the one before it. -/
def linkWith (previousBlock : Option Nat) (target : Nat) : RecordM blockContentSize Unit :=
  match previousBlock with
  | none => return
  | some previousBlock => do
      setBlock previousBlock (fun block => { block with nextBlockId := target })
      setBlock target (fun block => { block with previousBlockId := previousBlock })

/-- The block of a record to write to, which is allocated when the record has no more blocks,
and the blocks of the record with it. -/
def findTarget (blocks : List Nat) (blockIndex : Nat) :
    RecordM blockContentSize (Nat × List Nat) :=
  match blocks[blockIndex]? with
  | some target => return (target, blocks)
  | none => do
      let target ← allocateBlock
      return (target, blocks ++ [target])

/-- Link a block with the one before it and write bytes to it. The first block gets the length
of the record. -/
def writeTarget (previousBlock : Option Nat) (target : Nat) (bytes : Bytes)
    (written total : Nat) : RecordM blockContentSize Unit := do
  linkWith previousBlock target
  writeContent target bytes 0
  setBlock target (fun block =>
    { block with blockContentLength := bytes.length, nextBlockId := 0 })
  if written = 0 then setBlock target (fun block => { block with recordLength := total })
  else return

/-- The loop of `update`: the data from the byte `written` on, to the blocks of the record and
to blocks allocated behind them. It gives the blocks and how many of them were used. -/
def overwriteBlocks (data : Bytes) :
    Nat → List Nat → Nat → Nat → Option Nat → RecordM blockContentSize (List Nat × Nat)
  | 0, _, _, _, _ => throw .endless
  | fuel + 1, blocks, written, blocksUsed, previousBlock =>
      if written < data.length then do
        let bytesToWrite := min (data.length - written) blockContentSize
        let (target, blocks) ← findTarget blocks (written / blockContentSize)
        writeTarget previousBlock target ((data.drop written).take bytesToWrite) written
          data.length
        overwriteBlocks data fuel blocks (written + bytesToWrite) (blocksUsed + 1) (some target)
      else return (blocks, blocksUsed)

/-- Mark blocks as free, one after the other. -/
def markAllAsFree : List Nat → RecordM blockContentSize Unit
  | [] => return
  | id :: ids => do
      markAsFree id
      markAllAsFree ids

/-- Update a record: its blocks are written again, and those that are not used are marked as
free. -/
def update (recordId : Nat) (data : Bytes) : RecordM blockContentSize Unit := do
  let blocks ← findBlocks recordId
  let (blocks, blocksUsed) ← overwriteBlocks data (data.length + 1) blocks 0 0 none
  markAllAsFree (blocks.drop blocksUsed)

end Datatent.Records
