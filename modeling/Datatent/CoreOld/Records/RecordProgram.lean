import Datatent.CoreOld.Block.BlockObjects
import Datatent.CoreOld.Records.RecordStorage

/-!
# The record storage over block objects

The methods of `RecordStorage` as they are written against the interfaces of the block storage:
blocks are objects that are found or created, whose header fields are numbers of 64 bits, and
which are disposed of when a method is done with them, whether it returns or throws. A number of
a block is the one of its object.
-/

namespace Datatent.RecordStorage

open Blocks

/-- What the methods throw of their own. An array cannot have a negative length (`overflow`). -/
inductive RecordFault where
  | exception (e : Records.RecordException)
  | overflow
deriving DecidableEq

/-- Programs of the record storage. -/
abbrev RecordProgram (α : Type) : Type :=
  BlockProgram RecordFault α

def kNextBlockId : Int := 0
def kRecordLength : Int := 1
def kBlockContentLength : Int := 2
def kPreviousBlockId : Int := 3
def kIsDeleted : Int := 4

/-- How often a loop over the blocks of a record goes round at most before it is taken for one
that does not come to an end: there are fewer ids of blocks. -/
def maxRounds : Nat := 2 ^ 32 + 1

/-! ### The interface of the block storage -/

/-- Throw an exception of the record storage. -/
def throwing {α : Type} (e : Records.RecordException) : RecordProgram α :=
  Program.raise (.client (.exception e))

/-- `storage.Find`. -/
def findBlock (blockId : UInt32) : RecordProgram (Option BlockObject) :=
  Program.perform (ObjectCall.find blockId)

/-- `storage.CreateNew`. -/
def createNew : RecordProgram BlockObject :=
  Program.perform ObjectCall.createNew

/-- `GetHeader` of a block. -/
def getHeader (block : BlockObject) (field : Int) : RecordProgram Int64 :=
  Program.perform (ObjectCall.getHeader block field)

/-- `SetHeader` of a block. -/
def setHeader (block : BlockObject) (field : Int) (value : Int64) : RecordProgram Unit :=
  Program.perform (ObjectCall.setHeader block field value)

/-- `Read` of a block. -/
def readContent (block : BlockObject) (dst : Bytes) (dstOffset srcOffset count : Int) :
    RecordProgram Bytes :=
  Program.perform (ObjectCall.read block dst dstOffset srcOffset count)

/-- `Write` of a block. -/
def writeContent (block : BlockObject) (src : Bytes) (srcOffset dstOffset count : Int) :
    RecordProgram Unit :=
  Program.perform (ObjectCall.write block src srcOffset dstOffset count)

/-- `Dispose` of a block. -/
def dispose (block : BlockObject) : RecordProgram Unit :=
  Program.perform (ObjectCall.dispose block)

/-- `using`: the block is disposed of in any case. -/
def disposing {α : Type} (block : BlockObject) (body : RecordProgram α) : RecordProgram α :=
  body.ensure (dispose block)

/-- `using` of a block that there may not be. -/
def disposingOption {α : Type} (block : Option BlockObject) (body : RecordProgram α) :
    RecordProgram α :=
  match block with
  | some block => disposing block body
  | none => body

/-- Dispose of blocks one after the other. -/
def disposeAll : List BlockObject → RecordProgram Unit
  | [] => return
  | block :: blocks => do
      dispose block
      disposeAll blocks

/-- A number of 64 bits as one of 32 bits without a sign. -/
def uint (value : Int64) : UInt32 :=
  UInt32.ofNat value.toUInt64.toNat

/-! ### The blocks of a record -/

/-- Grab the next block of a record; block 0 is created when it never was. -/
def findOrCreate (currentBlockId : UInt32) : RecordProgram BlockObject := do
  match ← findBlock currentBlockId with
  | some block => return block
  | none => if currentBlockId = 0 then createNew else throwing .blockNotFound

/-- The number of the block behind one that is not deleted. -/
def nextBlockOf (block : BlockObject) : RecordProgram UInt32 := do
  let isDeleted ← getHeader block kIsDeleted
  if isDeleted = 1 then throwing .invalidData
  else do
    let nextBlockId ← getHeader block kNextBlockId
    return uint nextBlockId

/-- The loop of `FindBlocks`, with the blocks that were fetched before: all blocks fetched, and
whether it comes to an end without throwing. -/
def findBlocksFrom : Nat → UInt32 → List BlockObject →
    RecordProgram (List BlockObject × Except (ClientException RecordFault) Unit)
  | 0, _, blocks => return (blocks, .error (.client (.exception .endless)))
  | rounds + 1, currentBlockId, blocks => do
      match ← (findOrCreate currentBlockId).attempt with
      | .error e => return (blocks, .error e)
      | .ok block =>
          match ← (nextBlockOf block).attempt with
          | .error e => return (blocks ++ [block], .error e)
          | .ok nextBlockId =>
              if nextBlockId = 0 then return (blocks ++ [block], .ok ())
              else findBlocksFrom rounds nextBlockId (blocks ++ [block])

/-- All blocks of a record, in order. Where it throws, the blocks fetched are disposed of. -/
def findBlocks (recordId : UInt32) : RecordProgram (List BlockObject) := do
  let (blocks, result) ← findBlocksFrom maxRounds recordId []
  match result with
  | .ok _ => return blocks
  | .error e => do
      disposeAll blocks
      Program.raise e

/-! ### Space tracking -/

/-- The last block of the space tracking record, and the one before it. The others are disposed
of. -/
def getSpaceTrackingBlock : RecordProgram (BlockObject × Option BlockObject) := do
  let blocks ← findBlocks 0
  match blocks.reverse with
  | [] => throwing .blockNotFound
  | lastBlock :: others => do
      let secondLastBlock := others.head?
      disposeAll (blocks.filter fun block => block ≠ lastBlock ∧ some block ≠ secondLastBlock)
      return (lastBlock, secondLastBlock)

/-- Write a number behind the content of a block. -/
def appendUInt32ToContent (block : BlockObject) (value : UInt32) : RecordProgram Unit := do
  let contentLength ← getHeader block kBlockContentLength
  if contentLength % 4 ≠ 0 then throwing .dataMisaligned
  else writeContent block (Bytes.toLE 4 value.toNat) 0 (int contentLength.toInt) 4

/-- Read the last number of the content of a block. -/
def readUInt32FromTrailingContent (block : BlockObject) : RecordProgram UInt32 := do
  let contentLength ← getHeader block kBlockContentLength
  if contentLength % 4 ≠ 0 then throwing .dataMisaligned
  else if contentLength = 0 then throwing .invalidData
  else do
    let buffer ← readContent block (List.replicate 4 0) 0 (int (int contentLength.toInt - 4)) 4
    return UInt32.ofNat (Bytes.readLE buffer 4)

/-- Dequeue the number of a free block. An empty last block of the space tracking record takes
the place of the number that was dequeued from the block before it. -/
def tryFindFreeBlock : RecordProgram (Option UInt32) := do
  let (lastBlock, secondLastBlock) ← getSpaceTrackingBlock
  disposing lastBlock <| disposingOption secondLastBlock do
    let currentBlockContentLength ← getHeader lastBlock kBlockContentLength
    if currentBlockContentLength = 0 then
      match secondLastBlock with
      | none => return none
      | some secondLastBlock => do
          let blockId ← readUInt32FromTrailingContent secondLastBlock
          let contentLength ← getHeader secondLastBlock kBlockContentLength
          setHeader secondLastBlock kBlockContentLength (contentLength - 4)
          appendUInt32ToContent secondLastBlock lastBlock.id
          let contentLength ← getHeader secondLastBlock kBlockContentLength
          setHeader secondLastBlock kBlockContentLength (contentLength + 4)
          setHeader secondLastBlock kNextBlockId 0
          setHeader lastBlock kPreviousBlockId 0
          return some blockId
    else do
      let blockId ← readUInt32FromTrailingContent lastBlock
      setHeader lastBlock kBlockContentLength (currentBlockContentLength - 4)
      return some blockId

/-- A block for use, either one that was free or a new one. -/
def allocateBlock : RecordProgram BlockObject := do
  match ← tryFindFreeBlock with
  | none => createNew
  | some reusableBlockId =>
      match ← findBlock reusableBlockId with
      | none => throwing .invalidData
      | some newBlock => do
          setHeader newBlock kBlockContentLength 0
          setHeader newBlock kNextBlockId 0
          setHeader newBlock kPreviousBlockId 0
          setHeader newBlock kRecordLength 0
          setHeader newBlock kIsDeleted 0
          return newBlock

section

variable (blockContentSize : Nat)

/-- Append the number of a block to the space tracking record, which takes a new block when
its last one is full. -/
def markAsFree (blockId : UInt32) : RecordProgram Unit := do
  let (lastBlock, secondLastBlock) ← getSpaceTrackingBlock
  disposing lastBlock <| disposingOption secondLastBlock do
    let contentLength ← getHeader lastBlock kBlockContentLength
    if (contentLength + 4).toInt ≤ blockContentSize then
      disposing lastBlock do
        appendUInt32ToContent lastBlock blockId
        setHeader lastBlock kBlockContentLength (contentLength + 4)
    else do
      let targetBlock ← createNew
      disposing targetBlock do
        setHeader targetBlock kPreviousBlockId (Int64.ofNat lastBlock.id.toNat)
        setHeader lastBlock kNextBlockId (Int64.ofNat targetBlock.id.toNat)
        appendUInt32ToContent targetBlock blockId
        setHeader targetBlock kBlockContentLength 4

/-! ### The operations on records -/

/-- The loop of `Find`: the data with the contents of the blocks from one on filled in behind
the bytes read. Each block is disposed of before the next one is looked for. -/
def fillData : Nat → BlockObject → Bytes → Int → RecordProgram Bytes
  | 0, _, _, _ => throwing .endless
  | rounds + 1, currentBlock, data, bytesRead => do
      let (data, bytesRead, nextBlockId) ← disposing currentBlock do
        let thisBlockContentLength ← getHeader currentBlock kBlockContentLength
        if blockContentSize < thisBlockContentLength.toInt then throwing .invalidData
        else do
          let count := int thisBlockContentLength.toInt
          let data ← readContent currentBlock data bytesRead 0 count
          let nextBlockId ← getHeader currentBlock kNextBlockId
          return (data, int (bytesRead + count), uint nextBlockId)
      if nextBlockId = 0 then return data
      else do
        match ← findBlock nextBlockId with
        | none => throwing .invalidData
        | some currentBlock => fillData rounds currentBlock data bytesRead

/-- The data of a record. -/
def find (recordId : UInt32) : RecordProgram (Option Bytes) := do
  match ← findBlock recordId with
  | none => return none
  | some block => disposing block do
      let isDeleted ← getHeader block kIsDeleted
      if isDeleted = 1 then return none
      else do
        let previousBlockId ← getHeader block kPreviousBlockId
        if previousBlockId ≠ 0 then return none
        else do
          let totalRecordSize ← getHeader block kRecordLength
          if totalRecordSize.toInt > Records.maxRecordSize then throwing .notSupported
          else if totalRecordSize.toInt < 0 then Program.raise (.client .overflow)
          else do
            let data ← fillData blockContentSize maxRounds block
              (List.replicate totalRecordSize.toInt.toNat 0) 0
            return some data

/-- The loop of `Create`: the data from the byte `dataWritten` on, written to the current block
and to blocks allocated for it. -/
def writeData (data : Bytes) : Nat → BlockObject → Nat → RecordProgram Unit
  | 0, _, _ => throwing .endless
  | rounds + 1, currentBlock, dataWritten => do
      let thisWrite := min blockContentSize (data.length - dataWritten)
      let nextBlock ← disposing currentBlock do
        writeContent currentBlock data dataWritten 0 thisWrite
        setHeader currentBlock kBlockContentLength (Int64.ofNat thisWrite)
        if dataWritten + thisWrite < data.length then do
          let nextBlock ← allocateBlock
          Program.onError
            (do
              setHeader nextBlock kPreviousBlockId (Int64.ofNat currentBlock.id.toNat)
              setHeader currentBlock kNextBlockId (Int64.ofNat nextBlock.id.toNat))
            (dispose nextBlock)
          return some nextBlock
        else return none
      match nextBlock with
      | none => return
      | some nextBlock => writeData data rounds nextBlock (dataWritten + thisWrite)

/-- A new record with the data that is generated for its number. -/
def createFrom (dataGenerator : UInt32 → Bytes) : RecordProgram UInt32 := do
  let firstBlock ← allocateBlock
  disposing firstBlock do
    let data := dataGenerator firstBlock.id
    setHeader firstBlock kRecordLength (Int64.ofNat data.length)
    if data.length = 0 then return firstBlock.id
    else do
      writeData blockContentSize data maxRounds firstBlock 0
      return firstBlock.id

/-- A new record with data. -/
def create (data : Bytes) : RecordProgram UInt32 :=
  createFrom blockContentSize (fun _ => data)

/-- A new record without data. -/
def createEmpty : RecordProgram UInt32 := do
  let firstBlock ← allocateBlock
  disposing firstBlock do
    return firstBlock.id

/-- The loop of `Delete`. Where the next block is not found the loop goes on with the current
one, which has been disposed of. -/
def deleteFrom : Nat → BlockObject → RecordProgram Unit
  | 0, _ => throwing .endless
  | rounds + 1, currentBlock => do
      let nextBlock ← disposing currentBlock do
        markAsFree blockContentSize currentBlock.id
        setHeader currentBlock kIsDeleted 1
        let nextBlockId ← getHeader currentBlock kNextBlockId
        if uint nextBlockId = 0 then return none
        else do
          let nextBlock ← findBlock (uint nextBlockId)
          return some (nextBlock.getD currentBlock)
      match nextBlock with
      | none => return
      | some nextBlock => deleteFrom rounds nextBlock

/-- Delete a record: its blocks are marked as free one after the other. -/
def delete (recordId : UInt32) : RecordProgram Unit := do
  match ← findBlock recordId with
  | none => throwing .nullReference
  | some block => disposing block (deleteFrom blockContentSize maxRounds block)

/-- The block of a record to write to, which is allocated when the record has no more blocks,
and the blocks of the record with it. -/
def findTarget (blocks : List BlockObject) (blockIndex : Nat) :
    RecordProgram (BlockObject × List BlockObject) :=
  match blocks[blockIndex]? with
  | some target => return (target, blocks)
  | none => do
      let target ← allocateBlock
      return (target, blocks ++ [target])

/-- Link a block with the one before it and write bytes to it. The first block gets the length
of the record. -/
def writeTarget (data : Bytes) (previousBlock : Option BlockObject) (target : BlockObject)
    (written bytesToWrite : Nat) : RecordProgram Unit := do
  match previousBlock with
  | none => pure ()
  | some previousBlock => do
      setHeader previousBlock kNextBlockId (Int64.ofNat target.id.toNat)
      setHeader target kPreviousBlockId (Int64.ofNat previousBlock.id.toNat)
  writeContent target data written 0 bytesToWrite
  setHeader target kBlockContentLength (Int64.ofNat bytesToWrite)
  setHeader target kNextBlockId 0
  if written = 0 then setHeader target kRecordLength (Int64.ofNat data.length)
  else return

/-- The loop of `Update`: the data from the byte `written` on, to the blocks of the record and
to blocks allocated behind them. It gives the blocks, and how many of them were used or what was
thrown. -/
def overwriteBlocks (data : Bytes) : Nat → List BlockObject → Nat → Nat → Option BlockObject →
    RecordProgram (List BlockObject × Except (ClientException RecordFault) Nat)
  | 0, blocks, _, _, _ => return (blocks, .error (.client (.exception .endless)))
  | rounds + 1, blocks, written, blocksUsed, previousBlock =>
      if written < data.length then do
        let bytesToWrite := min (data.length - written) blockContentSize
        match ← (findTarget blocks (written / blockContentSize)).attempt with
        | .error e => return (blocks, .error e)
        | .ok (target, blocks) =>
            match ← (writeTarget data previousBlock target written bytesToWrite).attempt with
            | .error e => return (blocks, .error e)
            | .ok _ =>
                overwriteBlocks data rounds blocks (written + bytesToWrite) (blocksUsed + 1)
                  (some target)
      else return (blocks, .ok blocksUsed)

/-- Mark blocks as free, one after the other. -/
def markAllAsFree : List BlockObject → RecordProgram Unit
  | [] => return
  | block :: blocks => do
      markAsFree blockContentSize block.id
      markAllAsFree blocks

/-- Update a record: its blocks are written again, and those that are not used are marked as
free. All its blocks are disposed of in any case. -/
def update (recordId : UInt32) (data : Bytes) : RecordProgram Unit := do
  let blocks ← findBlocks recordId
  let (blocks, result) ← overwriteBlocks blockContentSize data maxRounds blocks 0 0 none
  let result ← match result with
    | .ok blocksUsed => (markAllAsFree blockContentSize (blocks.drop blocksUsed)).attempt
    | .error e => pure (.error e)
  disposeAll blocks
  match result with
  | .ok _ => return
  | .error e => Program.raise e

end

end Datatent.RecordStorage
