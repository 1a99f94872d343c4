import Mathlib.Data.UInt

/-!
# Constants

The sizes of pages, blocks, documents and their headers.
-/

namespace Datatent.Constants

/-- The size of the document area of a page. -/
def PAGE_SIZE : UInt32 := 64000

/-- The size of the header of a page. -/
def PAGE_HEADER_SIZE : UInt32 := 92

/-- The size of a page together with its header. -/
def PAGE_SIZE_INCL_HEADER : UInt32 := PAGE_HEADER_SIZE + PAGE_SIZE

/-- The number of pages of a data block. -/
def PAGES_PER_DATA_BLOCK : UInt32 := 100

/-- The size of the pages of a data block. -/
def DATA_BLOCK_SIZE : UInt32 := PAGES_PER_DATA_BLOCK * PAGE_SIZE_INCL_HEADER

/-- The size of the header of the database. -/
def DATABASE_HEADER_SIZE : UInt32 := 2048

/-- The size of the informations about the pipeline of a database. -/
def DATABASE_PIPELINE_INFORMATIONS_LENGTH : UInt32 := 320

/-- The size of the header of a block. -/
def BLOCK_HEADER_SIZE : UInt32 := 92

/-- The size of a data block together with its header. -/
def DATA_BLOCK_SIZE_INCL_HEADER : UInt32 := BLOCK_HEADER_SIZE + DATA_BLOCK_SIZE

/-- The size of a block together with its header. -/
def BLOCK_SIZE_INCL_HEADER : UInt32 := DATA_BLOCK_SIZE_INCL_HEADER

/-- The size of the header of a document. -/
def DOCUMENT_HEADER_SIZE : UInt32 := 48

/-! ### The sizes as numbers -/

@[simp]
theorem PAGE_SIZE_toNat :
  PAGE_SIZE.toNat = 64000
  := rfl

@[simp]
theorem PAGE_HEADER_SIZE_toNat :
  PAGE_HEADER_SIZE.toNat = 92
  := rfl

@[simp]
theorem PAGE_SIZE_INCL_HEADER_toNat :
  PAGE_SIZE_INCL_HEADER.toNat = 64092
  := rfl

@[simp]
theorem PAGES_PER_DATA_BLOCK_toNat :
  PAGES_PER_DATA_BLOCK.toNat = 100
  := rfl

@[simp]
theorem DATA_BLOCK_SIZE_toNat :
  DATA_BLOCK_SIZE.toNat = 6409200
  := rfl

@[simp]
theorem DATABASE_HEADER_SIZE_toNat :
  DATABASE_HEADER_SIZE.toNat = 2048
  := rfl

@[simp]
theorem DATABASE_PIPELINE_INFORMATIONS_LENGTH_toNat :
  DATABASE_PIPELINE_INFORMATIONS_LENGTH.toNat = 320
  := rfl

@[simp]
theorem BLOCK_HEADER_SIZE_toNat :
  BLOCK_HEADER_SIZE.toNat = 92
  := rfl

@[simp]
theorem BLOCK_SIZE_INCL_HEADER_toNat :
  BLOCK_SIZE_INCL_HEADER.toNat = 6409292
  := rfl

@[simp]
theorem DOCUMENT_HEADER_SIZE_toNat :
  DOCUMENT_HEADER_SIZE.toNat = 48
  := rfl

end Datatent.Constants
