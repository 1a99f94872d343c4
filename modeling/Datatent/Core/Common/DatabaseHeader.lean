import Datatent.Core.IO.SpanExtensions
import Datatent.Library.Layout
import Datatent.Shared.DataFileStream

/-!
# The database header

The header of a database tells which services its data went through. It is a structure with
explicit layout, and so is the part that holds the identifiers of the services; both are written
to the front of the data file as they lie in memory.
-/

namespace Datatent

open Constants

/-- A globally unique identifier. -/
structure Guid where
  bytes : Bytes
  size : bytes.length = 16
deriving DecidableEq

/-- A service that serializes items. -/
structure IItemSerializerService where
  identifier : Guid

/-- A service that encrypts. -/
structure IEncryptionService where
  identifier : Guid

/-- A service that compresses. -/
structure ICompressionService where
  identifier : Guid

/-- The identifiers of the services of a pipeline. -/
structure DataProcessingInformations where
  bytes : Bytes
  size : bytes.length = DATABASE_PIPELINE_INFORMATIONS_LENGTH.toNat

/-- The header of a database. -/
structure DatabaseHeader where
  bytes : Bytes
  size : bytes.length = DATABASE_HEADER_SIZE.toNat

namespace DataProcessingInformations

/-- The first byte of the identifier of the serializer service. -/
def SERIALIZER_SERVICE_ID : Nat := 0

/-- The first byte of the identifier of the encryption service. -/
def ENCRYPTION_SERVICE_ID : Nat := 15

/-- The first byte of the identifier of the compression service. -/
def COMPRESSION_SERVICE_ID : Nat := 29

/-- The identifier at an offset. -/
def guidAt (informations : DataProcessingInformations) (offset : Nat) (h : offset + 16 ≤ 320) :
    Guid where
  bytes := (informations.bytes.drop offset).take 16
  size := by
    have hsize := informations.size
    rw [DATABASE_PIPELINE_INFORMATIONS_LENGTH_toNat] at hsize
    rw [List.length_take, List.length_drop]
    omega

def serializerServiceId (informations : DataProcessingInformations) : Guid :=
  informations.guidAt SERIALIZER_SERVICE_ID (by decide)

def encryptionServiceId (informations : DataProcessingInformations) : Guid :=
  informations.guidAt ENCRYPTION_SERVICE_ID (by decide)

def compressionServiceId (informations : DataProcessingInformations) : Guid :=
  informations.guidAt COMPRESSION_SERVICE_ID (by decide)

/-- The assignments of the constructor. The identifier of the compression service is taken from
the encryption service. -/
def assignments (serializerService : IItemSerializerService)
    (encryptionService : IEncryptionService) (_compressionService : ICompressionService) :
    List Layout.Field :=
  [⟨SERIALIZER_SERVICE_ID, serializerService.identifier.bytes⟩,
    ⟨ENCRYPTION_SERVICE_ID, encryptionService.identifier.bytes⟩,
    ⟨COMPRESSION_SERVICE_ID, encryptionService.identifier.bytes⟩]

/-- The assignments stay within the structure. -/
theorem assignments_le (serializerService : IItemSerializerService)
    (encryptionService : IEncryptionService) (compressionService : ICompressionService) :
  ∀ f ∈ assignments serializerService encryptionService compressionService,
    f.offset + f.value.length ≤ (List.replicate 320 (0 : UInt8)).length
  := by
  have hs := serializerService.identifier.size
  have he := encryptionService.identifier.size
  intro f hf
  rw [List.length_replicate]
  simp only [assignments, SERIALIZER_SERVICE_ID, ENCRYPTION_SERVICE_ID, COMPRESSION_SERVICE_ID,
    List.mem_cons, List.not_mem_nil, or_false] at hf
  rcases hf with rfl | rfl | rfl
  · dsimp only
    omega
  · dsimp only
    omega
  · dsimp only
    omega

/-- The informations about three services. -/
def create (serializerService : IItemSerializerService) (encryptionService : IEncryptionService)
    (compressionService : ICompressionService) : DataProcessingInformations where
  bytes := Layout.assignAll (List.replicate 320 0)
    (assignments serializerService encryptionService compressionService)
  size := by
    rw [Layout.length_assignAll (assignments_le _ _ _), List.length_replicate]
    rfl

/-! ### The identifiers that are read back -/

/-- The bytes at an offset are those of an identifier when its field holds it. -/
theorem guidAt_eq_iff (informations : DataProcessingInformations) {offset : Nat}
    (h : offset + 16 ≤ 320) (id : Guid) :
  informations.guidAt offset h = id ↔ Layout.Holds informations.bytes ⟨offset, id.bytes⟩
  := by
  obtain ⟨bytes, size⟩ := id
  rw [guidAt, Guid.mk.injEq, Layout.Holds, size]

section Create

variable (serializerService : IItemSerializerService) (encryptionService : IEncryptionService)
  (compressionService : ICompressionService)

/-- The serializer and the encryption service agree when the byte their identifiers share
does. -/
theorem agree_serializer_iff :
  Layout.Agree ⟨SERIALIZER_SERVICE_ID, serializerService.identifier.bytes⟩
      ⟨ENCRYPTION_SERVICE_ID, encryptionService.identifier.bytes⟩
    ↔ serializerService.identifier.bytes[15]? = encryptionService.identifier.bytes[0]?
  := by
  have hs := serializerService.identifier.size
  have he := encryptionService.identifier.size
  constructor
  · intro h
    apply h 15 0
    · dsimp only
      omega
    · dsimp only
      omega
    · rfl
  · intro h i j hi hj hij
    dsimp only [SERIALIZER_SERVICE_ID, ENCRYPTION_SERVICE_ID] at hi hj hij
    obtain rfl : i = 15 := by omega
    obtain rfl : j = 0 := by omega
    exact h

/-- An identifier agrees with itself in the fields of the encryption and the compression service
when its last two bytes are its first ones. -/
theorem agree_encryption_iff :
  Layout.Agree ⟨ENCRYPTION_SERVICE_ID, encryptionService.identifier.bytes⟩
      ⟨COMPRESSION_SERVICE_ID, encryptionService.identifier.bytes⟩
    ↔ encryptionService.identifier.bytes[14]? = encryptionService.identifier.bytes[0]?
      ∧ encryptionService.identifier.bytes[15]? = encryptionService.identifier.bytes[1]?
  := by
  have he := encryptionService.identifier.size
  constructor
  · intro h
    constructor
    · apply h 14 0
      · dsimp only
        omega
      · dsimp only
        omega
      · rfl
    · apply h 15 1
      · dsimp only
        omega
      · dsimp only
        omega
      · rfl
  · rintro ⟨hfirst, hsecond⟩ i j hi hj hij
    dsimp only [ENCRYPTION_SERVICE_ID, COMPRESSION_SERVICE_ID] at hi hj hij
    rcases Nat.lt_or_ge i 15 with hlt | hge
    · obtain rfl : i = 14 := by omega
      obtain rfl : j = 0 := by omega
      exact hfirst
    · obtain rfl : i = 15 := by omega
      obtain rfl : j = 1 := by omega
      exact hsecond

/-- The identifier of the compression service is read as that of the encryption service. -/
theorem compressionServiceId_create :
  (create serializerService encryptionService compressionService).compressionServiceId
    = encryptionService.identifier
  := by
  have hlast : assignments serializerService encryptionService compressionService
      = [⟨SERIALIZER_SERVICE_ID, serializerService.identifier.bytes⟩,
          ⟨ENCRYPTION_SERVICE_ID, encryptionService.identifier.bytes⟩]
        ++ [⟨COMPRESSION_SERVICE_ID, encryptionService.identifier.bytes⟩] := rfl
  have hfits := assignments_le serializerService encryptionService compressionService
  rw [hlast] at hfits
  apply (guidAt_eq_iff _ _ _).mpr
  exact Layout.holds_assignAll_concat hfits

/-- The identifiers of the serializer and the encryption service are read back when the bytes
that the fields share agree, and only then. -/
theorem serviceIds_create_iff :
  (create serializerService encryptionService compressionService).serializerServiceId
        = serializerService.identifier
      ∧ (create serializerService encryptionService compressionService).encryptionServiceId
        = encryptionService.identifier
    ↔ serializerService.identifier.bytes[15]? = encryptionService.identifier.bytes[0]?
      ∧ encryptionService.identifier.bytes[14]? = encryptionService.identifier.bytes[0]?
      ∧ encryptionService.identifier.bytes[15]? = encryptionService.identifier.bytes[1]?
  := by
  have hall := Layout.forall_holds_iff_agree
    (assignments_le serializerService encryptionService compressionService)
  have hlast := (guidAt_eq_iff _ _ _).mp
    (compressionServiceId_create serializerService encryptionService compressionService)
  have hfirst : Layout.Agree ⟨SERIALIZER_SERVICE_ID, serializerService.identifier.bytes⟩
      ⟨COMPRESSION_SERVICE_ID, encryptionService.identifier.bytes⟩ := by
    apply Layout.agree_of_disjoint
    left
    change 0 + serializerService.identifier.bytes.length ≤ 29
    rw [serializerService.identifier.size]
    decide
  rw [serializerServiceId, encryptionServiceId, guidAt_eq_iff, guidAt_eq_iff,
    ← agree_serializer_iff, ← agree_encryption_iff]
  constructor
  · rintro ⟨hserializer, hencryption⟩
    exact ⟨hserializer.agree hencryption, hencryption.agree hlast⟩
  · rintro ⟨hserializer, hencryption⟩
    have hholds := hall.mpr
      (by
        simp only [assignments, List.forall_mem_cons, List.not_mem_nil, false_implies,
          implies_true, and_true]
        exact ⟨⟨.refl _, hserializer, hfirst⟩, ⟨hserializer.symm, .refl _, hencryption⟩,
          hfirst.symm, hencryption.symm, .refl _⟩)
    constructor
    · apply hholds
      simp [assignments]
    · apply hholds
      simp [assignments]

end Create

end DataProcessingInformations

namespace DatabaseHeader

/-- The first byte of the identifier of the file format. -/
def IDENTIFIER : Nat := 0

/-- The first byte of the version. -/
def VERSION : Nat := 2

/-- The first byte of the informations about the pipeline. -/
def DATA_PROCESSING_INFORMATIONS : Nat := 4

def identifier (header : DatabaseHeader) : UInt16 :=
  Span.readUInt16 header.bytes IDENTIFIER

def version (header : DatabaseHeader) : UInt16 :=
  Span.readUInt16 header.bytes VERSION

def dataProcessingInformations (header : DatabaseHeader) : DataProcessingInformations where
  bytes := (header.bytes.drop DATA_PROCESSING_INFORMATIONS).take 320
  size := by
    have hsize := header.size
    rw [DATABASE_HEADER_SIZE_toNat] at hsize
    rw [List.length_take, List.length_drop, DATABASE_PIPELINE_INFORMATIONS_LENGTH_toNat,
      DATA_PROCESSING_INFORMATIONS]
    omega

/-- The assignments of the constructor; the identifier is the character `D`. -/
def assignments (version : UInt16) (informations : DataProcessingInformations) :
    List Layout.Field :=
  [⟨IDENTIFIER, Bytes.toLE 2 0x44⟩, ⟨VERSION, Bytes.toLE 2 version.toNat⟩,
    ⟨DATA_PROCESSING_INFORMATIONS, informations.bytes⟩]

/-- The assignments stay within the header. -/
theorem assignments_le (version : UInt16) (informations : DataProcessingInformations) :
  ∀ f ∈ assignments version informations,
    f.offset + f.value.length ≤ (List.replicate 2048 (0 : UInt8)).length
  := by
  have hsize := informations.size
  rw [DATABASE_PIPELINE_INFORMATIONS_LENGTH_toNat] at hsize
  intro f hf
  rw [List.length_replicate]
  simp only [assignments, IDENTIFIER, VERSION, DATA_PROCESSING_INFORMATIONS,
    List.mem_cons, List.not_mem_nil, or_false] at hf
  rcases hf with rfl | rfl | rfl
  · dsimp only
    rw [Bytes.length_toLE]
    decide
  · dsimp only
    rw [Bytes.length_toLE]
    decide
  · dsimp only
    omega

/-- The header of a database with the given version and pipeline. -/
def create (version : UInt16) (informations : DataProcessingInformations) :
    DatabaseHeader where
  bytes := Layout.assignAll (List.replicate 2048 0) (assignments version informations)
  size := by
    rw [Layout.length_assignAll (assignments_le _ _), List.length_replicate]
    rfl

/-- The header at the front of a span. -/
def read (span : Bytes) : Except Fault DatabaseHeader :=
  if h : span.length < DATABASE_HEADER_SIZE.toNat then .error .argumentOutOfRange
  else .ok
    { bytes := span.take DATABASE_HEADER_SIZE.toNat
      size := by
        rw [List.length_take]
        omega }

end DatabaseHeader

namespace DatabaseHeader

/-- The version and the pipeline of a header are read back. -/
theorem fields_create (version : UInt16) (informations : DataProcessingInformations) :
  (create version informations).version = version
    ∧ (create version informations).dataProcessingInformations = informations
  := by
  have hsize := informations.size
  rw [DATABASE_PIPELINE_INFORMATIONS_LENGTH_toNat] at hsize
  have hholds := (Layout.forall_holds_iff_agree (assignments_le version informations)).mpr
    (by
      simp only [assignments, List.forall_mem_cons, List.not_mem_nil, false_implies,
        implies_true, and_true]
      refine ⟨⟨.refl _, ?_, ?_⟩, ⟨?_, .refl _, ?_⟩, ?_, ?_, .refl _⟩
      · exact Layout.agree_of_disjoint (.inl (Nat.le_refl 2))
      · exact Layout.agree_of_disjoint (.inl (Nat.le_add_right 2 2))
      · exact Layout.agree_of_disjoint (.inr (Nat.le_refl 2))
      · exact Layout.agree_of_disjoint (.inl (Nat.le_refl 4))
      · exact Layout.agree_of_disjoint (.inr (Nat.le_add_right 2 2))
      · exact Layout.agree_of_disjoint (.inr (Nat.le_refl 4)))
  constructor
  · have hversion := hholds ⟨VERSION, Bytes.toLE 2 version.toNat⟩ (by simp [assignments])
    rw [Layout.holds_toLE_iff _ version.toNat_lt] at hversion
    · apply UInt16.toNat_inj.mp
      rw [DatabaseHeader.version, Span.readUInt16_toNat]
      exact hversion
    · rw [Layout.length_assignAll (assignments_le version informations), List.length_replicate]
      decide
  · have hinformations := hholds ⟨DATA_PROCESSING_INFORMATIONS, informations.bytes⟩
      (by simp [assignments])
    rw [Layout.Holds, hsize] at hinformations
    obtain ⟨bytes, size⟩ := informations
    rw [dataProcessingInformations, DataProcessingInformations.mk.injEq]
    exact hinformations

end DatabaseHeader

namespace FileSystemService

/-- Write the header of the database to the front of the data file. -/
def writeDatabaseHeader (databaseHeader : DatabaseHeader) (stream : DataFileStream) :
    Except Fault DataFileStream := do
  let headerBytes := List.replicate DATABASE_HEADER_SIZE.toNat (0 : UInt8)
  let stream := { stream with position := 0 }
  let headerBytes ← Span.writeStruct headerBytes databaseHeader.bytes
  let headerBytes ← Span.sliceFirst headerBytes (toInt DATABASE_HEADER_SIZE)
  return (stream.write headerBytes).flush

/-- Read the header of the database from the front of the data file. -/
def readDatabaseHeader (stream : DataFileStream) :
    Except Fault (DatabaseHeader × DataFileStream) := do
  let headerBytes := List.replicate DATABASE_HEADER_SIZE.toNat (0 : UInt8)
  let stream := { stream with position := 0 }
  let (transferred, stream) := stream.read headerBytes.length
  let header ← DatabaseHeader.read (Bytes.overwrite headerBytes 0 transferred)
  return (header, stream)

/-- A header that is written is read back. -/
theorem readDatabaseHeader_write (databaseHeader : DatabaseHeader) (stream : DataFileStream) :
  ∃ stream' stream'', writeDatabaseHeader databaseHeader stream = .ok stream'
    ∧ readDatabaseHeader stream' = .ok (databaseHeader, stream'')
  := by
  obtain ⟨bytes, size⟩ := databaseHeader
  rw [DATABASE_HEADER_SIZE_toNat] at size
  have hzeros : (List.replicate 2048 (0 : UInt8)).length = 2048 := List.length_replicate
  have hstruct : Span.writeStruct (List.replicate 2048 0) bytes = .ok bytes := by
    rw [Span.writeStruct, if_neg (by omega), Bytes.overwrite_all (by omega)]
  have hslice : Span.sliceFirst bytes (toInt DATABASE_HEADER_SIZE) = .ok bytes := by
    apply Span.sliceFirst_eq_ok_iff.mpr
    refine ⟨2048, rfl, by omega, ?_⟩
    rw [List.take_of_length_le (by omega)]
  have hwrite : writeDatabaseHeader ⟨bytes, size⟩ stream
      = .ok ({ stream with position := 0 }.write bytes) := by
    simp only [writeDatabaseHeader, DATABASE_HEADER_SIZE_toNat, hstruct, Except.ok_bind, hslice]
    rfl
  have hfront : ({ stream with position := 0 }.write bytes).bytes.take 2048 = bytes := by
    rw [DataFileStream.write]
    dsimp only
    rw [if_neg]
    · rw [Bytes.overwrite, List.take_zero, List.nil_append, ← size, List.take_left]
    · rw [List.isEmpty_iff]
      rintro rfl
      cases size
  refine ⟨_, { bytes := ({ stream with position := 0 }.write bytes).bytes
               position := 0 + bytes.length }, hwrite, ?_⟩
  simp only [readDatabaseHeader, DATABASE_HEADER_SIZE_toNat, DataFileStream.read, hzeros,
    List.drop_zero, hfront, Bytes.overwrite_all (size.trans hzeros.symm)]
  rw [DatabaseHeader.read, dif_neg (by rw [DATABASE_HEADER_SIZE_toNat]; omega), Except.ok_bind]
  simp only [DATABASE_HEADER_SIZE_toNat, List.take_of_length_le (Nat.le_of_eq size)]
  rfl

/-- The header that is written for a version and three services and read back has the version
and identifies the services. -/
def IdentifiesPipeline (version : UInt16) (serializerService : IItemSerializerService)
    (encryptionService : IEncryptionService) (compressionService : ICompressionService)
    (stream : DataFileStream) : Prop :=
  ∃ stream' header stream'',
    writeDatabaseHeader (.create version
        (.create serializerService encryptionService compressionService)) stream = .ok stream'
      ∧ readDatabaseHeader stream' = .ok (header, stream'')
      ∧ header.version = version
      ∧ header.dataProcessingInformations.serializerServiceId = serializerService.identifier
      ∧ header.dataProcessingInformations.encryptionServiceId = encryptionService.identifier
      ∧ header.dataProcessingInformations.compressionServiceId = compressionService.identifier

/-- The header identifies the pipeline when the compression and the encryption service have one
identifier and the bytes that the fields share agree, and only then. -/
theorem identifiesPipeline_iff (version : UInt16) (serializerService : IItemSerializerService)
    (encryptionService : IEncryptionService) (compressionService : ICompressionService)
    (stream : DataFileStream) :
  IdentifiesPipeline version serializerService encryptionService compressionService stream
    ↔ compressionService.identifier = encryptionService.identifier
      ∧ serializerService.identifier.bytes[15]? = encryptionService.identifier.bytes[0]?
      ∧ encryptionService.identifier.bytes[14]? = encryptionService.identifier.bytes[0]?
      ∧ encryptionService.identifier.bytes[15]? = encryptionService.identifier.bytes[1]?
  := by
  obtain ⟨stream₁, stream₂, hwrite, hread⟩ := readDatabaseHeader_write
    (.create version (.create serializerService encryptionService compressionService)) stream
  obtain ⟨hversion, hinformations⟩ := DatabaseHeader.fields_create version
    (.create serializerService encryptionService compressionService)
  have hcompression := DataProcessingInformations.compressionServiceId_create
    serializerService encryptionService compressionService
  rw [← DataProcessingInformations.serviceIds_create_iff _ _ compressionService]
  constructor
  · rintro ⟨stream', header, stream'', hwrite', hread', -, hs, he, hc⟩
    rw [hwrite] at hwrite'
    cases hwrite'
    rw [hread] at hread'
    cases hread'
    rw [hinformations] at hs he hc
    exact ⟨hc.symm.trans hcompression, hs, he⟩
  · rintro ⟨hc, hs, he⟩
    refine ⟨stream₁, _, stream₂, hwrite, hread, hversion, ?_⟩
    rw [hinformations, hc]
    exact ⟨hs, he, hcompression⟩

/-- Three services of which the identifiers are filled with one, two and three. -/
theorem not_identifiesPipeline :
  ¬ IdentifiesPipeline 1 ⟨⟨List.replicate 16 1, rfl⟩⟩ ⟨⟨List.replicate 16 2, rfl⟩⟩
    ⟨⟨List.replicate 16 3, rfl⟩⟩ ⟨[], 0⟩
  := by
  rintro ⟨stream', header, stream'', hwrite, hread, -, -, -, hc⟩
  obtain ⟨stream₁, stream₂, hwrite', hread'⟩ := readDatabaseHeader_write
    (.create 1 (.create ⟨⟨List.replicate 16 1, rfl⟩⟩ ⟨⟨List.replicate 16 2, rfl⟩⟩
      ⟨⟨List.replicate 16 3, rfl⟩⟩)) ⟨[], 0⟩
  rw [hwrite] at hwrite'
  cases hwrite'
  rw [hread] at hread'
  cases hread'
  rw [(DatabaseHeader.fields_create _ _).2,
    DataProcessingInformations.compressionServiceId_create] at hc
  revert hc
  decide

end FileSystemService

end Datatent
