import Datatent.Library.Bytes
import Datatent.Library.Except

/-!
# The serializer of nodes

A node is written as the id of its parent, the numbers of its entries and of its children, its
entries and the ids of its children. The keys and values are written by serializers of their
own; a key that has no fixed size is written behind its length. A node is read back from what
it was written as.
-/

namespace Datatent.BTree

/-- The exceptions of the serializer and of the disk node manager. A record storage throws
`recordNotFound` and `storageFull`. -/
inductive DiskException where
  | argument
  | argumentOutOfRange
  | nullReference
  | notSupported
  | nodeTooLarge
  | streamTooLong
  | recordNotFound
  | storageFull
deriving DecidableEq, Repr

/-- A serializer of keys or values. -/
structure ISerializer (α : Type) where
  serialize : α → Bytes
  deserialize : Bytes → Nat → Nat → Except DiskException α
  isFixedSize : Bool
  length : Nat

/-- What a serializer promises: it reads a value back from where it was written, values of
fixed size have the length it gives, and all have the length of an array. -/
structure ISerializer.RoundTrips {α : Type} (serializer : ISerializer α) : Prop where
  deserialize_serialize : ∀ (x : α) (before after : Bytes),
    serializer.deserialize (before ++ (serializer.serialize x ++ after)) before.length
      (serializer.serialize x).length = .ok x
  length_serialize : serializer.isFixedSize = true →
    ∀ x, (serializer.serialize x).length = serializer.length
  serialize_lt : ∀ x, (serializer.serialize x).length < 2 ^ 31

/-- What a serializer does: it keeps its promises, and values of fixed size take some bytes. -/
structure ISerializer.Lawful {α : Type} (serializer : ISerializer α) : Prop
    extends serializer.RoundTrips where
  length_pos : serializer.isFixedSize = true → 0 < serializer.length

/-- The fields of a node on disk. -/
structure DiskNode (K V : Type) where
  parentId : UInt32
  entries : List (K × V)
  childrenIds : List UInt32
deriving DecidableEq

/-! ### Buffers -/

/-- `Buffer.BlockCopy`: the destination after the copy. -/
abbrev blockCopy (src : Bytes) (srcOffset : Int) (dst : Bytes) (dstOffset count : Int) :
    Except DiskException Bytes :=
  Bytes.blockCopy .argumentOutOfRange .argument src srcOffset dst dstOffset count

/-- Write a number to a buffer. -/
def writeUInt32 (value : UInt32) (buffer : Bytes) (bufferOffset : Nat) :
    Except DiskException Bytes :=
  blockCopy (Bytes.toLE 4 value.toNat) 0 buffer bufferOffset 4

/-- Read a number from a buffer. -/
def readUInt32 (buffer : Bytes) (bufferOffset : Nat) : Except DiskException UInt32 :=
  if buffer.length < bufferOffset + 4 then .error .argument
  else .ok (UInt32.ofNat (Bytes.readLE (buffer.drop bufferOffset) 4))

namespace TreeDiskNodeSerializer

variable {K V : Type} (keySerializer : ISerializer K) (valueSerializer : ISerializer V)

/-! ### Keys of fixed size -/

/-- The length of an entry. -/
def entrySize : Nat := keySerializer.length + valueSerializer.length

/-- Write the entries from the `i`th one on. -/
def writeEntries : Nat → List (K × V) → Bytes → Except DiskException Bytes
  | _, [], buffer => .ok buffer
  | i, entry :: entries, buffer => do
      let offset := 12 + i * entrySize keySerializer valueSerializer
      let buffer ← blockCopy (keySerializer.serialize entry.1) 0 buffer offset
        keySerializer.length
      let buffer ← blockCopy (valueSerializer.serialize entry.2) 0 buffer
        (offset + keySerializer.length) valueSerializer.length
      writeEntries (i + 1) entries buffer

/-- Write the ids of the children from the `i`th one on. -/
def writeChildren (offset : Nat) : Nat → List UInt32 → Bytes → Except DiskException Bytes
  | _, [], buffer => .ok buffer
  | i, childId :: childrenIds, buffer => do
      let buffer ← writeUInt32 childId buffer (offset + i * 4)
      writeChildren offset (i + 1) childrenIds buffer

/-- Write a node whose keys and values have fixed sizes. -/
def fixedLengthSerialize (node : DiskNode K V) : Except DiskException Bytes := do
  let size := 16 + node.entries.length * entrySize keySerializer valueSerializer
    + node.childrenIds.length * 4
  if size ≥ 1024 * 64 then .error .nodeTooLarge
  else
    let buffer := List.replicate size 0
    let buffer ← writeUInt32 node.parentId buffer 0
    let buffer ← writeUInt32 (UInt32.ofNat node.entries.length) buffer 4
    let buffer ← writeUInt32 (UInt32.ofNat node.childrenIds.length) buffer 8
    let buffer ← writeEntries keySerializer valueSerializer 0 node.entries buffer
    writeChildren (12 + entrySize keySerializer valueSerializer * node.entries.length) 0
      node.childrenIds buffer

/-- Read a number of entries from the `i`th one on. -/
def readEntries (buffer : Bytes) : Nat → Nat → Except DiskException (List (K × V))
  | _, 0 => .ok []
  | i, count + 1 => do
      let offset := 12 + i * entrySize keySerializer valueSerializer
      let key ← keySerializer.deserialize buffer offset keySerializer.length
      let value ← valueSerializer.deserialize buffer (offset + keySerializer.length)
        valueSerializer.length
      let entries ← readEntries buffer (i + 1) count
      return (key, value) :: entries

/-- Read a number of ids of children from the `i`th one on. -/
def readChildren (buffer : Bytes) (offset : Nat) : Nat → Nat → Except DiskException (List UInt32)
  | _, 0 => .ok []
  | i, count + 1 => do
      let childId ← readUInt32 buffer (offset + i * 4)
      let childrenIds ← readChildren buffer offset (i + 1) count
      return childId :: childrenIds

/-- Read a node whose keys and values have fixed sizes. -/
def fixedLengthDeserialize (buffer : Bytes) : Except DiskException (DiskNode K V) := do
  let parentId ← readUInt32 buffer 0
  let entriesCount ← readUInt32 buffer 4
  let childrenCount ← readUInt32 buffer 8
  let entries ← readEntries keySerializer valueSerializer buffer 0 entriesCount.toNat
  let childrenIds ← readChildren buffer
    (12 + entrySize keySerializer valueSerializer * entriesCount.toNat) 0 childrenCount.toNat
  return { parentId := parentId, entries := entries, childrenIds := childrenIds }

/-! ### Keys of variable size -/

/-- Write a node whose keys have no fixed size. A memory stream holds fewer than `2 ^ 31`
bytes. -/
def variableKeyLengthSerialize (node : DiskNode K V) : Except DiskException Bytes :=
  let stream := Bytes.toLE 4 node.parentId.toNat
    ++ (Bytes.toLE 4 (UInt32.ofNat node.entries.length).toNat
    ++ (Bytes.toLE 4 (UInt32.ofNat node.childrenIds.length).toNat
    ++ (node.entries.flatMap (fun entry =>
        Bytes.toLE 4 (keySerializer.serialize entry.1).length
          ++ (keySerializer.serialize entry.1 ++ valueSerializer.serialize entry.2))
    ++ node.childrenIds.flatMap (fun childId => Bytes.toLE 4 childId.toNat))))
  if stream.length < 2 ^ 31 then .ok stream
  else .error .streamTooLong

/-- Read a number of entries from a position on. The result holds the position behind them. -/
def readVariableEntries (buffer : Bytes) : Nat → Nat → Except DiskException (List (K × V) × Nat)
  | p, 0 => .ok ([], p)
  | p, count + 1 => do
      let keyLength ← readUInt32 buffer p
      if keyLength.toNat < 2 ^ 31 then
        let key ← keySerializer.deserialize buffer (p + 4) keyLength.toNat
        let value ← valueSerializer.deserialize buffer (p + 4 + keyLength.toNat)
          valueSerializer.length
        let (entries, p) ← readVariableEntries buffer
          (p + 4 + keyLength.toNat + valueSerializer.length) count
        return ((key, value) :: entries, p)
      else
        .error .argument

/-- Read a node whose keys have no fixed size. -/
def variableKeyLengthDeserialize (buffer : Bytes) : Except DiskException (DiskNode K V) := do
  let parentId ← readUInt32 buffer 0
  let entriesCount ← readUInt32 buffer 4
  let childrenCount ← readUInt32 buffer 8
  let (entries, p) ← readVariableEntries keySerializer valueSerializer buffer 12
    entriesCount.toNat
  let childrenIds ← readChildren buffer p 0 childrenCount.toNat
  return { parentId := parentId, entries := entries, childrenIds := childrenIds }

/-! ### Nodes -/

/-- Write a node. -/
def serialize (node : DiskNode K V) : Except DiskException Bytes :=
  if keySerializer.isFixedSize && valueSerializer.isFixedSize then
    fixedLengthSerialize keySerializer valueSerializer node
  else if valueSerializer.isFixedSize then
    variableKeyLengthSerialize keySerializer valueSerializer node
  else .error .notSupported

/-- Read a node. -/
def deserialize (record : Bytes) : Except DiskException (DiskNode K V) :=
  if keySerializer.isFixedSize && valueSerializer.isFixedSize then
    fixedLengthDeserialize keySerializer valueSerializer record
  else if valueSerializer.isFixedSize then
    variableKeyLengthDeserialize keySerializer valueSerializer record
  else .error .notSupported

/-- Read a node and give it the assigned id. -/
def deserializeAs (assignId : UInt32) (record : Bytes) :
    Except DiskException (UInt32 × DiskNode K V) := do
  let fields ← deserialize keySerializer valueSerializer record
  return (assignId, fields)

/-! ### Reading what was written -/

section Buffers

variable {before after : Bytes}

/-- A copy to the place behind the front of a buffer. -/
theorem blockCopy_append {src : Bytes} {count : Nat} (hcount : src.length = count)
    (hroom : count ≤ after.length) :
  blockCopy src 0 (before ++ after) before.length count
    = .ok (before ++ (src ++ after.drop count))
  := by
  subst hcount
  apply Eq.trans (Bytes.blockCopy_eq src (before ++ after) 0 before.length src.length (by omega)
    (by rw [List.length_append]; omega))
  rw [List.drop_zero, List.take_length, Bytes.overwrite_append_right (Nat.le_refl _),
    Nat.sub_self, Bytes.overwrite, List.take_zero, List.nil_append, Nat.zero_add]
  rfl

/-- A number is written to the place behind the front of a buffer. -/
theorem writeUInt32_append (before after : Bytes) (value : UInt32) (hroom : 4 ≤ after.length) :
  writeUInt32 value (before ++ after) before.length
    = .ok (before ++ (Bytes.toLE 4 value.toNat ++ after.drop 4))
  := blockCopy_append (Bytes.length_toLE _ _) hroom

/-- A number is read from where it was written. -/
theorem readUInt32_append (before after : Bytes) (value : UInt32) :
  readUInt32 (before ++ (Bytes.toLE 4 value.toNat ++ after)) before.length = .ok value
  := by
  have hlength := Bytes.length_toLE 4 value.toNat
  have hlt : value.toNat < 256 ^ 4 := UInt32.toNat_lt value
  rw [readUInt32, if_neg (by rw [List.length_append, List.length_append]; omega), List.drop_left,
    Bytes.readLE_toLE_append, Nat.mod_eq_of_lt hlt, UInt32.ofNat_toNat]

end Buffers

/-- A number of elements that an array can have. -/
theorem toNat_ofNat_of_lt {n : Nat} (h : n < 2 ^ 32) :
  (UInt32.ofNat n).toNat = n
  := UInt32.toNat_ofNat_of_lt' h

section RoundTrip

variable {K V : Type} {keySerializer : ISerializer K} {valueSerializer : ISerializer V}

/-- The bytes of an entry of fixed size. -/
def entryBytes (keySerializer : ISerializer K) (valueSerializer : ISerializer V)
    (entry : K × V) : Bytes :=
  keySerializer.serialize entry.1 ++ valueSerializer.serialize entry.2

/-- The bytes of the ids of children. -/
def childrenBytes (childrenIds : List UInt32) : Bytes :=
  childrenIds.flatMap (fun childId => Bytes.toLE 4 childId.toNat)

theorem length_childrenBytes (childrenIds : List UInt32) :
  (childrenBytes childrenIds).length = childrenIds.length * 4
  := by
  induction childrenIds with
  | nil => rfl
  | cons childId childrenIds ih =>
      rw [childrenBytes, List.flatMap_cons, List.length_append, Bytes.length_toLE,
        ← childrenBytes, ih, List.length_cons]
      omega

/-- The ids of the children are written behind the front of a buffer. -/
theorem writeChildren_append {offset : Nat} :
  ∀ (childrenIds : List UInt32) (i : Nat) {before after : Bytes},
    before.length = offset + i * 4 → childrenIds.length * 4 ≤ after.length →
      writeChildren offset i childrenIds (before ++ after)
        = .ok (before ++ (childrenBytes childrenIds ++ after.drop (childrenIds.length * 4)))
  | [], _, _, _, _, _ => by
      rw [writeChildren, List.length_nil, Nat.zero_mul, List.drop_zero]
      rfl
  | childId :: childrenIds, i, before, after, hbefore, hroom => by
      rw [List.length_cons] at hroom
      have hfront : (before ++ Bytes.toLE 4 childId.toNat).length = offset + (i + 1) * 4 := by
        rw [List.length_append, Bytes.length_toLE]
        omega
      have hrest : childrenIds.length * 4 ≤ (after.drop 4).length := by
        rw [List.length_drop]
        omega
      have hdrop : (childId :: childrenIds).length * 4 = 4 + childrenIds.length * 4 := by
        rw [List.length_cons]
        omega
      rw [writeChildren, ← hbefore, writeUInt32_append before after childId (by omega),
        Except.ok_bind, ← List.append_assoc,
        writeChildren_append childrenIds (i + 1) hfront hrest, childrenBytes, childrenBytes,
        List.flatMap_cons, List.append_assoc, List.append_assoc, List.drop_drop,
        hdrop]

/-- The ids of the children are read from where they were written. -/
theorem readChildren_append {offset : Nat} (after : Bytes) :
  ∀ (childrenIds : List UInt32) (i : Nat) {before : Bytes},
    before.length = offset + i * 4 →
      readChildren (before ++ (childrenBytes childrenIds ++ after)) offset i childrenIds.length
        = .ok childrenIds
  | [], _, _, _ => rfl
  | childId :: childrenIds, i, before, hbefore => by
      have hfront : (before ++ Bytes.toLE 4 childId.toNat).length = offset + (i + 1) * 4 := by
        rw [List.length_append, Bytes.length_toLE]
        omega
      have hbytes : before ++ (childrenBytes (childId :: childrenIds) ++ after)
          = before ++ (Bytes.toLE 4 childId.toNat ++ (childrenBytes childrenIds ++ after)) := by
        rw [childrenBytes, childrenBytes, List.flatMap_cons, List.append_assoc]
      rw [List.length_cons, readChildren, hbytes, ← hbefore, readUInt32_append, Except.ok_bind,
        ← List.append_assoc, readChildren_append after childrenIds (i + 1) hfront]
      rfl

/-- The bytes in front of the entries. -/
def headerBytes (node : DiskNode K V) : Bytes :=
  Bytes.toLE 4 node.parentId.toNat
    ++ (Bytes.toLE 4 (UInt32.ofNat node.entries.length).toNat
    ++ Bytes.toLE 4 (UInt32.ofNat node.childrenIds.length).toNat)

theorem length_headerBytes (node : DiskNode K V) :
  (headerBytes node).length = 12
  := by
  rw [headerBytes, List.length_append, List.length_append, Bytes.length_toLE, Bytes.length_toLE,
    Bytes.length_toLE]

/-- The fields in front of the entries are read from where they were written. -/
theorem readUInt32_headerBytes (node : DiskNode K V) (rest : Bytes) :
  readUInt32 (headerBytes node ++ rest) 0 = .ok node.parentId
    ∧ readUInt32 (headerBytes node ++ rest) 4 = .ok (UInt32.ofNat node.entries.length)
    ∧ readUInt32 (headerBytes node ++ rest) 8 = .ok (UInt32.ofNat node.childrenIds.length)
  := by
  obtain ⟨first, hfirst⟩ : ∃ first, Bytes.toLE 4 node.parentId.toNat = first := ⟨_, rfl⟩
  obtain ⟨second, hsecond⟩ :
      ∃ second, Bytes.toLE 4 (UInt32.ofNat node.entries.length).toNat = second := ⟨_, rfl⟩
  have hfirstLength : first.length = 4 := hfirst ▸ Bytes.length_toLE _ _
  have hsecondLength : (first ++ second).length = 8 := by
    rw [List.length_append, hfirstLength, ← hsecond, Bytes.length_toLE]
  refine ⟨?_, ?_, ?_⟩
  · rw [headerBytes, List.append_assoc]
    exact readUInt32_append [] _ node.parentId
  · have hread := readUInt32_append first
      (Bytes.toLE 4 (UInt32.ofNat node.childrenIds.length).toNat ++ rest)
      (UInt32.ofNat node.entries.length)
    rw [hfirstLength] at hread
    rw [headerBytes, hfirst, List.append_assoc, List.append_assoc]
    exact hread
  · have hread := readUInt32_append (first ++ second) rest
      (UInt32.ofNat node.childrenIds.length)
    rw [hsecondLength, List.append_assoc] at hread
    rw [headerBytes, hfirst, hsecond, List.append_assoc, List.append_assoc]
    exact hread

/-- A node of fixed size that is written is smaller than a block of 64 KiB. -/
theorem size_lt_of_serialize {node : DiskNode K V} {bytes : Bytes}
    (hbytes : fixedLengthSerialize keySerializer valueSerializer node = .ok bytes) :
  16 + node.entries.length * entrySize keySerializer valueSerializer
    + node.childrenIds.length * 4 < 1024 * 64
  := by
  by_contra hge
  rw [fixedLengthSerialize, if_pos (by omega)] at hbytes
  cases hbytes

section FixedLength

variable (hkey : keySerializer.RoundTrips) (hvalue : valueSerializer.RoundTrips)
  (hkeySize : keySerializer.isFixedSize = true) (hvalueSize : valueSerializer.isFixedSize = true)

include hkey hvalue hkeySize hvalueSize

theorem length_entryBytes (entry : K × V) :
  (entryBytes keySerializer valueSerializer entry).length
    = entrySize keySerializer valueSerializer
  := by
  rw [entryBytes, List.length_append, hkey.length_serialize hkeySize,
    hvalue.length_serialize hvalueSize, entrySize]

theorem length_entriesBytes (entries : List (K × V)) :
  (entries.flatMap (entryBytes keySerializer valueSerializer)).length
    = entries.length * entrySize keySerializer valueSerializer
  := by
  induction entries with
  | nil => exact (Nat.zero_mul _).symm
  | cons entry entries ih =>
      rw [List.flatMap_cons, List.length_append, ih,
        length_entryBytes hkey hvalue hkeySize hvalueSize, List.length_cons, Nat.add_mul,
        Nat.one_mul, Nat.add_comm]

/-- The entries are written behind the front of a buffer. -/
theorem writeEntries_append :
  ∀ (entries : List (K × V)) (i : Nat) {before after : Bytes},
    before.length = 12 + i * entrySize keySerializer valueSerializer →
      entries.length * entrySize keySerializer valueSerializer ≤ after.length →
      writeEntries keySerializer valueSerializer i entries (before ++ after)
        = .ok (before ++ (entries.flatMap (entryBytes keySerializer valueSerializer)
            ++ after.drop (entries.length * entrySize keySerializer valueSerializer)))
  | [], _, _, _, _, _ => by
      rw [writeEntries, List.length_nil, Nat.zero_mul, List.drop_zero]
      rfl
  | entry :: entries, i, before, after, hbefore, hroom => by
      obtain ⟨size, hsize⟩ : ∃ size, entrySize keySerializer valueSerializer = size := ⟨_, rfl⟩
      have hkeyLength := hkey.length_serialize hkeySize entry.1
      have hvalueLength := hvalue.length_serialize hvalueSize entry.2
      have hentry := length_entryBytes hkey hvalue hkeySize hvalueSize entry
      have hparts : keySerializer.length + valueSerializer.length = size := hsize
      rw [hsize] at hbefore hroom hentry
      rw [List.length_cons, Nat.add_mul, Nat.one_mul] at hroom
      have hmiddle : (before ++ keySerializer.serialize entry.1).length
          = before.length + keySerializer.length := by
        rw [List.length_append, hkeyLength]
      have hfront : (before ++ entryBytes keySerializer valueSerializer entry).length
          = 12 + (i + 1) * entrySize keySerializer valueSerializer := by
        rw [List.length_append, hentry, hsize, Nat.add_mul, Nat.one_mul]
        omega
      have hvalueRoom : valueSerializer.length ≤ (after.drop keySerializer.length).length := by
        rw [List.length_drop]
        omega
      have hrest : entries.length * entrySize keySerializer valueSerializer
          ≤ ((after.drop keySerializer.length).drop valueSerializer.length).length := by
        rw [List.length_drop, List.length_drop, hsize]
        omega
      have hdrop : (entry :: entries).length * size
          = keySerializer.length + (valueSerializer.length + entries.length * size) := by
        rw [List.length_cons, Nat.add_mul, Nat.one_mul]
        omega
      rw [writeEntries, hsize, ← hbefore, blockCopy_append hkeyLength (by omega), Except.ok_bind,
        ← List.append_assoc, ← Nat.cast_add, ← hmiddle, blockCopy_append hvalueLength hvalueRoom,
        Except.ok_bind, ← List.append_assoc, List.append_assoc before, ← entryBytes,
        writeEntries_append entries (i + 1) hfront hrest, List.flatMap_cons, List.append_assoc,
        List.append_assoc, List.drop_drop, List.drop_drop, hsize, hdrop]

/-- The entries are read from where they were written. -/
theorem readEntries_append (after : Bytes) :
  ∀ (entries : List (K × V)) (i : Nat) {before : Bytes},
    before.length = 12 + i * entrySize keySerializer valueSerializer →
      readEntries keySerializer valueSerializer
          (before ++ (entries.flatMap (entryBytes keySerializer valueSerializer) ++ after)) i
          entries.length
        = .ok entries
  | [], _, _, _ => rfl
  | entry :: entries, i, before, hbefore => by
      have hkeyLength := hkey.length_serialize hkeySize entry.1
      have hvalueLength := hvalue.length_serialize hvalueSize entry.2
      have hentry := length_entryBytes hkey hvalue hkeySize hvalueSize entry
      obtain ⟨rest, hrest⟩ : ∃ rest, entries.flatMap (entryBytes keySerializer valueSerializer)
          ++ after = rest := ⟨_, rfl⟩
      have hbytes : before ++ ((entry :: entries).flatMap
            (entryBytes keySerializer valueSerializer) ++ after)
          = before ++ (keySerializer.serialize entry.1
            ++ (valueSerializer.serialize entry.2 ++ rest)) := by
        rw [List.flatMap_cons, List.append_assoc, hrest, entryBytes, List.append_assoc]
      have hmiddle : (before ++ keySerializer.serialize entry.1).length
          = before.length + keySerializer.length := by
        rw [List.length_append, hkeyLength]
      have hfront : (before ++ entryBytes keySerializer valueSerializer entry).length
          = 12 + (i + 1) * entrySize keySerializer valueSerializer := by
        rw [List.length_append, hentry, hbefore, Nat.add_mul, Nat.one_mul]
        omega
      have hreadKey := hkey.deserialize_serialize entry.1 before
        (valueSerializer.serialize entry.2 ++ rest)
      have hreadValue := hvalue.deserialize_serialize entry.2
        (before ++ keySerializer.serialize entry.1) rest
      have hreadRest := readEntries_append after entries (i + 1) hfront
      rw [hkeyLength] at hreadKey
      rw [hvalueLength, hmiddle, List.append_assoc] at hreadValue
      rw [hrest, entryBytes, List.append_assoc, List.append_assoc] at hreadRest
      rw [List.length_cons, readEntries, hbytes, ← hbefore, hreadKey, Except.ok_bind, hreadValue,
        Except.ok_bind, hreadRest]
      rfl

/-- Where the ids of the children begin. -/
theorem length_header_entries (node : DiskNode K V) :
  (headerBytes node ++ node.entries.flatMap (entryBytes keySerializer valueSerializer)).length
    = 12 + entrySize keySerializer valueSerializer * node.entries.length + 0 * 4
  := by
  rw [List.length_append, length_headerBytes,
    length_entriesBytes hkey hvalue hkeySize hvalueSize, Nat.zero_mul, Nat.add_zero, Nat.mul_comm]

/-- A node of fixed size is written front to back, and 4 bytes are left. -/
theorem fixedLengthSerialize_eq (node : DiskNode K V)
    (hsize : 16 + node.entries.length * entrySize keySerializer valueSerializer
      + node.childrenIds.length * 4 < 1024 * 64) :
  fixedLengthSerialize keySerializer valueSerializer node
    = .ok (headerBytes node
        ++ (node.entries.flatMap (entryBytes keySerializer valueSerializer)
        ++ (childrenBytes node.childrenIds ++ List.replicate 4 0)))
  := by
  obtain ⟨size, hsum⟩ : ∃ size, 16 + node.entries.length * entrySize keySerializer valueSerializer
      + node.childrenIds.length * 4 = size := ⟨_, rfl⟩
  have hfirst := writeUInt32_append [] (List.replicate size 0) node.parentId
    (by rw [List.length_replicate]; omega)
  have hsecond := writeUInt32_append (Bytes.toLE 4 node.parentId.toNat)
    (List.replicate (size - 4) 0) (UInt32.ofNat node.entries.length)
    (by rw [List.length_replicate]; omega)
  have hthird := writeUInt32_append (Bytes.toLE 4 node.parentId.toNat
      ++ Bytes.toLE 4 (UInt32.ofNat node.entries.length).toNat)
    (List.replicate (size - 8) 0) (UInt32.ofNat node.childrenIds.length)
    (by rw [List.length_replicate]; omega)
  simp only [List.nil_append, List.length_nil, List.drop_replicate, List.append_assoc,
    List.length_append, Bytes.length_toLE, Nat.sub_sub, Nat.reduceAdd] at hfirst hsecond hthird
  have hentries : writeEntries keySerializer valueSerializer 0 node.entries
      (headerBytes node ++ List.replicate (size - 12) 0)
        = .ok (headerBytes node
          ++ (node.entries.flatMap (entryBytes keySerializer valueSerializer)
          ++ (List.replicate (size - 12) 0).drop
            (node.entries.length * entrySize keySerializer valueSerializer))) :=
    writeEntries_append hkey hvalue hkeySize hvalueSize node.entries 0
      (by rw [length_headerBytes]; omega) (by rw [List.length_replicate]; omega)
  have hrest : size - 12 - node.entries.length * entrySize keySerializer valueSerializer
      = node.childrenIds.length * 4 + 4 := by omega
  have hlength := length_header_entries hkey hvalue hkeySize hvalueSize node
  have hroom : node.childrenIds.length * 4
      ≤ (List.replicate (node.childrenIds.length * 4 + 4) (0 : UInt8)).length := by
    rw [List.length_replicate]
    omega
  have hchildren := writeChildren_append node.childrenIds 0 hlength hroom
  have hheader : ∀ rest, Bytes.toLE 4 node.parentId.toNat
      ++ (Bytes.toLE 4 (UInt32.ofNat node.entries.length).toNat
      ++ (Bytes.toLE 4 (UInt32.ofNat node.childrenIds.length).toNat ++ rest))
        = headerBytes node ++ rest := by
    intro rest
    rw [headerBytes, List.append_assoc, List.append_assoc]
  rw [fixedLengthSerialize]
  dsimp only
  rw [hsum, if_neg (by omega), hfirst, Except.ok_bind, hsecond, Except.ok_bind, hthird,
    Except.ok_bind, hheader, hentries, Except.ok_bind, List.drop_replicate, hrest,
    ← List.append_assoc, hchildren, List.drop_replicate, Nat.add_sub_cancel_left,
    List.append_assoc]

/-- A node of fixed size is read back from what it was written as. -/
theorem fixedLengthDeserialize_of_serialize {node : DiskNode K V} {bytes : Bytes}
    (hcount : node.entries.length < 2 ^ 32)
    (hbytes : fixedLengthSerialize keySerializer valueSerializer node = .ok bytes) :
  fixedLengthDeserialize keySerializer valueSerializer bytes = .ok node
  := by
  have hlt := size_lt_of_serialize hbytes
  rw [fixedLengthSerialize_eq hkey hvalue hkeySize hvalueSize node hlt] at hbytes
  cases hbytes
  have hentries := toNat_ofNat_of_lt hcount
  have hchildren := toNat_ofNat_of_lt (n := node.childrenIds.length) (by omega)
  have hlength := length_header_entries hkey hvalue hkeySize hvalueSize node
  have hfront : (headerBytes node).length
      = 12 + 0 * entrySize keySerializer valueSerializer := by
    rw [length_headerBytes, Nat.zero_mul]
  have hreadEntries := readEntries_append hkey hvalue hkeySize hvalueSize
    (childrenBytes node.childrenIds ++ List.replicate 4 0) node.entries 0 hfront
  have hreadChildren := readChildren_append (List.replicate 4 0) node.childrenIds 0 hlength
  rw [List.append_assoc] at hreadChildren
  obtain ⟨hparent, hentriesCount, hchildrenCount⟩ := readUInt32_headerBytes node
    (node.entries.flatMap (entryBytes keySerializer valueSerializer)
      ++ (childrenBytes node.childrenIds ++ List.replicate 4 0))
  rw [fixedLengthDeserialize, hparent, Except.ok_bind, hentriesCount, Except.ok_bind,
    hchildrenCount, Except.ok_bind, hentries, hreadEntries, Except.ok_bind, hchildren,
    hreadChildren]
  rfl

end FixedLength

section VariableLength

variable (hkey : keySerializer.RoundTrips) (hvalue : valueSerializer.RoundTrips)
  (hvalueSize : valueSerializer.isFixedSize = true)

/-- The bytes of an entry whose key has no fixed size. -/
def variableEntryBytes (keySerializer : ISerializer K) (valueSerializer : ISerializer V)
    (entry : K × V) : Bytes :=
  Bytes.toLE 4 (keySerializer.serialize entry.1).length
    ++ (keySerializer.serialize entry.1 ++ valueSerializer.serialize entry.2)

/-- An entry takes at least the bytes of the length of its key. -/
theorem length_variableEntriesBytes (keySerializer : ISerializer K)
    (valueSerializer : ISerializer V) (entries : List (K × V)) :
  entries.length * 4
    ≤ (entries.flatMap (variableEntryBytes keySerializer valueSerializer)).length
  := by
  induction entries with
  | nil => exact Nat.le_of_eq (Nat.zero_mul _)
  | cons entry entries ih =>
      rw [List.flatMap_cons, List.length_append, variableEntryBytes, List.length_append,
        Bytes.length_toLE, List.length_cons]
      omega

include hkey hvalue hvalueSize

/-- The entries are read from where they were written. -/
theorem readVariableEntries_append (after : Bytes) :
  ∀ (entries : List (K × V)) (before : Bytes),
    readVariableEntries keySerializer valueSerializer
        (before ++ (entries.flatMap (variableEntryBytes keySerializer valueSerializer) ++ after))
        before.length entries.length
      = .ok (entries, (before
          ++ entries.flatMap (variableEntryBytes keySerializer valueSerializer)).length)
  | [], before => by
      rw [List.flatMap_nil, List.append_nil]
      rfl
  | entry :: entries, before => by
      obtain ⟨keyBytes, hkeyBytes⟩ : ∃ keyBytes, keySerializer.serialize entry.1 = keyBytes :=
        ⟨_, rfl⟩
      obtain ⟨rest, hrest⟩ :
          ∃ rest, entries.flatMap (variableEntryBytes keySerializer valueSerializer) ++ after
            = rest := ⟨_, rfl⟩
      have hkeyLength : (UInt32.ofNat keyBytes.length).toNat = keyBytes.length := by
        have hlt := hkey.serialize_lt entry.1
        rw [hkeyBytes] at hlt
        exact toNat_ofNat_of_lt (by omega)
      have hvalueLength := hvalue.length_serialize hvalueSize entry.2
      have hentry : variableEntryBytes keySerializer valueSerializer entry
          = Bytes.toLE 4 (UInt32.ofNat keyBytes.length).toNat
            ++ (keyBytes ++ valueSerializer.serialize entry.2) := by
        rw [variableEntryBytes, hkeyBytes, hkeyLength]
      obtain ⟨lengthBytes, hlengthBytes⟩ : ∃ lengthBytes,
          Bytes.toLE 4 (UInt32.ofNat keyBytes.length).toNat = lengthBytes := ⟨_, rfl⟩
      have hfour : lengthBytes.length = 4 := hlengthBytes ▸ Bytes.length_toLE _ _
      have hbytes : before ++ ((entry :: entries).flatMap
            (variableEntryBytes keySerializer valueSerializer) ++ after)
          = before ++ (lengthBytes ++ (keyBytes
            ++ (valueSerializer.serialize entry.2 ++ rest))) := by
        rw [List.flatMap_cons, List.append_assoc, hrest, hentry, hlengthBytes, List.append_assoc,
          List.append_assoc]
      have hreadLength := readUInt32_append before
        (keyBytes ++ (valueSerializer.serialize entry.2 ++ rest)) (UInt32.ofNat keyBytes.length)
      have hreadKey := hkey.deserialize_serialize entry.1 (before ++ lengthBytes)
        (valueSerializer.serialize entry.2 ++ rest)
      have hreadValue := hvalue.deserialize_serialize entry.2 (before ++ lengthBytes ++ keyBytes)
        rest
      have hreadRest := readVariableEntries_append after entries
        (before ++ (lengthBytes ++ (keyBytes ++ valueSerializer.serialize entry.2)))
      rw [hlengthBytes] at hreadLength
      rw [hkeyBytes, List.length_append, hfour, List.append_assoc] at hreadKey
      simp only [List.length_append, hfour, hvalueLength, List.append_assoc, ← Nat.add_assoc]
        at hreadValue
      simp only [List.length_append, hfour, hvalueLength, List.append_assoc, hrest,
        ← Nat.add_assoc] at hreadRest
      have hlt := hkey.serialize_lt entry.1
      rw [hkeyBytes] at hlt
      rw [List.length_cons, readVariableEntries, hbytes, hreadLength, Except.ok_bind, hkeyLength,
        if_pos hlt, hreadKey, Except.ok_bind, hreadValue, Except.ok_bind, hreadRest]
      simp only [Except.ok_bind, List.flatMap_cons, hentry, hlengthBytes, List.length_append,
        hfour, hvalueLength, ← Nat.add_assoc]
      rfl

/-- A node whose keys have no fixed size is read back from what it was written as. -/
theorem variableKeyLengthDeserialize_of_serialize {node : DiskNode K V} {bytes : Bytes}
    (hbytes : variableKeyLengthSerialize keySerializer valueSerializer node = .ok bytes) :
  variableKeyLengthDeserialize keySerializer valueSerializer bytes = .ok node
  := by
  have hstream : Bytes.toLE 4 node.parentId.toNat
      ++ (Bytes.toLE 4 (UInt32.ofNat node.entries.length).toNat
      ++ (Bytes.toLE 4 (UInt32.ofNat node.childrenIds.length).toNat
      ++ (node.entries.flatMap (fun entry =>
          Bytes.toLE 4 (keySerializer.serialize entry.1).length
            ++ (keySerializer.serialize entry.1 ++ valueSerializer.serialize entry.2))
      ++ node.childrenIds.flatMap (fun childId => Bytes.toLE 4 childId.toNat))))
        = headerBytes node
          ++ (node.entries.flatMap (variableEntryBytes keySerializer valueSerializer)
          ++ (childrenBytes node.childrenIds ++ [])) := by
    rw [headerBytes, List.append_assoc, List.append_assoc, List.append_nil]
    rfl
  rw [variableKeyLengthSerialize, hstream] at hbytes
  split at hbytes
  · rename_i hlt
    cases hbytes
    have hcount := length_variableEntriesBytes keySerializer valueSerializer node.entries
    simp only [List.length_append, length_headerBytes, length_childrenBytes] at hlt
    have hentries := toNat_ofNat_of_lt (n := node.entries.length) (by omega)
    have hchildren := toNat_ofNat_of_lt (n := node.childrenIds.length) (by omega)
    have hreadEntries := readVariableEntries_append hkey hvalue hvalueSize
      (childrenBytes node.childrenIds ++ []) node.entries (headerBytes node)
    have hbehind : (headerBytes node
        ++ node.entries.flatMap (variableEntryBytes keySerializer valueSerializer)).length
          = (headerBytes node
            ++ node.entries.flatMap (variableEntryBytes keySerializer valueSerializer)).length
              + 0 * 4 := rfl
    have hreadChildren := readChildren_append [] node.childrenIds 0 hbehind
    rw [List.append_assoc] at hreadChildren
    rw [length_headerBytes] at hreadEntries
    obtain ⟨hparent, hentriesCount, hchildrenCount⟩ := readUInt32_headerBytes node
      (node.entries.flatMap (variableEntryBytes keySerializer valueSerializer)
        ++ (childrenBytes node.childrenIds ++ []))
    rw [variableKeyLengthDeserialize, hparent, Except.ok_bind, hentriesCount, Except.ok_bind,
      hchildrenCount, Except.ok_bind, hentries, hreadEntries, Except.ok_bind, hchildren]
    dsimp only
    rw [hreadChildren]
    rfl
  · cases hbytes

end VariableLength

/-- A node is read back from what it was written as, where the number of its entries is one of
an array. -/
theorem deserialize_of_roundTrips (hkey : keySerializer.RoundTrips)
    (hvalue : valueSerializer.RoundTrips) {node : DiskNode K V} {bytes : Bytes}
    (hcount : (keySerializer.isFixedSize && valueSerializer.isFixedSize) = true →
      node.entries.length < 2 ^ 32)
    (hbytes : serialize keySerializer valueSerializer node = .ok bytes) :
  deserialize keySerializer valueSerializer bytes = .ok node
  := by
  rw [serialize] at hbytes
  rw [deserialize]
  by_cases hsizes : (keySerializer.isFixedSize && valueSerializer.isFixedSize) = true
  · rw [if_pos hsizes] at hbytes ⊢
    have hcount := hcount hsizes
    rw [Bool.and_eq_true] at hsizes
    exact fixedLengthDeserialize_of_serialize hkey hvalue hsizes.1 hsizes.2 hcount hbytes
  · rw [if_neg hsizes] at hbytes ⊢
    split at hbytes
    · rename_i hvalueSize
      rw [if_pos hvalueSize]
      exact variableKeyLengthDeserialize_of_serialize hkey hvalue hvalueSize hbytes
    · cases hbytes

/-- A node is read back from what it was written as. -/
theorem deserialize_of_serialize (hkey : keySerializer.Lawful) (hvalue : valueSerializer.Lawful)
    {node : DiskNode K V} {bytes : Bytes}
    (hbytes : serialize keySerializer valueSerializer node = .ok bytes) :
  deserialize keySerializer valueSerializer bytes = .ok node
  := by
  apply deserialize_of_roundTrips hkey.toRoundTrips hvalue.toRoundTrips _ hbytes
  intro hsizes
  rw [serialize, if_pos hsizes] at hbytes
  rw [Bool.and_eq_true] at hsizes
  have hlt := size_lt_of_serialize hbytes
  have hpos : 0 < entrySize keySerializer valueSerializer := by
    have hkeyPos := hkey.length_pos hsizes.1
    rw [entrySize]
    omega
  have hle := Nat.le_mul_of_pos_right node.entries.length hpos
  omega

/-- A record that is too short for the fields in front of the entries is not read. -/
theorem deserialize_short (hvalueSize : valueSerializer.isFixedSize = true) {bytes : Bytes}
    (hshort : bytes.length = 4) :
  deserialize keySerializer valueSerializer bytes = .error .argument
  := by
  have hparent : ∃ parentId, readUInt32 bytes 0 = .ok parentId := by
    rw [readUInt32, if_neg (by omega)]
    exact ⟨_, rfl⟩
  have hfail : readUInt32 bytes 4 = .error .argument := by
    rw [readUInt32, if_pos (by omega)]
  obtain ⟨parentId, hparent⟩ := hparent
  rw [deserialize, if_pos hvalueSize]
  split
  · rw [fixedLengthDeserialize, hparent, Except.ok_bind, hfail, Except.error_bind]
  · rw [variableKeyLengthDeserialize, hparent, Except.ok_bind, hfail, Except.error_bind]

end RoundTrip

end TreeDiskNodeSerializer

/-! ### The serializer of numbers -/

/-- The serializer of numbers: four bytes. -/
def treeUIntSerializer : ISerializer UInt32 where
  serialize value := Bytes.toLE 4 value.toNat
  deserialize buffer offset length :=
    if length ≠ 4 then .error .argument else readUInt32 buffer offset
  isFixedSize := true
  length := 4

/-- The serializer of numbers reads a number back from where it was written. -/
theorem treeUIntSerializer_lawful :
  treeUIntSerializer.Lawful
  where
  deserialize_serialize value before after := by
    have hlength := Bytes.length_toLE 4 value.toNat
    change (if (Bytes.toLE 4 value.toNat).length ≠ 4 then .error .argument else _) = _
    rw [if_neg (by omega)]
    exact TreeDiskNodeSerializer.readUInt32_append before after value
  length_serialize _ value := Bytes.length_toLE 4 value.toNat
  length_pos _ := by decide
  serialize_lt value := by
    have hlength := Bytes.length_toLE 4 value.toNat
    change (Bytes.toLE 4 value.toNat).length < 2 ^ 31
    omega

/-! ### Nodes with their ids -/

/-- The serializer of strings, which stand for their UTF-8 bytes: as many bytes as the string
has. -/
def treeStringSerializer : ISerializer { value : Bytes // value.length < 2 ^ 31 } where
  serialize value := value.val
  deserialize buffer offset length :=
    if buffer.length < offset + length then .error .argument
    else if h : ((buffer.drop offset).take length).length < 2 ^ 31 then .ok ⟨_, h⟩
    else .error .argument
  isFixedSize := false
  length := 0

/-- The serializer of strings reads a string back from where it was written. -/
theorem treeStringSerializer_roundTrips :
  treeStringSerializer.RoundTrips
  where
  deserialize_serialize value before after := by
    have htake : (((before ++ (value.val ++ after)).drop before.length).take value.val.length)
        = value.val := by
      rw [List.drop_left, List.take_left]
    have hlt : (((before ++ (value.val ++ after)).drop before.length).take
        value.val.length).length < 2 ^ 31 := by
      rw [htake]
      exact value.property
    simp only [treeStringSerializer]
    rw [if_neg (by rw [List.length_append, List.length_append]; omega), dif_pos hlt]
    exact congrArg Except.ok (Subtype.ext htake)
  length_serialize h := by cases h
  serialize_lt value := value.property

namespace TreeDiskNodeSerializer

/-- A node is read back, under every id, from what it was written as. -/
theorem deserializeAs_of_serialize {K V : Type} {keySerializer : ISerializer K}
    {valueSerializer : ISerializer V} (hkey : keySerializer.RoundTrips)
    (hvalue : valueSerializer.RoundTrips) {node : DiskNode K V}
    (hcount : node.entries.length < 2 ^ 31) {bytes : Bytes}
    (hbytes : serialize keySerializer valueSerializer node = .ok bytes) (assignId : UInt32) :
  deserializeAs keySerializer valueSerializer assignId bytes = .ok (assignId, node)
  := by
  have hfields : deserialize keySerializer valueSerializer bytes = .ok node := by
    apply deserialize_of_roundTrips hkey hvalue _ hbytes
    intro _
    omega
  rw [deserializeAs, hfields]
  rfl

/-- A node with the id 7 is read back, with keys that are numbers and with keys that are
strings. -/
theorem deserializeAs_seven :
  (∃ bytes, serialize treeUIntSerializer treeUIntSerializer ⟨1, [(2, 30), (5, 60)], [3, 4, 6]⟩
      = .ok bytes
    ∧ deserializeAs treeUIntSerializer treeUIntSerializer 7 bytes
      = .ok (7, ⟨1, [(2, 30), (5, 60)], [3, 4, 6]⟩))
    ∧ ∃ bytes, serialize treeStringSerializer treeUIntSerializer
        ⟨1, [(⟨[65, 66], by decide⟩, 30)], [3, 4]⟩ = .ok bytes
      ∧ deserializeAs treeStringSerializer treeUIntSerializer 7 bytes
        = .ok (7, ⟨1, [(⟨[65, 66], by decide⟩, 30)], [3, 4]⟩)
  := by
  constructor
  · refine ⟨_, rfl, ?_⟩
    apply deserializeAs_of_serialize treeUIntSerializer_lawful.toRoundTrips
      treeUIntSerializer_lawful.toRoundTrips
    · decide
    · rfl
  · refine ⟨_, rfl, ?_⟩
    apply deserializeAs_of_serialize treeStringSerializer_roundTrips
      treeUIntSerializer_lawful.toRoundTrips
    · decide
    · rfl

end TreeDiskNodeSerializer

end Datatent.BTree
