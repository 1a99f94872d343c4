import Datatent.CoreOld.Block.Block
import Datatent.Library.Yields

/-!
# Transfers of a block

What the methods of a block do when they are called in range: reading and writing the content
on both sides of the end of the first sector, the header fields, and writing the first sector
back. A block holds the bytes of its first sector in memory and behind them those of its part
of the stream (`image`).
-/

namespace Datatent.Blocks

/-! ### The sizes of a block -/

namespace BlockStorage

variable (storage : BlockStorage)

theorem diskSectorSize_ge :
  128 ≤ storage.diskSectorSize
  := by
  rw [diskSectorSize]
  split <;> omega

theorem diskSectorSize_le :
  storage.diskSectorSize ≤ storage.blockSize
  := by
  have := storage.size_ge
  rw [diskSectorSize]
  split <;> omega

theorem diskSectorSize_lt :
  storage.diskSectorSize < 2 ^ 31
  := Nat.lt_of_le_of_lt storage.diskSectorSize_le storage.size_lt

/-- The header and the content make up the block. -/
theorem header_add_content :
  storage.blockHeaderSize + storage.blockContentSize = storage.blockSize
  := by
  have := storage.header_lt
  rw [blockContentSize]
  omega

end BlockStorage

/-- An expression whose value is in the range of `int`. -/
theorem int_eq {value : Int} (hlower : - 2 ^ 31 ≤ value) (hupper : value < 2 ^ 31) :
  int value = value
  := by
  rw [int]
  apply Int.bmod_eq_of_le <;> omega

/-- A number is read back from its bytes. -/
theorem getInt64_getBytes_append (value : Int64) (s : Bytes) :
  getInt64 (getBytes value ++ s) = value
  := by
  rw [getInt64, getBytes, Bytes.readLE_toLE_append, Nat.mod_eq_of_lt]
  · rw [UInt64.ofNat_toNat]
    rfl
  · exact UInt64.toNat_lt _

theorem length_getBytes (value : Int64) :
  (getBytes value).length = 8
  := Bytes.length_toLE _ _

/-! ### Transfers in range -/

/-- A copy in range. -/
theorem blockCopy_eq (src dst : Bytes) (i j n : Nat) (hsrc : i + n ≤ src.length)
    (hdst : j + n ≤ dst.length) :
  blockCopy src i dst j n = pure (Bytes.overwrite dst j ((src.drop i).take n))
  := Bytes.blockCopy_eq src dst i j n hsrc hdst

/-- A transfer from the stream that the stream reaches far enough for. -/
theorem streamRead_eq {buffer : Bytes} {i n : Nat} {s : BlockState}
    (hbuffer : i + n ≤ buffer.length) (hinside : s.stream.position + n ≤ s.stream.bytes.length) :
  streamRead buffer i n s
    = .ok (Bytes.overwrite buffer i ((s.stream.bytes.drop s.stream.position).take n), n)
        { s with stream := { s.stream with position := s.stream.position + n } }
  := by
  have hlength : ((s.stream.bytes.drop s.stream.position).take n).length = n := by
    rw [List.length_take, List.length_drop]
    omega
  rw [streamRead, if_neg (by omega), if_neg (by omega)]
  apply EStateM.bind_eq_ok.mpr
  refine ⟨s, s, rfl, ?_⟩
  simp only [DataFileStream.read, Int.toNat_natCast, hlength]
  rfl

/-- A transfer to the stream that stays within its length. -/
theorem streamWrite_eq {buffer : Bytes} {i n : Nat} {s : BlockState}
    (hbuffer : i + n ≤ buffer.length) (hinside : s.stream.position + n ≤ s.stream.bytes.length) :
  streamWrite buffer i n s
    = .ok ()
        { s with
          stream :=
            { bytes := Bytes.overwrite s.stream.bytes s.stream.position ((buffer.drop i).take n)
              position := s.stream.position + n } }
  := by
  have hlength : ((buffer.drop i).take n).length = n := by
    rw [List.length_take, List.length_drop]
    omega
  rw [streamWrite, if_neg (by omega), if_neg (by omega)]
  show EStateM.Result.ok () _ = _
  simp only [Int.toNat_natCast]
  rw [DataFileStream.write_of_le (by omega), hlength]

/-- The position of the stream. -/
theorem setPosition_eq (p : Nat) (s : BlockState) :
  setPosition p s = .ok () { s with stream := { s.stream with position := p } }
  := by
  rw [setPosition, if_neg (by omega)]
  rfl

/-! ### Reading -/

/-- The loop of `read` fills the rest of the range from the stream. -/
theorem readLoop_eq (storage : BlockStorage) (destOffset count : Nat) :
  ∀ (rounds copied : Nat) (dest : Bytes) (s : BlockState),
    count - copied < rounds → copied ≤ count → destOffset + count ≤ dest.length →
      (copied < count → s.stream.position + (count - copied) ≤ s.stream.bytes.length) →
      ∃ position,
        Block.readLoop storage destOffset count rounds dest copied s
          = .ok (Bytes.overwrite dest (destOffset + copied)
                ((s.stream.bytes.drop s.stream.position).take (count - copied)))
              { s with stream := { s.stream with position := position } }
  | 0, _, _, _, hrounds, _, _, _ => absurd hrounds (Nat.not_lt_zero _)
  | rounds + 1, copied, dest, s, hrounds, hcopied, hdest, hinside => by
      have hsector := storage.diskSectorSize_ge
      rw [Block.readLoop]
      split
      · rename_i hlt
        obtain ⟨n, hn⟩ : ∃ n : Nat, min storage.diskSectorSize (count - copied) = n := ⟨_, rfl⟩
        have hmin : min (storage.diskSectorSize : Int) (count - copied) = n := by omega
        have hroom := hinside (by omega)
        have hbuffer : destOffset + copied + n ≤ dest.length := by omega
        have hread := streamRead_eq hbuffer (s := s) (by omega)
        have hlength : ((s.stream.bytes.drop s.stream.position).take n).length = n := by
          rw [List.length_take, List.length_drop]
          omega
        have hfilled : (Bytes.overwrite dest (destOffset + copied)
            ((s.stream.bytes.drop s.stream.position).take n)).length = dest.length :=
          Bytes.length_overwrite (by omega)
        obtain ⟨position, hrest⟩ := readLoop_eq storage destOffset count rounds (copied + n)
          (Bytes.overwrite dest (destOffset + copied)
            ((s.stream.bytes.drop s.stream.position).take n))
          { s with stream := { s.stream with position := s.stream.position + n } }
          (by omega) (by omega) (by omega) (by dsimp only; omega)
        use position
        apply EStateM.bind_eq_ok.mpr
        refine ⟨_, _, by rw [hmin, ← Nat.cast_add]; exact hread, ?_⟩
        dsimp only
        rw [if_neg (by omega), ← Nat.cast_add, hrest]
        dsimp only
        have hsplit : (s.stream.bytes.drop s.stream.position).take (count - copied)
            = (s.stream.bytes.drop s.stream.position).take n
              ++ (s.stream.bytes.drop (s.stream.position + n)).take (count - (copied + n)) := by
          rw [← Nat.sub_sub, ← Bytes.slice_split _ _ (by omega)]
        have hrange : destOffset + copied
            + ((s.stream.bytes.drop s.stream.position).take n).length
              + ((s.stream.bytes.drop (s.stream.position + n)).take
                (count - (copied + n))).length ≤ dest.length := by
          rw [hlength, List.length_take]
          omega
        rw [hsplit, ← Bytes.overwrite_append hrange, hlength, Nat.add_assoc]
      · rename_i hlt
        obtain rfl : copied = count := by omega
        refine ⟨s.stream.position, ?_⟩
        rw [Nat.sub_self, List.take_zero, Bytes.overwrite_nil]
        rfl

/-- The rest of a range is read from the place in the stream where it is, if any is left. -/
theorem positioned_readLoop_eq (storage : BlockStorage) {destOffset : Nat} (count copied : Nat)
    {dest : Bytes} (s : BlockState) (p : Nat) (hcopied : copied ≤ count)
    (hdest : destOffset + count ≤ dest.length)
    (hinside : copied < count → p + (count - copied) ≤ s.stream.bytes.length) :
  ∃ position,
    (if (copied : Int) < count then
        setPosition p >>= fun _ =>
          Block.readLoop storage destOffset count (count + 1) dest copied
      else Block.readLoop storage destOffset count (count + 1) dest copied) s
      = .ok (Bytes.overwrite dest (destOffset + copied)
            ((s.stream.bytes.drop p).take (count - copied)))
          { s with stream := { s.stream with position := position } }
  := by
  split
  · rename_i hlt
    rw [EStateM.bind_apply_of_ok (setPosition_eq p s)]
    obtain ⟨position, hloop⟩ := readLoop_eq storage destOffset count (count + 1) copied dest
      { s with stream := { s.stream with position := p } } (by omega) hcopied hdest hinside
    exact ⟨position, hloop⟩
  · rename_i hlt
    obtain rfl : copied = count := by omega
    obtain ⟨position, hloop⟩ := readLoop_eq storage destOffset copied (copied + 1) copied dest
      s (by omega) hcopied hdest (by omega)
    rw [Nat.sub_self, List.take_zero] at hloop ⊢
    exact ⟨position, hloop⟩

/-- What a block with its part of the stream holds: the first sector from memory, the rest
from the stream. -/
def image (storage : BlockStorage) (sector part : Bytes) : Bytes :=
  sector ++ part.drop storage.diskSectorSize

/-- The part of the stream that belongs to a block. -/
def part (storage : BlockStorage) (bytes : Bytes) (n : Nat) : Bytes :=
  (bytes.drop (n * storage.blockSize)).take storage.blockSize

/-- A part of the stream that the stream reaches far enough for has the size of a block. -/
theorem length_part {storage : BlockStorage} {bytes : Bytes} {n : Nat}
    (hinside : n * storage.blockSize + storage.blockSize ≤ bytes.length) :
  (part storage bytes n).length = storage.blockSize
  := by
  rw [part, List.length_take, List.length_drop]
  omega

/-- Bytes written to the part of a block replace bytes of the part. -/
theorem part_overwrite_same {storage : BlockStorage} {bytes s : Bytes} {n offset : Nat}
    (hinside : n * storage.blockSize + storage.blockSize ≤ bytes.length)
    (hrange : offset + s.length ≤ storage.blockSize) :
  part storage (Bytes.overwrite bytes (n * storage.blockSize + offset) s) n
    = Bytes.overwrite (part storage bytes n) offset s
  := by
  have hdrop : offset + s.length ≤ (bytes.drop (n * storage.blockSize)).length := by
    rw [List.length_drop]
    omega
  rw [part, part, Bytes.drop_overwrite_of_le (by omega) (by omega), Nat.add_sub_cancel_left,
    Bytes.take_overwrite_of_le hdrop hrange]

/-- Bytes written to the part of a block leave the parts of the others. -/
theorem part_overwrite_ne {storage : BlockStorage} {bytes s : Bytes} {n m offset : Nat}
    (hinside : n * storage.blockSize + storage.blockSize ≤ bytes.length)
    (hrange : offset + s.length ≤ storage.blockSize) (hne : m ≠ n) :
  part storage (Bytes.overwrite bytes (n * storage.blockSize + offset) s) m
    = part storage bytes m
  := by
  rw [part, part]
  rcases Nat.lt_or_gt_of_ne hne with hlt | hgt
  · have hbefore : (m + 1) * storage.blockSize ≤ n * storage.blockSize :=
      Nat.mul_le_mul_right _ hlt
    rw [Nat.add_mul, Nat.one_mul] at hbefore
    have hdrop : n * storage.blockSize + offset - m * storage.blockSize + s.length
        ≤ (bytes.drop (m * storage.blockSize)).length := by
      rw [List.length_drop]
      omega
    rw [Bytes.drop_overwrite_of_le (by omega) (by omega),
      Bytes.take_overwrite_of_ge hdrop (by omega)]
  · have hbehind : (n + 1) * storage.blockSize ≤ m * storage.blockSize :=
      Nat.mul_le_mul_right _ hgt
    rw [Nat.add_mul, Nat.one_mul] at hbehind
    rw [Bytes.drop_overwrite_of_ge (by omega) (by omega)]

/-- Bytes written to the first sector and to the part of the stream replace bytes of what the
block holds. -/
theorem image_overwrite {storage : BlockStorage} {sector part s : Bytes} {k : Nat}
    (hsector : sector.length = storage.diskSectorSize) (hpart : part.length = storage.blockSize)
    (hrange : k + s.length ≤ storage.blockSize) :
  image storage (Bytes.overwrite sector k (s.take (storage.diskSectorSize - k)))
      (Bytes.overwrite part (k + (storage.diskSectorSize - k))
        (s.drop (storage.diskSectorSize - k)))
    = Bytes.overwrite (image storage sector part) k s
  := by
  have hle := storage.diskSectorSize_le
  have hdrop : (s.drop (storage.diskSectorSize - k)).length
      = s.length - (storage.diskSectorSize - k) := List.length_drop
  rw [image, image, Bytes.drop_overwrite_of_le (by omega) (by omega)]
  rcases Nat.le_total storage.diskSectorSize k with hk | hk
  · rw [Nat.sub_eq_zero_of_le hk, List.take_zero, Bytes.overwrite_nil, Nat.add_zero,
      List.drop_zero, Bytes.overwrite_append_right (hsector ▸ hk), hsector]
  · rw [Nat.add_sub_cancel' hk, Nat.sub_self]
    by_cases hshort : s.length ≤ storage.diskSectorSize - k
    · rw [List.take_of_length_le hshort, List.drop_of_length_le hshort, Bytes.overwrite_nil,
        Bytes.overwrite_append_left (by omega)]
    · have htake : (s.take (storage.diskSectorSize - k)).length = storage.diskSectorSize - k := by
        rw [List.length_take]
        omega
      have hfront : k + (s.take (storage.diskSectorSize - k)).length ≤ sector.length := by omega
      have hplace : (Bytes.overwrite sector k (s.take (storage.diskSectorSize - k))).length
          = k + (s.take (storage.diskSectorSize - k)).length := by
        rw [Bytes.length_overwrite hfront]
        omega
      have hboth : k + (s.take (storage.diskSectorSize - k)).length
          + (s.drop (storage.diskSectorSize - k)).length
            ≤ (sector ++ part.drop storage.diskSectorSize).length := by
        rw [List.length_append, htake, hdrop, List.length_drop]
        omega
      rw [Bytes.append_overwrite_zero, hplace, ← Bytes.overwrite_append_left hfront,
        Bytes.overwrite_append hboth, List.take_append_drop]

/-- A range of what a block holds that begins in its first sector. -/
theorem slice_image_of_le {storage : BlockStorage} {sector part : Bytes} {k : Nat} (m : Nat)
    (hsector : sector.length = storage.diskSectorSize) (hk : k ≤ storage.diskSectorSize) :
  ((image storage sector part).drop k).take m
    = (sector.drop k).take m
      ++ (part.drop storage.diskSectorSize).take (m - (storage.diskSectorSize - k))
  := by
  rw [image, List.drop_append_of_le_length (by omega), List.take_append, List.length_drop, hsector]

/-- A range of what a block holds that lies behind its first sector. -/
theorem slice_image_of_ge {storage : BlockStorage} {sector part : Bytes} {k : Nat} (m : Nat)
    (hsector : sector.length = storage.diskSectorSize) (hk : storage.diskSectorSize ≤ k) :
  ((image storage sector part).drop k).take m = (part.drop k).take m
  := by
  rw [image, List.drop_append, List.drop_of_length_le (by omega), List.nil_append, hsector,
    List.drop_drop, Nat.add_sub_cancel' hk]

/-- A range of the part of the stream that belongs to a block. -/
theorem slice_part (storage : BlockStorage) (bytes : Bytes) (n : Nat) {k m : Nat}
    (hrange : k + m ≤ storage.blockSize) :
  ((part storage bytes n).drop k).take m = (bytes.drop (n * storage.blockSize + k)).take m
  := by
  rw [part, List.drop_take, List.take_take, List.drop_drop, Nat.min_eq_left (by omega)]

/-- A range of the content is read from the first sector and from the stream. -/
theorem Block.read_eq {storage : BlockStorage} {s : BlockState} {dest : Bytes}
    {destOffset srcOffset count : Nat} (hlive : s.block.isDisposed = false)
    (hsector : s.block.firstSector.length = storage.diskSectorSize)
    (hinside : s.block.id.toNat * storage.blockSize + storage.blockSize ≤ s.stream.bytes.length)
    (hsrc : srcOffset + count ≤ storage.blockContentSize)
    (hdest : destOffset + count ≤ dest.length) (hint : dest.length < 2 ^ 31) :
  ∃ position,
    Block.read storage dest destOffset srcOffset count s
      = .ok (Bytes.overwrite dest destOffset
            (((image storage s.block.firstSector
              (part storage s.stream.bytes s.block.id.toNat)).drop
                (storage.blockHeaderSize + srcOffset)).take count))
          { s with stream := { s.stream with position := position } }
  := by
  have hcontent := storage.header_add_content
  have hsize := storage.size_lt
  have hle := storage.diskSectorSize_le
  rw [Block.read]
  rw [EStateM.get_bind_apply, if_neg (by rw [hlive]; exact Bool.false_ne_true),
    int_eq (by omega) (by omega), int_eq (by omega) (by omega), int_eq (by omega) (by omega),
    if_neg (by omega), if_neg (by omega)]
  split
  · rename_i hfirst
    rw [int_eq (by omega) (by omega)]
    obtain ⟨n, hn⟩ :
        ∃ n, min (storage.diskSectorSize - storage.blockHeaderSize - srcOffset) count = n :=
      ⟨_, rfl⟩
    have hmin : min ((storage.diskSectorSize : Int) - storage.blockHeaderSize - srcOffset) count
        = n := by omega
    have hcopy := blockCopy_eq s.block.firstSector dest (storage.blockHeaderSize + srcOffset)
      destOffset n (by omega) (by omega)
    have hlength : ((s.block.firstSector.drop (storage.blockHeaderSize + srcOffset)).take
        n).length = n := by
      rw [List.length_take, List.length_drop]
      omega
    have hfilled : (Bytes.overwrite dest destOffset
        ((s.block.firstSector.drop (storage.blockHeaderSize + srcOffset)).take n)).length
          = dest.length := Bytes.length_overwrite (by omega)
    obtain ⟨position, hloop⟩ := positioned_readLoop_eq storage count n s
      (s.block.id.toNat * storage.blockSize + storage.diskSectorSize) (by omega)
      (hfilled ▸ hdest) (by omega)
    refine ⟨position, ?_⟩
    simp only [hmin, ← Nat.cast_add, ← Nat.cast_mul, hcopy, pure_bind, Block.position,
      Int.toNat_natCast]
    have hfront : (s.block.firstSector.drop (storage.blockHeaderSize + srcOffset)).take count
        = (s.block.firstSector.drop (storage.blockHeaderSize + srcOffset)).take n := by
      rw [List.take_eq_take_iff, List.length_drop]
      omega
    have hrest : count - (storage.diskSectorSize - (storage.blockHeaderSize + srcOffset))
        = count - n := by omega
    have hrange : destOffset
        + ((s.block.firstSector.drop (storage.blockHeaderSize + srcOffset)).take n).length
        + ((s.stream.bytes.drop (s.block.id.toNat * storage.blockSize
            + storage.diskSectorSize)).take (count - n)).length ≤ dest.length := by
      rw [hlength, List.length_take]
      omega
    rw [hloop, slice_image_of_le _ hsector (by omega), hfront, hrest, slice_part _ _ _ (by omega),
      ← Bytes.overwrite_append hrange, hlength]
  · rename_i hfirst
    obtain ⟨position, hloop⟩ := positioned_readLoop_eq storage count 0 s
      (s.block.id.toNat * storage.blockSize + storage.blockHeaderSize + srcOffset)
      (Nat.zero_le _) hdest (by omega)
    refine ⟨position, ?_⟩
    rw [slice_image_of_ge _ hsector (by omega), slice_part _ _ _ (by omega)]
    simp only [← Nat.cast_add, ← Nat.cast_mul, Block.position, Int.toNat_natCast]
    rw [← Nat.add_assoc]
    exact hloop

/-! ### Writing -/

/-- The loop of `write` writes the rest of the range to the stream. -/
theorem writeLoop_eq {src : Bytes} {srcOffset count : Nat} (hsrc : srcOffset + count ≤ src.length) :
  ∀ (rounds written : Nat) (s : BlockState),
    count - written < rounds → written ≤ count →
      s.stream.position + (count - written) ≤ s.stream.bytes.length →
      ∃ position,
        Block.writeLoop src srcOffset count rounds written s
          = .ok ()
              { s with
                stream :=
                  { bytes := Bytes.overwrite s.stream.bytes s.stream.position
                      ((src.drop (srcOffset + written)).take (count - written))
                    position := position } }
  | 0, _, _, hrounds, _, _ => absurd hrounds (Nat.not_lt_zero _)
  | rounds + 1, written, s, hrounds, hwritten, hinside => by
      rw [Block.writeLoop]
      split
      · rename_i hlt
        obtain ⟨n, hn⟩ : ∃ n : Nat, min 4096 (count - written) = n := ⟨_, rfl⟩
        have hmin : min 4096 ((count : Int) - written) = n := by omega
        have hbuffer : srcOffset + written + n ≤ src.length := by omega
        have hlength : ((src.drop (srcOffset + written)).take n).length = n := by
          rw [List.length_take, List.length_drop]
          omega
        have hwrite := streamWrite_eq hbuffer (s := s) (by omega)
        have hfilled : (Bytes.overwrite s.stream.bytes s.stream.position
            ((src.drop (srcOffset + written)).take n)).length = s.stream.bytes.length :=
          Bytes.length_overwrite (by omega)
        obtain ⟨position, hrest⟩ := writeLoop_eq hsrc rounds (written + n)
          { s with
            stream :=
              { bytes := Bytes.overwrite s.stream.bytes s.stream.position
                  ((src.drop (srcOffset + written)).take n)
                position := s.stream.position + n } }
          (by omega) (by omega) (by dsimp only; omega)
        have hsplit : (src.drop (srcOffset + written)).take (count - written)
            = (src.drop (srcOffset + written)).take n
              ++ (src.drop (srcOffset + (written + n))).take (count - (written + n)) := by
          rw [← Nat.sub_sub, ← Nat.add_assoc, ← Bytes.slice_split _ _ (by omega)]
        have hrange : s.stream.position + ((src.drop (srcOffset + written)).take n).length
            + ((src.drop (srcOffset + (written + n))).take (count - (written + n))).length
              ≤ s.stream.bytes.length := by
          rw [hlength, List.length_take]
          omega
        use position
        dsimp only
        rw [hmin, ← Nat.cast_add, ← Nat.cast_add, EStateM.bind_apply_of_ok hwrite]
        refine Eq.trans hrest ?_
        rw [hsplit, ← Bytes.overwrite_append hrange, hlength]
      · rename_i hlt
        obtain rfl : written = count := by omega
        refine ⟨s.stream.position, ?_⟩
        rw [Nat.sub_self, List.take_zero, Bytes.overwrite_nil]
        rfl

/-- The bytes that belong to the first sector are written to it. -/
theorem Block.writeFirstSector_eq {storage : BlockStorage} {s : BlockState} {src : Bytes}
    {srcOffset dstOffset count : Nat}
    (hsector : s.block.firstSector.length = storage.diskSectorSize)
    (hsrc : srcOffset + count ≤ src.length)
    (hlt : storage.blockHeaderSize + dstOffset < storage.diskSectorSize) :
  Block.writeFirstSector storage src srcOffset dstOffset count s
    = .ok ()
        { s with
          block :=
            { s.block with
              firstSector := Bytes.overwrite s.block.firstSector
                (storage.blockHeaderSize + dstOffset)
                (((src.drop srcOffset).take count).take
                  (storage.diskSectorSize - (storage.blockHeaderSize + dstOffset)))
              isFirstSectorDirty := true } }
  := by
  have hsize := storage.diskSectorSize_lt
  obtain ⟨n, hn⟩ :
      ∃ n, min count (storage.diskSectorSize - storage.blockHeaderSize - dstOffset) = n := ⟨_, rfl⟩
  have hmin : min (count : Int) (storage.diskSectorSize - storage.blockHeaderSize - dstOffset)
      = n := by omega
  have hcopy := blockCopy_eq src s.block.firstSector srcOffset
    (storage.blockHeaderSize + dstOffset) n (by omega) (by omega)
  have htake : ((src.drop srcOffset).take count).take
      (storage.diskSectorSize - (storage.blockHeaderSize + dstOffset))
        = (src.drop srcOffset).take n := by
    rw [List.take_take]
    congr 1
    omega
  rw [Block.writeFirstSector, EStateM.get_bind_apply, int_eq (by omega) (by omega),
    int_eq (by omega) (by omega)]
  simp only [hmin, ← Nat.cast_add, hcopy, pure_bind, htake]
  rfl

/-- The bytes that do not belong to the first sector are written to the stream. -/
theorem Block.writeRest_eq {storage : BlockStorage} {s : BlockState} {src : Bytes}
    {srcOffset dstOffset count : Nat}
    (hinside : s.block.id.toNat * storage.blockSize + storage.blockSize ≤ s.stream.bytes.length)
    (hsrc : srcOffset + count ≤ src.length)
    (hdst : dstOffset + count ≤ storage.blockContentSize)
    (hlt : storage.diskSectorSize < storage.blockHeaderSize + dstOffset + count) :
  ∃ position,
    Block.writeRest storage src srcOffset dstOffset count s
      = .ok ()
          { s with
            stream :=
              { bytes := Bytes.overwrite s.stream.bytes
                  (s.block.id.toNat * storage.blockSize + (storage.blockHeaderSize + dstOffset
                    + (storage.diskSectorSize - (storage.blockHeaderSize + dstOffset))))
                  (((src.drop srcOffset).take count).drop
                    (storage.diskSectorSize - (storage.blockHeaderSize + dstOffset)))
                position := position } }
  := by
  have hcontent := storage.header_add_content
  have hsize := storage.size_lt
  have hle := storage.diskSectorSize_le
  obtain ⟨d, hd⟩ :
      ∃ d, storage.diskSectorSize - (storage.blockHeaderSize + dstOffset) = d := ⟨_, rfl⟩
  obtain ⟨p, hp⟩ : ∃ p, s.block.id.toNat * storage.blockSize
      + (storage.blockHeaderSize + dstOffset + d) = p := ⟨_, rfl⟩
  have hposition : (s.block.id.toNat * storage.blockSize : Int)
      + max (storage.diskSectorSize : Int) (storage.blockHeaderSize + dstOffset) = p := by
    rw [← hp]
    push_cast
    omega
  have hsrc' : srcOffset + d + (count - d) ≤ src.length := by omega
  obtain ⟨position, hloop⟩ := writeLoop_eq hsrc' (count - d + 1) 0
    { s with stream := { s.stream with position := p } } (by omega) (Nat.zero_le _)
    (by dsimp only; omega)
  have hslice : ((src.drop srcOffset).take count).drop d
      = (src.drop (srcOffset + d)).take (count - d) := by
    rw [List.drop_take, List.drop_drop]
  use position
  rw [Block.writeRest, EStateM.get_bind_apply, int_eq (by omega) (by omega),
    int_eq (by omega) (by omega), Block.position, hposition,
    EStateM.bind_apply_of_ok (setPosition_eq p s), hd, hp, hslice]
  split
  · have hcast : (storage.diskSectorSize : Int) - (storage.blockHeaderSize + dstOffset) = d := by
      omega
    rw [hcast, ← Nat.cast_add, ← Nat.cast_sub (by omega), Int.toNat_natCast]
    exact hloop
  · obtain rfl : d = 0 := by omega
    exact hloop

/-- A range of the content is written to the first sector and to the stream. -/
theorem Block.write_eq {storage : BlockStorage} {s : BlockState} {src : Bytes}
    {srcOffset dstOffset count : Nat} (hlive : s.block.isDisposed = false)
    (hsector : s.block.firstSector.length = storage.diskSectorSize)
    (hinside : s.block.id.toNat * storage.blockSize + storage.blockSize ≤ s.stream.bytes.length)
    (hsrc : srcOffset + count ≤ src.length) (hint : src.length < 2 ^ 31)
    (hdst : dstOffset + count ≤ storage.blockContentSize) :
  ∃ position,
    Block.write storage src srcOffset dstOffset count s
      = .ok ()
          { block :=
              { s.block with
                firstSector := Bytes.overwrite s.block.firstSector
                  (storage.blockHeaderSize + dstOffset)
                  (((src.drop srcOffset).take count).take
                    (storage.diskSectorSize - (storage.blockHeaderSize + dstOffset)))
                isFirstSectorDirty := s.block.isFirstSectorDirty
                  || decide (storage.blockHeaderSize + dstOffset < storage.diskSectorSize) }
            stream :=
              { bytes := Bytes.overwrite s.stream.bytes
                  (s.block.id.toNat * storage.blockSize + (storage.blockHeaderSize + dstOffset
                    + (storage.diskSectorSize - (storage.blockHeaderSize + dstOffset))))
                  (((src.drop srcOffset).take count).drop
                    (storage.diskSectorSize - (storage.blockHeaderSize + dstOffset)))
                position := position } }
  := by
  have hcontent := storage.header_add_content
  have hsize := storage.size_lt
  rw [Block.write, EStateM.get_bind_apply, if_neg (by rw [hlive]; exact Bool.false_ne_true),
    int_eq (by omega) (by omega), int_eq (by omega) (by omega), int_eq (by omega) (by omega),
    int_eq (by omega) (by omega), if_neg (by omega), if_neg (by omega)]
  dsimp only
  have hfirst : ∀ {k : Nat}, storage.diskSectorSize ≤ k →
      Bytes.overwrite s.block.firstSector k
        (((src.drop srcOffset).take count).take (storage.diskSectorSize - k))
          = s.block.firstSector := by
    intro k hk
    rw [Nat.sub_eq_zero_of_le hk, List.take_zero, Bytes.overwrite_nil]
  have hrest : ∀ {k : Nat} (p : Nat), k + count ≤ storage.diskSectorSize →
      Bytes.overwrite s.stream.bytes p
        (((src.drop srcOffset).take count).drop (storage.diskSectorSize - k))
          = s.stream.bytes := by
    intro k p hk
    rw [List.drop_of_length_le, Bytes.overwrite_nil]
    rw [List.length_take]
    omega
  by_cases hlt : storage.blockHeaderSize + dstOffset < storage.diskSectorSize
  · rw [if_pos (by omega), EStateM.bind_apply_of_ok
      (Block.writeFirstSector_eq hsector hsrc hlt), decide_eq_true hlt, Bool.or_true]
    by_cases hgt : storage.diskSectorSize < storage.blockHeaderSize + dstOffset + count
    · obtain ⟨position, hwrite⟩ := Block.writeRest_eq
        (s :=
          { s with
            block :=
              { s.block with
                firstSector := Bytes.overwrite s.block.firstSector
                  (storage.blockHeaderSize + dstOffset)
                  (((src.drop srcOffset).take count).take
                    (storage.diskSectorSize - (storage.blockHeaderSize + dstOffset)))
                isFirstSectorDirty := true } })
        hinside hsrc hdst hgt
      rw [if_pos (by omega)]
      exact ⟨position, hwrite⟩
    · refine ⟨s.stream.position, ?_⟩
      rw [if_neg (by omega), hrest _ (by omega)]
      rfl
  · rw [if_neg (by omega), decide_eq_false hlt, Bool.or_false, hfirst (by omega)]
    by_cases hgt : storage.diskSectorSize < storage.blockHeaderSize + dstOffset + count
    · rw [if_pos (by omega)]
      exact Block.writeRest_eq hinside hsrc hdst hgt
    · refine ⟨s.stream.position, ?_⟩
      rw [if_neg (by omega), hrest _ (by omega)]
      rfl

/-! ### Header fields -/

/-- A header field that is read is the cached value or the number in the first sector, which
is cached then. -/
theorem Block.getHeader_eq {storage : BlockStorage} {s : BlockState} {field : Nat}
    (hheader : 48 ≤ storage.blockHeaderSize) (hlive : s.block.isDisposed = false)
    (hsector : s.block.firstSector.length = storage.diskSectorSize) (hfield : field < 5)
    {value : Int64} (hvalue : getInt64 (s.block.firstSector.drop (8 * field)) = value)
    (hcached : ∀ cached, s.block.cachedHeaderValue[field] = some cached → cached = value) :
  ∃ block, Block.getHeader storage field s = .ok value { s with block := block }
    ∧ (block = s.block ∨ block = s.block.cacheHeader field value)
  := by
  have hsize := storage.diskSectorSize_ge
  rw [Block.getHeader, EStateM.get_bind_apply, if_neg (by rw [hlive]; exact Bool.false_ne_true),
    if_neg (by omega), if_neg (by omega), dif_pos (by omega)]
  have hcast : int (field * 8) = (8 * field : Nat) := by
    rw [int_eq (by omega) (by omega)]
    omega
  have hcopy := blockCopy_eq s.block.firstSector (List.replicate 8 0) (8 * field) 0 8
    (by omega) (by rw [List.length_replicate])
  have hread : readBufferInt64 s.block.firstSector (int (field * 8)) = pure value := by
    have hlength : ((s.block.firstSector.drop (8 * field)).take 8).length
        = (List.replicate 8 (0 : UInt8)).length := by
      rw [List.length_take, List.length_drop, List.length_replicate]
      omega
    rw [readBufferInt64, hcast]
    refine Eq.trans (congrArg (· >>= _) hcopy) ?_
    rw [pure_bind, Bytes.overwrite_all hlength, ← hvalue, getInt64, getInt64,
      Bytes.readLE_congr (List.take_take.trans (by rw [Nat.min_self]))]
  cases hslot : s.block.cachedHeaderValue[field] with
  | some cached =>
      obtain rfl := hcached cached hslot
      refine ⟨s.block, ?_, Or.inl rfl⟩
      simp only [Int.toNat_natCast, hslot]
      rfl
  | none =>
      refine ⟨s.block.cacheHeader field value, ?_, Or.inr rfl⟩
      simp only [Int.toNat_natCast, hslot, hread, pure_bind]
      rfl

/-- A header field that is set is cached and written to the first sector. -/
theorem Block.setHeader_eq {storage : BlockStorage} {s : BlockState} {field : Nat}
    (hlive : s.block.isDisposed = false)
    (hsector : s.block.firstSector.length = storage.diskSectorSize) (hfield : field < 5)
    (value : Int64) :
  Block.setHeader field value s
    = .ok ()
        { s with
          block :=
            { s.block.cacheHeader field value with
              firstSector := Bytes.overwrite s.block.firstSector (8 * field) (getBytes value)
              isFirstSectorDirty := true } }
  := by
  have hsize := storage.diskSectorSize_ge
  have hcast : (field : Int) * 8 = (8 * field : Nat) := by omega
  have hcopy := blockCopy_eq (getBytes value) s.block.firstSector 0 (8 * field) 8
    (by rw [length_getBytes]) (by omega)
  have htake : (getBytes value).take 8 = getBytes value :=
    List.take_of_length_le (by rw [length_getBytes])
  rw [Block.setHeader, EStateM.get_bind_apply, if_neg (by rw [hlive]; exact Bool.false_ne_true),
    if_neg (by omega), int_eq (by omega) (by omega), hcast]
  have hwrite : writeBuffer value s.block.firstSector (8 * field : Nat)
      = pure (Bytes.overwrite s.block.firstSector (8 * field) (getBytes value)) := by
    refine Eq.trans hcopy ?_
    rw [List.drop_zero, htake]
  rw [hwrite]
  rfl

/-! ### Disposing -/

/-- A change of the state, and what follows it. -/
theorem modify_bind_apply {β : Type} (f : BlockState → BlockState) (g : PUnit → BlockM β)
    (s : BlockState) :
  ((modify f : BlockM PUnit) >>= g) s = g ⟨⟩ (f s)
  := rfl

/-- Disposing a block that is not dirty leaves the stream. -/
theorem Block.dispose_clean {storage : BlockStorage} {s : BlockState}
    (hlive : s.block.isDisposed = false) (hclean : s.block.isFirstSectorDirty = false) :
  Block.dispose storage s
    = .ok true { s with block := { s.block with isDisposed := true } }
  := by
  rw [Block.dispose, EStateM.get_bind_apply, if_neg (by rw [hlive]; exact Bool.false_ne_true),
    hclean]
  rfl

/-- Disposing a dirty block with a sector of full length writes it back. -/
theorem Block.dispose_dirty {storage : BlockStorage} {s : BlockState}
    (hlive : s.block.isDisposed = false) (hdirty : s.block.isFirstSectorDirty = true)
    (hsector : s.block.firstSector.length = 4096)
    (hinside : s.block.id.toNat * storage.blockSize + 4096 ≤ s.stream.bytes.length) :
  ∃ position,
    Block.dispose storage s
      = .ok true
          { block := { s.block with isDisposed := true, isFirstSectorDirty := false }
            stream :=
              { bytes := Bytes.overwrite s.stream.bytes (s.block.id.toNat * storage.blockSize)
                  s.block.firstSector
                position := position } }
  := by
  have hinside' : s.block.id.toNat * storage.blockSize + s.block.firstSector.length
      ≤ s.stream.bytes.length := hsector ▸ hinside
  have hbuffer : 0 + 4096 ≤ s.block.firstSector.length := by omega
  have hwrite := streamWrite_eq hbuffer
    (s :=
      { block := { s.block with isDisposed := true }
        stream := { s.stream with position := s.block.id.toNat * storage.blockSize } })
    hinside
  rw [List.drop_zero, List.take_of_length_le (by omega)] at hwrite
  have hback : Block.writeBack storage { s with block := { s.block with isDisposed := true } }
      = .ok ()
          { block := { s.block with isDisposed := true, isFirstSectorDirty := false }
            stream :=
              { bytes := Bytes.overwrite s.stream.bytes (s.block.id.toNat * storage.blockSize)
                  s.block.firstSector
                position := s.block.id.toNat * storage.blockSize + 4096 } } := by
    rw [Block.writeBack, EStateM.get_bind_apply, Block.position, ← Nat.cast_mul,
      EStateM.bind_apply_of_ok (setPosition_eq _ _)]
    exact EStateM.bind_apply_of_ok hwrite _
  use s.block.id.toNat * storage.blockSize + 4096
  rw [Block.dispose, EStateM.get_bind_apply, if_neg (by rw [hlive]; exact Bool.false_ne_true),
    modify_bind_apply, if_pos hdirty, EStateM.bind_apply_of_ok hback]
  rfl

/-- Disposing a dirty block with a shorter sector fails. -/
theorem Block.dispose_short (storage : BlockStorage) {s : BlockState}
    (hlive : s.block.isDisposed = false) (hdirty : s.block.isFirstSectorDirty = true)
    (hsector : s.block.firstSector.length < 4096) :
  ∃ s', Block.dispose storage s = .error .argument s'
  := by
  have hwrite : ∀ s' : BlockState,
      streamWrite s.block.firstSector 0 4096 s' = .error .argument s' := by
    intro s'
    rw [streamWrite, if_neg (by omega), if_pos (by omega)]
    rfl
  have hback : ∃ s', Block.writeBack storage
      { s with block := { s.block with isDisposed := true } } = .error .argument s' := by
    use { block := { s.block with isDisposed := true }
          stream := { s.stream with position := s.block.id.toNat * storage.blockSize } }
    rw [Block.writeBack, EStateM.get_bind_apply, Block.position, ← Nat.cast_mul,
      EStateM.bind_apply_of_ok (setPosition_eq _ _)]
    exact EStateM.bind_apply_of_error (hwrite _) _
  obtain ⟨s', hback⟩ := hback
  use s'
  rw [Block.dispose, EStateM.get_bind_apply, if_neg (by rw [hlive]; exact Bool.false_ne_true),
    modify_bind_apply, if_pos hdirty, EStateM.bind_apply_of_error hback]

end Datatent.Blocks
