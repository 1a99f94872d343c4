import Datatent.CoreOld.Block.Transferring
import Datatent.Library.Run

/-!
# Blocks as flat arrays

What a block storage is for: every block is an array of bytes and a few header fields, which
hold what was last written. The blocks in memory, each with its first sector and its cached
header fields, and the stream with the rest represent such arrays (`Represents`), and every
call keeps them doing so, but for the disposal of a dirty block whose sector is shorter than
what is written back.
-/

namespace Datatent.Blocks

/-! ### Flat blocks -/

/-- The content and the header fields of a number of blocks. -/
structure FlatBlocks where
  count : Nat
  content : Nat → Bytes
  header : Nat → Nat → Int64

namespace FlatBlocks

/-- No blocks. -/
def empty : FlatBlocks where
  count := 0
  content := fun _ => []
  header := fun _ _ => 0

/-- One call on the flat blocks. A new block holds zeros; disposing a block changes nothing. -/
def step (contentSize : Nat) (t : FlatBlocks) : BlockCall → BlockResult × FlatBlocks
  | .createNew =>
      (.block (some t.count),
        { count := t.count + 1
          content := Function.update t.content t.count (List.replicate contentSize 0)
          header := Function.update t.header t.count (fun _ => 0) })
  | .find blockId =>
      (.block (if blockId.toNat < t.count then some blockId.toNat else none), t)
  | .getHeader blockId field => (.header (t.header blockId.toNat field.toNat), t)
  | .setHeader blockId field value =>
      (.done,
        { t with
          header := Function.update t.header blockId.toNat
            (Function.update (t.header blockId.toNat) field.toNat value) })
  | .read blockId dest destOffset srcOffset count =>
      (.data (Bytes.overwrite dest destOffset.toNat
        (((t.content blockId.toNat).drop srcOffset.toNat).take count.toNat)), t)
  | .write blockId src srcOffset dstOffset count =>
      (.done,
        { t with
          content := Function.update t.content blockId.toNat
            (Bytes.overwrite (t.content blockId.toNat) dstOffset.toNat
              ((src.drop srcOffset.toNat).take count.toNat)) })
  | .dispose _ => (.done, t)

end FlatBlocks

/-! ### Blocks that represent flat blocks -/

section Representation

/-- The first sector of a block: the one in memory, or else the one in the stream. -/
def sector (storage : BlockStorage) (part : Bytes) : Option Block → Bytes
  | some block => block.firstSector
  | none => part.take storage.diskSectorSize

/-- A block in memory that agrees with its part of the stream: a sector that is not dirty is
the one in the stream, and what is cached is in the sector. -/
structure Opened (storage : BlockStorage) (part : Bytes) (n : Nat) (block : Block) : Prop where
  id_eq : block.id.toNat = n
  live : block.isDisposed = false
  length_eq : block.firstSector.length = storage.diskSectorSize
  clean : block.isFirstSectorDirty = false →
    block.firstSector = part.take storage.diskSectorSize
  cached : ∀ (field : Nat) (hfield : field < 5) (value : Int64),
    block.cachedHeaderValue[field] = some value →
      value = getInt64 (block.firstSector.drop (8 * field))

/-- What is cached is in the sector still, when a field is cached that is in the sector. -/
theorem cached_cacheHeader {block : Block} {firstSector : Bytes} {field : Nat} {value : Int64}
    (hcached : ∀ (other : Nat) (hother : other < 5), other ≠ field → ∀ (cached : Int64),
      block.cachedHeaderValue[other] = some cached →
        cached = getInt64 (firstSector.drop (8 * other)))
    (hvalue : value = getInt64 (firstSector.drop (8 * field))) :
  ∀ (other : Nat) (hother : other < 5) (cached : Int64),
    (block.cacheHeader field value).cachedHeaderValue[other] = some cached →
      cached = getInt64 (firstSector.drop (8 * other))
  := by
  intro other hother cached hslot
  rw [Block.cacheHeader, Int.toNat_natCast] at hslot
  dsimp only at hslot
  rw [Vector.getElem_setIfInBounds] at hslot
  split at hslot
  · rename_i heq
    cases hslot
    rwa [← heq]
  · rename_i hne
    exact hcached other hother (Ne.symm hne) cached hslot

/-- A part of the stream, and the block in memory if there is one, hold content and header
fields. -/
structure Holds (storage : BlockStorage) (part : Bytes) (n : Nat) (slot : Option Block)
    (content : Bytes) (header : Nat → Int64) : Prop where
  opened : ∀ block, slot = some block → Opened storage part n block
  content_eq :
    content = (image storage (sector storage part slot) part).drop storage.blockHeaderSize
  header_eq : ∀ field < 5, header field = getInt64 ((sector storage part slot).drop (8 * field))

/-- The state of a storage represents flat blocks: the stream is as long as the blocks are, and
each of them is held by its part and by what is in memory of it. -/
structure Represents (storage : BlockStorage) (s : StorageState) (t : FlatBlocks) : Prop where
  length_eq : s.stream.bytes.length = t.count * storage.blockSize
  count_le : t.count ≤ 2 ^ 32
  holds : ∀ blockId : UInt32, blockId.toNat < t.count →
    Holds storage (part storage s.stream.bytes blockId.toNat) blockId.toNat (s.blocks blockId)
      (t.content blockId.toNat) (t.header blockId.toNat)
  fresh : ∀ blockId : UInt32, t.count ≤ blockId.toNat → s.blocks blockId = none

variable {storage : BlockStorage} {s : StorageState} {t : FlatBlocks} {blockId : UInt32}

/-- The part of a block lies within the stream. -/
theorem Represents.inside (hrep : Represents storage s t) {n : Nat} (hn : n < t.count) :
  n * storage.blockSize + storage.blockSize ≤ s.stream.bytes.length
  := by
  have hmul : (n + 1) * storage.blockSize ≤ t.count * storage.blockSize :=
    Nat.mul_le_mul_right _ hn
  rw [Nat.add_mul, Nat.one_mul] at hmul
  rw [hrep.length_eq]
  exact hmul

/-- A block in memory is one of the flat blocks and agrees with its part of the stream. -/
theorem Represents.opened (hrep : Represents storage s t) {block : Block}
    (hblock : s.blocks blockId = some block) :
  blockId.toNat < t.count
    ∧ Opened storage (part storage s.stream.bytes blockId.toNat) blockId.toNat block
  := by
  have hcount : blockId.toNat < t.count := by
    by_contra hge
    rw [hrep.fresh blockId (Nat.le_of_not_lt hge)] at hblock
    cases hblock
  exact ⟨hcount, (hrep.holds blockId hcount).opened block hblock⟩

/-- After a change of one block and its part of the stream the state represents the flat blocks
with that block changed. -/
theorem Represents.update (hrep : Represents storage s t) (hcount : blockId.toNat < t.count)
    {stream : DataFileStream} {slot : Option Block} {content : Bytes} {header : Nat → Int64}
    (hlength : stream.bytes.length = s.stream.bytes.length)
    (hframe : ∀ m, m ≠ blockId.toNat →
      part storage stream.bytes m = part storage s.stream.bytes m)
    (hholds : Holds storage (part storage stream.bytes blockId.toNat) blockId.toNat slot
      content header) :
  Represents storage { stream := stream, blocks := Function.update s.blocks blockId slot }
    { count := t.count
      content := Function.update t.content blockId.toNat content
      header := Function.update t.header blockId.toNat header }
  where
  length_eq := hlength.trans hrep.length_eq
  count_le := hrep.count_le
  holds := by
    intro otherId hother
    dsimp only
    by_cases heq : otherId = blockId
    · subst heq
      rw [Function.update_self, Function.update_self, Function.update_self]
      exact hholds
    · have hne : otherId.toNat ≠ blockId.toNat := fun h => heq (UInt32.toNat_inj.mp h)
      rw [Function.update_of_ne heq, Function.update_of_ne hne, Function.update_of_ne hne,
        hframe _ hne]
      exact hrep.holds otherId hother
  fresh := by
    intro otherId hother
    have hne : otherId ≠ blockId := by
      rintro rfl
      exact absurd hother (Nat.not_le_of_lt hcount)
    dsimp only
    rw [Function.update_of_ne hne]
    exact hrep.fresh otherId hother

/-- After a change of one block that leaves what it holds the state represents the same flat
blocks. -/
theorem Represents.update_same (hrep : Represents storage s t) (hcount : blockId.toNat < t.count)
    {stream : DataFileStream} {slot : Option Block}
    (hlength : stream.bytes.length = s.stream.bytes.length)
    (hframe : ∀ m, m ≠ blockId.toNat →
      part storage stream.bytes m = part storage s.stream.bytes m)
    (hholds : Holds storage (part storage stream.bytes blockId.toNat) blockId.toNat slot
      (t.content blockId.toNat) (t.header blockId.toNat)) :
  Represents storage { stream := stream, blocks := Function.update s.blocks blockId slot } t
  := by
  have hupdated := hrep.update hcount hlength hframe hholds
  rw [Function.update_eq_self, Function.update_eq_self] at hupdated
  exact hupdated

/-- A method of a block in memory that returns. -/
theorem onBlock_eq {α : Type} {method : BlockM α} {block : Block} {a : α} {s' : BlockState}
    (hblock : s.blocks blockId = some block)
    (hmethod : method { block := block, stream := s.stream } = .ok a s') :
  BlockStorage.onBlock blockId method s
    = .ok a { stream := s'.stream, blocks := Function.update s.blocks blockId (some s'.block) }
  := by
  simp only [BlockStorage.onBlock, hblock, hmethod]

/-- A method of a block in memory that throws. -/
theorem onBlock_eq_error {α : Type} {method : BlockM α} {block : Block} {e : BlockException}
    {s' : BlockState} (hblock : s.blocks blockId = some block)
    (hmethod : method { block := block, stream := s.stream } = .error e s') :
  BlockStorage.onBlock blockId method s
    = .error e { stream := s'.stream, blocks := Function.update s.blocks blockId (some s'.block) }
  := by
  simp only [BlockStorage.onBlock, hblock, hmethod]

/-- A call that returns. -/
theorem step_eq {call : BlockCall} {result : BlockResult} {s' : StorageState}
    (hrun : call.run storage s = .ok result s') :
  step storage s call = (result, s')
  := by
  rw [step, hrun]

/-- A call that throws. -/
theorem step_eq_error {call : BlockCall} {e : BlockException} {s' : StorageState}
    (hrun : call.run storage s = .error e s') :
  step storage s call = (.thrown e, s')
  := by
  rw [step, hrun]

end Representation

/-! ### Calls -/

/-- A block with the id is in memory and not disposed. -/
def Live (s : StorageState) (blockId : UInt32) : Prop :=
  ∃ block, s.blocks blockId = some block ∧ block.isDisposed = false

instance (s : StorageState) (blockId : UInt32) : Decidable (Live s blockId) :=
  decidable_of_iff ((s.blocks blockId).any (fun block => !block.isDisposed) = true) (by
    rw [Option.any_eq_true]
    simp only [Live, Bool.not_eq_true'])

/-- A call that is in range, where it is a call on a block on one that is not disposed. -/
def Legal (storage : BlockStorage) (s : StorageState) : BlockCall → Prop
  | .createNew => True
  | .find _ => True
  | .getHeader blockId field => Live s blockId ∧ 0 ≤ field ∧ field < 5
  | .setHeader blockId field _ => Live s blockId ∧ 0 ≤ field ∧ field < 5
  | .read blockId dest destOffset srcOffset count =>
      Live s blockId ∧ 0 ≤ destOffset ∧ 0 ≤ srcOffset ∧ 0 ≤ count
        ∧ srcOffset + count ≤ storage.blockContentSize ∧ destOffset + count ≤ dest.length
        ∧ dest.length < 2 ^ 31
  | .write blockId src srcOffset dstOffset count =>
      Live s blockId ∧ 0 ≤ srcOffset ∧ 0 ≤ dstOffset ∧ 0 ≤ count
        ∧ dstOffset + count ≤ storage.blockContentSize ∧ srcOffset + count ≤ src.length
        ∧ src.length < 2 ^ 31
  | .dispose blockId => Live s blockId

instance (storage : BlockStorage) (s : StorageState) :
    ∀ call, Decidable (Legal storage s call)
  | .createNew => inferInstanceAs (Decidable True)
  | .find _ => inferInstanceAs (Decidable True)
  | .getHeader _ _ => inferInstanceAs (Decidable (_ ∧ _ ∧ _))
  | .setHeader _ _ _ => inferInstanceAs (Decidable (_ ∧ _ ∧ _))
  | .read _ _ _ _ _ => inferInstanceAs (Decidable (_ ∧ _ ∧ _ ∧ _ ∧ _ ∧ _ ∧ _))
  | .write _ _ _ _ _ => inferInstanceAs (Decidable (_ ∧ _ ∧ _ ∧ _ ∧ _ ∧ _ ∧ _))
  | .dispose blockId => inferInstanceAs (Decidable (Live s blockId))

/-- The blocks of a stream are counted right: where the length becomes longer as a double, it is
by too little for the quotient to come to more than their number. -/
def CountsRight (storage : BlockStorage) (length : Nat) : Prop :=
  (Double.ofNat length - length) * 2 ^ 53
    ≤ storage.blockSize * 2 ^ (length / storage.blockSize).log2

instance (storage : BlockStorage) (length : Nat) : Decidable (CountsRight storage length) :=
  inferInstanceAs (Decidable (_ ≤ _))

/-- A call that the storage can do: a dirty block is disposed only where its sector has the
length that is written back, and a new block is created only where there is an id for it and the
blocks that there are are counted right. -/
def Supported (storage : BlockStorage) (s : StorageState) : BlockCall → Prop
  | .createNew =>
      s.stream.bytes.length / storage.blockSize < 2 ^ 32
        ∧ CountsRight storage s.stream.bytes.length
  | .dispose blockId =>
      ∀ block, s.blocks blockId = some block → block.isFirstSectorDirty = true →
        4096 ≤ storage.blockSize
  | _ => True

instance (storage : BlockStorage) (s : StorageState) :
    ∀ call, Decidable (Supported storage s call)
  | .createNew => inferInstanceAs (Decidable (_ ∧ _))
  | .dispose blockId =>
      decidable_of_iff ((s.blocks blockId).all
          (fun block => !block.isFirstSectorDirty || decide (4096 ≤ storage.blockSize)) = true) (by
        simp only [Supported, Option.all_eq_true, Bool.or_eq_true, Bool.not_eq_true',
          decide_eq_true_eq]
        refine forall_congr' fun block => imp_congr_right fun _ => ?_
        cases block.isFirstSectorDirty with
        | false => exact ⟨fun _ h => (nomatch h), fun _ => Or.inl rfl⟩
        | true =>
            exact ⟨fun h _ => h.resolve_left (fun hd => nomatch hd), fun h => Or.inr (h rfl)⟩)
  | .find _ => inferInstanceAs (Decidable True)
  | .getHeader _ _ => inferInstanceAs (Decidable True)
  | .setHeader _ _ _ => inferInstanceAs (Decidable True)
  | .read _ _ _ _ _ => inferInstanceAs (Decidable True)
  | .write _ _ _ _ _ => inferInstanceAs (Decidable True)

section Calls

variable {storage : BlockStorage} {s : StorageState} {t : FlatBlocks} {blockId : UInt32}
  {block : Block}

/-- Reading a header field gives the one of the flat block. -/
theorem Represents.getHeader (hrep : Represents storage s t)
    (hheader : 48 ≤ storage.blockHeaderSize) (hlive : Live s blockId) {field : Nat}
    (hfield : field < 5) :
  ∃ s', step storage s (.getHeader blockId field)
      = (.header (t.header blockId.toNat field), s')
    ∧ Represents storage s' t
  := by
  obtain ⟨block, hblock, hlive⟩ := hlive
  obtain ⟨hcount, hopened⟩ := hrep.opened hblock
  have hholds := hrep.holds blockId hcount
  rw [hblock] at hholds
  have hvalue := (hholds.header_eq field hfield).symm
  obtain ⟨block', hget, hblock'⟩ := Block.getHeader_eq
    (s := { block := block, stream := s.stream }) hheader hlive hopened.length_eq hfield hvalue
    (fun cached hcached => (hopened.cached field hfield cached hcached).trans hvalue)
  refine ⟨_, step_eq (EStateM.bind_apply_of_ok (onBlock_eq hblock hget) _), ?_⟩
  apply hrep.update_same hcount rfl (fun _ _ => rfl)
  rcases hblock' with rfl | rfl
  · exact hholds
  · exact
      { content_eq := hholds.content_eq
        header_eq := hholds.header_eq
        opened := by
          rintro _ ⟨⟩
          exact
            { hopened with
              cached := cached_cacheHeader
                (fun other hother _ cached hslot => hopened.cached other hother cached hslot)
                hvalue.symm } }

/-- Reading content gives that of the flat block. -/
theorem Represents.read (hrep : Represents storage s t) (hlive : Live s blockId) {dest : Bytes}
    {destOffset srcOffset count : Nat} (hsrc : srcOffset + count ≤ storage.blockContentSize)
    (hdest : destOffset + count ≤ dest.length) (hint : dest.length < 2 ^ 31) :
  ∃ s', step storage s (.read blockId dest destOffset srcOffset count)
      = (.data (Bytes.overwrite dest destOffset
          (((t.content blockId.toNat).drop srcOffset).take count)), s')
    ∧ Represents storage s' t
  := by
  obtain ⟨block, hblock, hlive⟩ := hlive
  obtain ⟨hcount, hopened⟩ := hrep.opened hblock
  have hholds := hrep.holds blockId hcount
  rw [hblock] at hholds
  obtain ⟨position, hread⟩ := Block.read_eq (s := { block := block, stream := s.stream })
    hlive hopened.length_eq (by dsimp only; rw [hopened.id_eq]; exact hrep.inside hcount) hsrc
    hdest hint
  have hcontent : (t.content blockId.toNat).drop srcOffset
      = (image storage block.firstSector (part storage s.stream.bytes block.id.toNat)).drop
          (storage.blockHeaderSize + srcOffset) := by
    rw [hholds.content_eq, List.drop_drop, hopened.id_eq]
    rfl
  rw [hcontent]
  refine ⟨_, step_eq (EStateM.bind_apply_of_ok (onBlock_eq hblock hread) _), ?_⟩
  exact hrep.update_same hcount rfl (fun _ _ => rfl) hholds

/-- Setting a header field sets the one of the flat block. -/
theorem Represents.setHeader (hrep : Represents storage s t)
    (hheader : 48 ≤ storage.blockHeaderSize) (hlive : Live s blockId) {field : Nat}
    (hfield : field < 5) (value : Int64) :
  ∃ s', step storage s (.setHeader blockId field value) = (.done, s')
    ∧ Represents storage s'
      { t with
        header := Function.update t.header blockId.toNat
          (Function.update (t.header blockId.toNat) field value) }
  := by
  obtain ⟨block, hblock, hlive⟩ := hlive
  obtain ⟨hcount, hopened⟩ := hrep.opened hblock
  have hholds := hrep.holds blockId hcount
  rw [hblock] at hholds
  have hsector := storage.diskSectorSize_ge
  have hrange : 8 * field + (getBytes value).length ≤ block.firstSector.length := by
    rw [length_getBytes, hopened.length_eq]
    omega
  have hset := Block.setHeader_eq (s := { block := block, stream := s.stream }) hlive
    hopened.length_eq hfield value
  have hsame : getInt64 ((Bytes.overwrite block.firstSector (8 * field) (getBytes value)).drop
      (8 * field)) = value := by
    rw [Bytes.drop_overwrite (by omega), getInt64_getBytes_append]
  have hother : ∀ other, other < 5 → other ≠ field →
      getInt64 ((Bytes.overwrite block.firstSector (8 * field) (getBytes value)).drop
        (8 * other)) = getInt64 (block.firstSector.drop (8 * other)) := by
    intro other _ hne
    rw [getInt64, getInt64, Bytes.readLE_overwrite_of_disjoint hrange]
    rw [length_getBytes]
    omega
  refine ⟨_, step_eq (EStateM.bind_apply_of_ok (onBlock_eq hblock hset) _), ?_⟩
  have hupdated : Represents storage
      { stream := s.stream
        blocks := Function.update s.blocks blockId (some
          { block.cacheHeader field value with
            firstSector := Bytes.overwrite block.firstSector (8 * field) (getBytes value)
            isFirstSectorDirty := true }) }
      { count := t.count
        content := Function.update t.content blockId.toNat (t.content blockId.toNat)
        header := Function.update t.header blockId.toNat
          (Function.update (t.header blockId.toNat) field value) } := by
    apply hrep.update hcount rfl (fun _ _ => rfl)
    refine ⟨?_, ?_, ?_⟩
    · rintro _ ⟨⟩
      exact
        { id_eq := hopened.id_eq
          live := hopened.live
          length_eq := (Bytes.length_overwrite hrange).trans hopened.length_eq
          clean := fun h => Bool.noConfusion h
          cached := cached_cacheHeader
            (fun other hother' hne cached hcached =>
              (hopened.cached other hother' cached hcached).trans (hother other hother' hne).symm)
            hsame.symm }
    · have himage : 8 * field + (getBytes value).length ≤ (image storage block.firstSector
          (part storage s.stream.bytes blockId.toNat)).length := by
        rw [image, List.length_append]
        omega
      have hset : image storage (Bytes.overwrite block.firstSector (8 * field) (getBytes value))
          (part storage s.stream.bytes blockId.toNat)
            = Bytes.overwrite (image storage block.firstSector
              (part storage s.stream.bytes blockId.toNat)) (8 * field) (getBytes value) :=
        (Bytes.overwrite_append_left hrange).symm
      rw [hholds.content_eq]
      dsimp only [sector]
      rw [hset, Bytes.drop_overwrite_of_ge himage]
      rw [length_getBytes]
      omega
    · intro other hother'
      by_cases heq : other = field
      · subst heq
        rw [Function.update_self]
        exact hsame.symm
      · rw [Function.update_of_ne heq, hholds.header_eq other hother']
        exact (hother other hother' heq).symm
  rw [Function.update_eq_self] at hupdated
  exact hupdated

/-- Bytes written behind the header fields leave the length of a sector and the fields. -/
theorem overwrite_behind_fields {sector s : Bytes} {k : Nat} (hk : 48 ≤ k)
    (hs : s.length ≤ sector.length - k) :
  (Bytes.overwrite sector k s).length = sector.length
    ∧ ∀ field < 5, getInt64 ((Bytes.overwrite sector k s).drop (8 * field))
      = getInt64 (sector.drop (8 * field))
  := by
  by_cases hempty : s = []
  · rw [hempty, Bytes.overwrite_nil]
    exact ⟨rfl, fun _ _ => rfl⟩
  · have hpos := List.length_pos_iff.mpr hempty
    have hrange : k + s.length ≤ sector.length := by omega
    refine ⟨Bytes.length_overwrite hrange, ?_⟩
    intro field hfield
    rw [getInt64, getInt64, Bytes.readLE_overwrite_of_disjoint hrange (by omega)]

/-- Writing content writes that of the flat block. -/
theorem Represents.write (hrep : Represents storage s t)
    (hheader : 48 ≤ storage.blockHeaderSize) (hlive : Live s blockId) {src : Bytes}
    {srcOffset dstOffset count : Nat} (hsrc : srcOffset + count ≤ src.length)
    (hint : src.length < 2 ^ 31) (hdst : dstOffset + count ≤ storage.blockContentSize) :
  ∃ s', step storage s (.write blockId src srcOffset dstOffset count) = (.done, s')
    ∧ Represents storage s'
      { t with
        content := Function.update t.content blockId.toNat
          (Bytes.overwrite (t.content blockId.toNat) dstOffset
            ((src.drop srcOffset).take count)) }
  := by
  obtain ⟨block, hblock, hlive⟩ := hlive
  obtain ⟨hcount, hopened⟩ := hrep.opened hblock
  have hholds := hrep.holds blockId hcount
  rw [hblock] at hholds
  have hinside := hrep.inside hcount
  have hcontent := storage.header_add_content
  obtain ⟨slice, hslice⟩ : ∃ slice, (src.drop srcOffset).take count = slice := ⟨_, rfl⟩
  have hslicelength : slice.length = count := by
    rw [← hslice, List.length_take, List.length_drop]
    omega
  obtain ⟨k, hk⟩ : ∃ k, storage.blockHeaderSize + dstOffset = k := ⟨_, rfl⟩
  obtain ⟨position, hwrite⟩ := Block.write_eq (s := { block := block, stream := s.stream })
    hlive hopened.length_eq (by dsimp only; rw [hopened.id_eq]; exact hinside) hsrc hint hdst
  rw [hslice, hk, hopened.id_eq] at hwrite
  rw [hslice]
  refine ⟨_, step_eq (EStateM.bind_apply_of_ok (onBlock_eq hblock hwrite) _), ?_⟩
  have hle := storage.diskSectorSize_le
  have hdrop : (slice.drop (storage.diskSectorSize - k)).length
      = slice.length - (storage.diskSectorSize - k) := List.length_drop
  have hrange : k + (storage.diskSectorSize - k)
      + (slice.drop (storage.diskSectorSize - k)).length ≤ storage.blockSize := by omega
  have htake : (slice.take (storage.diskSectorSize - k)).length
      ≤ block.firstSector.length - k := by
    rw [hopened.length_eq, List.length_take]
    omega
  obtain ⟨hlength, hfields⟩ := overwrite_behind_fields (by omega) htake
  have hpart := length_part hinside
  have himage : k + slice.length ≤ (image storage block.firstSector
      (part storage s.stream.bytes blockId.toNat)).length := by
    rw [image, List.length_append, List.length_drop, hopened.length_eq, hpart]
    omega
  have hpart' := part_overwrite_same hinside hrange
  have hupdated : Represents storage
      { stream :=
          { bytes := Bytes.overwrite s.stream.bytes
              (blockId.toNat * storage.blockSize + (k + (storage.diskSectorSize - k)))
              (slice.drop (storage.diskSectorSize - k))
            position := position }
        blocks := Function.update s.blocks blockId (some
          { block with
            firstSector := Bytes.overwrite block.firstSector k
              (slice.take (storage.diskSectorSize - k))
            isFirstSectorDirty :=
              block.isFirstSectorDirty || decide (k < storage.diskSectorSize) }) }
      { count := t.count
        content := Function.update t.content blockId.toNat
          (Bytes.overwrite (t.content blockId.toNat) dstOffset slice)
        header := Function.update t.header blockId.toNat (t.header blockId.toNat) } := by
    apply hrep.update hcount (Bytes.length_overwrite (by omega))
      (fun m hm => part_overwrite_ne hinside hrange hm)
    dsimp only
    rw [hpart']
    refine ⟨?_, ?_, ?_⟩
    · rintro _ ⟨⟩
      exact
        { id_eq := hopened.id_eq
          live := hopened.live
          length_eq := hlength.trans hopened.length_eq
          clean := by
            intro hclean
            rw [Bool.or_eq_false_iff, decide_eq_false_iff_not] at hclean
            rw [Nat.sub_eq_zero_of_le (Nat.le_of_not_lt hclean.2), List.take_zero, List.drop_zero,
              Bytes.overwrite_nil, Bytes.take_overwrite_of_ge (by omega) (by omega)]
            exact hopened.clean hclean.1
          cached := fun field hfield value hslot =>
            (hopened.cached field hfield value hslot).trans (hfields field hfield).symm }
    · dsimp only [sector]
      rw [image_overwrite hopened.length_eq hpart (by omega),
        Bytes.drop_overwrite_of_le himage (by omega), hholds.content_eq, ← hk,
        Nat.add_sub_cancel_left]
      rfl
    · intro field hfield
      exact (hholds.header_eq field hfield).trans (hfields field hfield).symm
  rw [Function.update_eq_self] at hupdated
  exact hupdated

/-- Disposing a block leaves the flat blocks, where its sector has the length that is written
back or is not dirty. -/
theorem Represents.dispose (hrep : Represents storage s t) (hlive : Live s blockId)
    (hsupported : Supported storage s (.dispose blockId)) :
  ∃ s', step storage s (.dispose blockId) = (.done, s') ∧ Represents storage s' t
  := by
  obtain ⟨block, hblock, hlive⟩ := hlive
  obtain ⟨hcount, hopened⟩ := hrep.opened hblock
  have hholds := hrep.holds blockId hcount
  rw [hblock] at hholds
  have hinside := hrep.inside hcount
  have hpart := length_part hinside
  have hle := storage.diskSectorSize_le
  have hdispose : ∀ s', Block.dispose storage { block := block, stream := s.stream }
      = .ok true s' → step storage s (.dispose blockId)
        = (.done, { stream := s'.stream, blocks := Function.update s.blocks blockId none }) := by
    intro s' hs'
    have hon := onBlock_eq hblock hs'
    have hrun : storage.dispose blockId s
        = .ok () { stream := s'.stream, blocks := Function.update s.blocks blockId none } := by
      have hidem : Function.update (Function.update s.blocks blockId (some s'.block)) blockId none
          = Function.update s.blocks blockId none := Function.update_idem _ _ _
      rw [BlockStorage.dispose, EStateM.bind_apply_of_ok hon, if_pos rfl, ← hidem]
      rfl
    exact step_eq (EStateM.bind_apply_of_ok hrun _)
  cases hdirty : block.isFirstSectorDirty with
  | false =>
      refine ⟨_, hdispose _ (Block.dispose_clean hlive hdirty), ?_⟩
      apply hrep.update_same hcount rfl (fun _ _ => rfl)
      have hclean := hopened.clean hdirty
      exact
        { opened := fun _ h => nomatch h
          content_eq := hholds.content_eq.trans (by rw [sector, sector, hclean])
          header_eq := by
            intro field hfield
            rw [hholds.header_eq field hfield, sector, sector, hclean] }
  | true =>
      have hsize := hsupported block hblock hdirty
      have hfull : storage.diskSectorSize = 4096 := if_pos hsize
      have hlength := hopened.length_eq
      have hinside' : block.id.toNat * storage.blockSize + 4096 ≤ s.stream.bytes.length := by
        rw [hopened.id_eq]
        omega
      obtain ⟨position, hback⟩ := Block.dispose_dirty (s := { block := block, stream := s.stream })
        hlive hdirty (hlength.trans hfull) hinside'
      dsimp only at hback
      rw [hopened.id_eq] at hback
      have hrange : 0 + block.firstSector.length ≤ storage.blockSize := by omega
      have hpart' : part storage (Bytes.overwrite s.stream.bytes
          (blockId.toNat * storage.blockSize) block.firstSector) blockId.toNat
            = Bytes.overwrite (part storage s.stream.bytes blockId.toNat) 0 block.firstSector :=
        part_overwrite_same hinside hrange
      have htake : (Bytes.overwrite (part storage s.stream.bytes blockId.toNat) 0
          block.firstSector).take storage.diskSectorSize = block.firstSector := by
        rw [Bytes.take_overwrite_of_le (by omega) (by omega), Bytes.overwrite_all]
        rw [List.length_take]
        omega
      have hdrop : (Bytes.overwrite (part storage s.stream.bytes blockId.toNat) 0
          block.firstSector).drop storage.diskSectorSize
            = (part storage s.stream.bytes blockId.toNat).drop storage.diskSectorSize :=
        Bytes.drop_overwrite_of_ge (by omega) (by omega)
      refine ⟨_, hdispose _ hback, ?_⟩
      apply hrep.update_same hcount (Bytes.length_overwrite (by omega))
        (fun m hm => part_overwrite_ne hinside hrange hm)
      dsimp only
      rw [hpart']
      exact
        { opened := fun _ h => nomatch h
          content_eq := hholds.content_eq.trans (by rw [sector, sector, htake, image, image, hdrop])
          header_eq := by
            intro field hfield
            rw [hholds.header_eq field hfield, sector, sector, htake] }

/-- Disposing a dirty block with a shorter sector fails. -/
theorem Represents.dispose_fails (hrep : Represents storage s t) (hlive : Live s blockId)
    (hsupported : ¬ Supported storage s (.dispose blockId)) :
  ∃ s', step storage s (.dispose blockId) = (.thrown .argument, s')
  := by
  obtain ⟨block, hblock, hlive⟩ := hlive
  obtain ⟨hcount, hopened⟩ := hrep.opened hblock
  obtain ⟨block', hblock', hdirty, hsize⟩ :
      ∃ block', s.blocks blockId = some block' ∧ block'.isFirstSectorDirty = true
        ∧ ¬ 4096 ≤ storage.blockSize := by
    by_contra hnone
    apply hsupported
    intro block' hblock' hdirty
    by_contra hsize
    exact hnone ⟨block', hblock', hdirty, hsize⟩
  obtain rfl : block = block' := Option.some.inj (hblock.symm.trans hblock')
  have hshort : storage.diskSectorSize = 128 := if_neg hsize
  have hlength : block.firstSector.length < 4096 := by
    rw [hopened.length_eq, hshort]
    decide
  obtain ⟨s', hdispose⟩ := Block.dispose_short storage
    (s := { block := block, stream := s.stream }) hlive hdirty hlength
  have hrun := EStateM.bind_apply_of_error (onBlock_eq_error hblock hdispose)
    (fun raised => if raised then BlockStorage.handleBlockDisposed blockId else pure ())
  exact ⟨_, step_eq_error (EStateM.bind_apply_of_error hrun _)⟩

/-- A block is found where there is one, and is in memory then. -/
theorem Represents.find (hrep : Represents storage s t) (blockId : UInt32) :
  ∃ s', step storage s (.find blockId)
      = (.block (if blockId.toNat < t.count then some blockId.toNat else none), s')
    ∧ Represents storage s' t
  := by
  cases hblock : s.blocks blockId with
  | some block =>
      obtain ⟨hcount, -⟩ := hrep.opened hblock
      refine ⟨s, ?_, hrep⟩
      rw [if_pos hcount]
      apply step_eq
      have hfind : storage.find blockId s = .ok (some blockId) s := by
        rw [BlockStorage.find, EStateM.get_bind_apply, if_pos (by rw [hblock]; rfl)]
        rfl
      exact EStateM.bind_apply_of_ok hfind _
  | none =>
      by_cases hcount : blockId.toNat < t.count
      · have hinside := hrep.inside hcount
        have hle := storage.diskSectorSize_le
        have hholds := hrep.holds blockId hcount
        rw [hblock] at hholds
        have htransferred : (s.stream.bytes.drop (blockId.toNat * storage.blockSize)).take
            storage.diskSectorSize
              = (part storage s.stream.bytes blockId.toNat).take storage.diskSectorSize := by
          have hslice := slice_part storage s.stream.bytes blockId.toNat
            (k := 0) (m := storage.diskSectorSize) (by omega)
          rwa [List.drop_zero, Nat.add_zero, eq_comm] at hslice
        have hlength : ((part storage s.stream.bytes blockId.toNat).take
            storage.diskSectorSize).length = storage.diskSectorSize := by
          rw [List.length_take, length_part hinside]
          omega
        have hsector : Bytes.overwrite (List.replicate storage.diskSectorSize 0) 0
            ((part storage s.stream.bytes blockId.toNat).take storage.diskSectorSize)
              = (part storage s.stream.bytes blockId.toNat).take storage.diskSectorSize :=
          Bytes.overwrite_all (by rw [hlength, List.length_replicate])
        have hfind : storage.find blockId s
            = .ok (some blockId)
                { stream :=
                    { bytes := s.stream.bytes
                      position := blockId.toNat * storage.blockSize
                        + ((part storage s.stream.bytes blockId.toNat).take
                          storage.diskSectorSize).length }
                  blocks := Function.update s.blocks blockId (some (Block.new blockId
                    ((part storage s.stream.bytes blockId.toNat).take
                      storage.diskSectorSize))) } := by
          rw [BlockStorage.find, EStateM.get_bind_apply, if_neg (by rw [hblock]; decide)]
          dsimp only
          rw [if_neg (by omega)]
          simp only [DataFileStream.read, htransferred, hsector]
          rfl
        rw [if_pos hcount]
        refine ⟨_, step_eq (EStateM.bind_apply_of_ok hfind _), ?_⟩
        refine hrep.update_same hcount ?_ (fun _ _ => ?_) ?_
        · rfl
        · rfl
        exact
          { opened := by
              rintro _ ⟨⟩
              exact
                { id_eq := rfl
                  live := rfl
                  length_eq := hlength
                  clean := fun _ => rfl
                  cached := by
                    intro field hfield value hslot
                    rw [Block.new, Vector.getElem_replicate] at hslot
                    cases hslot }
            content_eq := hholds.content_eq
            header_eq := hholds.header_eq }
      · have hpast : t.count * storage.blockSize ≤ blockId.toNat * storage.blockSize :=
          Nat.mul_le_mul_right _ (Nat.le_of_not_lt hcount)
        have hsize := storage.size_ge
        have hlength := hrep.length_eq
        have hfind : storage.find blockId s = .ok none s := by
          rw [BlockStorage.find, EStateM.get_bind_apply, if_neg (by rw [hblock]; decide)]
          dsimp only
          rw [if_pos (by omega)]
          rfl
        rw [if_neg hcount]
        exact ⟨s, step_eq (EStateM.bind_apply_of_ok hfind _), hrep⟩

/-- The stream is made longer by one block, which is kept in memory. -/
theorem Represents.step_createNew (hrep : Represents storage s t) {n : Nat}
    (hceil : Double.ceilQuotient (Double.ofNat s.stream.bytes.length) storage.blockSize = n) :
  step storage s .createNew
    = (.block (some (UInt32.ofNat n).toNat),
        { stream := s.stream.setLength
            ((UInt32.ofNat n).toNat * storage.blockSize + storage.blockSize)
          blocks := Function.update s.blocks (UInt32.ofNat n)
            (some (Block.new (UInt32.ofNat n)
              (List.replicate storage.diskSectorSize 0))) })
  := by
  have hcreate : storage.createNew s
      = .ok (UInt32.ofNat n)
          { stream := s.stream.setLength
              ((UInt32.ofNat n).toNat * storage.blockSize + storage.blockSize)
            blocks := Function.update s.blocks (UInt32.ofNat n)
              (some (Block.new (UInt32.ofNat n)
                (List.replicate storage.diskSectorSize 0))) } := by
    rw [BlockStorage.createNew, EStateM.get_bind_apply,
      if_neg (by rw [hrep.length_eq, Nat.mul_mod_left]; exact not_not_intro rfl), hceil]
    rfl
  exact step_eq (EStateM.bind_apply_of_ok hcreate _)

/-- The number that comes out for the blocks that there are. -/
theorem Represents.ceilQuotient_eq (hrep : Represents storage s t) :
  Double.ceilQuotient (Double.ofNat s.stream.bytes.length) storage.blockSize
    = if CountsRight storage s.stream.bytes.length then t.count else t.count + 1
  := by
  have hsize := storage.size_ge
  have hcount := hrep.count_le
  have hright : CountsRight storage s.stream.bytes.length
      ↔ (Double.ofNat (t.count * storage.blockSize) - t.count * storage.blockSize) * 2 ^ 53
        ≤ storage.blockSize * 2 ^ t.count.log2 := by
    rw [CountsRight, hrep.length_eq, Nat.mul_div_cancel _ (by omega)]
  rw [if_congr hright rfl rfl, hrep.length_eq]
  exact Double.ceilQuotient_ofNat (by omega) (by omega)

/-- The blocks of a stream that is short enough for a double are counted right. -/
theorem countsRight_of_lt {length : Nat} (h : length < 2 ^ 53) :
  CountsRight storage length
  := by
  rw [CountsRight, Double.ofNat_of_lt h, Nat.sub_self, Nat.zero_mul]
  exact Nat.zero_le _

/-- A longer stream leaves the parts of the blocks it had. -/
theorem part_setLength_of_le {stream : DataFileStream} {length n : Nat}
    (hlength : stream.bytes.length ≤ length)
    (hinside : n * storage.blockSize + storage.blockSize ≤ stream.bytes.length) :
  part storage (stream.setLength length).bytes n = part storage stream.bytes n
  := by
  rw [part, part, DataFileStream.setLength, List.take_of_length_le hlength,
    List.drop_append_of_le_length (by omega), List.take_append_of_le_length]
  rw [List.length_drop]
  omega

/-- The part of a new block behind the stream holds zeros. -/
theorem part_setLength_behind {stream : DataFileStream} {n : Nat}
    (hlength : stream.bytes.length = n * storage.blockSize) :
  part storage (stream.setLength (n * storage.blockSize + storage.blockSize)).bytes n
    = List.replicate storage.blockSize 0
  := by
  have htake : stream.bytes.take (stream.bytes.length + storage.blockSize) = stream.bytes :=
    List.take_of_length_le (Nat.le_add_right _ _)
  rw [part, DataFileStream.setLength, ← hlength]
  dsimp only
  rw [htake, List.drop_left, Nat.add_sub_cancel_left, List.take_of_length_le]
  rw [List.length_replicate]

/-- A block of zeros holds zeros. -/
theorem holds_new (storage : BlockStorage) (blockId : UInt32) :
  Holds storage (List.replicate storage.blockSize 0) blockId.toNat
    (some (Block.new blockId (List.replicate storage.diskSectorSize 0)))
    (List.replicate storage.blockContentSize 0) (fun _ => 0)
  where
  opened := by
    rintro _ ⟨⟩
    exact
      { id_eq := rfl
        live := rfl
        length_eq := List.length_replicate
        clean := by
          intro _
          rw [List.take_replicate, Nat.min_eq_left storage.diskSectorSize_le]
          rfl
        cached := by
          intro field hfield value hslot
          rw [Block.new, Vector.getElem_replicate] at hslot
          cases hslot }
  content_eq := by
    dsimp only [sector, Block.new]
    rw [image, List.drop_replicate, List.replicate_append_replicate, List.drop_replicate,
      Nat.add_sub_cancel' storage.diskSectorSize_le]
    rfl
  header_eq := by
    intro field hfield
    have hsector := storage.diskSectorSize_ge
    have hzero : Bytes.readLE ((List.replicate storage.diskSectorSize 0).drop (8 * field)) 8
        = 0 := by
      apply Bytes.readLE_eq_zero
      intro i hi
      rw [List.drop_replicate, List.getElem?_replicate, if_pos (by omega)]
    dsimp only [sector, Block.new]
    rw [getInt64, hzero]
    rfl

/-- A new block holds zeros. -/
theorem Represents.createNew (hrep : Represents storage s t) (hroom : t.count < 2 ^ 32)
    (hright : CountsRight storage s.stream.bytes.length) :
  ∃ s', step storage s .createNew = (.block (some t.count), s')
    ∧ Represents storage s' (t.step storage.blockContentSize .createNew).2
  := by
  have hid : (UInt32.ofNat t.count).toNat = t.count := UInt32.toNat_ofNat_of_lt' hroom
  have hlength : s.stream.bytes.length ≤ t.count * storage.blockSize + storage.blockSize := by
    rw [hrep.length_eq]
    omega
  have hrun := hrep.step_createNew (hrep.ceilQuotient_eq.trans (if_pos hright))
  have hnew := holds_new storage (UInt32.ofNat t.count)
  rw [hid] at hrun hnew
  refine ⟨_, hrun, ?_⟩
  exact
    { length_eq := by
        dsimp only [FlatBlocks.step]
        rw [DataFileStream.length_setLength hlength, Nat.add_mul, Nat.one_mul]
      count_le := hroom
      holds := by
        intro blockId hcount
        dsimp only [FlatBlocks.step] at hcount ⊢
        by_cases heq : blockId = UInt32.ofNat t.count
        · subst heq
          rw [Function.update_self, hid, Function.update_self, Function.update_self,
            part_setLength_behind hrep.length_eq]
          exact hnew
        · have hne : blockId.toNat ≠ t.count := fun h => heq (by rw [← h, UInt32.ofNat_toNat])
          have hlt : blockId.toNat < t.count := by omega
          rw [Function.update_of_ne heq, Function.update_of_ne hne, Function.update_of_ne hne,
            part_setLength_of_le hlength (hrep.inside hlt)]
          exact hrep.holds blockId hlt
      fresh := by
        intro blockId hcount
        dsimp only [FlatBlocks.step] at hcount ⊢
        have hne : blockId ≠ UInt32.ofNat t.count := by
          rintro rfl
          omega
        rw [Function.update_of_ne hne]
        exact hrep.fresh blockId (by omega) }

/-- Without an id left, or where the blocks are not counted right, the new block is not behind the
others. -/
theorem Represents.createNew_fails (hrep : Represents storage s t)
    (hfails : ¬ (t.count < 2 ^ 32 ∧ CountsRight storage s.stream.bytes.length)) :
  (step storage s .createNew).1 ≠ .block (some t.count)
  := by
  rw [hrep.step_createNew rfl, hrep.ceilQuotient_eq]
  intro hresult
  injection hresult with hresult
  injection hresult with hresult
  rw [UInt32.toNat_ofNat'] at hresult
  split at hresult
  · rename_i hright
    exact hfails ⟨by omega, hright⟩
  · omega

end Calls

/-! ### Runs -/

/-- The state after a call. -/
def next (storage : BlockStorage) (s : StorageState) (call : BlockCall) : StorageState :=
  (step storage s call).2

/-- The calls are in range, and those on blocks are on blocks that are not disposed. -/
def AllLegal (storage : BlockStorage) (calls : List BlockCall) : Prop :=
  Run.Along (next storage) (Legal storage) StorageState.empty calls

/-- The storage can do all the calls. -/
def AllSupported (storage : BlockStorage) (calls : List BlockCall) : Prop :=
  Run.Along (next storage) (Supported storage) StorageState.empty calls

/-- The calls on an empty storage come to what they come to on flat blocks: each block is found
under its id, a header field has the value last set, content is read as it was last written,
and no call throws. -/
def BehavesFlat (storage : BlockStorage) (calls : List BlockCall) : Prop :=
  Run.outputs (step storage) StorageState.empty calls
    = Run.outputs (FlatBlocks.step storage.blockContentSize) FlatBlocks.empty calls

section Runs

variable {storage : BlockStorage} {s : StorageState} {t : FlatBlocks} {call : BlockCall}

/-- A call in range that the storage can do comes to what it comes to on the flat blocks, and
keeps representing them. -/
theorem Represents.step (hheader : 48 ≤ storage.blockHeaderSize) (hrep : Represents storage s t)
    (hlegal : Legal storage s call) (hsupported : Supported storage s call) :
  (Blocks.step storage s call).1 = (t.step storage.blockContentSize call).1
    ∧ Represents storage (Blocks.step storage s call).2 (t.step storage.blockContentSize call).2
  := by
  cases call with
  | createNew =>
      have hsize := storage.size_ge
      obtain ⟨hroom, hright⟩ := hsupported
      rw [hrep.length_eq, Nat.mul_div_cancel _ (by omega)] at hroom
      obtain ⟨s', hstep, hrep'⟩ := hrep.createNew hroom hright
      rw [hstep]
      exact ⟨rfl, hrep'⟩
  | find blockId =>
      obtain ⟨s', hstep, hrep'⟩ := hrep.find blockId
      rw [hstep]
      exact ⟨rfl, hrep'⟩
  | getHeader blockId field =>
      obtain ⟨hlive, hfield, hlt⟩ := hlegal
      lift field to Nat using hfield
      have hfield : field < 5 := by omega
      obtain ⟨s', hstep, hrep'⟩ := hrep.getHeader hheader hlive hfield
      rw [hstep]
      exact ⟨rfl, hrep'⟩
  | setHeader blockId field value =>
      obtain ⟨hlive, hfield, hlt⟩ := hlegal
      lift field to Nat using hfield
      have hfield : field < 5 := by omega
      obtain ⟨s', hstep, hrep'⟩ := hrep.setHeader hheader hlive hfield value
      rw [hstep]
      exact ⟨rfl, hrep'⟩
  | read blockId dest destOffset srcOffset count =>
      obtain ⟨hlive, hdest, hsrc, hcount, hinside, hroom, hint⟩ := hlegal
      lift destOffset to Nat using hdest
      lift srcOffset to Nat using hsrc
      lift count to Nat using hcount
      have hsrc : srcOffset + count ≤ storage.blockContentSize := by omega
      have hdest : destOffset + count ≤ dest.length := by omega
      obtain ⟨s', hstep, hrep'⟩ := hrep.read hlive hsrc hdest hint
      rw [hstep]
      exact ⟨rfl, hrep'⟩
  | write blockId src srcOffset dstOffset count =>
      obtain ⟨hlive, hsrc, hdst, hcount, hinside, hroom, hint⟩ := hlegal
      lift srcOffset to Nat using hsrc
      lift dstOffset to Nat using hdst
      lift count to Nat using hcount
      have hsrc : srcOffset + count ≤ src.length := by omega
      have hdst : dstOffset + count ≤ storage.blockContentSize := by omega
      obtain ⟨s', hstep, hrep'⟩ := hrep.write hheader hlive hsrc hint hdst
      rw [hstep]
      exact ⟨rfl, hrep'⟩
  | dispose blockId =>
      obtain ⟨s', hstep, hrep'⟩ := hrep.dispose hlegal hsupported
      rw [hstep]
      exact ⟨rfl, hrep'⟩

/-- A call in range that the storage cannot do comes to something else. -/
theorem Represents.step_unsupported (hrep : Represents storage s t)
    (hlegal : Legal storage s call) (hsupported : ¬ Supported storage s call) :
  (Blocks.step storage s call).1 ≠ (t.step storage.blockContentSize call).1
  := by
  cases call with
  | createNew =>
      have hsize := storage.size_ge
      apply hrep.createNew_fails
      rintro ⟨hroom, hright⟩
      apply hsupported
      refine ⟨?_, hright⟩
      rwa [hrep.length_eq, Nat.mul_div_cancel _ (by omega)]
  | dispose blockId =>
      obtain ⟨s', hstep⟩ := hrep.dispose_fails hlegal hsupported
      rw [hstep]
      exact fun h => nomatch h
  | find | getHeader | setHeader | read | write => exact absurd trivial hsupported

/-- An empty storage represents no blocks. -/
theorem represents_empty (storage : BlockStorage) :
  Represents storage StorageState.empty FlatBlocks.empty
  where
  length_eq := (Nat.zero_mul _).symm
  count_le := Nat.zero_le _
  holds := fun _ h => absurd h (Nat.not_lt_zero _)
  fresh := fun _ _ => rfl

end Runs

/-- For every storage with room for the header fields, and every sequence of calls in range on
blocks that are not disposed, the blocks behave as flat arrays with header fields if and only
if a dirty block is disposed only where its sector has the length that is written back, and a
block is created only where there is an id left and the blocks are counted right. -/
theorem behavesFlat_iff_allSupported (storage : BlockStorage)
    (hheader : 48 ≤ storage.blockHeaderSize) (calls : List BlockCall)
    (hlegal : AllLegal storage calls) :
  BehavesFlat storage calls ↔ AllSupported storage calls
  := by
  apply Run.outputs_eq_iff_along (R := Represents storage)
  · intro s t call hrep hlegal hsupported
    exact hrep.step hheader hlegal hsupported
  · intro s t call hrep hlegal hsupported
    exact hrep.step_unsupported hlegal hsupported
  · exact represents_empty storage
  · exact hlegal

/-- The smallest blocks with room for the header fields. -/
def smallStorage : BlockStorage where
  blockSize := 128
  blockHeaderSize := 48
  header_lt := by decide
  size_ge := by decide
  size_lt := by decide

/-- Calls on a block that is longer than its sector: bytes on both sides of the end of the sector
and a header field are written, and read after the block was disposed and found. -/
def sectorCalls : List BlockCall :=
  [.createNew, .write 0 [1, 2, 3] 0 4046 3, .setHeader 0 2 5, .dispose 0, .find 0,
    .getHeader 0 2, .read 0 [0, 0, 0, 0] 0 4045 4]

/-- The calls on a block of 4100 bytes behave as on a flat array. -/
theorem behavesFlat_iff_allSupported_sectors :
  let storage : BlockStorage := ⟨4100, 48, by decide, by decide, by decide⟩
  AllLegal storage sectorCalls ∧ BehavesFlat storage sectorCalls
  := by
  intro storage
  have hlegal : AllLegal storage sectorCalls := by
    unfold AllLegal
    decide +kernel
  refine ⟨hlegal, (behavesFlat_iff_allSupported storage (by decide) _ hlegal).mpr ?_⟩
  unfold AllSupported
  decide +kernel

/-- The blocks do not always behave as flat arrays: a small block with a header field set cannot
be disposed. -/
theorem not_behavesFlat :
  ¬ ∀ (storage : BlockStorage) (calls : List BlockCall), 48 ≤ storage.blockHeaderSize →
      AllLegal storage calls → BehavesFlat storage calls
  := by
  intro hall
  have hlegal : AllLegal smallStorage [.createNew, .setHeader 0 0 5, .dispose 0] := by
    unfold AllLegal
    decide +kernel
  have hflat := hall smallStorage _ (by decide) hlegal
  revert hflat
  unfold BehavesFlat
  decide +kernel

end Datatent.Blocks
