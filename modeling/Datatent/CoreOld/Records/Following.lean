import Datatent.CoreOld.Records.OpenBlocks
import Datatent.CoreOld.Records.RecordProgram
import Datatent.CoreOld.Records.SpaceTracking

/-!
# Programs that follow the array

The programs of the record storage, run on the array of blocks and its open objects, come to
what the methods over the array come to, as long as no object is asked for that is open already.
Here are the calls and the loop that fetches the blocks of a record; what is fetched is open then.
-/

namespace Datatent.RecordStorage

open Blocks Records

variable {blockContentSize : Nat} {α : Type}

/-! ### Numbers of 64 bits -/

section Numbers

variable {a b : Nat}

/-- Small numbers are told apart. -/
theorem ofNat_eq_iff (ha : a < 2 ^ 63) (hb : b < 2 ^ 63) :
  Int64.ofNat a = Int64.ofNat b ↔ a = b
  := by
  rw [← Int64.toInt_inj, Int64.toInt_ofNat_of_lt ha, Int64.toInt_ofNat_of_lt hb]
  exact Int.ofNat_inj

/-- A small number is 0. -/
theorem ofNat_eq_zero (ha : a < 2 ^ 63) :
  Int64.ofNat a = 0 ↔ a = 0
  := ofNat_eq_iff ha (Nat.two_pow_pos 63)

/-- A small number is 1. -/
theorem ofNat_eq_one (ha : a < 2 ^ 63) :
  Int64.ofNat a = 1 ↔ a = 1
  := ofNat_eq_iff ha (Nat.one_lt_two_pow (by decide))

/-- A small number is a multiple of 4. -/
theorem ofNat_mod_four (ha : a < 2 ^ 63) :
  Int64.ofNat a % 4 = 0 ↔ a % 4 = 0
  := by
  have hfour : (4 : Int64).toInt = 4 := rfl
  rw [← Int64.toInt_inj, Int64.toInt_mod, Int64.toInt_ofNat_of_lt ha, hfour, Int64.toInt_zero,
    Int.tmod_eq_emod_of_nonneg (Int.natCast_nonneg a)]
  omega

/-- A small number as one without a sign. -/
theorem uint_ofNat (a : Nat) :
  uint (Int64.ofNat a) = UInt32.ofNat a
  := by
  have hsize : a % 2 ^ 64 % 2 ^ 32 = a % 2 ^ 32 := by omega
  rw [uint, Int64.toUInt64_ofNat', UInt64.toNat_ofNat', ← UInt32.ofNat_mod_size, hsize,
    UInt32.ofNat_mod_size]

/-- A number of 31 bits as an `int`. -/
theorem int_ofNat (ha : a < 2 ^ 31) :
  int (Int64.ofNat a).toInt = a
  := by
  rw [Int64.toInt_ofNat_of_lt (by omega), int_eq (by omega) (by omega)]

end Numbers

/-! ### Programs on the array -/

/-- The program keeps to the contract and comes to a value, and the value and the array have
`Q`. -/
abbrev Runs (p : RecordProgram α) (s : OpenBlocks blockContentSize)
    (Q : α → OpenBlocks blockContentSize → Prop) : Prop :=
  Program.Ends OpenBlocks.perform p s Q

/-! ### Calls -/

section Calls

variable {s : OpenBlocks blockContentSize} {block : BlockObject} {blockId : UInt32}
  {found : Records.Block blockContentSize}

/-- The object was opened for a block, and no other one was. -/
structure Opened (s : OpenBlocks blockContentSize) (block : BlockObject)
    (s' : OpenBlocks blockContentSize) : Prop where
  isOpen : s'.IsOpen block
  other : ∀ blockId, blockId ≠ block.id → s'.serials blockId = s.serials blockId

/-- Opening an object. -/
theorem opened_opening (s : OpenBlocks blockContentSize) (blockId : UInt32) :
  Opened s { id := blockId, serial := s.made } (s.opening blockId)
  := by
  constructor
  · dsimp only [OpenBlocks.IsOpen, OpenBlocks.opening]
    rw [Function.update_self]
  · intro other hne
    exact Function.update_of_ne hne _ _

/-- Looking for a block that no object is open for. -/
theorem runs_findBlock {Q : Option BlockObject → OpenBlocks blockContentSize → Prop}
    (hclosed : s.serials blockId = none) (hlt : blockId.toNat < s.blocks.length)
    (h : ∀ block s', block.id = blockId → Opened s block s' → s'.blocks = s.blocks →
      Q (some block) s') :
  Runs (findBlock blockId) s Q
  := by
  apply Program.Ends.perform _ (h _ _ rfl (opened_opening s blockId) rfl)
  rw [OpenBlocks.perform]
  dsimp only
  rw [hclosed, if_neg (by decide), if_pos hlt]

/-- Looking for a block behind the end of the array. -/
theorem runs_findBlock_none {Q : Option BlockObject → OpenBlocks blockContentSize → Prop}
    (hclosed : s.serials blockId = none) (hge : s.blocks.length ≤ blockId.toNat) (h : Q none s) :
  Runs (findBlock blockId) s Q
  := by
  apply Program.Ends.perform _ h
  rw [OpenBlocks.perform]
  dsimp only
  rw [hclosed, if_neg (by decide), if_neg (Nat.not_lt.mpr hge)]

/-- A new block. -/
theorem runs_createNew {Q : BlockObject → OpenBlocks blockContentSize → Prop}
    (hroom : s.blocks.length < 2 ^ 32)
    (h : ∀ block s', block.id.toNat = s.blocks.length → Opened s block s' →
      s'.blocks = s.blocks ++ [Records.Block.new blockContentSize] → Q block s') :
  Runs createNew s Q
  := by
  have hopened := opened_opening s.append (UInt32.ofNat s.blocks.length)
  apply Program.Ends.perform _
    (h _ _ (UInt32.toNat_ofNat_of_lt' hroom) ⟨hopened.isOpen, hopened.other⟩ rfl)
  rw [OpenBlocks.perform]
  dsimp only
  rw [if_pos hroom]
  rfl

/-- Reading a header field of an open object. -/
theorem runs_getHeader {Q : Int64 → OpenBlocks blockContentSize → Prop} {field : Int}
    (hopen : s.IsOpen block) (hfound : s.blocks[block.id.toNat]? = some found)
    (h : Q (Int64.ofNat (found.header field.toNat)) s)
    (hfield : 0 ≤ field ∧ field < 5 := by decide) :
  Runs (getHeader block field) s Q
  := by
  apply Program.Ends.perform _ h
  rw [OpenBlocks.perform]
  dsimp only
  rw [hfound]
  dsimp only
  rw [if_pos ⟨hopen, hfield⟩]

/-- Setting a header field of an open object. -/
theorem runs_setHeader {Q : Unit → OpenBlocks blockContentSize → Prop} {field : Int}
    {value : Int64} {n : Nat} (hopen : s.IsOpen block) (hvalue : value = Int64.ofNat n)
    (hn : n < 2 ^ 63)
    (h : ∀ s', s'.blocks
        = s.blocks.modify block.id.toNat (fun found => found.setHeader field.toNat n) →
      s'.serials = s.serials → Q () s')
    (hfield : 0 ≤ field ∧ field < 5 := by decide) :
  Runs (setHeader block field value) s Q
  := by
  subst hvalue
  have htoInt := Int64.toInt_ofNat_of_lt hn
  refine Program.Ends.perform ?_ (h (s.setHeader block.id field.toNat (Int64.ofNat n)) ?_ rfl)
  · rw [OpenBlocks.perform]
    dsimp only
    rw [if_pos ⟨hopen, hfield.1, hfield.2, by omega⟩]
  · dsimp only [OpenBlocks.setHeader]
    simp only [htoInt, Int.toNat_natCast]

/-- Reading content of an open object. -/
theorem runs_readContent {Q : Bytes → OpenBlocks blockContentSize → Prop} {dst : Bytes}
    {dstOffset srcOffset count : Nat} (hopen : s.IsOpen block)
    (hfound : s.blocks[block.id.toNat]? = some found)
    (hsrc : srcOffset + count ≤ blockContentSize) (hdst : dstOffset + count ≤ dst.length)
    (hint : dst.length < 2 ^ 31)
    (h : Q (Bytes.overwrite dst dstOffset ((found.content.drop srcOffset).take count)) s) :
  Runs (readContent block dst dstOffset srcOffset count) s Q
  := by
  apply Program.Ends.perform _ h
  have hrange : OpenBlocks.InRange blockContentSize dst dstOffset srcOffset count := by
    refine ⟨?_, ?_, ?_, ?_, ?_, hint⟩
    all_goals omega
  rw [OpenBlocks.perform]
  dsimp only
  rw [hfound]
  dsimp only
  rw [if_pos ⟨hopen, hrange⟩]
  rfl

/-- Writing bytes to the content of an open object. -/
theorem runs_writeContent {Q : Unit → OpenBlocks blockContentSize → Prop} {src bytes : Bytes}
    {srcOffset dstOffset count : Nat} (hopen : s.IsOpen block)
    (hbytes : (src.drop srcOffset).take count = bytes) (hcount : bytes.length = count)
    (hint : src.length < 2 ^ 31) (hle : dstOffset + bytes.length ≤ blockContentSize)
    (h : ∀ s', s'.blocks
        = s.blocks.modify block.id.toNat (fun found => found.write dstOffset bytes hle) →
      s'.serials = s.serials → Q () s')
    (hsrc : srcOffset + count ≤ src.length) :
  Runs (writeContent block src srcOffset dstOffset count) s Q
  := by
  subst hbytes
  refine Program.Ends.perform ?_ (h (s.write block.id dstOffset _ hle) rfl rfl)
  have hrange : OpenBlocks.InRange blockContentSize src srcOffset dstOffset count := by
    rw [hcount] at hle
    refine ⟨?_, ?_, ?_, ?_, ?_, hint⟩
    all_goals omega
  rw [OpenBlocks.perform]
  dsimp only
  rw [dif_pos hrange, if_pos hopen]
  rfl

/-- Disposing of an object that is open or was disposed of before. -/
theorem runs_dispose {Q : Unit → OpenBlocks blockContentSize → Prop}
    (hopen : s.IsOpen block ∨ s.serials block.id = none)
    (h : ∀ s', s'.blocks = s.blocks → s'.serials = Function.update s.serials block.id none →
      Q () s') :
  Runs (dispose block) s Q
  := by
  by_cases hblock : s.IsOpen block
  · apply Program.Ends.perform _ (h (s.closing block.id) rfl rfl)
    rw [OpenBlocks.perform]
    dsimp only
    rw [if_pos hblock]
  · have hclosed := hopen.resolve_left hblock
    have hserials : s.serials = Function.update s.serials block.id none := by
      rw [← hclosed, Function.update_eq_self]
    apply Program.Ends.perform _ (h s rfl hserials)
    rw [OpenBlocks.perform]
    dsimp only
    rw [if_neg hblock]

/-- A block that is disposed of after the body. -/
theorem runs_disposing {body : RecordProgram α} {Q : α → OpenBlocks blockContentSize → Prop}
    (h : Runs body s fun a s' => (s'.IsOpen block ∨ s'.serials block.id = none)
      ∧ ∀ s'', s''.blocks = s'.blocks →
        s''.serials = Function.update s'.serials block.id none → Q a s'') :
  Runs (disposing block body) s Q
  := by
  apply Program.Ends.ensure
  apply h.mono
  rintro a s' ⟨hopen, hafter⟩
  exact runs_dispose hopen hafter

/-- Blocks disposed of one after the other. -/
theorem runs_disposeAll {Q : Unit → OpenBlocks blockContentSize → Prop}
    (blocks : List BlockObject) :
  ∀ {s : OpenBlocks blockContentSize},
    (∀ block ∈ blocks, s.IsOpen block ∨ s.serials block.id = none) →
    (∀ s', s'.blocks = s.blocks → (∀ blockId, s'.serials blockId
      = if blockId ∈ blocks.map BlockObject.id then none else s.serials blockId) → Q () s') →
    Runs (disposeAll blocks) s Q
  := by
  induction blocks with
  | nil =>
      intro s _ h
      exact h s rfl (fun _ => (if_neg List.not_mem_nil).symm)
  | cons block blocks ih =>
      intro s hopen h
      apply Program.Ends.bind
      apply runs_dispose (hopen block List.mem_cons_self)
      intro s₁ hblocks₁ hserials₁
      have hother : ∀ other ∈ blocks, s₁.IsOpen other ∨ s₁.serials other.id = none := by
        intro other hother
        rw [OpenBlocks.IsOpen, hserials₁, Function.update_apply]
        by_cases hid : other.id = block.id
        · rw [if_pos hid]
          exact .inr rfl
        · rw [if_neg hid]
          exact hopen other (List.mem_cons_of_mem _ hother)
      apply ih hother
      intro s₂ hblocks₂ hserials₂
      apply h s₂ (hblocks₂.trans hblocks₁)
      intro blockId
      rw [hserials₂, hserials₁, Function.update_apply, List.map_cons]
      simp only [List.mem_cons]
      by_cases hid : blockId = block.id
      · simp [hid]
      · simp [hid]

end Calls

/-! ### The blocks of a record -/

/-- No object is open for the blocks. -/
def Closed (s : OpenBlocks blockContentSize) (ids : List Nat) : Prop :=
  ∀ blockId : UInt32, blockId.toNat ∈ ids → s.serials blockId = none

/-- The objects are those of blocks, which were opened since. -/
structure Opens (s : OpenBlocks blockContentSize) (ids : List Nat) (objects : List BlockObject)
    (s' : OpenBlocks blockContentSize) : Prop where
  ids_eq : objects.map (fun block => block.id.toNat) = ids
  isOpen : ∀ block ∈ objects, s'.IsOpen block
  other : ∀ blockId : UInt32, blockId.toNat ∉ ids → s'.serials blockId = s.serials blockId

section

variable {s : OpenBlocks blockContentSize} {blockId : UInt32}
  {found : Records.Block blockContentSize} {blocks blocks' : List (Records.Block blockContentSize)}
  {ids : List Nat} {block : BlockObject} {id : Nat}

/-- A block of the array was found. -/
theorem getBlock_eq_ok (h : Records.getBlock id blocks = .ok found blocks') :
  blocks' = blocks ∧ blocks[id]? = some found
  := by
  rw [Records.getBlock, EStateM.get_bind_apply] at h
  cases hfound : blocks[id]? with
  | some block =>
      rw [hfound] at h
      cases h
      exact ⟨rfl, rfl⟩
  | none =>
      rw [hfound] at h
      cases h

/-- A block was changed. -/
theorem setBlock_eq_ok {f : Records.Block blockContentSize → Records.Block blockContentSize}
    (h : setBlock id f blocks = .ok () blocks') :
  blocks' = blocks.modify id f
  := by
  cases h
  rfl

/-- A value was returned. -/
theorem pure_eq_ok {a b : α} (h : (pure a : RecordM blockContentSize α) blocks = .ok b blocks') :
  a = b ∧ blocks = blocks'
  := by
  cases h
  exact ⟨rfl, rfl⟩

/-- A new block was put at the end of the array. -/
theorem createNew_eq_ok (h : Records.createNew blocks = .ok id blocks') :
  blocks.length < 2 ^ 32 ∧ id = blocks.length
    ∧ blocks' = blocks ++ [Records.Block.new blockContentSize]
  := by
  rw [Records.createNew, EStateM.get_bind_apply] at h
  split at h
  · rename_i hroom
    cases h
    exact ⟨hroom, rfl, rfl⟩
  · cases h

/-- Bytes were written to a block. -/
theorem writeContent_eq_ok {src : Bytes} {dstOffset : Nat}
    (h : Records.writeContent id src dstOffset blocks = .ok () blocks') :
  ∃ hle : dstOffset + src.length ≤ blockContentSize,
    blocks' = blocks.modify id (fun block => block.write dstOffset src hle)
  := by
  rw [Records.writeContent] at h
  split at h
  · rename_i hle
    cases h
    exact ⟨hle, rfl⟩
  · cases h

/-- Grabbing a block that no object is open for. -/
theorem runs_findOrCreate {Q : BlockObject → OpenBlocks blockContentSize → Prop}
    (hx : Records.findOrCreate blockId.toNat s.blocks = .ok found blocks)
    (hclosed : s.serials blockId = none)
    (h : ∀ block s', block.id = blockId → Opened s block s' → s'.blocks = blocks →
      blocks[blockId.toNat]? = some found → Q block s') :
  Runs (findOrCreate blockId) s Q
  := by
  apply Program.Ends.bind
  by_cases hlt : blockId.toNat < s.blocks.length
  · rw [Records.findOrCreate,
      EStateM.bind_apply_of_ok (hasBlock_apply (List.getElem?_eq_getElem hlt)), if_pos rfl] at hx
    obtain ⟨rfl, hfound⟩ := getBlock_eq_ok hx
    apply runs_findBlock hclosed hlt
    intro block s' hid hopened hblocks
    apply Program.Ends.pure
    exact h block s' hid hopened hblocks hfound
  · have hge := Nat.le_of_not_lt hlt
    rw [Records.findOrCreate, EStateM.bind_apply_of_ok (hasBlock_apply_of_le hge),
      if_neg Bool.false_ne_true] at hx
    apply runs_findBlock_none hclosed hge
    split at hx
    · rename_i hzero
      obtain rfl : blockId = 0 := UInt32.toNat_inj.mp hzero
      obtain ⟨id, blocks₁, hcreate, hget⟩ := EStateM.bind_eq_ok.mp hx
      obtain ⟨hroom, rfl, rfl⟩ := createNew_eq_ok hcreate
      obtain ⟨rfl, hfound⟩ := getBlock_eq_ok hget
      have hlength : s.blocks.length = 0 := Nat.le_zero.mp hge
      dsimp only
      rw [if_pos rfl]
      apply runs_createNew hroom
      intro block s' hid hopened hblocks
      rw [hlength] at hid hfound
      exact h block s' (UInt32.toNat_inj.mp hid) hopened hblocks hfound
    · cases hx

/-- Reading where a block leads to. -/
theorem runs_nextBlockOf {Q : UInt32 → OpenBlocks blockContentSize → Prop}
    (hopen : s.IsOpen block) (hfound : s.blocks[block.id.toNat]? = some found)
    (hdeleted : found.isDeleted ≠ 1) (h : Q (UInt32.ofNat found.nextBlockId) s) :
  Runs (nextBlockOf block) s Q
  := by
  have hsmall : found.isDeleted < 2 ^ 63 := s.small found (List.mem_of_getElem? hfound) 4
  apply Program.Ends.bind
  apply runs_getHeader hopen hfound
  have hheader : found.header kIsDeleted.toNat = found.isDeleted := rfl
  rw [hheader, if_neg (fun heq => hdeleted ((ofNat_eq_one hsmall).mp heq))]
  apply Program.Ends.bind
  apply runs_getHeader hopen hfound
  apply Program.Ends.pure
  change Q (uint (Int64.ofNat found.nextBlockId)) s
  rw [uint_ofNat]
  exact h

/-- The blocks of a record, fetched from a block on. -/
theorem runs_findBlocksFrom {Q : List BlockObject × Except (ClientException RecordFault) Unit →
    OpenBlocks blockContentSize → Prop} (fuel : Nat) :
  ∀ {rounds : Nat} {blockId : UInt32} {before : List BlockObject}
    {s : OpenBlocks blockContentSize} {ids : List Nat}
    {blocks : List (Records.Block blockContentSize)}, fuel ≤ rounds →
    Records.findBlocksFrom fuel blockId.toNat s.blocks = .ok ids blocks → ids.Nodup →
    Closed s ids →
    (∀ objects s', Opens s ids objects s' → s'.blocks = blocks →
      Q (before ++ objects, .ok ()) s') →
    Runs (findBlocksFrom rounds blockId before) s Q
  := by
  induction fuel with
  | zero =>
      intro rounds blockId before s ids blocks _ hx
      cases hx
  | succ fuel ih =>
      intro rounds blockId before s ids blocks hrounds hx hnodup hclosed h
      obtain ⟨rounds, rfl⟩ := Nat.exists_eq_succ_of_ne_zero (by omega : rounds ≠ 0)
      obtain ⟨found, blocks₁, hfind, hx⟩ := EStateM.bind_eq_ok.mp hx
      have hmem : blockId.toNat ∈ ids := by
        split at hx
        · cases hx
        · split at hx
          · cases hx
            exact List.mem_cons_self
          · obtain ⟨rest, blocks₂, -, hx⟩ := EStateM.bind_eq_ok.mp hx
            cases hx
            exact List.mem_cons_self
      rw [findBlocksFrom]
      apply Program.Ends.bind
      apply Program.Ends.attempt
      apply runs_findOrCreate hfind (hclosed blockId hmem)
      rintro block s₁ rfl ⟨hopen, hother⟩ rfl hfound
      split at hx
      · cases hx
      · rename_i hdeleted
        apply Program.Ends.bind
        apply Program.Ends.attempt
        apply runs_nextBlockOf hopen hfound hdeleted
        have hnext : (UInt32.ofNat found.nextBlockId).toNat = found.nextBlockId % 2 ^ 32 :=
          UInt32.toNat_ofNat'
        dsimp only
        split at hx
        · rename_i hzero
          cases hx
          have heq : UInt32.ofNat found.nextBlockId = 0 :=
            UInt32.toNat_inj.mp (hnext.trans hzero)
          rw [if_pos heq]
          apply Program.Ends.pure
          apply h [block] s₁ _ rfl
          constructor
          · rfl
          · intro other hmem
            obtain rfl := List.mem_singleton.mp hmem
            exact hopen
          · intro other hmem
            apply hother
            rintro rfl
            exact hmem (List.mem_singleton_self _)
        · rename_i hzero
          obtain ⟨rest, blocks₂, hrest, hx⟩ := EStateM.bind_eq_ok.mp hx
          cases hx
          rw [← hnext] at hrest
          have hne : UInt32.ofNat found.nextBlockId ≠ 0 := by
            intro heq
            apply hzero
            rw [← hnext, heq]
            rfl
          obtain ⟨hnotMem, hnodup⟩ := List.nodup_cons.mp hnodup
          rw [if_neg hne]
          apply ih (Nat.le_of_succ_le_succ hrounds) hrest hnodup
          · intro other hmem
            rw [hother other]
            · exact hclosed other (List.mem_cons_of_mem _ hmem)
            · rintro rfl
              exact hnotMem hmem
          · intro objects s' hopens hblocks
            rw [List.append_assoc, List.singleton_append]
            apply h (block :: objects) s' _ hblocks
            constructor
            · rw [List.map_cons, hopens.ids_eq]
            · intro other hmem
              obtain rfl | hmem := List.mem_cons.mp hmem
              · rw [OpenBlocks.IsOpen, hopens.other _ hnotMem]
                exact hopen
              · exact hopens.isOpen other hmem
            · intro other hmem
              rw [List.mem_cons, not_or] at hmem
              rw [hopens.other other hmem.2]
              apply hother
              rintro rfl
              exact hmem.1 rfl

/-- The blocks of a record. -/
theorem runs_findBlocks (blockId : UInt32)
    {Q : List BlockObject → OpenBlocks blockContentSize → Prop}
    (hx : Records.findBlocks blockId.toNat s.blocks = .ok ids blocks)
    (hlength : s.blocks.length ≤ 2 ^ 32) (hnodup : ids.Nodup) (hclosed : Closed s ids)
    (h : ∀ objects s', Opens s ids objects s' → s'.blocks = blocks → Q objects s') :
  Runs (findBlocks blockId) s Q
  := by
  rw [Records.findBlocks, EStateM.get_bind_apply] at hx
  apply Program.Ends.bind
  apply runs_findBlocksFrom (s.blocks.length + 1) (Nat.succ_le_succ hlength) hx hnodup hclosed
  intro objects s' hopens hblocks
  apply Program.Ends.pure
  exact h objects s' hopens hblocks

end

end Datatent.RecordStorage
