import Datatent.CoreOld.Records.Following
import Mathlib.Data.List.Nodup

/-!
# Space tracking over open blocks

The programs that allocate blocks and mark them as free come to what the methods over the array
come to. Of the blocks of record 0 the last two are held while a program works on them, and all
are disposed of in the end.
-/

namespace Datatent.RecordStorage

open Blocks Records

variable {blockContentSize : Nat} {α : Type}

/-! ### The blocks that are held -/

/-- What was opened since is at most the last block of record 0 and the one before it. -/
structure Held (s : OpenBlocks blockContentSize) (lastBlock : BlockObject)
    (secondLastBlock : Option BlockObject) (s' : OpenBlocks blockContentSize) : Prop where
  last : s'.IsOpen lastBlock ∨ s'.serials lastBlock.id = none
  secondLast : ∀ block ∈ secondLastBlock, s'.IsOpen block ∨ s'.serials block.id = none
  other : ∀ blockId, blockId ≠ lastBlock.id → (∀ block ∈ secondLastBlock, blockId ≠ block.id) →
    s'.serials blockId = s.serials blockId
  last_closed : s.serials lastBlock.id = none
  secondLast_closed : ∀ block ∈ secondLastBlock, s.serials block.id = none

/-- The programs of record 0 may run: its blocks are different, no object is open for them, and
they hold no more than they can. -/
structure Ready (s : OpenBlocks blockContentSize) : Prop where
  length_le : s.blocks.length ≤ 2 ^ 32
  nodup : ∀ ids blocks, Records.findBlocks 0 s.blocks = .ok ids blocks → ids.Nodup
  closed : ∀ ids blocks, Records.findBlocks 0 s.blocks = .ok ids blocks → Closed s ids
  content_le : ∀ ids blocks, Records.findBlocks 0 s.blocks = .ok ids blocks → ∀ id ∈ ids,
    ∀ block, blocks[id]? = some block → block.blockContentLength ≤ blockContentSize

section

variable {s s' : OpenBlocks blockContentSize} {lastBlock : BlockObject}
  {secondLastBlock : Option BlockObject} {blocks : List (Records.Block blockContentSize)}

/-- The blocks held are disposed of after the body. -/
theorem Held.runs {body : RecordProgram α} {Q : α → OpenBlocks blockContentSize → Prop}
    (h : Runs body s' fun a s₁ => Held s lastBlock secondLastBlock s₁
      ∧ ∀ s₂, s₂.blocks = s₁.blocks → s₂.serials = s.serials → Q a s₂) :
  Runs (disposing lastBlock <| disposingOption secondLastBlock body) s' Q
  := by
  apply runs_disposing
  cases secondLastBlock with
  | none =>
      apply h.mono
      rintro a s₁ ⟨hheld, hQ⟩
      refine ⟨hheld.last, fun s₂ hblocks hserials => hQ s₂ hblocks ?_⟩
      funext blockId
      rw [hserials, Function.update_apply]
      split
      · rename_i heq
        rw [heq, hheld.last_closed]
      · rename_i hne
        exact hheld.other blockId hne (fun block hblock => nomatch hblock)
  | some secondLastBlock =>
      apply runs_disposing
      apply h.mono
      rintro a s₁ ⟨hheld, hQ⟩
      refine ⟨hheld.secondLast _ rfl, fun s₂ hblocks₂ hserials₂ => ⟨?_, ?_⟩⟩
      · rw [OpenBlocks.IsOpen, hserials₂, Function.update_apply]
        split
        · exact .inr rfl
        · exact hheld.last
      · intro s₃ hblocks₃ hserials₃
        apply hQ s₃ (hblocks₃.trans hblocks₂)
        funext blockId
        rw [hserials₃, Function.update_apply]
        split
        · rename_i heq
          rw [heq, hheld.last_closed]
        · rename_i hne
          rw [hserials₂, Function.update_apply]
          split
          · rename_i heq
            rw [heq, hheld.secondLast_closed _ rfl]
          · rename_i hne'
            apply hheld.other blockId hne
            rintro block ⟨⟩
            exact hne'

/-- The last two blocks of record 0 are open then, and its other blocks are not. -/
theorem runs_getSpaceTrackingBlock
    {Q : BlockObject × Option BlockObject → OpenBlocks blockContentSize → Prop}
    {last : Nat} {secondLast : Option Nat} (hready : Ready s)
    (hx : Records.getSpaceTrackingBlock s.blocks = .ok (last, secondLast) blocks)
    (h : ∀ lastBlock secondLastBlock s', lastBlock.id.toNat = last →
      secondLastBlock.map (fun block : BlockObject => block.id.toNat) = secondLast →
      Held s lastBlock secondLastBlock s' → s'.IsOpen lastBlock →
      (∀ block ∈ secondLastBlock, s'.IsOpen block) → s'.blocks = blocks →
      (∀ block, blocks[last]? = some block → block.blockContentLength ≤ blockContentSize) →
      Q (lastBlock, secondLastBlock) s') :
  Runs getSpaceTrackingBlock s Q
  := by
  obtain ⟨ids, blocks₁, hfind, hx⟩ := EStateM.bind_eq_ok.mp hx
  have hnodup := hready.nodup ids blocks₁ hfind
  have hclosed := hready.closed ids blocks₁ hfind
  apply Program.Ends.bind
  apply runs_findBlocks 0 hfind hready.length_le hnodup hclosed
  rintro objects s₁ hopens rfl
  cases hreverse : objects.reverse with
  | nil =>
      obtain rfl := List.reverse_eq_nil_iff.mp hreverse
      obtain rfl := hopens.ids_eq
      cases hx
  | cons lastBlock others =>
      have hids : ids.reverse
          = lastBlock.id.toNat :: others.map (fun block => block.id.toNat) := by
        rw [← hopens.ids_eq, ← List.map_reverse, hreverse, List.map_cons]
      rw [hids] at hx
      cases hx
      have hmem : ∀ {block}, block ∈ objects ↔ block ∈ lastBlock :: others := by
        intro block
        rw [← hreverse, List.mem_reverse]
      have hinj : ∀ {block block' : BlockObject}, block ∈ objects → block' ∈ objects →
          block.id = block'.id → block = block' := by
        intro block block' hblock hblock' heq
        rw [← hopens.ids_eq] at hnodup
        exact List.inj_on_of_nodup_map hnodup hblock hblock' (congrArg UInt32.toNat heq)
      have hclosed' : ∀ block ∈ objects, s.serials block.id = none := by
        intro block hblock
        apply hclosed
        rw [← hopens.ids_eq]
        exact List.mem_map_of_mem hblock
      have hlast : lastBlock ∈ objects := hmem.mpr List.mem_cons_self
      have hsecondLast : ∀ block ∈ others.head?, block ∈ objects := by
        intro block hblock
        exact hmem.mpr (List.mem_cons_of_mem _ (List.mem_of_mem_head? hblock))
      apply Program.Ends.bind
      apply runs_disposeAll
      · intro block hblock
        exact .inl (hopens.isOpen block (List.mem_filter.mp hblock).1)
      · intro s₂ hblocks₂ hserials₂
        have hkept : ∀ block ∈ objects, (block = lastBlock ∨ some block = others.head?) →
            s₂.IsOpen block := by
          intro block hblock hheld
          rw [OpenBlocks.IsOpen, hserials₂, if_neg]
          · exact hopens.isOpen block hblock
          · intro hid
            obtain ⟨block', hblock', heq⟩ := List.mem_map.mp hid
            obtain ⟨hmem', hnot⟩ := List.mem_filter.mp hblock'
            obtain rfl := hinj hmem' hblock heq
            obtain ⟨hne, hne'⟩ := of_decide_eq_true hnot
            exact hheld.elim hne hne'
        apply Program.Ends.pure
        have hopenLast := hkept lastBlock hlast (.inl rfl)
        have hopenSecondLast : ∀ block ∈ others.head?, s₂.IsOpen block :=
          fun block hblock => hkept block (hsecondLast block hblock) (.inr hblock.symm)
        apply h lastBlock others.head? s₂ rfl (List.head?_map ..).symm _ hopenLast
          hopenSecondLast hblocks₂
        · intro block hblock
          apply hready.content_le ids s₁.blocks hfind _ _ block hblock
          rw [← hopens.ids_eq]
          exact List.mem_map_of_mem hlast
        · constructor
          · exact .inl hopenLast
          · exact fun block hblock => .inl (hopenSecondLast block hblock)
          · intro blockId hne hne'
            rw [hserials₂]
            by_cases hid : blockId.toNat ∈ ids
            · rw [← hopens.ids_eq] at hid
              obtain ⟨block, hblock, heq⟩ := List.mem_map.mp hid
              obtain rfl := UInt32.toNat_inj.mp heq
              rw [hclosed' block hblock, if_pos]
              apply List.mem_map_of_mem
              refine List.mem_filter.mpr ⟨hblock, decide_eq_true ⟨?_, ?_⟩⟩
              · rintro rfl
                exact hne rfl
              · intro heq
                exact hne' block heq.symm rfl
            · rw [if_neg, hopens.other blockId hid]
              intro hmap
              obtain ⟨block, hblock, rfl⟩ := List.mem_map.mp hmap
              apply hid
              rw [← hopens.ids_eq]
              exact List.mem_map_of_mem (List.mem_filter.mp hblock).1
          · exact hclosed' lastBlock hlast
          · exact fun block hblock => hclosed' block (hsecondLast block hblock)

end

/-! ### Numbers in the content of a block -/

section

variable {s : OpenBlocks blockContentSize} {block : BlockObject}
  {found : Records.Block blockContentSize} {blocks : List (Records.Block blockContentSize)}

/-- Writing a number behind the content of a block. -/
theorem runs_appendUInt32ToContent (hsize : blockContentSize < 2 ^ 31)
    {Q : Unit → OpenBlocks blockContentSize → Prop} {value : UInt32} (hopen : s.IsOpen block)
    (hx : Records.appendUInt32ToContent block.id.toNat value.toNat s.blocks = .ok () blocks)
    (h : ∀ s', s'.blocks = blocks → s'.serials = s.serials → Q () s') :
  Runs (appendUInt32ToContent block value) s Q
  := by
  obtain ⟨found, blocks₁, hget, hx⟩ := EStateM.bind_eq_ok.mp hx
  obtain ⟨rfl, hfound⟩ := getBlock_eq_ok hget
  have hsmall : found.blockContentLength < 2 ^ 63 :=
    s.small found (List.mem_of_getElem? hfound) 2
  apply Program.Ends.bind
  apply runs_getHeader hopen hfound
  have hheader : found.header kBlockContentLength.toNat = found.blockContentLength := rfl
  rw [hheader]
  split at hx
  · cases hx
  · rename_i haligned
    obtain ⟨hle, rfl⟩ := writeContent_eq_ok hx
    have hle' := hle
    rw [Bytes.length_toLE] at hle'
    rw [if_neg (fun hne => haligned (fun heq => hne ((ofNat_mod_four hsmall).mpr heq))),
      int_ofNat (by omega)]
    exact @runs_writeContent _ s block Q (Bytes.toLE 4 value.toNat) _ 0 _ 4 hopen rfl rfl
      (by rw [Bytes.length_toLE]; decide) hle h (le_refl 4)

/-- Reading the last number of a block. -/
theorem runs_readUInt32FromTrailingContent (hsize : blockContentSize < 2 ^ 31)
    {Q : UInt32 → OpenBlocks blockContentSize → Prop} {value : Nat} (hopen : s.IsOpen block)
    (hfound : s.blocks[block.id.toNat]? = some found)
    (hx : Records.readUInt32FromTrailingContent block.id.toNat s.blocks = .ok value blocks)
    (h : ∀ id : UInt32, id.toNat = value → 4 ≤ found.blockContentLength → blocks = s.blocks →
      Q id s) :
  Runs (readUInt32FromTrailingContent block) s Q
  := by
  obtain ⟨found', blocks₁, hget, hx⟩ := EStateM.bind_eq_ok.mp hx
  obtain ⟨rfl, hfound'⟩ := getBlock_eq_ok hget
  obtain rfl := Option.some.inj (hfound.symm.trans hfound')
  have hsmall : found.blockContentLength < 2 ^ 63 :=
    s.small found (List.mem_of_getElem? hfound) 2
  apply Program.Ends.bind
  apply runs_getHeader hopen hfound
  have hheader : found.header kBlockContentLength.toNat = found.blockContentLength := rfl
  rw [hheader]
  split at hx
  · cases hx
  · rename_i haligned
    split at hx
    · cases hx
    · rename_i hne
      obtain ⟨buffer, blocks₂, hread, hx⟩ := EStateM.bind_eq_ok.mp hx
      have hfour : 4 ≤ found.blockContentLength := by omega
      have hle : found.blockContentLength ≤ blockContentSize := by
        by_contra hgt
        rw [Records.readContent, EStateM.bind_apply_of_ok hget, if_neg (by omega)] at hread
        cases hread
      rw [readContent_apply hfound (by omega)] at hread
      cases hread
      cases hx
      rw [if_neg (fun hne => haligned (fun heq => hne ((ofNat_mod_four hsmall).mpr heq))),
        if_neg (fun heq => hne ((ofNat_eq_zero hsmall).mp heq)),
        int_ofNat (by omega)]
      have hoffset : int ((found.blockContentLength : Int) - 4)
          = ((found.blockContentLength - 4 : Nat) : Int) := by
        rw [int_eq (by omega) (by omega)]
        omega
      rw [hoffset]
      apply Program.Ends.bind
      apply @runs_readContent _ s block found _ (List.replicate 4 0) 0 _ 4 hopen hfound
        (by omega) (by decide) (by decide)
      have hlength : ((found.content.drop (found.blockContentLength - 4)).take 4).length
          = (List.replicate 4 (0 : UInt8)).length := by
        rw [List.length_take, List.length_drop, found.length_content, List.length_replicate]
        omega
      rw [Bytes.overwrite_all hlength]
      apply Program.Ends.pure
      exact h _ (UInt32.toNat_ofNat_of_lt' (Bytes.readLE_lt _ 4)) hfour rfl

/-- Appending a number to a block leaves how long its content is. -/
theorem appendUInt32ToContent_eq_ok {id value : Nat} {s : List (Records.Block blockContentSize)}
    (hfound : s[id]? = some found)
    (h : Records.appendUInt32ToContent id value s = .ok () blocks) :
  ∃ found', blocks[id]? = some found' ∧ found'.blockContentLength = found.blockContentLength
  := by
  rw [Records.appendUInt32ToContent, EStateM.bind_apply_of_ok (getBlock_apply hfound)] at h
  split at h
  · cases h
  · obtain ⟨hle, rfl⟩ := writeContent_eq_ok h
    exact ⟨_, modify_same _ hfound, rfl⟩

/-- A block that is changed in one way or another that come to the same. -/
theorem modify_congr {id : Nat} {f g : Records.Block blockContentSize →
    Records.Block blockContentSize} (h : blocks[id]? = some found) (hf : f found = g found) :
  blocks.modify id f = blocks.modify id g
  := by
  apply List.ext_getElem?
  intro j
  by_cases hj : j = id
  · subst hj
    rw [modify_same f h, modify_same g h, hf]
  · rw [modify_other f hj, modify_other g hj]

end

/-! ### Free blocks -/

section

variable {s s' s'' : OpenBlocks blockContentSize} {lastBlock : BlockObject}
  {secondLastBlock : Option BlockObject} {blocks : List (Records.Block blockContentSize)}

/-- The blocks held depend on what is open only. -/
theorem Held.congr (h : Held s lastBlock secondLastBlock s')
    (hserials : s''.serials = s'.serials) :
  Held s lastBlock secondLastBlock s''
  := by
  constructor
  · rw [OpenBlocks.IsOpen, hserials]
    exact h.last
  · intro block hblock
    rw [OpenBlocks.IsOpen, hserials]
    exact h.secondLast block hblock
  · rw [hserials]
    exact h.other
  · exact h.last_closed
  · exact h.secondLast_closed

/-- An object that was not open before is disposed of. -/
theorem Held.close {blockId : UInt32} (h : Held s lastBlock secondLastBlock s')
    (hserials : s''.serials = Function.update s'.serials blockId none)
    (hclosed : s.serials blockId = none) :
  Held s lastBlock secondLastBlock s''
  := by
  have hkept : ∀ block : BlockObject, s'.IsOpen block ∨ s'.serials block.id = none →
      s''.IsOpen block ∨ s''.serials block.id = none := by
    intro block hblock
    rw [OpenBlocks.IsOpen, hserials, Function.update_apply]
    split
    · exact .inr rfl
    · exact hblock
  constructor
  · exact hkept lastBlock h.last
  · exact fun block hblock => hkept block (h.secondLast block hblock)
  · intro other hne hne'
    rw [hserials, Function.update_apply]
    split
    · rename_i heq
      rw [heq, hclosed]
    · exact h.other other hne hne'
  · exact h.last_closed
  · exact h.secondLast_closed

/-- An object stays open where nothing is opened or disposed of. -/
theorem isOpen_congr {block : BlockObject} (h : s'.IsOpen block)
    (hserials : s''.serials = s'.serials) :
  s''.IsOpen block
  := by
  rw [OpenBlocks.IsOpen, hserials]
  exact h

/-- Dequeuing the number of a free block. -/
theorem runs_tryFindFreeBlock (hsize : blockContentSize < 2 ^ 31)
    {Q : Option UInt32 → OpenBlocks blockContentSize → Prop} {free : Option Nat}
    (hready : Ready s) (hx : Records.tryFindFreeBlock s.blocks = .ok free blocks)
    (h : ∀ (blockId : Option UInt32) s', blockId.map UInt32.toNat = free → s'.blocks = blocks →
      s'.serials = s.serials → Q blockId s') :
  Runs tryFindFreeBlock s Q
  := by
  obtain ⟨⟨last, secondLast⟩, blocks₁, hspace, hx⟩ := EStateM.bind_eq_ok.mp hx
  apply Program.Ends.bind
  apply runs_getSpaceTrackingBlock hready hspace
  rintro lastBlock secondLastBlock s₁ rfl rfl hheld hopen hopen' rfl -
  dsimp only at hx
  apply Held.runs
  obtain ⟨found, _, hget, hx⟩ := EStateM.bind_eq_ok.mp hx
  obtain ⟨rfl, hfound⟩ := getBlock_eq_ok hget
  have hsmall : found.blockContentLength < 2 ^ 63 :=
    s₁.small found (List.mem_of_getElem? hfound) 2
  have hheader : found.header kBlockContentLength.toNat = found.blockContentLength := rfl
  apply Program.Ends.bind
  apply runs_getHeader hopen hfound
  rw [hheader]
  split at hx
  · rename_i hzero
    rw [if_pos ((ofNat_eq_zero hsmall).mpr hzero)]
    cases secondLastBlock with
    | none =>
        obtain ⟨rfl, hblocks⟩ := pure_eq_ok hx
        apply Program.Ends.pure
        exact ⟨hheld, fun s₂ hblocks₂ hserials => h none s₂ rfl (hblocks₂.trans hblocks) hserials⟩
    | some second =>
        have hsecond := hopen' second rfl
        dsimp only [Option.map_some] at hx
        obtain ⟨value, _, hread, hx⟩ := EStateM.bind_eq_ok.mp hx
        obtain ⟨found₂, _, hget₂, -⟩ := EStateM.bind_eq_ok.mp hread
        obtain ⟨-, hfound₂⟩ := getBlock_eq_ok hget₂
        have hsmall₂ : found₂.blockContentLength < 2 ^ 63 :=
          s₁.small found₂ (List.mem_of_getElem? hfound₂) 2
        apply Program.Ends.bind
        apply runs_readUInt32FromTrailingContent hsize hsecond hfound₂ hread
        rintro blockId rfl hfour rfl
        obtain ⟨_, _, hset, hx⟩ := EStateM.bind_eq_ok.mp hx
        obtain rfl := setBlock_eq_ok hset
        apply Program.Ends.bind
        apply runs_getHeader hsecond hfound₂
        apply Program.Ends.bind
        apply runs_setHeader hsecond (Int64.ofNat_sub found₂.blockContentLength 4 hfour).symm
          (by omega)
        intro s₂ hblocks₂ hserials₂
        have hsame₂ := hblocks₂.trans (modify_congr hfound₂ (g := fun block =>
          { block with blockContentLength := block.blockContentLength - 4 }) rfl)
        have hfound₃ := modify_same (fun block : Records.Block blockContentSize =>
          { block with blockContentLength := block.blockContentLength - 4 }) hfound₂
        rw [← hsame₂] at hx hfound₃
        obtain ⟨_, blocks₃, happend, hx⟩ := EStateM.bind_eq_ok.mp hx
        obtain ⟨found₄, hfound₄, hlength₄⟩ := appendUInt32ToContent_eq_ok hfound₃ happend
        apply Program.Ends.bind
        apply runs_appendUInt32ToContent hsize (isOpen_congr hsecond hserials₂) happend
        rintro s₃ rfl hserials₃
        have hserials₃ := hserials₃.trans hserials₂
        obtain ⟨_, _, hset, hx⟩ := EStateM.bind_eq_ok.mp hx
        obtain rfl := setBlock_eq_ok hset
        apply Program.Ends.bind
        apply runs_getHeader (isOpen_congr hsecond hserials₃) hfound₄
        apply Program.Ends.bind
        apply runs_setHeader (isOpen_congr hsecond hserials₃)
          (Int64.ofNat_add found₄.blockContentLength 4).symm (by rw [hlength₄]; dsimp only; omega)
        intro s₄ hblocks₄ hserials₄
        have hserials₄ := hserials₄.trans hserials₃
        have hsame₄ := hblocks₄.trans (modify_congr hfound₄ (g := fun block =>
          { block with blockContentLength := block.blockContentLength + 4 }) rfl)
        rw [← hsame₄] at hx
        obtain ⟨_, _, hset, hx⟩ := EStateM.bind_eq_ok.mp hx
        obtain rfl := setBlock_eq_ok hset
        apply Program.Ends.bind
        apply runs_setHeader (n := 0) (isOpen_congr hsecond hserials₄) rfl (by decide)
        intro s₅ hblocks₅ hserials₅
        have hserials₅ := hserials₅.trans hserials₄
        obtain ⟨_, _, hset, hx⟩ := EStateM.bind_eq_ok.mp hx
        obtain rfl := setBlock_eq_ok hset
        obtain ⟨rfl, hblocks⟩ := pure_eq_ok hx
        apply Program.Ends.bind
        apply runs_setHeader (n := 0) (isOpen_congr hopen hserials₅) rfl (by decide)
        intro s₆ hblocks₆ hserials₆
        apply Program.Ends.pure
        refine ⟨hheld.congr (hserials₆.trans hserials₅), ?_⟩
        intro s₇ hblocks₇ hserials₇
        apply h (some blockId) s₇ rfl _ hserials₇
        rw [hblocks₇, hblocks₆, hblocks₅]
        exact hblocks
  · rename_i hne
    obtain ⟨value, _, hread, hx⟩ := EStateM.bind_eq_ok.mp hx
    rw [if_neg (fun heq => hne ((ofNat_eq_zero hsmall).mp heq))]
    apply Program.Ends.bind
    apply runs_readUInt32FromTrailingContent hsize hopen hfound hread
    rintro blockId rfl hfour rfl
    obtain ⟨_, _, hset, hx⟩ := EStateM.bind_eq_ok.mp hx
    obtain rfl := setBlock_eq_ok hset
    obtain ⟨rfl, hblocks⟩ := pure_eq_ok hx
    apply Program.Ends.bind
    apply runs_setHeader hopen (Int64.ofNat_sub found.blockContentLength 4 hfour).symm (by omega)
    intro s₂ hblocks₂ hserials₂
    apply Program.Ends.pure
    refine ⟨hheld.congr hserials₂, ?_⟩
    intro s₃ hblocks₃ hserials₃
    apply h (some blockId) s₃ rfl _ hserials₃
    rw [hblocks₃, hblocks₂]
    exact hblocks

/-- Allocating a block. Its object is open then, if none was open for it before. -/
theorem runs_allocateBlock (hsize : blockContentSize < 2 ^ 31)
    {Q : BlockObject → OpenBlocks blockContentSize → Prop} {id : Nat} (hready : Ready s)
    (hx : Records.allocateBlock s.blocks = .ok id blocks) (hclosed : Closed s [id])
    (h : ∀ block s', block.id.toNat = id → Opened s block s' → s'.blocks = blocks → Q block s') :
  Runs allocateBlock s Q
  := by
  obtain ⟨free, blocks₁, hfree, hx⟩ := EStateM.bind_eq_ok.mp hx
  apply Program.Ends.bind
  apply runs_tryFindFreeBlock hsize hready hfree
  rintro blockId s₁ rfl rfl hserials₁
  cases blockId with
  | none =>
      obtain ⟨hroom, rfl, hblocks⟩ := createNew_eq_ok hx
      apply runs_createNew hroom
      intro block s₂ hid hopened hblocks₂
      apply h block s₂ hid ⟨hopened.isOpen, _⟩ (hblocks₂.trans hblocks.symm)
      rw [← hserials₁]
      exact hopened.other
  | some blockId =>
      obtain ⟨found, _, hhas, hx⟩ := EStateM.bind_eq_ok.mp hx
      cases hhas
      split at hx
      · rename_i hlt
        have hlt := of_decide_eq_true hlt
        obtain ⟨_, _, hset, hx⟩ := EStateM.bind_eq_ok.mp hx
        obtain rfl := setBlock_eq_ok hset
        obtain ⟨rfl, hblocks⟩ := pure_eq_ok hx
        have hnone : s₁.serials blockId = none := by
          rw [hserials₁]
          exact hclosed blockId (List.mem_singleton_self _)
        apply Program.Ends.bind
        apply runs_findBlock hnone hlt
        rintro block s₂ rfl ⟨hopen, hother⟩ hblocks₂
        apply Program.Ends.bind
        apply runs_setHeader (n := 0) hopen rfl (by decide)
        intro s₃ hblocks₃ hserials₃
        apply Program.Ends.bind
        apply runs_setHeader (n := 0) (isOpen_congr hopen hserials₃) rfl (by decide)
        intro s₄ hblocks₄ hserials₄
        have hserials₄ := hserials₄.trans hserials₃
        apply Program.Ends.bind
        apply runs_setHeader (n := 0) (isOpen_congr hopen hserials₄) rfl (by decide)
        intro s₅ hblocks₅ hserials₅
        have hserials₅ := hserials₅.trans hserials₄
        apply Program.Ends.bind
        apply runs_setHeader (n := 0) (isOpen_congr hopen hserials₅) rfl (by decide)
        intro s₆ hblocks₆ hserials₆
        have hserials₆ := hserials₆.trans hserials₅
        apply Program.Ends.bind
        apply runs_setHeader (n := 0) (isOpen_congr hopen hserials₆) rfl (by decide)
        intro s₇ hblocks₇ hserials₇
        have hserials₇ := hserials₇.trans hserials₆
        apply Program.Ends.pure
        apply h block s₇ rfl
        · constructor
          · exact isOpen_congr hopen hserials₇
          · rw [hserials₇, ← hserials₁]
            exact hother
        · rw [hblocks₇, hblocks₆, hblocks₅, hblocks₄, hblocks₃, hblocks₂, ← hblocks]
          simp only [List.modify_modify_eq]
          rfl
      · cases hx

/-- The programs of record 0 may run where the free numbers are tracked and no object is open for
a block that keeps them. -/
theorem Ready.of_tracks {t : Tracker} {used : List Nat} (htracks : Tracks s.blocks t used)
    (hclosed : Closed s t.ids) :
  Ready s
  := by
  have hfind : ∀ ids blocks, Records.findBlocks 0 s.blocks = .ok ids blocks →
      ids = t.ids ∧ blocks = s.blocks := by
    intro ids blocks h
    rw [htracks.findBlocks_apply] at h
    cases h
    exact ⟨rfl, rfl⟩
  constructor
  · exact htracks.length_le
  · intro ids blocks h
    obtain ⟨rfl, rfl⟩ := hfind ids blocks h
    exact (List.nodup_append.mp (List.nodup_append.mp htracks.nodup).1).1
  · intro ids blocks h
    obtain ⟨rfl, rfl⟩ := hfind ids blocks h
    exact hclosed
  · intro ids blocks h id hid block hblock
    obtain ⟨rfl, rfl⟩ := hfind ids blocks h
    rw [Tracker.ids, List.mem_append, List.mem_singleton] at hid
    have hholds : ∃ bytes, HoldsAt s.blocks (id, bytes) := by
      obtain hfull | rfl := hid
      · obtain ⟨cell, hcell, rfl⟩ := List.mem_map.mp hfull
        exact ⟨_, htracks.holdsFull cell hcell⟩
      · exact ⟨_, htracks.holdsLast⟩
    obtain ⟨bytes, block', hblock', hholds⟩ := hholds
    obtain rfl := Option.some.inj (hblock.symm.trans hblock')
    rw [hholds.length]
    exact hholds.length_le

/-- The programs of record 0 may run over an empty array. -/
theorem Ready.of_nil (hblocks : s.blocks = []) (hclosed : s.serials = fun _ => none) :
  Ready s
  := by
  have hfind : ∀ ids blocks, Records.findBlocks 0 s.blocks = .ok ids blocks →
      ids = [0] ∧ blocks = [Records.Block.new blockContentSize] := by
    intro ids blocks h
    rw [hblocks, findBlocks_nil, (tracks_new blockContentSize).findBlocks_apply] at h
    cases h
    exact ⟨rfl, rfl⟩
  constructor
  · rw [hblocks]
    exact Nat.zero_le _
  · intro ids blocks h
    obtain ⟨rfl, -⟩ := hfind ids blocks h
    exact List.nodup_singleton 0
  · intro ids blocks h blockId _
    rw [hclosed]
  · intro ids blocks h id hid block hblock
    obtain ⟨rfl, rfl⟩ := hfind ids blocks h
    obtain rfl := List.mem_singleton.mp hid
    obtain rfl := Option.some.inj hblock
    exact Nat.zero_le _

/-- Marking a block as free. -/
theorem runs_markAsFree (hsize : blockContentSize < 2 ^ 31)
    {Q : Unit → OpenBlocks blockContentSize → Prop} {blockId : UInt32} {t : Tracker}
    {used : List Nat} (htracks : Tracks s.blocks t used) (hclosed : Closed s t.ids)
    (hnew : Closed s [s.blocks.length])
    (hx : Records.markAsFree blockId.toNat s.blocks = .ok () blocks)
    (h : ∀ s', s'.blocks = blocks → s'.serials = s.serials → Q () s') :
  Runs (markAsFree blockContentSize blockId) s Q
  := by
  obtain ⟨⟨last, secondLast⟩, blocks₁, hspace, hx⟩ := EStateM.bind_eq_ok.mp hx
  have hsame : blocks₁ = s.blocks := by
    rw [htracks.getSpaceTrackingBlock_apply] at hspace
    cases hspace
    rfl
  apply Program.Ends.bind
  apply runs_getSpaceTrackingBlock (.of_tracks htracks hclosed) hspace
  rintro lastBlock secondLastBlock s₁ rfl rfl hheld hopen hopen' rfl hcontent
  dsimp only at hx
  apply Held.runs
  obtain ⟨found, _, hget, hx⟩ := EStateM.bind_eq_ok.mp hx
  obtain ⟨rfl, hfound⟩ := getBlock_eq_ok hget
  have hle := hcontent found hfound
  have hheader : found.header kBlockContentLength.toNat = found.blockContentLength := rfl
  have hsum : Int64.ofNat found.blockContentLength + 4
      = Int64.ofNat (found.blockContentLength + 4) :=
    (Int64.ofNat_add found.blockContentLength 4).symm
  have htoInt := Int64.toInt_ofNat_of_lt (by omega : found.blockContentLength + 4 < 2 ^ 63)
  apply Program.Ends.bind
  apply runs_getHeader hopen hfound
  rw [hheader, hsum, htoInt]
  split at hx
  · rename_i hroom
    rw [if_pos (Int.ofNat_le.mpr hroom)]
    obtain ⟨_, blocks₂, happend, hx⟩ := EStateM.bind_eq_ok.mp hx
    have hblocks := setBlock_eq_ok hx
    apply runs_disposing
    apply Program.Ends.bind
    apply runs_appendUInt32ToContent hsize hopen happend
    rintro s₂ rfl hserials₂
    apply runs_setHeader (isOpen_congr hopen hserials₂) rfl (by omega)
    intro s₃ hblocks₃ hserials₃
    have hserials₃ := hserials₃.trans hserials₂
    refine ⟨.inl (isOpen_congr hopen hserials₃), fun s₄ hblocks₄ hserials₄ => ⟨?_, ?_⟩⟩
    · exact (hheld.congr hserials₃).close hserials₄ hheld.last_closed
    · intro s₅ hblocks₅ hserials₅
      apply h s₅ _ hserials₅
      rw [hblocks₅, hblocks₄, hblocks₃]
      exact hblocks.symm
  · rename_i hroom
    rw [if_neg (fun hle => hroom (Int.ofNat_le.mp hle))]
    obtain ⟨target, blocks₂, hcreate, hx⟩ := EStateM.bind_eq_ok.mp hx
    obtain ⟨hspace, rfl, rfl⟩ := createNew_eq_ok hcreate
    apply Program.Ends.bind
    apply runs_createNew hspace
    rintro target s₂ hid ⟨hopenTarget, hother⟩ hblocks₂
    rw [← hid, ← hblocks₂] at hx
    have hne : lastBlock.id ≠ target.id := by
      intro heq
      have hlt := (List.getElem?_eq_some_iff.mp hfound).1
      rw [heq, hid] at hlt
      exact Nat.lt_irrefl _ hlt
    have hopenLast : s₂.IsOpen lastBlock := by
      rw [OpenBlocks.IsOpen, hother _ hne]
      exact hopen
    have hsmall : ∀ blockId : UInt32, blockId.toNat < 2 ^ 63 := by
      intro blockId
      have hlt := blockId.toNat_lt
      omega
    obtain ⟨_, _, hset, hx⟩ := EStateM.bind_eq_ok.mp hx
    obtain rfl := setBlock_eq_ok hset
    obtain ⟨_, _, hset, hx⟩ := EStateM.bind_eq_ok.mp hx
    obtain rfl := setBlock_eq_ok hset
    obtain ⟨_, blocks₅, happend, hx⟩ := EStateM.bind_eq_ok.mp hx
    have hblocks := setBlock_eq_ok hx
    apply runs_disposing
    apply Program.Ends.bind
    apply runs_setHeader hopenTarget rfl (hsmall _)
    intro s₃ hblocks₃ hserials₃
    apply Program.Ends.bind
    apply runs_setHeader (isOpen_congr hopenLast hserials₃) rfl (hsmall _)
    intro s₄ hblocks₄ hserials₄
    have hserials₄ := hserials₄.trans hserials₃
    rw [hblocks₃] at hblocks₄
    apply Program.Ends.bind
    apply runs_appendUInt32ToContent hsize (isOpen_congr hopenTarget hserials₄)
      (by rw [hblocks₄]; exact happend)
    intro s₅ hblocks₅ hserials₅
    have hserials₅ := hserials₅.trans hserials₄
    apply runs_setHeader (n := 4) (isOpen_congr hopenTarget hserials₅) rfl (by decide)
    intro s₆ hblocks₆ hserials₆
    have hserials₆ := hserials₆.trans hserials₅
    refine ⟨.inl (isOpen_congr hopenTarget hserials₆), fun s₇ hblocks₇ hserials₇ => ⟨?_, ?_⟩⟩
    · have hserials : s₇.serials = Function.update s₁.serials target.id none := by
        rw [hserials₇, hserials₆]
        funext blockId
        rw [Function.update_apply, Function.update_apply]
        split
        · rfl
        · rename_i hne
          exact hother blockId hne
      apply hheld.close hserials
      apply hnew
      rw [hid, hsame]
      exact List.mem_singleton_self _
    · intro s₈ hblocks₈ hserials₈
      apply h s₈ _ hserials₈
      rw [hblocks₈, hblocks₇, hblocks₆, hblocks₅]
      exact hblocks.symm

end

end Datatent.RecordStorage
