import Datatent.Core.Pages.DataPage
import Datatent.Library.Loop

/-!
# The walk over the documents of a page

`FindEmptySlot` and `IterateAllDocuments` go from document to document. The size of a step is
a field of the data and the size of a header added up as unsigned numbers, and the sum is zero
for one value of the field. At a header with this value the walk stays where it is; everywhere
else a step leaves less memory.
-/

namespace Datatent

open Constants

namespace Document

/-- The memory after the document at the front, where the walk reads one. -/
def walkStep (memory : Bytes) : Option Bytes :=
  match getNextDocumentSliceAndAdjustOffset memory with
  | .ok (some _, _, rest) => some rest
  | _ => none

/-- A header fits into the memory and its first byte is not zero. -/
def HasHeader (memory : Bytes) : Prop :=
  48 ≤ memory.length ∧ memory.headD 0 ≠ 0

instance (memory : Bytes) : Decidable (HasHeader memory) :=
  inferInstanceAs (Decidable (_ ∧ _))

/-- The size that the header at the front gives, as the walk adds it up. -/
def slotSize (memory : Bytes) : UInt32 :=
  Span.readUInt32 memory DOCUMENT_LENGTH + DOCUMENT_HEADER_SIZE

/-- The positions of a memory where the walk looks for a document. -/
inductive Boundary (memory : Bytes) : Nat → Prop where
  | front : Boundary memory 0
  | next {d : Nat} (h : Boundary memory d) (hheader : HasHeader (memory.drop d))
      (hint : (slotSize (memory.drop d)).toNat < 2 ^ 31)
      (hfits : d + (slotSize (memory.drop d)).toNat ≤ memory.length) :
      Boundary memory (d + (slotSize (memory.drop d)).toNat)

/-! ### Steps -/

/-- The size of a step is zero for one value of the length. -/
theorem slotSize_eq_zero_iff (memory : Bytes) :
  slotSize memory = 0 ↔ Span.readUInt32 memory DOCUMENT_LENGTH = 0xFFFFFFD0
  := by
  rw [slotSize, DOCUMENT_HEADER_SIZE]
  constructor
  · intro h
    apply UInt32.toNat_inj.mp
    have hsum := congrArg UInt32.toNat h
    rw [UInt32.toNat_add] at hsum
    change (_ + 48) % 2 ^ 32 = 0 at hsum
    change _ = 4294967248
    have hlt := (Span.readUInt32 memory DOCUMENT_LENGTH).toNat_lt
    omega
  · intro h
    rw [h]
    rfl

/-- A step leads past the document at the front when its size lies in the memory. -/
theorem walkStep_eq_some_iff {memory rest : Bytes} :
  walkStep memory = some rest
    ↔ HasHeader memory ∧ (slotSize memory).toNat < 2 ^ 31
      ∧ (slotSize memory).toNat ≤ memory.length ∧ rest = memory.drop (slotSize memory).toNat
  := by
  constructor
  · intro h
    rw [walkStep] at h
    split at h
    · rename_i hnext
      cases h
      obtain ⟨hhead, size, hle, hsize, -, rfl⟩ := getNext_eq_some hnext
      have hvalue : (slotSize memory).toNat = size := toInt_eq_natCast hsize
      refine ⟨⟨?_, hhead⟩, ?_, ?_, ?_⟩
      · by_contra hlt
        rw [getNext_of_end (.inl (by omega))] at hnext
        cases hnext
      · by_contra hlt
        have hneg := toInt_of_le (x := slotSize memory) (by omega)
        change toInt (slotSize memory) = _ at hsize
        omega
      · rwa [hvalue]
      · rw [hvalue]
    · cases h
  · rintro ⟨⟨hlength, hhead⟩, hint, hle, rfl⟩
    rw [walkStep, getNext_eq_of_size hlength hhead (toInt_of_lt hint) hle]
    rfl

/-- A step is past a document that the walk reads. -/
theorem walkStep_eq_some {memory rest : Bytes} (h : walkStep memory = some rest) :
  ∃ documentSlice id,
    getNextDocumentSliceAndAdjustOffset memory = .ok (some documentSlice, id, rest)
  := by
  rw [walkStep] at h
  split at h
  · rename_i hnext
    cases h
    exact ⟨_, _, hnext⟩
  · cases h

/-- A step leaves less memory or all of it. -/
theorem walkStep_size {memory rest : Bytes} (h : walkStep memory = some rest) :
  rest = memory ∨ rest.length < memory.length
  := by
  obtain ⟨⟨hlength, -⟩, -, -, rfl⟩ := walkStep_eq_some_iff.mp h
  rcases Nat.eq_zero_or_pos (slotSize memory).toNat with hzero | hpos
  · left
    rw [hzero, List.drop_zero]
  · right
    rw [List.length_drop]
    omega

/-- The walk stays at a header with one value of the length, and nowhere else. -/
theorem walkStep_eq_self_iff {memory : Bytes} :
  walkStep memory = some memory
    ↔ HasHeader memory ∧ Span.readUInt32 memory DOCUMENT_LENGTH = 0xFFFFFFD0
  := by
  rw [← slotSize_eq_zero_iff, walkStep_eq_some_iff]
  constructor
  · rintro ⟨hheader, -, -, hrest⟩
    have hlength := congrArg List.length hrest
    rw [List.length_drop] at hlength
    have hroom := hheader.1
    refine ⟨hheader, ?_⟩
    apply UInt32.toNat_inj.mp
    change _ = 0
    omega
  · rintro ⟨hheader, hzero⟩
    rw [hzero]
    refine ⟨hheader, ?_, ?_, ?_⟩
    · decide
    · exact Nat.zero_le _
    · rfl

/-- Where there is no further step the walk reads no document or a size that does not lie in
the memory. -/
theorem walkStep_eq_none_iff {memory : Bytes} :
  walkStep memory = none
    ↔ getNextDocumentSliceAndAdjustOffset memory = .error .argumentOutOfRange
      ∨ ∃ id, getNextDocumentSliceAndAdjustOffset memory = .ok (none, id, memory)
  := by
  rw [walkStep]
  cases hnext : getNextDocumentSliceAndAdjustOffset memory with
  | error fault =>
      rw [getNext_eq_error hnext]
      simp
  | ok next =>
      obtain ⟨documentSlice, id, rest⟩ := next
      cases documentSlice with
      | none =>
          obtain ⟨rfl, -⟩ := getNext_eq_none hnext
          simp
      | some documentSlice => simp

/-! ### Positions -/

/-- The positions of the walk lie in the memory. -/
theorem Boundary.le {memory : Bytes} {d : Nat} (h : Boundary memory d) :
  d ≤ memory.length
  := by
  cases h with
  | front => exact Nat.zero_le _
  | next _ _ _ hfits => exact hfits

/-- The walk comes to what is left of the memory at its positions. -/
theorem reaches_iff {memory rest : Bytes} :
  Loop.Reaches walkStep memory rest ↔ ∃ d, Boundary memory d ∧ rest = memory.drop d
  := by
  constructor
  · intro h
    induction h with
    | refl => exact ⟨0, .front, rfl⟩
    | tail _ hstep ih =>
        obtain ⟨d, hd, rfl⟩ := ih
        obtain ⟨hheader, hint, hle, rfl⟩ := walkStep_eq_some_iff.mp hstep
        rw [List.length_drop] at hle
        have hfits := hd.le
        refine ⟨_, .next hd hheader hint (by omega), ?_⟩
        rw [List.drop_drop]
  · rintro ⟨d, hd, rfl⟩
    induction hd with
    | front => exact .refl
    | next hd hheader hint hfits ih =>
        apply Relation.ReflTransGen.tail ih
        apply walkStep_eq_some_iff.mpr
        refine ⟨hheader, hint, ?_, ?_⟩
        · rw [List.length_drop]
          omega
        · rw [List.drop_drop]

/-- The walk over a memory comes to an end when at none of its positions there is a header
with the length at which it stays. -/
theorem walk_ends_iff (memory : Bytes) :
  Loop.Ends walkStep memory
    ↔ ∀ d, Boundary memory d → HasHeader (memory.drop d) →
      Span.readUInt32 (memory.drop d) DOCUMENT_LENGTH ≠ 0xFFFFFFD0
  := by
  rw [Loop.ends_iff_of_size List.length (fun _ _ => walkStep_size)]
  constructor
  · intro h d hd hheader hlength
    exact h _ (reaches_iff.mpr ⟨d, hd, rfl⟩) (walkStep_eq_self_iff.mpr ⟨hheader, hlength⟩)
  · intro h rest hreach hstay
    obtain ⟨d, hd, rfl⟩ := reaches_iff.mp hreach
    obtain ⟨hheader, hlength⟩ := walkStep_eq_self_iff.mp hstay
    exact h d hd hheader hlength

end Document

namespace DataPage

open Document

/-! ### The loops over the walk -/

/-- Where the walk comes to an end, `FindEmptySlot` does with more rounds than the memory has
bytes. -/
theorem findEmptySlot_ne_endless {memory : Bytes} (h : Loop.Ends walkStep memory) :
  ∀ {rounds : Nat}, memory.length < rounds → findEmptySlot rounds memory ≠ .error .endless
  := by
  induction h with
  | @stop memory hstop =>
      intro rounds hrounds
      obtain ⟨rounds, rfl⟩ := Nat.exists_eq_succ_of_ne_zero (Nat.ne_zero_of_lt hrounds)
      rcases walkStep_eq_none_iff.mp hstop with hnext | ⟨id, hnext⟩
      · simp only [findEmptySlot, hnext, Except.error_bind]
        decide
      · simp only [findEmptySlot, hnext, Except.ok_bind]
        intro hendless
        cases hendless
  | @more memory rest hstep hrest ih =>
      intro rounds hrounds
      obtain ⟨rounds, rfl⟩ := Nat.exists_eq_succ_of_ne_zero (Nat.ne_zero_of_lt hrounds)
      obtain ⟨documentSlice, id, hnext⟩ := walkStep_eq_some hstep
      rw [findEmptySlot_of_next rounds hnext]
      apply ih
      rcases walkStep_size hstep with rfl | hlt
      · exact absurd hstep hrest.next_ne
      · omega

/-- Where the walk does not come to an end, no number of rounds is enough. -/
theorem findEmptySlot_eq_endless (rounds : Nat) {memory : Bytes}
    (h : ¬ Loop.Ends walkStep memory) :
  findEmptySlot rounds memory = .error .endless
  := by
  induction rounds generalizing memory with
  | zero => rfl
  | succ rounds ih =>
      cases hstep : walkStep memory with
      | none => exact absurd (.stop hstep) h
      | some rest =>
          obtain ⟨documentSlice, id, hnext⟩ := walkStep_eq_some hstep
          rw [findEmptySlot_of_next rounds hnext]
          apply ih
          intro hrest
          exact h (.more hstep hrest)

/-- With more rounds than the memory has bytes, `FindEmptySlot` runs out of them exactly when the
walk does not come to an end. -/
theorem findEmptySlot_endless_iff {rounds : Nat} {memory : Bytes} (h : memory.length < rounds) :
  findEmptySlot rounds memory = .error .endless ↔ ¬ Loop.Ends walkStep memory
  := by
  constructor
  · intro hendless hends
    exact findEmptySlot_ne_endless hends h hendless
  · exact findEmptySlot_eq_endless rounds

/-- A slice too short for a header is no document, so `FindById` throws where a step is too
small and comes to an end on every memory. -/
theorem findByIdFrom_ne_endless (id : UInt16) {rounds : Nat} {memory : Bytes}
    (h : memory.length < rounds) :
  findByIdFrom id rounds memory ≠ .error .endless
  := by
  induction rounds generalizing memory with
  | zero => omega
  | succ rounds ih =>
      cases hnext : getNextDocumentSliceAndAdjustOffset memory with
      | error fault =>
          simp only [findByIdFrom, hnext, Except.error_bind, getNext_eq_error hnext]
          decide
      | ok next =>
          obtain ⟨documentSlice, id', rest⟩ := next
          cases documentSlice with
          | none =>
              simp only [findByIdFrom, hnext, Except.ok_bind]
              intro hendless
              cases hendless
          | some documentSlice =>
              obtain ⟨-, size, hle, -, rfl, rfl⟩ := getNext_eq_some hnext
              cases hdocument : Document.ofSlice (memory.take size) with
              | error fault =>
                  simp only [findByIdFrom, hnext, hdocument, Except.ok_bind, Except.error_bind]
                  rw [ofSlice_eq_error hdocument]
                  decide
              | ok document =>
                  rw [findByIdFrom_of_next rounds hnext hdocument]
                  split
                  · cases hcontent : document.getContent with
                    | ok content =>
                        intro hendless
                        cases hendless
                    | error fault =>
                        intro hendless
                        cases hendless
                        exact getContent_ne_endless document hcontent
                  · have hsize := (ofSlice_eq_ok hdocument).1
                    rw [List.length_take] at hsize
                    apply ih
                    rw [List.length_drop]
                    omega

/-! ### Termination -/

/-- The walk over the memory of a page terminates: it comes to a null slice or an exception,
every step it takes leaves less memory, and the calls that walk over it return or throw. -/
structure WalkTerminates (memory : Bytes) : Prop where
  ends : ∃ slot, Loop.Reaches walkStep memory slot
    ∧ (getNextDocumentSliceAndAdjustOffset slot = .error .argumentOutOfRange
      ∨ ∃ id, getNextDocumentSliceAndAdjustOffset slot = .ok (none, id, slot))
  shrinks : ∀ slot rest, Loop.Reaches walkStep memory slot → walkStep slot = some rest →
    rest.length < slot.length
  findById : ∀ (page : DataPage) (block : Bytes) (id : UInt16), block.drop page.start = memory →
    page.findById block id ≠ .error .endless
  tryAddContent : ∀ (page : DataPage) (block content : Bytes) (typeId : UInt32),
    block.drop page.start = memory → page.tryAddContent block content typeId ≠ .error .endless

/-- Where the walk over the memory of a page comes to an end, `TryAddContent` returns or
throws. -/
theorem tryAddContent_ne_endless {page : DataPage} {block : Bytes}
    (h : Loop.Ends walkStep (block.drop page.start)) (content : Bytes) (typeId : UInt32) :
  page.tryAddContent block content typeId ≠ .error .endless
  := by
  by_cases haccepts : Accepts page.header content typeId
  · rw [tryAddContent_of_accepts haccepts]
    cases hslot : findEmptySlot ((block.drop page.start).length + 1)
        (block.drop page.start) with
    | error fault =>
        intro hendless
        cases hendless
        exact findEmptySlot_ne_endless h (Nat.lt_succ_self _) hslot
    | ok slot =>
        rw [Except.ok_bind]
        cases hdocument : (create slot page.header.pageNextDocumentId).update content with
        | error fault =>
            intro hendless
            cases hendless
            exact update_ne_endless _ _ hdocument
        | ok document =>
            intro hendless
            cases hendless
  · rw [tryAddContent_of_not_accepts haccepts]
    intro hendless
    cases hendless

/-- The walk over the memory of a page terminates when no document header at one of its
positions has the length that makes a step of no bytes, and only then. -/
theorem walkTerminates_iff (memory : Bytes) :
  WalkTerminates memory
    ↔ ∀ d, Boundary memory d → HasHeader (memory.drop d) →
      Span.readUInt32 (memory.drop d) DOCUMENT_LENGTH ≠ 0xFFFFFFD0
  := by
  rw [← walk_ends_iff]
  constructor
  · intro h
    obtain ⟨slot, hreach, hend⟩ := h.ends
    exact Loop.ends_iff_exists.mpr ⟨slot, hreach, walkStep_eq_none_iff.mpr hend⟩
  · intro h
    constructor
    · obtain ⟨slot, hreach, hend⟩ := Loop.ends_iff_exists.mp h
      exact ⟨slot, hreach, walkStep_eq_none_iff.mp hend⟩
    · intro slot rest hreach hstep
      rcases walkStep_size hstep with rfl | hlt
      · exact absurd hstep (h.of_reaches hreach).next_ne
      · exact hlt
    · intro page block id _
      exact findByIdFrom_ne_endless id (Nat.lt_succ_self _)
    · rintro page block content typeId rfl
      exact tryAddContent_ne_endless h content typeId

/-- A page of one header with a length 48 below `2 ^ 32`: the walk stays at it. -/
theorem not_walkTerminates :
  ¬ WalkTerminates ([1, 0, 0xD0, 0xFF, 0xFF, 0xFF] ++ List.replicate 42 0)
  := by
  intro h
  obtain ⟨slot, hreach, hend⟩ := h.ends
  have hends := Loop.ends_iff_exists.mpr ⟨slot, hreach, walkStep_eq_none_iff.mpr hend⟩
  apply hends.next_ne
  apply walkStep_eq_self_iff.mpr
  decide

end DataPage

end Datatent
