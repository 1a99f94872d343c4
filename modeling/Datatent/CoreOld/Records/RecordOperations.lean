import Datatent.CoreOld.Records.RecordChains

/-!
# The operations on records

What `create`, `update` and `delete` do to a storage whose free blocks are tracked: the blocks
of one record are allocated, written again or marked as free, and the other used blocks stay as
they are (`Keeps`). The operations fail only where the array of blocks is full.
-/

namespace Datatent.Records

variable {blockContentSize : Nat}

/-! ### What stays -/

/-- What an operation keeps: the used blocks outside of its record, and of the other blocks
those that stay free, unless they are hidden. The blocks that keep the free numbers did so
before or are new. -/
structure Keeps (s : List (Block blockContentSize)) (t : Tracker) (used : List Nat)
    (s' : List (Block blockContentSize)) (t' : Tracker) : Prop where
  used : ∀ j ∈ used, s'[j]? = s[j]?
  ids : ∀ j ∈ t'.ids, j ∈ t.ids ∨ s.length ≤ j
  free : ∀ j ∈ t'.free, j ∉ t.ids → j < s.length → (j ∈ t.free ∧ s'[j]? = s[j]?) ∨ Hidden s' j
  length : s.length ≤ s'.length

section

variable {s s' s'' : List (Block blockContentSize)} {t t' t'' : Tracker} {used used' : List Nat}
  {id : Nat}

/-- Doing nothing. -/
theorem Keeps.refl (s : List (Block blockContentSize)) (t : Tracker) (used : List Nat) :
  Keeps s t used s t
  := by
  constructor
  · exact fun _ _ => rfl
  · exact fun _ => .inl
  · exact fun _ hj _ _ => .inl ⟨hj, rfl⟩
  · exact le_refl _

/-- One operation after another one. -/
theorem Keeps.trans (h : Keeps s t used s' t') (h' : Keeps s' t' used s'' t'') :
  Keeps s t used s'' t''
  := by
  constructor
  · intro j hj
    rw [h'.used j hj, h.used j hj]
  · intro j hj
    obtain hj | hle := h'.ids j hj
    · exact h.ids j hj
    · exact .inr (h.length.trans hle)
  · intro j hj hids hlt
    have hids' : j ∉ t'.ids := by
      intro hmem
      obtain hmem | hle := h.ids j hmem
      · exact hids hmem
      · omega
    obtain ⟨hfree, hsame⟩ | hhidden := h'.free j hj hids' (hlt.trans_le h.length)
    · obtain ⟨hfree, hsame'⟩ | hhidden := h.free j hfree hids hlt
      · exact .inl ⟨hfree, hsame.trans hsame'⟩
      · exact .inr (hhidden.congr hsame)
    · exact .inr hhidden
  · exact h.length.trans h'.length

/-- Fewer used blocks. -/
theorem Keeps.mono (h : Keeps s t used s' t') (hsubset : ∀ j ∈ used', j ∈ used) :
  Keeps s t used' s' t'
  := { h with used := fun j hj => h.used j (hsubset j hj) }

/-- A block of the record changed. -/
theorem Keeps.modify (h : Keeps s t used s' t')
    (f : Block blockContentSize → Block blockContentSize) (hused : id ∉ used)
    (hfree : id ∉ t'.free) :
  Keeps s t used (s'.modify id f) t'
  := by
  constructor
  · intro j hj
    have hne : j ≠ id := by
      rintro rfl
      exact hused hj
    rw [modify_other _ hne, h.used j hj]
  · exact h.ids
  · intro j hj hids hlt
    have hsame : (s'.modify id f)[j]? = s'[j]? := by
      apply modify_other
      rintro rfl
      exact hfree hj
    rw [hsame]
    exact (h.free j hj hids hlt).imp_right (fun hhidden => hhidden.congr hsame)
  · rw [List.length_modify]
    exact h.length

/-- A block that once was the first one of a record: it does not keep free numbers, and when it
is free it is hidden. -/
structure Buried (s : List (Block blockContentSize)) (t : Tracker) (id : Nat) : Prop where
  ids : id ∉ t.ids
  lt : id < s.length
  hidden : id ∈ t.free → Hidden s id

/-- A buried block stays buried. -/
theorem Keeps.buried (h : Keeps s t used s' t') (hburied : Buried s t id) :
  Buried s' t' id
  := by
  constructor
  · intro hmem
    obtain hmem | hle := h.ids id hmem
    · exact hburied.ids hmem
    · exact Nat.not_le_of_lt hburied.lt hle
  · exact hburied.lt.trans_le h.length
  · intro hfree
    obtain ⟨hfree, hsame⟩ | hhidden := h.free id hfree hburied.ids hburied.lt
    · exact (hburied.hidden hfree).congr hsame
    · exact hhidden

/-- A used block is buried, in case it becomes free. -/
theorem Tracks.buried (h : Tracks s t used) (hid : id ∈ used) :
  Buried s t id
  := by
  constructor
  · exact h.notMem_ids hid
  · exact h.lt_length (List.mem_append_right _ hid)
  · intro hfree
    exact absurd hfree (h.notMem_free hid)

/-- Allocating a block keeps the used ones. -/
theorem Allocated.keeps (h : Allocated s t used id s' t') (htracks : Tracks s t used) :
  Keeps s t used s' t'
  := by
  have hused : id ∉ used := (List.nodup_cons.mp (List.nodup_append.mp h.tracks.nodup).2.1).1
  constructor
  · intro j hj
    apply h.other j (htracks.notMem_ids hj)
    rintro rfl
    exact hused hj
  · intro j hj
    exact .inl (h.ids j hj)
  · intro j hj hids _
    left
    constructor
    · exact (h.free j hj).resolve_right hids
    · apply h.other j hids
      rintro rfl
      exact h.tracks.notMem_free List.mem_cons_self hj
  · exact h.length_ge

end

/-! ### Creating a record -/

/-- How many blocks a number of bytes needs. -/
def blocksFor (blockContentSize length : Nat) : Nat :=
  (length + blockContentSize - 1) / blockContentSize

/-- The bytes behind those that fill one block need one block less. -/
theorem blocksFor_eq {length : Nat} (hsize : 0 < blockContentSize) (hlength : 0 < length) :
  blocksFor blockContentSize length
    = blocksFor blockContentSize (length - min length blockContentSize) + 1
  := by
  rw [blocksFor, blocksFor]
  obtain hle | hlt := le_or_gt length blockContentSize
  · rw [Nat.min_eq_left hle, Nat.sub_self, Nat.div_eq_of_lt (by omega : 0 + _ - 1 < _),
      Nat.div_eq_sub_div (by omega) (by omega), Nat.div_eq_of_lt (by omega)]
  · rw [Nat.min_eq_right hlt.le, Nat.div_eq_sub_div (by omega) (by omega)]
    congr 2
    omega

section

variable {s : List (Block blockContentSize)} {t : Tracker} {recordId total last : Nat}
  {done : List (Nat × Bytes)} {used : List Nat} {bytes : Bytes}

/-- The last block of a record under way is neither free nor another block in use. -/
theorem Tracks.last_notMem_of (h : Tracks s t (done.map Prod.fst ++ [last] ++ used)) :
  last ∉ t.ids ∧ last ∉ t.free ∧ last ∉ used ∧ last ∉ done.map Prod.fst
  := by
  have hmem : last ∈ done.map Prod.fst ++ [last] ++ used := by simp
  have hnodup := (List.nodup_append.mp h.nodup).2.1
  have hused := (List.nodup_append.mp hnodup).2.2
  have hdone := (List.nodup_append.mp (List.nodup_append.mp hnodup).1).2.2
  refine ⟨h.notMem_ids hmem, h.notMem_free hmem, ?_, ?_⟩
  · intro hlast
    exact hused last (by simp) last hlast rfl
  · intro hlast
    exact hdone last hlast last (List.mem_singleton_self _) rfl

/-- Writing to the empty last block of a record. -/
theorem writeLast_apply (htracks : Tracks s t (done.map Prod.fst ++ [last] ++ used))
    (hrecord : RecordAt s recordId total (done ++ [(last, [])]))
    (hle : 0 + bytes.length ≤ blockContentSize) :
  ∃ s₁ s₂, writeContent last bytes 0 s = .ok ⟨⟩ s₁
    ∧ setBlock last (fun block => { block with blockContentLength := bytes.length }) s₁ = .ok ⟨⟩ s₂
    ∧ Tracks s₂ t (done.map Prod.fst ++ [last] ++ used)
    ∧ RecordAt s₂ recordId total (done ++ [(last, bytes)])
    ∧ Keeps s t used s₂ t ∧ s₂.length = s.length
  := by
  obtain ⟨hids, hfree, hused, hdone⟩ := htracks.last_notMem_of
  obtain ⟨block, hblock, hholds⟩ : ∃ block, s[last]? = some block ∧ block.Holds [] :=
    hrecord.holds (last, []) (by simp)
  refine ⟨_, _, writeContent_apply hle, setBlock_apply _, ?_, ?_, ?_, ?_⟩
  · exact (htracks.modify _ hids).modify _ hids
  · apply hrecord.setLast hblock (modify_same _ (modify_same _ hblock)) rfl rfl rfl
    · exact Block.Holds.of_write hholds.isDeleted rfl rfl
    · intro j hj
      have hne : j ≠ last := by
        rintro rfl
        exact hdone hj
      rw [modify_other _ hne, modify_other _ hne]
  · exact ((Keeps.refl s t used).modify _ hused hfree).modify _ hused hfree
  · rw [List.length_modify, List.length_modify]

/-- Linking the last block of a record and a block that was allocated. -/
theorem linkLast_apply {s' : List (Block blockContentSize)} {t' : Tracker} {next : Nat}
    (htracks : Tracks s t (done.map Prod.fst ++ [last] ++ used))
    (hrecord : RecordAt s recordId total (done ++ [(last, bytes)]))
    (hallocated : Allocated s t (done.map Prod.fst ++ [last] ++ used) next s' t') :
  ∃ s₁ s₂, setBlock next (fun block => { block with previousBlockId := last }) s' = .ok ⟨⟩ s₁
    ∧ setBlock last (fun block => { block with nextBlockId := next }) s₁ = .ok ⟨⟩ s₂
    ∧ Tracks s₂ t' ((done ++ [(last, bytes)]).map Prod.fst ++ [next] ++ used)
    ∧ RecordAt s₂ recordId total (done ++ [(last, bytes)] ++ [(next, [])])
    ∧ Keeps s t used s₂ t' ∧ s₂.length = s'.length
  := by
  have hkept := hallocated.keeps htracks
  have htracks' := hallocated.tracks
  have hnextMem : next ∈ next :: (done.map Prod.fst ++ [last] ++ used) := List.mem_cons_self
  have hlastMem : last ∈ next :: (done.map Prod.fst ++ [last] ++ used) := by simp
  have hnext : next ∉ done.map Prod.fst ++ [last] ++ used :=
    (List.nodup_cons.mp (List.nodup_append.mp htracks'.nodup).2.1).1
  have hrecordMem : recordId ∈ done.map Prod.fst ++ [last] := by
    have hmem := hrecord.mem_ids
    rwa [List.map_append] at hmem
  obtain ⟨-, -, hlastUsed, hlastDone⟩ := htracks.last_notMem_of
  have hne : next ≠ last := by
    rintro rfl
    exact hnext (by simp)
  have hnextUsed : next ∉ used := fun hmem => hnext (List.mem_append_right _ hmem)
  obtain ⟨block, hblock, -⟩ := hrecord.holds (last, bytes) (by simp)
  obtain ⟨new, hnew, hclear⟩ := hallocated.cleared
  have hblock' : s'[last]? = some block := (hkept.used last (by simp)).trans hblock
  refine ⟨_, _, setBlock_apply _, setBlock_apply _, ?_, ?_, ?_, ?_⟩
  · have hmodified := (htracks'.modify (fun block => { block with previousBlockId := last })
      (htracks'.notMem_ids hnextMem)).modify (fun block => { block with nextBlockId := next })
      (htracks'.notMem_ids hlastMem)
    apply hmodified.perm
    rw [List.map_append, List.append_assoc _ [next], List.singleton_append]
    exact List.perm_middle.symm
  · apply hrecord.extend hblock
    · apply modify_same
      rw [modify_other _ hne.symm]
      exact hblock'
    · rw [modify_other _ hne]
      exact modify_same _ hnew
    · exact hclear.nextBlockId
    · exact htracks'.ne_zero hlastMem
    · exact ⟨hclear.isDeleted, hclear.blockContentLength, rfl⟩
    · intro j hj
      have hjlast : j ≠ last := by
        rintro rfl
        exact hlastDone hj
      have hjnext : j ≠ next := by
        rintro rfl
        exact hnext (by simp [hj])
      rw [modify_other _ hjlast, modify_other _ hjnext]
      exact hkept.used j (by simp [hj])
    · have hlt := htracks'.lt_length (List.mem_append_right _ hnextMem)
      have hlimit := htracks'.length_le
      omega
    · rintro rfl
      exact hnext (List.mem_append_left _ hrecordMem)
  · apply Keeps.modify _ _ hlastUsed (htracks'.notMem_free hlastMem)
    apply Keeps.modify _ _ hnextUsed (htracks'.notMem_free hnextMem)
    exact hkept.mono (fun j hj => List.mem_append_right _ hj)
  · rw [List.length_modify, List.length_modify]

end

/-- Writing the data from the last block of a record on. -/
theorem writeData_spec (hsize : 0 < blockContentSize) {recordId total : Nat} {used : List Nat}
    (fuel : Nat) :
  ∀ {s : List (Block blockContentSize)} {t : Tracker} {done : List (Nat × Bytes)} {last : Nat}
    {rest : Bytes}, Tracks s t (done.map Prod.fst ++ [last] ++ used) →
    RecordAt s recordId total (done ++ [(last, [])]) → rest ≠ [] → rest.length ≤ fuel →
    Finishes (writeData fuel last rest) s
      (fun _ s' => ∃ t' cells, Tracks s' t' (cells.map Prod.fst ++ used)
        ∧ RecordAt s' recordId total cells
        ∧ cells.flatMap Prod.snd = done.flatMap Prod.snd ++ rest ∧ Keeps s t used s' t')
      (fun _ _ => t.available blockContentSize s.length + 1
        < blocksFor blockContentSize rest.length)
  := by
  induction fuel with
  | zero =>
      intro s t done last rest _ _ hne hfuel
      exact absurd (List.eq_nil_of_length_eq_zero (Nat.le_zero.mp hfuel)) hne
  | succ fuel ih =>
      intro s t done last rest htracks hrecord hne hfuel
      have htake : (rest.take (min blockContentSize rest.length)).length
          = min blockContentSize rest.length := by
        rw [List.length_take]
        omega
      have hle : 0 + (rest.take (min blockContentSize rest.length)).length
          ≤ blockContentSize := by
        rw [htake]
        omega
      obtain ⟨s₁, s₂, hwrite, hset, htracks, hrecord, hkeeps, hlength⟩ :=
        writeLast_apply htracks hrecord hle
      rw [htake] at hset
      rw [writeData]
      apply Finishes.bind_of_ok hwrite
      apply Finishes.bind_of_ok hset
      by_cases hmore : blockContentSize < rest.length
      · have hmin : min blockContentSize rest.length = blockContentSize := by omega
        have hmany := blocksFor_eq hsize (by omega : 0 < rest.length)
        have hfurther := blocksFor_eq hsize (by omega : 0 < rest.length - blockContentSize)
        rw [Nat.min_eq_right hmore.le] at hmany
        rw [if_pos (by omega)]
        rw [hmin] at hrecord ⊢
        apply Finishes.bind (R := fun id s' => ∃ t', Allocated s₂ t
          (done.map Prod.fst ++ [last] ++ used) id s' t')
        · apply htracks.allocateBlock_spec.mono
          · exact fun _ _ h => h
          · rintro e s' ⟨-, hnone, -⟩
            rw [hlength] at hnone
            omega
        · rintro next s₃ ⟨t', hallocated⟩
          have havailable := hallocated.available
          rw [hlength] at havailable
          obtain ⟨s₄, s₅, hset₄, hset₅, htracks', hrecord', hkeeps', hlength'⟩ :=
            linkLast_apply htracks hrecord hallocated
          apply Finishes.bind_of_ok hset₄
          apply Finishes.bind_of_ok hset₅
          apply (ih htracks' hrecord' _ _).mono
          · rintro _ s' ⟨t'', cells, htracks'', hrecord'', hcells, hkeeps''⟩
            refine ⟨t'', cells, htracks'', hrecord'', ?_, hkeeps.trans (hkeeps'.trans hkeeps'')⟩
            rw [hcells, List.flatMap_append, List.flatMap_singleton, List.append_assoc,
              List.take_append_drop]
          · intro e s' hfull
            rw [List.length_drop, hlength'] at hfull
            omega
          · intro hnil
            rw [List.drop_eq_nil_iff] at hnil
            omega
          · rw [List.length_drop]
            omega
      · have hall : rest.take (min blockContentSize rest.length) = rest := by
          apply List.take_of_length_le
          omega
        rw [if_neg (by omega)]
        apply Finishes.of_ok rfl
        refine ⟨t, done ++ [(last, rest)], ?_, ?_, ?_, hkeeps⟩
        · rw [List.map_append]
          exact htracks
        · rw [hall] at hrecord
          exact hrecord
        · rw [List.flatMap_append, List.flatMap_singleton]

/-- Creating a record keeps the data in blocks of its own. It fails only where fewer blocks can
be allocated than it needs, and changes nothing where none can. -/
theorem create_spec (hsize : 0 < blockContentSize) {s : List (Block blockContentSize)}
    {t : Tracker} {used : List Nat} (htracks : Tracks s t used) (data : Bytes) :
  Finishes (create data) s
    (fun id s' => ∃ t' cells, Tracks s' t' (cells.map Prod.fst ++ used)
      ∧ RecordAt s' id data.length cells ∧ cells.flatMap Prod.snd = data ∧ Keeps s t used s' t')
    (fun _ s' => t.available blockContentSize s.length
        < max 1 (blocksFor blockContentSize data.length)
      ∧ (t.available blockContentSize s.length = 0 → s' = s))
  := by
  apply Finishes.bind (R := fun id s' => ∃ t', Allocated s t used id s' t')
  · apply htracks.allocateBlock_spec.mono
    · exact fun _ _ h => h
    · rintro e s' ⟨hsame, hnone, -⟩
      exact ⟨by omega, fun _ => hsame⟩
  · rintro id s₁ ⟨t', hallocated⟩
    have htracks' := hallocated.tracks
    have hmem : id ∈ id :: used := List.mem_cons_self
    have hused : id ∉ used := (List.nodup_cons.mp (List.nodup_append.mp htracks'.nodup).2.1).1
    obtain ⟨block, hblock, hclear⟩ := hallocated.cleared
    apply Finishes.bind_of_ok (setBlock_apply _)
    have hmodified := htracks'.modify (fun block => { block with recordLength := data.length })
      (htracks'.notMem_ids hmem)
    have hkeeps := (hallocated.keeps htracks).modify
      (fun block => { block with recordLength := data.length }) hused (htracks'.notMem_free hmem)
    have hblock' := modify_same (fun block => { block with recordLength := data.length }) hblock
    have hrecord : RecordAt (s₁.modify id fun block => { block with recordLength := data.length })
        id data.length [(id, [])] :=
      .single hblock' hclear.nextBlockId hclear.previousBlockId
        ⟨hclear.isDeleted, hclear.blockContentLength, rfl⟩
    by_cases hempty : data.length = 0
    · rw [if_pos hempty]
      apply Finishes.of_ok rfl
      refine ⟨t', [(id, [])], hmodified, hrecord, ?_, hkeeps⟩
      rw [List.eq_nil_of_length_eq_zero hempty]
      rfl
    · rw [if_neg hempty]
      have hne : data ≠ [] := by
        rintro rfl
        exact hempty rfl
      have hwrite := @writeData_spec _ hsize id data.length used data.length _ t' [] id data
        hmodified hrecord hne (le_refl _)
      apply Finishes.bind (hwrite.mono (fun _ _ h => h) _)
      · rintro _ s' ⟨t'', cells, htracks'', hrecord'', hcells, hkeeps''⟩
        apply Finishes.of_ok rfl
        exact ⟨t'', cells, htracks'', hrecord'', hcells, hkeeps.trans hkeeps''⟩
      · intro e s' hfull
        have havailable := hallocated.available
        rw [List.length_modify] at hfull
        exact ⟨by omega, fun hnone => by omega⟩

/-! ### Deleting a record -/

/-- Marking a block as free keeps the other ones when the block is hidden. -/
theorem Keeps.of_push {s s₁ s₂ : List (Block blockContentSize)} {t : Tracker} {used : List Nat}
    {id capacity : Nat} (htracks : Tracks s t (id :: used))
    (hother : ∀ j ∉ t.ids, j ≠ s.length → s₁[j]? = s[j]?) (hlength : s.length ≤ s₁.length)
    (hsame : ∀ j, j ≠ id → s₂[j]? = s₁[j]?) (hlength₂ : s₂.length = s₁.length)
    (hhidden : Hidden s₂ id) :
  Keeps s t used s₂ (t.push capacity s.length id)
  := by
  have hused : id ∉ used := (List.nodup_cons.mp (List.nodup_append.mp htracks.nodup).2.1).1
  constructor
  · intro j hj
    have hmem : j ∈ id :: used := List.mem_cons_of_mem _ hj
    have hlt := htracks.lt_length (List.mem_append_right _ hmem)
    have hne : j ≠ id := by
      rintro rfl
      exact hused hj
    rw [hsame j hne]
    exact hother j (htracks.notMem_ids hmem) (by omega)
  · intro j hj
    obtain hj | rfl := Tracker.mem_ids_push hj
    · exact .inl hj
    · exact .inr (le_refl _)
  · intro j hj hids hlt
    rw [Tracker.free_push, List.mem_append, List.mem_singleton] at hj
    obtain hj | rfl := hj
    · have hne : j ≠ id := by
        rintro rfl
        exact htracks.notMem_free List.mem_cons_self hj
      left
      rw [hsame j hne]
      exact ⟨hj, hother j hids (by omega)⟩
    · exact .inr hhidden
  · rw [hlength₂]
    exact hlength

/-- Deleting the blocks of a chain from one on. It fails only where the array has no room for the
blocks that are to keep their numbers, and changes nothing where it has none for the first. -/
theorem deleteFrom_spec (hsize : 4 ≤ blockContentSize) {used : List Nat} (fuel : Nat) :
  ∀ {s : List (Block blockContentSize)} {t : Tracker} {ids : List Nat} {a : Nat},
    Tracks s t (ids ++ used) → Segment (link s) a ids 0 → ids ≠ [] → ids.length ≤ fuel →
    Finishes (deleteFrom fuel a) s (fun _ s' => ∃ t', Tracks s' t' used ∧ Keeps s t used s' t')
      (fun _ s' => 2 ^ 32 < s.length + t.growth (blockContentSize / 4) ids.length
        ∧ (2 ^ 32 < s.length + t.growth (blockContentSize / 4) 1 → s' = s))
  := by
  induction fuel with
  | zero =>
      intro s t ids a _ _ hne hfuel
      exact absurd (List.eq_nil_of_length_eq_zero (Nat.le_zero.mp hfuel)) hne
  | succ fuel ih =>
      intro s t ids a htracks hlinked hne hfuel
      obtain ⟨id, ids, rfl⟩ := List.exists_cons_of_ne_nil hne
      obtain ⟨rfl, next, hlink, hrest⟩ := Segment.cons_iff.mp hlinked
      have hmem : a ∈ a :: (ids ++ used) := List.mem_cons_self
      have hlt := htracks.lt_length (List.mem_append_right _ hmem)
      obtain ⟨block, hblock⟩ : ∃ block, s[a]? = some block := ⟨_, List.getElem?_eq_getElem hlt⟩
      have hnext : block.nextBlockId % 2 ^ 32 = next := by
        rw [link, hblock] at hlink
        exact Option.some.inj hlink
      rw [deleteFrom]
      apply Finishes.bind ((htracks.markAsFree_spec hsize).mono (fun _ _ h => h) _)
      · rintro _ s₁ ⟨htracks₁, hother, hge, hle, hgrowth⟩
        have hblock₁ : s₁[a]? = some block :=
          (hother a (htracks.notMem_ids hmem) (by omega)).trans hblock
        have hdeleted := modify_same (fun block => { block with isDeleted := 1 }) hblock₁
        have hkeeps : Keeps s t (ids ++ used)
            (s₁.modify a fun block => { block with isDeleted := 1 })
            (t.push (blockContentSize / 4) s.length a) :=
          .of_push htracks hother hge (fun j hj => modify_other _ hj) (List.length_modify _ _ _)
            ⟨_, hdeleted, .inl rfl⟩
        have hids : a ∉ (t.push (blockContentSize / 4) s.length a).ids := by
          intro hpush
          obtain hpush | rfl := Tracker.mem_ids_push hpush
          · exact htracks.notMem_ids hmem hpush
          · exact Nat.lt_irrefl _ hlt
        have htracks₂ := htracks₁.modify (fun block => { block with isDeleted := 1 }) hids
        apply Finishes.bind_of_ok (setBlock_apply _)
        apply Finishes.bind_of_ok (getBlock_apply hdeleted)
        dsimp only
        rw [hnext]
        cases ids with
        | nil =>
            rw [Segment.nil_iff] at hrest
            rw [if_pos hrest]
            apply Finishes.of_ok rfl
            exact ⟨_, htracks₂, hkeeps⟩
        | cons id ids =>
            obtain ⟨rfl, -⟩ := Segment.cons_iff.mp hrest
            have hnextMem : next ∈ next :: ids ++ used := List.mem_cons_self
            have hlt₂ := htracks₂.lt_length (List.mem_append_right _ hnextMem)
            have hrest₂ : Segment (link (s₁.modify a fun block => { block with isDeleted := 1 }))
                next (next :: ids) 0 := by
              apply hrest.congr
              intro j hj
              exact link_congr (hkeeps.used j (List.mem_append_left _ hj))
            rw [if_neg (htracks₂.ne_zero hnextMem)]
            apply Finishes.bind_of_ok (hasBlock_apply (List.getElem?_eq_getElem hlt₂))
            rw [if_pos rfl]
            apply (ih htracks₂ hrest₂ (List.cons_ne_nil _ _) (Nat.le_of_succ_le_succ hfuel)).mono
            · rintro _ s' ⟨t', htracks', hkeeps'⟩
              refine ⟨t', htracks', Keeps.trans (hkeeps.mono ?_) hkeeps'⟩
              intro j hj
              exact List.mem_append_right _ hj
            · rintro e s' ⟨hfull, -⟩
              have hfirst : _ = s.length + t.growth (blockContentSize / 4) 1 := hgrowth 0
              have hlimit := htracks₁.length_le
              have hzero := Tracker.growth_le htracks₁.length_entries_le (by omega) 0
              rw [List.length_modify, hgrowth] at hfull
              exact ⟨hfull, fun hnone => by omega⟩
      · rintro e s' ⟨-, rfl, hfull, hfirst⟩
        refine ⟨?_, fun _ => rfl⟩
        have hmono := t.growth_mono (blockContentSize / 4) (Nat.le_add_left 1 ids.length)
        rw [List.length_cons]
        omega

/-- Deleting a record gives up its blocks. It fails only where the array has no room for the
blocks that are to keep their numbers, and changes nothing where it has none for the first. -/
theorem delete_spec (hsize : 4 ≤ blockContentSize) {s : List (Block blockContentSize)}
    {t : Tracker} {recordId total : Nat} {cells : List (Nat × Bytes)} {used : List Nat}
    (htracks : Tracks s t (cells.map Prod.fst ++ used))
    (hrecord : RecordAt s recordId total cells) :
  Finishes (delete recordId) s (fun _ s' => ∃ t', Tracks s' t' used ∧ Keeps s t used s' t')
    (fun _ s' => 2 ^ 32 < s.length + t.growth (blockContentSize / 4) cells.length
      ∧ (2 ^ 32 < s.length + t.growth (blockContentSize / 4) 1 → s' = s))
  := by
  obtain ⟨block, hblock, -⟩ := hrecord.exists_first
  have hne : cells.map Prod.fst ≠ [] := by
    rw [Ne, List.map_eq_nil_iff]
    exact hrecord.nonempty
  have hle := htracks.length_used_le
  apply Finishes.bind_of_ok (hasBlock_apply hblock)
  rw [if_pos rfl]
  apply Finishes.bind_of_ok (rfl : (get : RecordM blockContentSize _) s = .ok s s)
  apply (deleteFrom_spec hsize (s.length + 1) htracks hrecord.linked hne
    (Nat.le_succ_of_le hle)).mono
  · exact fun _ _ h => h
  · rw [List.length_map]
    exact fun _ _ h => h

/-- Where no number fits into a block, deleting a record fails and leaves its blocks. -/
theorem delete_small (hsize : blockContentSize < 4) {s : List (Block blockContentSize)}
    {t : Tracker} {recordId total : Nat} {cells : List (Nat × Bytes)} {used : List Nat}
    (htracks : Tracks s t (cells.map Prod.fst ++ used))
    (hrecord : RecordAt s recordId total cells) :
  Finishes (delete recordId) s (fun _ _ => False)
    (fun _ s' => (∃ t', Tracks s' t' (cells.map Prod.fst ++ used))
      ∧ ∀ j ∈ cells.map Prod.fst ++ used, s'[j]? = s[j]?)
  := by
  obtain ⟨block, hblock, -⟩ := hrecord.exists_first
  obtain ⟨ids, hids⟩ := hrecord.ids_eq
  rw [hids] at htracks ⊢
  apply Finishes.bind_of_ok (hasBlock_apply hblock)
  rw [if_pos rfl]
  apply Finishes.bind_of_ok (rfl : (get : RecordM blockContentSize _) s = .ok s s)
  rw [deleteFrom]
  apply Finishes.bind ((htracks.markAsFree_small hsize).mono (fun _ _ h => h) _)
  · exact fun _ _ h => absurd h not_false
  · rintro e s' ⟨htracks', hsame⟩
    refine ⟨htracks', ?_⟩
    intro j hj
    apply hsame j (htracks.notMem_ids hj)
    have hlt := htracks.lt_length (List.mem_append_right _ hj)
    omega

/-! ### Updating a record -/

/-- Marking hidden blocks as free. -/
theorem markAllAsFree_spec (hsize : 4 ≤ blockContentSize) {used : List Nat} (ids : List Nat) :
  ∀ {s : List (Block blockContentSize)} {t : Tracker}, Tracks s t (ids ++ used) →
    (∀ id ∈ ids, Hidden s id) →
    Finishes (markAllAsFree ids) s (fun _ s' => ∃ t', Tracks s' t' used ∧ Keeps s t used s' t')
      (fun _ _ => 2 ^ 32 < s.length + t.growth (blockContentSize / 4) ids.length)
  := by
  induction ids with
  | nil =>
      intro s t htracks _
      apply Finishes.of_ok rfl
      exact ⟨t, htracks, .refl s t used⟩
  | cons id ids ih =>
      intro s t htracks hhidden
      have hmem : id ∈ id :: (ids ++ used) := List.mem_cons_self
      have hlt := htracks.lt_length (List.mem_append_right _ hmem)
      rw [markAllAsFree]
      apply Finishes.bind ((htracks.markAsFree_spec hsize).mono (fun _ _ h => h) _)
      · rintro _ s₁ ⟨htracks₁, hother, hge, hle, hgrowth⟩
        have hsame : s₁[id]? = s[id]? := hother id (htracks.notMem_ids hmem) (by omega)
        have hkeeps : Keeps s t (ids ++ used) s₁ (t.push (blockContentSize / 4) s.length id) :=
          .of_push htracks hother hge (fun _ _ => rfl) rfl
            ((hhidden id List.mem_cons_self).congr hsame)
        have hhidden₁ : ∀ j ∈ ids, Hidden s₁ j := by
          intro j hj
          apply (hhidden j (List.mem_cons_of_mem _ hj)).congr
          exact hkeeps.used j (List.mem_append_left _ hj)
        apply (ih htracks₁ hhidden₁).mono
        · rintro _ s' ⟨t', htracks', hkeeps'⟩
          refine ⟨t', htracks', Keeps.trans (hkeeps.mono ?_) hkeeps'⟩
          intro j hj
          exact List.mem_append_right _ hj
        · intro e s' hfull
          rw [hgrowth] at hfull
          exact hfull
      · rintro e s' ⟨-, rfl, hfull, hfirst⟩
        have hmono := t.growth_mono (blockContentSize / 4) (Nat.le_add_left 1 ids.length)
        rw [List.length_cons]
        omega

/-- The block to write to next: the next one of the record or an allocated one. -/
theorem findTarget_spec {s : List (Block blockContentSize)} {t : Tracker}
    {ids remaining used : List Nat}
    (htracks : Tracks s t (ids ++ (remaining ++ used)))
    (hremaining : ∀ id ∈ remaining, ∃ block, s[id]? = some block ∧ block.isDeleted = 0) :
  Finishes (findTarget (ids ++ remaining) ids.length) s
    (fun r s' => ∃ t' remaining', r.2 = ids ++ r.1 :: remaining'
      ∧ Tracks s' t' (ids ++ r.1 :: (remaining' ++ used))
      ∧ (∃ block, s'[r.1]? = some block ∧ block.isDeleted = 0)
      ∧ Keeps s t (ids ++ used) s' t' ∧ (∀ j ∈ remaining', j ∈ remaining ∧ s'[j]? = s[j]?)
      ∧ t.available blockContentSize s.length ≤ t'.available blockContentSize s'.length + 1
      ∧ remaining'.length = remaining.length - 1
      ∧ (remaining' ≠ [] → t' = t ∧ s'.length = s.length))
    (fun _ s' => s' = s ∧ remaining = [] ∧ t.available blockContentSize s.length = 0)
  := by
  rw [findTarget, List.getElem?_append_right (le_refl _), Nat.sub_self]
  cases remaining with
  | nil =>
      rw [List.nil_append] at htracks
      apply Finishes.bind (htracks.allocateBlock_spec.mono (fun _ _ h => h) _)
      · rintro target s' ⟨t', hallocated⟩
        obtain ⟨block, hblock, hclear⟩ := hallocated.cleared
        apply Finishes.of_ok rfl
        refine ⟨t', [], ?_, ?_, ⟨block, hblock, hclear.isDeleted⟩, hallocated.keeps htracks, ?_,
          hallocated.available.le, rfl, fun hne => absurd rfl hne⟩
        · rw [List.append_nil]
        · exact hallocated.tracks.perm List.perm_middle.symm
        · intro j hj
          exact absurd hj List.not_mem_nil
      · rintro e s' ⟨hsame, hnone, -⟩
        exact ⟨hsame, rfl, hnone⟩
  | cons target remaining =>
      apply Finishes.of_ok rfl
      refine ⟨t, remaining, rfl, htracks, hremaining target List.mem_cons_self,
        .refl s t _, ?_, Nat.le_succ _, rfl, fun _ => ⟨rfl, rfl⟩⟩
      intro j hj
      exact ⟨List.mem_cons_of_mem _ hj, rfl⟩

/-- Linking a block with another one. -/
theorem linkWith_apply (previousBlock target : Nat) (s : List (Block blockContentSize)) :
  linkWith (some previousBlock) target s
    = .ok ⟨⟩ ((s.modify previousBlock (fun block => { block with nextBlockId := target })).modify
        target (fun block => { block with previousBlockId := previousBlock }))
  := rfl

/-- Writing to a block behind the last one of a record. -/
theorem writeTarget_apply {s : List (Block blockContentSize)} {t : Tracker}
    {recordId total last target written : Nat} {done : List (Nat × Bytes)} {others : List Nat}
    {bytes bytes' : Bytes}
    (htracks : Tracks s t (done.map Prod.fst ++ [last] ++ target :: others))
    (hrecord : RecordAt s recordId total (done ++ [(last, bytes)]))
    (htarget : ∃ block, s[target]? = some block ∧ block.isDeleted = 0)
    (hle : 0 + bytes'.length ≤ blockContentSize) (hwritten : written ≠ 0) :
  ∃ s', writeTarget (some last) target bytes' written total s = .ok ⟨⟩ s'
    ∧ Tracks s' t (done.map Prod.fst ++ [last] ++ target :: others)
    ∧ RecordAt s' recordId total (done ++ [(last, bytes)] ++ [(target, bytes')])
    ∧ Keeps s t others s' t ∧ s'.length = s.length
  := by
  obtain ⟨hids, hfree, hused, hdone⟩ := htracks.last_notMem_of
  obtain ⟨block, hblock, -⟩ := hrecord.holds (last, bytes) (by simp)
  obtain ⟨old, hold, hdeleted⟩ := htarget
  have htargetMem : target ∈ done.map Prod.fst ++ [last] ++ target :: others := by simp
  have hlastMem : last ∈ done.map Prod.fst ++ [last] ++ target :: others := by simp
  have hnodup := (List.nodup_append.mp htracks.nodup).2.1
  have htargetOthers : target ∉ others :=
    (List.nodup_cons.mp (List.nodup_append.mp hnodup).2.1).1
  have htargetDone : target ∉ done.map Prod.fst ++ [last] := by
    intro hmem
    exact (List.nodup_append.mp hnodup).2.2 target hmem target List.mem_cons_self rfl
  have hrecordMem : recordId ∈ done.map Prod.fst ++ [last] := by
    have hmem := hrecord.mem_ids
    rwa [List.map_append] at hmem
  have hlastOthers : last ∉ others := fun hmem => hused (List.mem_cons_of_mem _ hmem)
  have hne : target ≠ last := by
    rintro rfl
    exact hused List.mem_cons_self
  have htargetIds := htracks.notMem_ids htargetMem
  have htargetFree := htracks.notMem_free htargetMem
  rw [writeTarget, EStateM.bind_apply_of_ok (linkWith_apply last target s),
    EStateM.bind_apply_of_ok (writeContent_apply hle),
    EStateM.bind_apply_of_ok (setBlock_apply _), if_neg hwritten]
  refine ⟨_, rfl, ?_, ?_, ?_, ?_⟩
  · exact (((htracks.modify _ hids).modify _ htargetIds).modify _ htargetIds).modify _ htargetIds
  · apply hrecord.extend hblock
    · rw [modify_other _ hne.symm, modify_other _ hne.symm, modify_other _ hne.symm]
      exact modify_same _ hblock
    · apply modify_same
      apply modify_same
      apply modify_same
      rw [modify_other _ hne]
      exact hold
    · rfl
    · exact htracks.ne_zero hlastMem
    · exact Block.Holds.of_write hdeleted rfl rfl
    · intro j hj
      have hjlast : j ≠ last := by
        rintro rfl
        exact hdone hj
      have hjtarget : j ≠ target := by
        rintro rfl
        exact htargetDone (List.mem_append_left _ hj)
      rw [modify_other _ hjtarget, modify_other _ hjtarget, modify_other _ hjtarget,
        modify_other _ hjlast]
    · have hlt := htracks.lt_length (List.mem_append_right _ htargetMem)
      have hlimit := htracks.length_le
      omega
    · rintro rfl
      exact htargetDone hrecordMem
  · apply Keeps.modify _ _ htargetOthers htargetFree
    apply Keeps.modify _ _ htargetOthers htargetFree
    apply Keeps.modify _ _ htargetOthers htargetFree
    exact (Keeps.refl s t others).modify _ hlastOthers hfree
  · simp only [List.length_modify]

/-- A state in which a part of the data is written to the first blocks of a record, the last of
which is full if there is more: the blocks that remain of the record are not the first of one. -/
structure Overwriting (s : List (Block blockContentSize)) (t : Tracker) (recordId : Nat)
    (data : Bytes) (used : List Nat) (done : List (Nat × Bytes)) (last : Nat) (bytes : Bytes)
    (remaining : List Nat) (written : Nat) : Prop where
  tracks : Tracks s t (done.map Prod.fst ++ [last] ++ (remaining ++ used))
  record : RecordAt s recordId data.length (done ++ [(last, bytes)])
  exists_block : ∀ id ∈ remaining, ∃ block, s[id]? = some block ∧ block.isDeleted = 0
  hidden : ∀ id ∈ remaining, Hidden s id
  data_eq : (done ++ [(last, bytes)]).flatMap Prod.snd = data.take written
  pos : 0 < written
  full : written < data.length → written = (done.length + 1) * blockContentSize

section

variable {s : List (Block blockContentSize)} {t : Tracker} {recordId last written : Nat}
  {data bytes : Bytes} {used remaining : List Nat} {done : List (Nat × Bytes)}

/-- One round of the loop writes the next part of the data to the next block. -/
theorem Overwriting.round (hsize : 0 < blockContentSize)
    (h : Overwriting s t recordId data used done last bytes remaining written)
    (hmore : written < data.length) :
  Finishes (findTarget (done.map Prod.fst ++ [last] ++ remaining) (written / blockContentSize)) s
    (fun r s₁ => ∃ s₂ t₂ remaining₂,
      r.2 = (done ++ [(last, bytes)]).map Prod.fst ++ [r.1] ++ remaining₂
      ∧ writeTarget (some last) r.1
          ((data.drop written).take (min (data.length - written) blockContentSize)) written
          data.length s₁ = .ok ⟨⟩ s₂
      ∧ Overwriting s₂ t₂ recordId data used (done ++ [(last, bytes)]) r.1
          ((data.drop written).take (min (data.length - written) blockContentSize)) remaining₂
          (written + min (data.length - written) blockContentSize)
      ∧ Keeps s t used s₂ t₂
      ∧ t.available blockContentSize s.length ≤ t₂.available blockContentSize s₂.length + 1
      ∧ remaining₂.length = remaining.length - 1
      ∧ (remaining₂ ≠ [] → t₂ = t ∧ s₂.length = s.length))
    (fun _ s' => s' = s ∧ remaining = [] ∧ t.available blockContentSize s.length = 0)
  := by
  have hindex : written / blockContentSize = (done.map Prod.fst ++ [last]).length := by
    rw [List.length_append, List.length_map, List.length_singleton]
    conv_lhs => rw [h.full hmore, Nat.mul_div_cancel _ (by omega)]
  have hlen : ((data.drop written).take
      (min (data.length - written) blockContentSize)).length
      = min (data.length - written) blockContentSize := by
    rw [List.length_take, List.length_drop]
    omega
  have hfits : 0 + ((data.drop written).take
      (min (data.length - written) blockContentSize)).length ≤ blockContentSize := by
    rw [hlen]
    omega
  rw [hindex]
  apply (findTarget_spec h.tracks h.exists_block).mono
  · rintro ⟨target, blocks⟩ s₁ ⟨t₁, remaining₁, heq, htracks₁, htarget, hkeeps₁, hremaining₁,
      havailable₁, hshorter₁, hstays₁⟩
    dsimp only at heq htracks₁ htarget ⊢
    subst heq
    have hrecord₁ : RecordAt s₁ recordId data.length (done ++ [(last, bytes)]) := by
      apply h.record.congr
      intro j hj
      rw [List.map_append] at hj
      exact hkeeps₁.used j (List.mem_append_left _ hj)
    obtain ⟨s₂, hwrite, htracks₂, hrecord₂, hkeeps₂, hlength₂⟩ :=
      writeTarget_apply htracks₁ hrecord₁ htarget hfits (Nat.ne_of_gt h.pos)
    have hsame₂ : ∀ j ∈ remaining₁, j ∈ remaining ∧ s₂[j]? = s[j]? := by
      intro j hj
      obtain ⟨hmem, hsame⟩ := hremaining₁ j hj
      exact ⟨hmem, (hkeeps₂.used j (List.mem_append_left _ hj)).trans hsame⟩
    have hblocks₂ : done.map Prod.fst ++ [last] ++ target :: remaining₁
        = (done ++ [(last, bytes)]).map Prod.fst ++ [target] ++ remaining₁ := by
      rw [List.map_append, List.append_assoc _ [target], List.singleton_append]
      rfl
    have hkeeps : Keeps s t used s₂ t₁ := by
      apply (hkeeps₁.mono fun j hj => List.mem_append_right _ hj).trans
      exact hkeeps₂.mono fun j hj => List.mem_append_right _ hj
    rw [← List.cons_append, ← List.append_assoc, hblocks₂, List.append_assoc] at htracks₂
    rw [← hlength₂] at havailable₁ hstays₁
    refine ⟨s₂, t₁, remaining₁, hblocks₂, hwrite, ?_, hkeeps, havailable₁, hshorter₁, hstays₁⟩
    constructor
    · exact htracks₂
    · exact hrecord₂
    · intro j hj
      obtain ⟨hmem, hsame⟩ := hsame₂ j hj
      rw [hsame]
      exact h.exists_block j hmem
    · intro j hj
      obtain ⟨hmem, hsame⟩ := hsame₂ j hj
      exact (h.hidden j hmem).congr hsame
    · rw [List.flatMap_append, h.data_eq, List.flatMap_singleton, ← List.take_add]
    · have hpos := h.pos
      omega
    · intro hmore'
      rw [List.length_append, List.length_singleton, Nat.add_mul, Nat.one_mul, ← h.full hmore]
      omega
  · exact fun _ _ h => h

end

/-- Writing the data behind the last block of a record, to the blocks that remain of it and to
allocated ones. Where too few blocks can be allocated the record has those that it has got. -/
theorem overwriteBlocks_spec (hsize : 0 < blockContentSize) {recordId : Nat} {used : List Nat}
    (data : Bytes) (fuel : Nat) :
  ∀ {s : List (Block blockContentSize)} {t : Tracker} {done : List (Nat × Bytes)} {last : Nat}
    {bytes : Bytes} {remaining : List Nat} {written : Nat},
    Overwriting s t recordId data used done last bytes remaining written →
    data.length - written < fuel →
      Finishes (overwriteBlocks data fuel (done.map Prod.fst ++ [last] ++ remaining) written
          (done.length + 1) (some last)) s
        (fun r s' => ∃ t' cells, Tracks s' t' (cells.map Prod.fst ++ (r.1.drop r.2 ++ used))
          ∧ RecordAt s' recordId data.length cells ∧ cells.flatMap Prod.snd = data
          ∧ Keeps s t used s' t' ∧ (∀ id ∈ r.1.drop r.2, Hidden s' id)
          ∧ (r.1.drop r.2).length
            = remaining.length - blocksFor blockContentSize (data.length - written)
          ∧ (r.1.drop r.2 ≠ [] → t' = t ∧ s'.length = s.length))
        (fun _ s' => (∃ t' cells, Tracks s' t' (cells.map Prod.fst ++ used)
            ∧ RecordAt s' recordId data.length cells ∧ Keeps s t used s' t')
          ∧ t.available blockContentSize s.length
            < blocksFor blockContentSize (data.length - written))
  := by
  induction fuel with
  | zero =>
      intro s t done last bytes remaining written _ hfuel
      exact absurd hfuel (Nat.not_lt_zero _)
  | succ fuel ih =>
      intro s t done last bytes remaining written h hfuel
      rw [overwriteBlocks]
      by_cases hmore : written < data.length
      · have hneeded := blocksFor_eq hsize (Nat.sub_pos_of_lt hmore)
        rw [Nat.sub_sub] at hneeded
        rw [if_pos hmore]
        apply Finishes.bind ((h.round hsize hmore).mono (fun _ _ h => h) _)
        · rintro ⟨target, blocks⟩ s₁ ⟨s₂, t₂, remaining₂, heq, hwrite, h₂, hkeeps, havailable₂,
            hshorter₂, hstays₂⟩
          dsimp only at heq hwrite h₂ ⊢
          subst heq
          have hcount : done.length + 1 = (done ++ [(last, bytes)]).length := by
            rw [List.length_append, List.length_singleton]
          apply Finishes.bind_of_ok hwrite
          rw [hcount]
          apply (ih h₂ (by omega)).mono
          · rintro r s' ⟨t', cells, htracks', hrecord', hcells, hkeeps', hhidden', hshorter',
              hstays'⟩
            refine ⟨t', cells, htracks', hrecord', hcells, hkeeps.trans hkeeps', hhidden',
              by omega, ?_⟩
            intro hne
            have hremaining : remaining₂ ≠ [] := by
              rintro rfl
              apply hne
              apply List.eq_nil_of_length_eq_zero
              rw [hshorter', List.length_nil, Nat.zero_sub]
            obtain ⟨rfl, hlength'⟩ := hstays' hne
            obtain ⟨rfl, hlength₂⟩ := hstays₂ hremaining
            exact ⟨rfl, hlength'.trans hlength₂⟩
          · rintro e s' ⟨⟨t', cells, htracks', hrecord', hkeeps'⟩, hfull⟩
            exact ⟨⟨t', cells, htracks', hrecord', hkeeps.trans hkeeps'⟩, by omega⟩
        · rintro e s' ⟨rfl, rfl, hnone⟩
          refine ⟨⟨t, done ++ [(last, bytes)], ?_, h.record, .refl s' t used⟩, by omega⟩
          have htracks := h.tracks
          rw [List.nil_append] at htracks
          rw [List.map_append]
          exact htracks
      · rw [if_neg hmore]
        apply Finishes.of_ok rfl
        have hdrop : (done.map Prod.fst ++ [last] ++ remaining).drop (done.length + 1)
            = remaining := by
          apply List.drop_left'
          rw [List.length_append, List.length_map, List.length_singleton]
        rw [hdrop]
        have hnone : blocksFor blockContentSize (data.length - written) = 0 := by
          rw [Nat.sub_eq_zero_of_le (Nat.le_of_not_lt hmore), blocksFor, Nat.div_eq_of_lt]
          omega
        refine ⟨t, done ++ [(last, bytes)], ?_, h.record, ?_, .refl s t used, h.hidden, ?_,
          fun _ => ⟨rfl, rfl⟩⟩
        · rw [List.map_append]
          exact h.tracks
        · rw [h.data_eq, List.take_of_length_le (Nat.le_of_not_lt hmore)]
        · rw [hnone, Nat.sub_zero]

/-- Writing to the first block of a record. -/
theorem writeFirst_apply {s : List (Block blockContentSize)} {t : Tracker}
    {recordId total total' : Nat} {cells : List (Nat × Bytes)} {others : List Nat} {bytes : Bytes}
    (htracks : Tracks s t (recordId :: others)) (hrecord : RecordAt s recordId total' cells)
    (hle : 0 + bytes.length ≤ blockContentSize) :
  ∃ s', writeTarget none recordId bytes 0 total s = .ok ⟨⟩ s'
    ∧ Tracks s' t (recordId :: others) ∧ RecordAt s' recordId total [(recordId, bytes)]
    ∧ Keeps s t others s' t ∧ s'.length = s.length
  := by
  have hmem : recordId ∈ recordId :: others := List.mem_cons_self
  have hids := htracks.notMem_ids hmem
  have hfree := htracks.notMem_free hmem
  have hothers : recordId ∉ others :=
    (List.nodup_cons.mp (List.nodup_append.mp htracks.nodup).2.1).1
  obtain ⟨block, hblock, hprevious, -⟩ := hrecord.exists_first
  obtain ⟨block', hblock', hdeleted⟩ := hrecord.exists_block hrecord.mem_ids
  obtain rfl := Option.some.inj (hblock.symm.trans hblock')
  have hlink : linkWith none recordId s = .ok ⟨⟩ s := rfl
  rw [writeTarget, EStateM.bind_apply_of_ok hlink,
    EStateM.bind_apply_of_ok (writeContent_apply hle),
    EStateM.bind_apply_of_ok (setBlock_apply _), if_pos rfl]
  refine ⟨_, rfl, ?_, ?_, ?_, ?_⟩
  · exact ((htracks.modify _ hids).modify _ hids).modify _ hids
  · exact .single (modify_same _ (modify_same _ (modify_same _ hblock))) rfl hprevious
      (.of_write hdeleted rfl rfl)
  · apply Keeps.modify _ _ hothers hfree
    apply Keeps.modify _ _ hothers hfree
    exact (Keeps.refl s t others).modify _ hothers hfree
  · simp only [List.length_modify]

/-- The blocks of a record among those that are tracked. -/
theorem RecordAt.findBlocks_apply {s : List (Block blockContentSize)} {t : Tracker}
    {recordId total : Nat} {cells : List (Nat × Bytes)} {used : List Nat}
    (hrecord : RecordAt s recordId total cells)
    (htracks : Tracks s t (cells.map Prod.fst ++ used)) :
  findBlocks recordId s = .ok (cells.map Prod.fst) s
  := by
  rw [findBlocks, EStateM.get_bind_apply]
  apply findBlocksFrom_apply hrecord.linked
  · rw [Ne, List.map_eq_nil_iff]
    exact hrecord.nonempty
  · intro hzero
    exact htracks.ne_zero (List.mem_append_left _ (List.mem_of_mem_tail hzero)) rfl
  · exact Nat.le_succ_of_le htracks.length_used_le
  · intro id hid
    exact hrecord.exists_block hid

/-- Marking the blocks that a record no longer uses as free leaves the record. -/
theorem markUnused_spec (hsize : 4 ≤ blockContentSize) {s : List (Block blockContentSize)}
    {t : Tracker} {recordId total : Nat} {cells : List (Nat × Bytes)} {unused used : List Nat}
    (htracks : Tracks s t (cells.map Prod.fst ++ (unused ++ used)))
    (hrecord : RecordAt s recordId total cells) (hhidden : ∀ id ∈ unused, Hidden s id) :
  Finishes (markAllAsFree unused) s
    (fun _ s' => ∃ t', Tracks s' t' (cells.map Prod.fst ++ used)
      ∧ RecordAt s' recordId total cells ∧ Keeps s t used s' t')
    (fun _ _ => 2 ^ 32 < s.length + t.growth (blockContentSize / 4) unused.length)
  := by
  have hfirst : Tracks s t (unused ++ (cells.map Prod.fst ++ used)) := by
    apply htracks.perm
    rw [← List.append_assoc, ← List.append_assoc]
    exact List.Perm.append_right _ List.perm_append_comm
  apply (markAllAsFree_spec hsize _ hfirst hhidden).mono
  · rintro _ s' ⟨t', htracks', hkeeps'⟩
    refine ⟨t', htracks', ?_, hkeeps'.mono ?_⟩
    · apply hrecord.congr
      intro id hid
      exact hkeeps'.used id (List.mem_append_left _ hid)
    · intro j hj
      exact List.mem_append_right _ hj
  · exact fun _ _ h => h

/-- Updating a record with some data keeps the new data. It fails only where fewer blocks can be
allocated than it needs, and the record has those that it has got then, or where the array has no
room for the blocks that are to keep the numbers of the unused ones. -/
theorem update_spec (hsize : 0 < blockContentSize) {s : List (Block blockContentSize)}
    {t : Tracker} {recordId total : Nat} {cells : List (Nat × Bytes)} {used : List Nat}
    (htracks : Tracks s t (cells.map Prod.fst ++ used))
    (hrecord : RecordAt s recordId total cells) {data : Bytes} (hdata : data ≠ [])
    (hnumber : blocksFor blockContentSize data.length < cells.length → 4 ≤ blockContentSize) :
  Finishes (update recordId data) s
    (fun _ s' => ∃ t' cells', Tracks s' t' (cells'.map Prod.fst ++ used)
      ∧ RecordAt s' recordId data.length cells' ∧ cells'.flatMap Prod.snd = data
      ∧ Keeps s t used s' t')
    (fun _ s' => ((∃ t' cells', Tracks s' t' (cells'.map Prod.fst ++ used)
          ∧ RecordAt s' recordId data.length cells' ∧ Keeps s t used s' t')
        ∧ t.available blockContentSize s.length < blocksFor blockContentSize data.length)
      ∨ (blocksFor blockContentSize data.length < cells.length
        ∧ 2 ^ 32 < s.length + t.growth (blockContentSize / 4)
          (cells.length - blocksFor blockContentSize data.length)))
  := by
  have hcount : (cells.map Prod.fst).length = cells.length := List.length_map Prod.fst
  have hfind := hrecord.findBlocks_apply htracks
  obtain ⟨remaining, hids⟩ := hrecord.ids_eq
  have hblocks : ∀ id ∈ remaining, ∃ block, s[id]? = some block ∧ block.isDeleted = 0 := by
    intro id hid
    apply hrecord.exists_block
    rw [hids]
    exact List.mem_cons_of_mem _ hid
  have hhidden : ∀ id ∈ remaining, Hidden s id := by
    intro id hid
    apply hrecord.hidden
    · rw [hids]
      exact List.mem_cons_of_mem _ hid
    · rintro rfl
      rw [hids] at htracks
      have hnodup := (List.nodup_append.mp (List.nodup_append.mp htracks.nodup).2.1).1
      exact (List.nodup_cons.mp hnodup).1 hid
  rw [hids] at htracks hfind hcount
  rw [List.length_cons] at hcount
  have hpos : 0 < data.length := List.length_pos_iff.mpr hdata
  have hlen : (data.take (min data.length blockContentSize)).length
      = min data.length blockContentSize := by
    rw [List.length_take]
    omega
  have hfits : 0 + (data.take (min data.length blockContentSize)).length ≤ blockContentSize := by
    rw [hlen]
    omega
  obtain ⟨s₁, hwrite, htracks₁, hrecord₁, hkeeps₁, hlength₁⟩ :=
    @writeFirst_apply _ s t recordId data.length total cells _ _ htracks hrecord hfits
  have hsame₁ : ∀ id ∈ remaining, s₁[id]? = s[id]? := by
    intro id hid
    exact hkeeps₁.used id (List.mem_append_left _ hid)
  have hneeded := blocksFor_eq hsize hpos
  have hkeeps : Keeps s t used s₁ t := hkeeps₁.mono fun j hj => List.mem_append_right _ hj
  rw [update]
  apply Finishes.bind_of_ok hfind
  rw [overwriteBlocks, if_pos hpos, Nat.sub_zero, List.drop_zero, Nat.zero_div]
  apply Finishes.bind (R := fun r s' => ∃ t' cells', Tracks s' t'
    (cells'.map Prod.fst ++ (r.1.drop r.2 ++ used))
      ∧ RecordAt s' recordId data.length cells' ∧ cells'.flatMap Prod.snd = data
      ∧ Keeps s t used s' t' ∧ (∀ id ∈ r.1.drop r.2, Hidden s' id)
      ∧ (r.1.drop r.2).length = cells.length - blocksFor blockContentSize data.length
      ∧ (r.1.drop r.2 ≠ [] → t' = t ∧ s'.length = s.length))
  · apply Finishes.bind_of_ok
      (rfl : findTarget (recordId :: remaining) 0 s = .ok (recordId, recordId :: remaining) s)
    apply Finishes.bind_of_ok hwrite
    have hstart : Overwriting s₁ t recordId data used [] recordId
        (data.take (min data.length blockContentSize)) remaining
        (0 + min data.length blockContentSize) := by
      constructor
      · exact htracks₁
      · exact hrecord₁
      · intro id hid
        rw [hsame₁ id hid]
        exact hblocks id hid
      · intro id hid
        exact (hhidden id hid).congr (hsame₁ id hid)
      · rw [List.nil_append, List.flatMap_singleton, Nat.zero_add]
      · omega
      · intro hmore
        rw [List.length_nil]
        omega
    apply (overwriteBlocks_spec hsize data data.length hstart (by omega)).mono
    · rintro r s' ⟨t', cells', htracks', hrecord', hcells, hkeeps', hhidden', hshorter', hstays'⟩
      rw [Nat.zero_add] at hshorter'
      rw [hlength₁] at hstays'
      exact ⟨t', cells', htracks', hrecord', hcells, hkeeps.trans hkeeps', hhidden', by omega,
        hstays'⟩
    · rintro e s' ⟨⟨t', cells', htracks', hrecord', hkeeps'⟩, hfull⟩
      rw [Nat.zero_add, hlength₁] at hfull
      exact .inl ⟨⟨t', cells', htracks', hrecord', hkeeps.trans hkeeps'⟩, by omega⟩
  · rintro ⟨blocks, blocksUsed⟩ s₂ ⟨t', cells', htracks', hrecord', hcells, hkeeps', hhidden',
      hshorter, hstays⟩
    dsimp only at htracks' hhidden' hshorter hstays ⊢
    generalize blocks.drop blocksUsed = unused at htracks' hhidden' hshorter hstays ⊢
    cases unused with
    | nil =>
        apply Finishes.of_ok rfl
        exact ⟨t', cells', htracks', hrecord', hcells, hkeeps'⟩
    | cons id ids =>
        obtain ⟨rfl, hlength₂⟩ := hstays (List.cons_ne_nil id ids)
        rw [List.length_cons] at hshorter
        apply (markUnused_spec (hnumber (by omega)) htracks' hrecord' hhidden').mono
        · rintro _ s' ⟨t'', htracks'', hrecord'', hkeeps''⟩
          exact ⟨t'', cells', htracks'', hrecord'', hcells, hkeeps'.trans hkeeps''⟩
        · intro e s' hfull
          rw [List.length_cons, hlength₂, hshorter] at hfull
          exact .inr ⟨by omega, hfull⟩

end Datatent.Records
