import Datatent.CoreOld.Records.RecordOperations
import Datatent.Library.Run
import Mathlib.Data.List.Perm.Lattice

/-!
# Sessions with a record storage

A client creates, updates and deletes records of a storage that is empty at first. A session
is the array of blocks together with what the client knows: the records that are live with
the data last given for them, and the numbers of those that were deleted. A `Layout` of a
session says which blocks keep the free numbers and which blocks keep which record, and every
call on a live record gives a session with a layout again.
-/

namespace Datatent.Records

/-- A call of a client of the record storage. -/
inductive RecordCall where
  | create (data : Bytes)
  | update (recordId : Nat) (data : Bytes)
  | delete (recordId : Nat)
deriving DecidableEq

/-- The array of blocks, the live records with their data, and the deleted records. -/
structure RecordSession (blockContentSize : Nat) where
  blocks : List (Block blockContentSize)
  live : List (Nat × Bytes)
  deleted : List Nat

variable {blockContentSize : Nat}

namespace RecordSession

/-- The session with an empty block storage. -/
def new (blockContentSize : Nat) : RecordSession blockContentSize :=
  ⟨[], [], []⟩

/-- The live records with other numbers. -/
def others (s : RecordSession blockContentSize) (id : Nat) : List (Nat × Bytes) :=
  s.live.filter (fun r => r.1 ≠ id)

/-- The session after a call. A call that throws changes at most the blocks. -/
def step (s : RecordSession blockContentSize) : RecordCall → RecordSession blockContentSize
  | .create data =>
      match create data s.blocks with
      | .ok id blocks => ⟨blocks, (id, data) :: s.others id, s.deleted.filter (fun d => d ≠ id)⟩
      | .error _ blocks => { s with blocks := blocks }
  | .update id data =>
      match update id data s.blocks with
      | .ok _ blocks =>
          ⟨blocks, s.live.map (fun r => if r.1 = id then (id, data) else r), s.deleted⟩
      | .error _ blocks => { s with blocks := blocks }
  | .delete id =>
      match delete id s.blocks with
      | .ok _ blocks =>
          ⟨blocks, s.others id,
            if id ∈ s.live.map Prod.fst then id :: s.deleted else s.deleted⟩
      | .error _ blocks => { s with blocks := blocks }

/-- The call returns normally. -/
def returns (s : RecordSession blockContentSize) : RecordCall → Bool
  | .create data =>
      match create data s.blocks with
      | .ok _ _ => true
      | .error _ _ => false
  | .update id data =>
      match update id data s.blocks with
      | .ok _ _ => true
      | .error _ _ => false
  | .delete id =>
      match delete id s.blocks with
      | .ok _ _ => true
      | .error _ _ => false

/-- The call creates a record or is about a live one. -/
def OnLive (s : RecordSession blockContentSize) : RecordCall → Prop
  | .create _ => True
  | .update id _ => id ∈ s.live.map Prod.fst
  | .delete id => id ∈ s.live.map Prod.fst

instance (s : RecordSession blockContentSize) (call : RecordCall) : Decidable (s.OnLive call) :=
  match call with
  | .create _ => inferInstanceAs (Decidable True)
  | .update id _ => inferInstanceAs (Decidable (id ∈ s.live.map Prod.fst))
  | .delete id => inferInstanceAs (Decidable (id ∈ s.live.map Prod.fst))

/-- The live records are the same ones after one got other data. -/
theorem map_fst_update (s : RecordSession blockContentSize) (id : Nat) (data : Bytes) :
  (s.live.map (fun e => if e.1 = id then (id, data) else e)).map Prod.fst = s.live.map Prod.fst
  := by
  rw [List.map_map]
  apply List.map_congr_left
  intro e _
  dsimp only [Function.comp]
  split
  · rename_i heq
    exact heq.symm
  · rfl

/-- What `find` gives for a number, where it does not throw. -/
def found (s : RecordSession blockContentSize) (id : Nat) : Option (Option Bytes) :=
  match find id s.blocks with
  | .ok data _ => some data
  | .error _ _ => none

end RecordSession

/-! ### The layout of a session -/

/-- A record: its number and the blocks that keep it with their contents. -/
structure Record where
  id : Nat
  cells : List (Nat × Bytes)

namespace Record

/-- The blocks of the record. -/
def ids (r : Record) : List Nat :=
  r.cells.map Prod.fst

/-- The data of the record. -/
def data (r : Record) : Bytes :=
  r.cells.flatMap Prod.snd

/-- What the client knows of the record. -/
def entry (r : Record) : Nat × Bytes :=
  (r.id, r.data)

end Record

/-- Which blocks keep the free numbers, and which blocks each live record has. -/
structure Housed (s : RecordSession blockContentSize) (t : Tracker) (records : List Record) :
    Prop where
  tracks : Tracks s.blocks t (records.flatMap Record.ids)
  record : ∀ r ∈ records, ∃ total, RecordAt s.blocks r.id total r.cells
  live : (s.live.map Prod.fst).Perm (records.map Record.id)

namespace Housed

variable {s : RecordSession blockContentSize} {t : Tracker} {records : List Record} {r : Record}
  {id : Nat} {data : Bytes} {blocks : List (Block blockContentSize)}

/-- The order of the records does not matter. -/
theorem perm {records' : List Record} (h : Housed s t records) (hperm : records.Perm records') :
  Housed s t records'
  := by
  constructor
  · exact h.tracks.perm (hperm.flatMap_right _)
  · intro r hr
    exact h.record r (hperm.mem_iff.mpr hr)
  · exact h.live.trans (hperm.map _)

/-- The record with a live number, put before the other ones. -/
theorem exists_record (h : Housed s t records) (hid : id ∈ s.live.map Prod.fst) :
  ∃ r records', Housed s t (r :: records') ∧ r.id = id
  := by
  obtain ⟨r, hr, rfl⟩ := List.mem_map.mp (h.live.mem_iff.mp hid)
  obtain ⟨before, after, rfl⟩ := List.append_of_mem hr
  exact ⟨r, before ++ after, h.perm List.perm_middle, rfl⟩

/-- The number of a record is that of one of its blocks. -/
theorem mem_ids (h : Housed s t records) (hr : r ∈ records) :
  r.id ∈ r.ids
  := by
  obtain ⟨total, hrecord⟩ := h.record r hr
  exact hrecord.mem_ids

/-- The other records have other numbers. -/
theorem id_ne (h : Housed s t (r :: records)) {r' : Record} (hr' : r' ∈ records) :
  r'.id ≠ r.id
  := by
  have hnodup := (List.nodup_append.mp h.tracks.nodup).2.1
  rw [List.flatMap_cons] at hnodup
  have hmem := h.mem_ids List.mem_cons_self
  have hmem' := h.mem_ids (List.mem_cons_of_mem r hr')
  intro heq
  exact (List.nodup_append.mp hnodup).2.2 r.id hmem r'.id (List.mem_flatMap.mpr ⟨r', hr', hmem'⟩)
    heq.symm

/-- The live records with other numbers. -/
theorem others_perm (h : Housed s t (r :: records)) :
  ((s.others r.id).map Prod.fst).Perm (records.map Record.id)
  := by
  have hself : (records.map Record.id).filter (fun id => id ≠ r.id) = records.map Record.id := by
    apply List.filter_eq_self.mpr
    intro id hid
    obtain ⟨r', hr', rfl⟩ := List.mem_map.mp hid
    exact decide_eq_true (h.id_ne hr')
  have hfilter := h.live.filter (fun id => id ≠ r.id)
  rw [List.map_cons, List.filter_cons_of_neg (by simp), hself, List.filter_map] at hfilter
  exact hfilter

/-- A block of no record is not the first one of a record. -/
theorem notMem_live (h : Housed s t records) (hid : id ∉ records.flatMap Record.ids) :
  id ∉ s.live.map Prod.fst
  := by
  intro hmem
  obtain ⟨r, hr, rfl⟩ := List.mem_map.mp (h.live.mem_iff.mp hmem)
  exact hid (List.mem_flatMap.mpr ⟨r, hr, h.mem_ids hr⟩)

/-- The records whose blocks are kept. -/
theorem record_of_keeps (h : Housed s t records) {t' : Tracker} {records' : List Record}
    (hsubset : ∀ r ∈ records', r ∈ records)
    (hkeeps : Keeps s.blocks t (records'.flatMap Record.ids) blocks t') :
  ∀ r ∈ records', ∃ total, RecordAt blocks r.id total r.cells
  := by
  intro r hr
  obtain ⟨total, hrecord⟩ := h.record r (hsubset r hr)
  refine ⟨total, hrecord.congr ?_⟩
  intro j hj
  exact hkeeps.used j (List.mem_flatMap.mpr ⟨r, hr, hj⟩)

/-- A created record was not live before. -/
theorem notMem_of_create (h : Housed s t records) (hsize : 0 < blockContentSize)
    (hcall : create data s.blocks = .ok id blocks) :
  id ∉ s.live.map Prod.fst
  := by
  obtain ⟨t', cells, htracks, hrecord, -⟩ := (create_spec hsize h.tracks data).ok hcall
  have hdisjoint := (List.nodup_append.mp (List.nodup_append.mp htracks.nodup).2.1).2.2
  apply h.notMem_live
  intro hmem
  exact hdisjoint id hrecord.mem_ids id hmem rfl

/-- All live records have other numbers than a created one. -/
theorem others_of_create (h : Housed s t records) (hsize : 0 < blockContentSize)
    (hcall : create data s.blocks = .ok id blocks) :
  s.others id = s.live
  := by
  apply List.filter_eq_self.mpr
  intro entry hentry
  apply decide_eq_true
  rintro rfl
  exact h.notMem_of_create hsize hcall (List.mem_map_of_mem hentry)

end Housed

/-- Which blocks keep the free numbers, and which blocks keep which record. -/
structure Layout (s : RecordSession blockContentSize) (t : Tracker) (records : List Record) :
    Prop where
  tracks : Tracks s.blocks t (records.flatMap Record.ids)
  record : ∀ r ∈ records, RecordAt s.blocks r.id r.data.length r.cells
  live : s.live.Perm (records.map Record.entry)
  deleted : ∀ id ∈ s.deleted, id ∉ s.live.map Prod.fst ∧ Buried s.blocks t id

namespace Layout

variable {s : RecordSession blockContentSize} {t : Tracker} {records : List Record} {r : Record}
  {id : Nat}

/-- The order of the records does not matter. -/
theorem perm {records' : List Record} (h : Layout s t records) (hperm : records.Perm records') :
  Layout s t records'
  := by
  constructor
  · exact h.tracks.perm (hperm.flatMap_right _)
  · intro r hr
    exact h.record r (hperm.mem_iff.mpr hr)
  · exact h.live.trans (hperm.map _)
  · exact h.deleted

/-- The record with a live number, put before the other ones. -/
theorem exists_record (h : Layout s t records) (hid : id ∈ s.live.map Prod.fst) :
  ∃ r records', Layout s t (r :: records') ∧ r.id = id
  := by
  obtain ⟨entry, hentry, rfl⟩ := List.mem_map.mp hid
  obtain ⟨r, hr, rfl⟩ := List.mem_map.mp (h.live.mem_iff.mp hentry)
  obtain ⟨before, after, rfl⟩ := List.append_of_mem hr
  exact ⟨r, before ++ after, h.perm List.perm_middle, rfl⟩

/-- The records of a layout are live and have their blocks. -/
theorem housed (h : Layout s t records) :
  Housed s t records
  := by
  constructor
  · exact h.tracks
  · intro r hr
    exact ⟨_, h.record r hr⟩
  · have hlive := h.live.map Prod.fst
    rwa [List.map_map] at hlive

/-- The live records with other numbers. -/
theorem others_perm (h : Layout s t (r :: records)) :
  (s.others r.id).Perm (records.map Record.entry)
  := by
  have hself : (records.map Record.entry).filter (fun e => e.1 ≠ r.id)
      = records.map Record.entry := by
    apply List.filter_eq_self.mpr
    intro e he
    obtain ⟨r', hr', rfl⟩ := List.mem_map.mp he
    exact decide_eq_true (h.housed.id_ne hr')
  have hfilter := h.live.filter (fun e => e.1 ≠ r.id)
  rw [List.map_cons, List.filter_cons_of_neg (by simp [Record.entry]), hself] at hfilter
  exact hfilter

/-- The records whose blocks are kept. -/
theorem record_of_keeps (h : Layout s t records) {blocks : List (Block blockContentSize)}
    {t' : Tracker} {records' : List Record} (hsubset : ∀ r ∈ records', r ∈ records)
    (hkeeps : Keeps s.blocks t (records'.flatMap Record.ids) blocks t') :
  ∀ r ∈ records', RecordAt blocks r.id r.data.length r.cells
  := by
  intro r hr
  apply (h.record r (hsubset r hr)).congr
  intro j hj
  exact hkeeps.used j (List.mem_flatMap.mpr ⟨r, hr, hj⟩)

/-- After a record was created. -/
theorem create (h : Layout s t records) (hsize : 4 ≤ blockContentSize) {data : Bytes}
    {blocks : List (Block blockContentSize)} (hcall : create data s.blocks = .ok id blocks) :
  ∃ t' records', Layout (s.step (.create data)) t' records'
  := by
  have hpos : 0 < blockContentSize := by omega
  obtain ⟨t', cells, htracks, hrecord, hdata, hkeeps⟩ :=
    (create_spec hpos h.tracks data).ok hcall
  use t', ⟨id, cells⟩ :: records
  rw [RecordSession.step, hcall]
  dsimp only
  rw [h.housed.others_of_create hpos hcall]
  constructor
  · exact htracks
  · intro r hr
    obtain rfl | hr := List.mem_cons.mp hr
    · change RecordAt blocks id (cells.flatMap Prod.snd).length cells
      rw [hdata]
      exact hrecord
    · exact h.record_of_keeps (fun r hr => hr) hkeeps r hr
  · rw [List.map_cons, Record.entry, Record.data, hdata]
    exact h.live.cons _
  · intro d hd
    obtain ⟨hd, hne⟩ := List.mem_filter.mp hd
    obtain ⟨hlive, hburied⟩ := h.deleted d hd
    constructor
    · rw [List.map_cons, List.mem_cons, not_or]
      exact ⟨of_decide_eq_true hne, hlive⟩
    · exact hkeeps.buried hburied

/-- After a live record was updated with some data. -/
theorem update (h : Layout s t records) (hsize : 4 ≤ blockContentSize)
    (hid : id ∈ s.live.map Prod.fst) {data : Bytes} (hdata : data ≠ [])
    {blocks : List (Block blockContentSize)} (hcall : update id data s.blocks = .ok ⟨⟩ blocks) :
  ∃ t' records', Layout (s.step (.update id data)) t' records'
  := by
  obtain ⟨r, records, h, rfl⟩ := h.exists_record hid
  have htracks := h.tracks
  rw [List.flatMap_cons] at htracks
  obtain ⟨t', cells, htracks', hrecord, hcells, hkeeps⟩ :=
    (update_spec (by omega) htracks (h.record r List.mem_cons_self) hdata (fun _ => hsize)).ok
      hcall
  have hsame : records.map ((fun e => if e.1 = r.id then (r.id, data) else e) ∘ Record.entry)
      = records.map Record.entry := by
    apply List.map_congr_left
    intro r' hr'
    exact if_neg (h.housed.id_ne hr')
  use t', ⟨r.id, cells⟩ :: records
  rw [RecordSession.step, hcall]
  constructor
  · exact htracks'
  · intro r' hr'
    obtain rfl | hr' := List.mem_cons.mp hr'
    · change RecordAt blocks r.id (cells.flatMap Prod.snd).length cells
      rw [hcells]
      exact hrecord
    · exact h.record_of_keeps (fun r' hr' => List.mem_cons_of_mem _ hr') hkeeps r' hr'
  · have hlive := h.live.map (fun e => if e.1 = r.id then (r.id, data) else e)
    rw [List.map_map, List.map_cons] at hlive
    have hfirst : ((fun e => if e.1 = r.id then (r.id, data) else e) ∘ Record.entry) r
        = (r.id, data) := if_pos rfl
    rw [hfirst, hsame] at hlive
    rw [List.map_cons, Record.entry, Record.data, hcells]
    exact hlive
  · intro d hd
    obtain ⟨hlive, hburied⟩ := h.deleted d hd
    constructor
    · rw [s.map_fst_update]
      exact hlive
    · exact hkeeps.buried hburied

/-- After a live record was deleted. -/
theorem delete (h : Layout s t records) (hsize : 4 ≤ blockContentSize)
    (hid : id ∈ s.live.map Prod.fst) {blocks : List (Block blockContentSize)}
    (hcall : delete id s.blocks = .ok ⟨⟩ blocks) :
  ∃ t' records', Layout (s.step (.delete id)) t' records'
  := by
  obtain ⟨r, records, h, rfl⟩ := h.exists_record hid
  have htracks := h.tracks
  rw [List.flatMap_cons] at htracks
  have hrecord := h.record r List.mem_cons_self
  obtain ⟨t', htracks', hkeeps⟩ := (delete_spec hsize htracks hrecord).ok hcall
  have hburied := htracks.buried (List.mem_append_left _ hrecord.mem_ids)
  use t', records
  rw [RecordSession.step, hcall]
  dsimp only
  rw [if_pos hid]
  constructor
  · exact htracks'
  · exact h.record_of_keeps (fun r' hr' => List.mem_cons_of_mem _ hr') hkeeps
  · exact h.others_perm
  · intro d hd
    obtain rfl | hd := List.mem_cons.mp hd
    · constructor
      · intro hmem
        obtain ⟨entry, hentry, hfst⟩ := List.mem_map.mp hmem
        exact of_decide_eq_true (List.mem_filter.mp hentry).2 hfst
      · exact hkeeps.buried hburied
    · obtain ⟨hlive, hburied⟩ := h.deleted d hd
      constructor
      · intro hmem
        obtain ⟨entry, hentry, hfst⟩ := List.mem_map.mp hmem
        exact hlive (List.mem_map.mpr ⟨entry, (List.mem_filter.mp hentry).1, hfst⟩)
      · exact hkeeps.buried hburied

/-- A live record is found with its data, unless it is too large. -/
theorem found_live (h : Layout s t records) {entry : Nat × Bytes} (hentry : entry ∈ s.live)
    (hmax : entry.2.length ≤ maxRecordSize) :
  s.found entry.1 = some (some entry.2)
  := by
  obtain ⟨r, hr, rfl⟩ := List.mem_map.mp (h.live.mem_iff.mp hentry)
  obtain ⟨before, after, rfl⟩ := List.append_of_mem hr
  have h := h.perm List.perm_middle
  have htracks := h.tracks
  rw [List.flatMap_cons] at htracks
  have hfind := (h.record r List.mem_cons_self).find_apply rfl hmax
    (fun hzero => htracks.ne_zero (List.mem_append_left _ hzero) rfl)
    ((List.length_map Prod.fst).symm.trans_le htracks.length_used_le)
  change RecordSession.found s r.id = _
  rw [RecordSession.found, hfind]
  rfl

/-- A deleted record is not found. -/
theorem found_deleted (h : Layout s t records) (hid : id ∈ s.deleted) :
  s.found id = some none
  := by
  obtain ⟨hlive, hids, hlt, hfree⟩ := h.deleted id hid
  have hhidden : Hidden s.blocks id := by
    have hmem := h.tracks.ids.mem_iff.mpr (List.mem_range.mpr hlt)
    rw [List.mem_append, List.mem_append] at hmem
    obtain (hmem | hmem) | hmem := hmem
    · exact absurd hmem hids
    · exact hfree hmem
    · obtain ⟨r, hr, hcell⟩ := List.mem_flatMap.mp hmem
      apply (h.record r hr).hidden hcell
      rintro rfl
      apply hlive
      rw [(h.live.map Prod.fst).mem_iff, List.map_map]
      exact List.mem_map_of_mem hr
  rw [RecordSession.found, hhidden.find_apply]

end Layout

end Datatent.Records
