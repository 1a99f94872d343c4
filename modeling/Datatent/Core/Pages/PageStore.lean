import Datatent.Core.Pages.DataPage
import Datatent.Library.Run
import Mathlib.Algebra.Order.BigOperators.Group.List

/-!
# A data page as a store of documents

A session is a run of `TryAddContent` calls on one page. It keeps the documents reported as
saved, in order, and the faults of the calls that ended in one. The documents saved on a
page from `InitEmpty` lie one behind the other at the front of its slice (`Stored`), as long
as every one of them fits into the slice and has an id whose low byte is not zero.
-/

namespace Datatent

/-- The arguments of a call of `TryAddContent`. -/
structure AddCall where
  content : Bytes
  typeId : UInt32

/-- A page with its memory, the documents reported as saved so far, and the faults. -/
structure Session where
  page : DataPage
  memory : Bytes
  saved : List (UInt16 × Bytes)
  faults : List Fault

namespace Session

/-- The session at its start. -/
def start (page : DataPage) (memory : Bytes) : Session where
  page := page
  memory := memory
  saved := []
  faults := []

/-- The session after one call. A call that ends in a fault leaves the page as it was. -/
def step (session : Session) (call : AddCall) : Session :=
  match session.page.tryAddContent session.memory call.content call.typeId with
  | .error fault => { session with faults := session.faults ++ [fault] }
  | .ok result =>
      { session with
        page := result.page
        memory := result.memory
        saved :=
          if result.saved then session.saved ++ [(result.id, call.content)] else session.saved }

/-- The session after a sequence of calls. -/
def run (session : Session) (calls : List AddCall) : Session :=
  Run.final step session calls

/-- The store law: no call wrote past the slice, the ids of the saved documents are pairwise
distinct, and each of them is found with exactly the content it was saved with. -/
def Lawful (session : Session) : Prop :=
  Fault.outsideSlice ∉ session.faults
    ∧ (session.saved.map Prod.fst).Nodup
    ∧ ∀ document ∈ session.saved,
        session.page.findById session.memory document.1 = .ok (some document.2)

/-- The number of bytes the saved documents take. -/
def used (session : Session) : Nat :=
  (session.saved.map (fun document => 48 + document.2.length)).sum

/-- A call is refused, or throws because no header with the first byte of a content fits behind
the saved documents, or is given an id with a nonzero low byte and has room behind the saved
documents. -/
def Fits (session : Session) (call : AddCall) : Prop :=
  DataPage.Accepts session.page.header call.content call.typeId →
    session.used + 48 + min call.content.length 1 ≤ session.memory.length →
      session.page.header.pageNextDocumentId.toNat % 256 ≠ 0
        ∧ session.used + 48 + call.content.length ≤ session.memory.length

/-- Every call of a sequence fits in the state before it. -/
def AllFit (session : Session) (calls : List AddCall) : Prop :=
  Run.Along step Fits session calls

end Session

/-! ### Documents one behind the other -/

/-- The bytes of documents one behind the other. -/
def encodeAll (documents : List (UInt16 × Bytes)) : Bytes :=
  documents.flatMap (fun document => Document.encode document.1 document.2)

/-- A document the walk reads when it comes to it: its id has a nonzero low byte, and its
size is a signed number. -/
def Readable (document : UInt16 × Bytes) : Prop :=
  document.1.toNat % 256 ≠ 0 ∧ document.2.length + 48 < 2 ^ 31

theorem length_encodeAll (documents : List (UInt16 × Bytes)) :
  (encodeAll documents).length
    = (documents.map (fun document => 48 + document.2.length)).sum
  := by
  simp only [encodeAll, List.length_flatMap, Document.length_encode]

theorem length_le_encodeAll (documents : List (UInt16 × Bytes)) :
  documents.length ≤ (encodeAll documents).length
  := by
  induction documents with
  | nil => simp
  | cons document documents ih =>
      simp only [encodeAll, List.flatMap_cons, List.length_append, List.length_cons,
        Document.length_encode] at ih ⊢
      omega

/-- The search for an empty slot goes past readable documents to where the walk ends. -/
theorem findEmptySlot_encodeAll {rest : Bytes} (hrest : rest.length < 48 ∨ rest.headD 0 = 0) :
  ∀ {documents : List (UInt16 × Bytes)} {rounds : Nat},
    (∀ document ∈ documents, Readable document) → documents.length < rounds →
      DataPage.findEmptySlot rounds (encodeAll documents ++ rest) = .ok rest
  | _, 0, _, hrounds => by omega
  | [], rounds + 1, _, _ => DataPage.findEmptySlot_of_end rounds hrest
  | (id, content) :: documents, rounds + 1, hread, hrounds => by
      obtain ⟨hid, hcontent⟩ := hread (id, content) List.mem_cons_self
      have hnext := Document.getNext_encode (encodeAll documents ++ rest) hid hcontent
      rw [encodeAll, List.flatMap_cons, List.append_assoc]
      apply Eq.trans (DataPage.findEmptySlot_of_next rounds hnext)
      apply findEmptySlot_encodeAll hrest
      · intro document hdocument
        apply hread document (List.mem_cons_of_mem _ hdocument)
      · rw [List.length_cons] at hrounds
        omega

/-- A readable document where the search starts is found by its id. -/
theorem findByIdFrom_encode {id : UInt16} {content : Bytes} (rest : Bytes) (rounds : Nat)
    (hread : Readable (id, content)) :
  DataPage.findByIdFrom id (rounds + 1) (Document.encode id content ++ rest)
    = .ok (some content)
  := by
  obtain ⟨hid, hcontent⟩ := hread
  have hnext := Document.getNext_encode rest hid hcontent
  obtain ⟨document, hdocument, hslice, hheader, hlength⟩ := Document.ofSlice_encode id content
  rw [DataPage.findByIdFrom_of_next rounds hnext hdocument, hheader, if_pos rfl,
    Document.getContent_encode hslice hlength hcontent]
  rfl

/-- Among readable documents with distinct ids each one is found by its id. -/
theorem findByIdFrom_encodeAll {rest : Bytes} {id : UInt16} {content : Bytes} :
  ∀ {documents : List (UInt16 × Bytes)} {rounds : Nat},
    (∀ document ∈ documents, Readable document) → (documents.map Prod.fst).Nodup →
      (id, content) ∈ documents → documents.length < rounds →
        DataPage.findByIdFrom id rounds (encodeAll documents ++ rest) = .ok (some content)
  | _, 0, _, _, _, hrounds => by omega
  | [], _ + 1, _, _, hmem, _ => by cases hmem
  | (id', content') :: documents, rounds + 1, hread, hnodup, hmem, hrounds => by
      have hfirst := hread (id', content') List.mem_cons_self
      rw [encodeAll, List.flatMap_cons, List.append_assoc]
      rw [List.map_cons, List.nodup_cons] at hnodup
      rcases List.mem_cons.mp hmem with heq | hmem
      · cases heq
        exact findByIdFrom_encode (encodeAll documents ++ rest) rounds hfirst
      · have hnext := Document.getNext_encode (encodeAll documents ++ rest) hfirst.1 hfirst.2
        obtain ⟨document, hdocument, -, hheader, -⟩ := Document.ofSlice_encode id' content'
        apply Eq.trans (DataPage.findByIdFrom_of_next rounds hnext hdocument)
        rw [hheader, if_neg]
        · apply findByIdFrom_encodeAll _ hnodup.2 hmem
          · rw [List.length_cons] at hrounds
            omega
          · intro document hdocument
            apply hread document (List.mem_cons_of_mem _ hdocument)
        · rintro rfl
          apply hnodup.1
          exact List.mem_map.mpr ⟨_, hmem, rfl⟩

namespace Session

/-! ### The invariant of a session -/

/-- The saved documents lie at the front of the memory with zeros behind them, and are
numbered from one up to at most `255`. -/
structure Stored (size : Nat) (session : Session) : Prop where
  start : session.page.start = 0
  room : session.used ≤ size
  memory : session.memory = encodeAll session.saved ++ List.replicate (size - session.used) 0
  count : session.saved.length ≤ 255
  ids : ∀ i (h : i < session.saved.length), session.saved[i].1.toNat = i + 1
  next : session.page.header.pageNextDocumentId.toNat = session.saved.length + 1
  faults : Fault.outsideSlice ∉ session.faults

variable {size : Nat} {session : Session}

theorem length_saved (session : Session) :
  (encodeAll session.saved).length = session.used
  := length_encodeAll session.saved

theorem Stored.length_memory (h : Stored size session) :
  session.memory.length = size
  := by
  have hroom := h.room
  rw [h.memory, List.length_append, length_saved, List.length_replicate]
  omega

/-- Every saved document is readable. -/
theorem Stored.readable (h : Stored size session) (hsize : size < 2 ^ 31) :
  ∀ document ∈ session.saved, Readable document
  := by
  intro document hmem
  constructor
  · obtain ⟨i, hi, rfl⟩ := List.getElem_of_mem hmem
    have hid := h.ids i hi
    have hcount := h.count
    omega
  · have hle : 48 + document.2.length ≤ (session.saved.map fun d => 48 + d.2.length).sum :=
      List.le_sum_of_mem (List.mem_map.mpr ⟨document, hmem, rfl⟩)
    have hroom := h.room
    rw [used] at hroom
    omega

/-- The ids of the saved documents are pairwise distinct. -/
theorem Stored.nodup (h : Stored size session) :
  (session.saved.map Prod.fst).Nodup
  := by
  rw [List.nodup_iff_injective_getElem]
  intro i j hij
  have hi : i.val < session.saved.length := by simpa using i.isLt
  have hj : j.val < session.saved.length := by simpa using j.isLt
  have hij : session.saved[i.val].1 = session.saved[j.val].1 := by simpa using hij
  have hieq := h.ids i hi
  have hjeq := h.ids j hj
  apply Fin.ext
  rw [hij] at hieq
  omega

/-- The zeros behind the saved documents end the walk. -/
theorem replicate_zero_end (n : Nat) :
  (List.replicate n (0 : UInt8)).length < 48 ∨ (List.replicate n (0 : UInt8)).headD 0 = 0
  := by
  right
  cases n <;> rfl

/-- The empty slot of the page is behind its saved documents. -/
theorem Stored.findEmptySlot (h : Stored size session) (hsize : size < 2 ^ 31) :
  DataPage.findEmptySlot ((session.memory.drop session.page.start).length + 1)
      (session.memory.drop session.page.start)
    = .ok (List.replicate (size - session.used) 0)
  := by
  have hcount := length_le_encodeAll session.saved
  have hroom := h.room
  rw [length_saved] at hcount
  rw [h.start, List.drop_zero, h.length_memory, h.memory]
  apply findEmptySlot_encodeAll (replicate_zero_end _) (h.readable hsize)
  omega

/-- A page that stores its documents obeys the store law. -/
theorem Stored.lawful (h : Stored size session) (hsize : size < 2 ^ 31) :
  session.Lawful
  := by
  have hcount := length_le_encodeAll session.saved
  have hroom := h.room
  rw [length_saved] at hcount
  use h.faults, h.nodup
  rintro ⟨id, content⟩ hmem
  rw [DataPage.findById, h.start, List.drop_zero, h.length_memory, h.memory]
  apply findByIdFrom_encodeAll (h.readable hsize) h.nodup hmem
  omega

/-! ### Steps and runs -/

/-- A call that ends in a fault is only recorded. -/
theorem step_of_error {call : AddCall} {fault : Fault}
    (h : session.page.tryAddContent session.memory call.content call.typeId = .error fault) :
  session.step call = { session with faults := session.faults ++ [fault] }
  := by
  rw [step, h]

/-- A refused call changes nothing. -/
theorem step_of_not_accepts {call : AddCall}
    (h : ¬ DataPage.Accepts session.page.header call.content call.typeId) :
  session.step call = session
  := by
  rw [step, DataPage.tryAddContent_of_not_accepts h]
  rfl

/-- The session with a further document behind the saved ones, in a memory of the given
size. -/
def store (size : Nat) (session : Session) (content : Bytes) : Session where
  page := { session.page with
    header := DataPage.addEntry session.page.header (UInt32.ofNat content.length)
    isDirty := true }
  memory := encodeAll (session.saved ++ [(session.page.header.pageNextDocumentId, content)])
    ++ List.replicate (size - (session.used + 48 + content.length)) 0
  saved := session.saved ++ [(session.page.header.pageNextDocumentId, content)]
  faults := session.faults

theorem used_store (size : Nat) (session : Session) (content : Bytes) :
  (session.store size content).used = session.used + 48 + content.length
  := by
  simp only [used, store, List.map_append, List.map_cons, List.map_nil, List.sum_append,
    List.sum_cons, List.sum_nil]
  omega

/-- An accepted call whose document fits saves it behind the others. -/
theorem Stored.step_of_fits (h : Stored size session) (hsize : size < 2 ^ 31) {call : AddCall}
    (haccepts : DataPage.Accepts session.page.header call.content call.typeId)
    (hfits : session.used + 48 + call.content.length ≤ size) :
  session.step call = session.store size call.content
  := by
  have hadd := DataPage.tryAddContent_of_fits haccepts h.memory (h.findEmptySlot hsize)
    (by rw [List.length_replicate]; omega)
  have hrest : size - session.used - (0 + (48 + call.content.length))
      = size - (session.used + 48 + call.content.length) := by
    omega
  rw [step, hadd]
  simp only [if_true, store, encodeAll, List.flatMap_append, List.flatMap_cons,
    List.flatMap_nil, List.append_nil, Bytes.overwrite, List.take_zero, List.nil_append,
    List.drop_replicate, Document.length_encode, List.append_assoc, hrest]

/-- A further document that fits, with a nonzero low byte of its id, is stored. -/
theorem Stored.store (h : Stored size session) {content : Bytes}
    (hid : session.page.header.pageNextDocumentId.toNat % 256 ≠ 0)
    (hfits : session.used + 48 + content.length ≤ size) :
  Stored size (session.store size content)
  := by
  have hcount := h.count
  have hnext := h.next
  have hlength : (session.store size content).saved.length = session.saved.length + 1 := by
    simp [Session.store]
  constructor
  · exact h.start
  · rw [used_store]
    exact hfits
  · rw [used_store]
    rfl
  · omega
  · intro i hi
    rw [hlength] at hi
    by_cases hlast : i < session.saved.length
    · simpa [Session.store, List.getElem_append_left hlast] using h.ids i hlast
    · obtain rfl : i = session.saved.length := by omega
      simpa [Session.store] using hnext
  · rw [hlength]
    simp only [Session.store, DataPage.addEntry_pageNextDocumentId, UInt16.toNat_add, hnext]
    change (session.saved.length + 1 + 1) % 65536 = _
    omega
  · exact h.faults

/-- A call that fits keeps the documents stored. -/
theorem Stored.step (h : Stored size session) (hsize : size < 2 ^ 31) {call : AddCall}
    (hfits : session.Fits call) :
  Stored size (session.step call)
  := by
  by_cases haccepts : DataPage.Accepts session.page.header call.content call.typeId
  · by_cases hroom : session.used + 48 + min call.content.length 1 ≤ size
    · obtain ⟨hid, hlength⟩ := hfits haccepts (by rw [h.length_memory]; exact hroom)
      rw [h.length_memory] at hlength
      rw [h.step_of_fits hsize haccepts hlength]
      apply h.store hid hlength
    · obtain ⟨fault, hfull, hne⟩ := DataPage.tryAddContent_of_full haccepts
        (h.findEmptySlot hsize) (by rw [List.length_replicate]; omega)
      rw [step_of_error hfull]
      exact { h with faults := by simp [h.faults, hne.symm] }
  · rw [step_of_not_accepts haccepts]
    exact h

/-- No call takes back a fault or a saved document. -/
theorem step_mono (session : Session) (call : AddCall) :
  session.faults ⊆ (session.step call).faults ∧ session.saved ⊆ (session.step call).saved
  := by
  rw [Session.step]
  split
  · exact ⟨List.subset_append_left _ _, List.Subset.refl _⟩
  · refine ⟨List.Subset.refl _, ?_⟩
    dsimp only
    split
    · exact List.subset_append_left _ _
    · exact List.Subset.refl _

/-- No run takes back a fault or a saved document. -/
theorem run_mono :
  ∀ (session : Session) (calls : List AddCall),
    session.faults ⊆ (session.run calls).faults ∧ session.saved ⊆ (session.run calls).saved
  | _, [] => ⟨List.Subset.refl _, List.Subset.refl _⟩
  | session, call :: calls => by
      obtain ⟨hfaults, hsaved⟩ := step_mono session call
      obtain ⟨hfaults', hsaved'⟩ := run_mono (session.step call) calls
      exact ⟨List.Subset.trans hfaults hfaults', List.Subset.trans hsaved hsaved'⟩

/-- A copy past the slice breaks the store law for good. -/
theorem not_lawful_of_fault {calls : List AddCall} (h : Fault.outsideSlice ∈ session.faults) :
  ¬ (session.run calls).Lawful
  := by
  rintro ⟨hfaults, -⟩
  exact hfaults ((run_mono session calls).1 h)

/-- A saved document whose id has a zero low byte breaks the store law for good. -/
theorem not_lawful_of_saved {calls : List AddCall} {id : UInt16} {content : Bytes}
    (hid : id.toNat % 256 = 0) (h : (id, content) ∈ session.saved) :
  ¬ (session.run calls).Lawful
  := by
  rintro ⟨-, -, hfind⟩
  exact DataPage.findByIdFrom_ne_some hid content _ _ (hfind _ ((run_mono session calls).2 h))

/-- A call that does not fit breaks the store law for good. -/
theorem Stored.not_lawful (h : Stored size session) (hsize : size < 2 ^ 31) {call : AddCall}
    (hfits : ¬ session.Fits call) (calls : List AddCall) :
  ¬ ((session.step call).run calls).Lawful
  := by
  simp only [Fits, Classical.not_imp, h.length_memory] at hfits
  obtain ⟨haccepts, hroom, hbad⟩ := hfits
  by_cases hlength : session.used + 48 + call.content.length ≤ size
  · have hid : session.page.header.pageNextDocumentId.toNat % 256 = 0 := by
      by_contra hid
      exact hbad ⟨hid, hlength⟩
    rw [h.step_of_fits hsize haccepts hlength]
    apply not_lawful_of_saved hid
    apply List.mem_append_right _ List.mem_cons_self
  · have hover := DataPage.tryAddContent_of_overrun haccepts (h.findEmptySlot hsize)
      (by rw [List.length_replicate]; omega) (by rw [List.length_replicate]; omega)
    rw [step_of_error hover]
    apply not_lawful_of_fault
    simp

/-- A run from stored documents obeys the store law exactly when all its calls fit. -/
theorem Stored.lawful_run_iff (hsize : size < 2 ^ 31) (calls : List AddCall)
    (h : Stored size session) :
  (session.run calls).Lawful ↔ session.AllFit calls
  := by
  apply Run.final_iff_along (I := Stored size)
  · intro session call h hfits
    exact h.step hsize hfits
  · intro session h
    exact h.lawful hsize
  · intro session call h hfits calls
    exact h.not_lawful hsize hfits calls
  · exact h

/-- Calls whose documents together have room behind the stored ones, and whose ids stay below
`256`, all fit. -/
theorem Stored.allFit_of_le (hsize : size < 2 ^ 31) :
  ∀ {session : Session} (calls : List AddCall), Stored size session →
    session.saved.length + calls.length ≤ 255 →
      session.used + (calls.map (fun call => 48 + call.content.length)).sum ≤ size →
        session.AllFit calls
  | _, [], _, _, _ => trivial
  | session, call :: calls, h, hids, hroom => by
      rw [List.length_cons] at hids
      rw [List.map_cons, List.sum_cons] at hroom
      have hnext := h.next
      have hfits : session.Fits call := by
        intro _ _
        rw [h.length_memory]
        omega
      refine ⟨hfits, Stored.allFit_of_le hsize calls (h.step hsize hfits) ?_ ?_⟩
      all_goals
        by_cases haccepts : DataPage.Accepts session.page.header call.content call.typeId
      · rw [h.step_of_fits hsize haccepts (by omega), Session.store, List.length_append,
          List.length_singleton]
        omega
      · rw [step_of_not_accepts haccepts]
        omega
      · rw [h.step_of_fits hsize haccepts (by omega), used_store]
        omega
      · rw [step_of_not_accepts haccepts]
        omega

/-- A page from `InitEmpty` over zeros stores no documents. -/
theorem Stored.initEmpty {size : Nat} {id : UInt16} {page : DataPage}
    (h : DataPage.initEmpty (List.replicate size 0) 0 id .data = .ok page) :
  Stored size (Session.start page (List.replicate size 0))
  := by
  constructor
  · apply DataPage.initEmpty_start h
  · exact Nat.zero_le _
  · simp [Session.start, used, encodeAll]
  · simp [Session.start]
  · intro i hi
    simp [Session.start] at hi
  · simp only [Session.start, DataPage.initEmpty_pageNextDocumentId h]
    rfl
  · simp [Session.start]

/-! ### The document with the id `256` -/

/-- A call with an empty content and the type id zero. -/
def emptyCall : AddCall where
  content := []
  typeId := 0

/-- A session in which every one of the first documents of a page of the smallest size was
saved with an empty content. -/
structure Counting (n : Nat) (session : Session) : Prop where
  stored : Stored 64092 session
  saved : session.saved.length = n
  used : session.used = 48 * n
  free : session.page.header.pageNumberOfFreeBytes.toNat = 6409200 - 48 * n
  type : session.page.header.pageTypeId = 0

/-- The call with the empty content is accepted on such a page. -/
theorem Counting.accepts {n : Nat} (h : Counting n session) :
  DataPage.Accepts session.page.header emptyCall.content emptyCall.typeId
  := ⟨h.type.symm, Nat.zero_le _⟩

/-- Up to the document with the id `255` the empty contents are saved. -/
theorem Counting.step {n : Nat} (h : Counting n session) (hn : n < 255) :
  Counting (n + 1) (session.step emptyCall)
  := by
  have hsaved := h.saved
  have hused := h.used
  have hfree := h.free
  have hnext := h.stored.next
  have hcost : (UInt32.ofNat emptyCall.content.length + Constants.DOCUMENT_HEADER_SIZE).toNat
      = 48 := rfl
  have hfits : session.used + 48 + emptyCall.content.length ≤ 64092 := by
    change session.used + 48 + 0 ≤ _
    omega
  rw [h.stored.step_of_fits (by omega) h.accepts hfits]
  constructor
  · apply h.stored.store _ hfits
    omega
  · simp [store, hsaved]
  · rw [used_store, hused]
    change 48 * n + 48 + 0 = _
    omega
  · simp only [store, DataPage.addEntry_pageNumberOfFreeBytes]
    rw [UInt32.toNat_sub_of_le _ _ (UInt32.le_iff_toNat_le.mpr (by omega)), hcost]
    omega
  · simp only [store]
    rw [DataPage.addEntry_pageTypeId, h.type]
    · omega
    · change 0 + 48 ≤ _
      omega

/-- The empty contents from the first one on do not all fit when there are enough of them to
come to the id `256`. -/
theorem Counting.not_allFit {n : Nat} (h : Counting n session) :
  ∀ m, n + m = 255 → ¬ session.AllFit (List.replicate (m + 1) emptyCall)
  := by
  intro m
  induction m generalizing n session with
  | zero =>
      intro hn hall
      obtain ⟨hid, -⟩ := hall.1 h.accepts (by
        rw [h.stored.length_memory, h.used]
        change 48 * _ + 48 + 0 ≤ _
        omega)
      apply hid
      rw [h.stored.next, h.saved]
      omega
  | succ m ih =>
      intro hn hall
      apply ih (h.step (by omega)) (by omega) hall.2

/-! ### The store law -/

/-- The store law of every run of calls on a page from `InitEmpty` over a slice of zeros. -/
def StoreLaw : Prop :=
  ∀ (size : Nat) (id : UInt16) (page : DataPage) (calls : List AddCall), size < 2 ^ 31 →
    DataPage.initEmpty (List.replicate size 0) 0 id .data = .ok page →
      ((Session.start page (List.replicate size 0)).run calls).Lawful

/-- A run of calls on a page from `InitEmpty` over a slice of zeros obeys the store law
exactly when every call is refused, finds no room for a header with the first byte of a
content, or has an id with a nonzero low byte and room for its document. -/
theorem lawful_run_iff_allFit {size : Nat} {id : UInt16} {page : DataPage}
    (calls : List AddCall) (hsize : size < 2 ^ 31)
    (h : DataPage.initEmpty (List.replicate size 0) 0 id .data = .ok page) :
  ((Session.start page (List.replicate size 0)).run calls).Lawful
    ↔ (Session.start page (List.replicate size 0)).AllFit calls
  := by
  apply Stored.lawful_run_iff hsize calls (Stored.initEmpty h)

/-- `InitEmpty` succeeds on a slice of the smallest size. -/
theorem initEmpty_smallest :
  ∃ page, DataPage.initEmpty (List.replicate 64092 0) 0 0 .data = .ok page
    ∧ page.header.pageNumberOfFreeBytes = 6409200 ∧ page.header.pageTypeId = 0
  := by
  rw [DataPage.initEmpty, if_neg (by rw [List.drop_zero, List.length_replicate]; decide)]
  refine ⟨_, rfl, ?_, ?_⟩
  · decide
  · decide

/-- Three documents on a page of the smallest size, one of them empty, are stored and found,
and a call with another type is refused. -/
theorem lawful_run_three :
  ∃ page, DataPage.initEmpty (List.replicate 64092 0) 0 0 .data = .ok page
    ∧ ((Session.start page (List.replicate 64092 0)).run
      [⟨[7], 0⟩, ⟨[], 0⟩, ⟨[7], 1⟩, ⟨[8, 9], 0⟩]).Lawful
  := by
  obtain ⟨page, hpage, -, -⟩ := initEmpty_smallest
  use page, hpage
  apply (lawful_run_iff_allFit [⟨[7], 0⟩, ⟨[], 0⟩, ⟨[7], 1⟩, ⟨[8, 9], 0⟩] (by decide) hpage).mpr
  apply Stored.allFit_of_le (by decide) _ (Stored.initEmpty hpage)
  · change 0 + 4 ≤ 255
    decide
  · change 0 + 196 ≤ 64092
    decide

/-- The store law fails: of `256` documents with empty contents on a page of the smallest
size, the last one gets the id `256` and is not found. -/
theorem not_storeLaw :
  ¬ StoreLaw
  := by
  intro hlaw
  obtain ⟨page, hpage, hfree, htype⟩ := initEmpty_smallest
  have hstored := Stored.initEmpty hpage
  have hcounting : Counting 0 (Session.start page (List.replicate 64092 0)) := by
    constructor
    · exact hstored
    · rfl
    · rfl
    · change page.header.pageNumberOfFreeBytes.toNat = _
      rw [hfree]
      rfl
    · exact htype
  apply hcounting.not_allFit 255 rfl
  apply (Stored.lawful_run_iff (by decide) _ hstored).mp
  apply hlaw 64092 0 page _ (by decide) hpage

end Session

end Datatent
