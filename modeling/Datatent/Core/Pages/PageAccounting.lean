import Datatent.Core.Pages.PageStore

/-!
# The free bytes of a data page

A page counts its documents and its free bytes. The check of `TryAddContent` compares the
free bytes with the length of the content alone, while a document takes the bytes of its
header too. The counters are exact (`Exact`) along exactly the runs in which every saved
document costs at most what is free (`Affords`).
-/

namespace Datatent.Session

open Constants

/-- The free bytes are those at the start without those of the saved documents, as an
integer, and the entries are as many as the saved documents. -/
def Exact (free : Nat) (session : Session) : Prop :=
  (session.page.header.pageNumberOfFreeBytes.toNat : Int) = free - session.used
    ∧ session.page.header.pageNumberOfEntries.toNat = session.saved.length

/-- The walk ends at a place where the document of the call has room. -/
def HasRoom (session : Session) (call : AddCall) : Prop :=
  ∃ d, session.page.SlotAt session.memory d
    ∧ session.page.start + d + 48 + call.content.length ≤ session.memory.length

/-- The document of the call takes at most the free bytes. -/
def Costs (session : Session) (call : AddCall) : Prop :=
  call.content.length + DOCUMENT_HEADER_SIZE.toNat
    ≤ session.page.header.pageNumberOfFreeBytes.toNat

/-- A call that gets past the checks and has room costs at most what is free. -/
def Affords (session : Session) (call : AddCall) : Prop :=
  DataPage.Accepts session.page.header call.content call.typeId →
    session.HasRoom call → session.Costs call

/-- The accounting law of a run: the counters are exact in every state reached, and a call
that saves its content costs at most what is free before it. -/
def Accounts (session : Session) (calls : List AddCall) : Prop :=
  (∀ n, Exact session.page.header.pageNumberOfFreeBytes.toNat (session.run (calls.take n)))
    ∧ Run.Along step
      (fun session call => (session.step call).saved ≠ session.saved → session.Costs call)
      session calls

variable {session : Session} {call : AddCall}

/-! ### One call -/

/-- The bytes taken after a further document. -/
theorem sum_append_document (saved : List (UInt16 × Bytes)) (id : UInt16) (content : Bytes) :
  ((saved ++ [(id, content)]).map (fun document => 48 + document.2.length)).sum
    = (saved.map (fun document => 48 + document.2.length)).sum + (48 + content.length)
  := by
  rw [List.map_append, List.sum_append, List.map_singleton, List.sum_singleton]

/-- An accepted call that has room saves its document and counts it. -/
theorem step_of_hasRoom
    (haccepts : DataPage.Accepts session.page.header call.content call.typeId)
    (hroom : session.HasRoom call) :
  (session.step call).page.header
      = DataPage.addEntry session.page.header (UInt32.ofNat call.content.length)
    ∧ (session.step call).saved
      = session.saved ++ [(session.page.header.pageNextDocumentId, call.content)]
  := by
  obtain ⟨d, hslot, hfits⟩ := hroom
  rw [step, DataPage.tryAddContent_of_slotAt haccepts hslot hfits]
  exact ⟨rfl, rfl⟩

/-- A call that is refused or has no room saves nothing and leaves the page. -/
theorem step_of_not_saved
    (h : ¬ (DataPage.Accepts session.page.header call.content call.typeId
      ∧ session.HasRoom call)) :
  (session.step call).page = session.page ∧ (session.step call).saved = session.saved
  := by
  by_cases haccepts : DataPage.Accepts session.page.header call.content call.typeId
  · cases hresult : session.page.tryAddContent session.memory call.content call.typeId with
    | error fault =>
        rw [step_of_error hresult]
        exact ⟨rfl, rfl⟩
    | ok result =>
        obtain ⟨d, hslot, hfits, -⟩ := DataPage.tryAddContent_eq_ok haccepts hresult
        exact absurd ⟨haccepts, d, hslot, hfits⟩ h
  · rw [step_of_not_accepts haccepts]
    exact ⟨rfl, rfl⟩

/-- The free bytes after a document was added, as long as it costs at most what is free. -/
theorem toNat_free_addEntry {header : PageHeader} {content : Bytes}
    (hlength : content.length < 2 ^ 31)
    (hcosts : content.length + 48 ≤ header.pageNumberOfFreeBytes.toNat) :
  (DataPage.addEntry header (UInt32.ofNat content.length)).pageNumberOfFreeBytes.toNat
    = header.pageNumberOfFreeBytes.toNat - (content.length + 48)
  := by
  have hcost : (UInt32.ofNat content.length + DOCUMENT_HEADER_SIZE).toNat
      = content.length + 48 := by
    rw [UInt32.toNat_add, UInt32.toNat_ofNat', DOCUMENT_HEADER_SIZE_toNat]
    omega
  rw [DataPage.addEntry_pageNumberOfFreeBytes,
    UInt32.toNat_sub_of_le _ _ (UInt32.le_iff_toNat_le.mpr (by omega)), hcost]

/-- Every saved document takes at least the bytes of its header. -/
theorem length_saved_le_used (session : Session) :
  48 * session.saved.length ≤ session.used
  := by
  rw [used]
  induction session.saved with
  | nil => simp
  | cons document saved ih =>
      rw [List.length_cons, List.map_cons, List.sum_cons]
      omega

/-- A call that costs at most what is free keeps the counters exact. -/
theorem Exact.step {free : Nat} (h : Exact free session) (hfree : free ≤ PAGE_SIZE.toNat)
    (haffords : session.Affords call) :
  Exact free (session.step call)
  := by
  obtain ⟨hbytes, hentries⟩ := h
  by_cases hsaved : DataPage.Accepts session.page.header call.content call.typeId
      ∧ session.HasRoom call
  · obtain ⟨haccepts, hroom⟩ := hsaved
    have hcosts : call.content.length + 48 ≤ session.page.header.pageNumberOfFreeBytes.toNat :=
      haffords haccepts hroom
    have hcount := length_saved_le_used session
    have hmax : PAGE_SIZE.toNat = 64000 := rfl
    obtain ⟨hheader, hsaved⟩ := step_of_hasRoom haccepts hroom
    constructor
    · rw [hheader, toNat_free_addEntry (by omega) hcosts, used, hsaved, sum_append_document]
      rw [used] at hbytes
      omega
    · rw [hheader, hsaved, DataPage.addEntry_pageNumberOfEntries, UInt16.toNat_add,
        List.length_append, List.length_singleton, hentries]
      change (_ + 1) % 65536 = _
      omega
  · obtain ⟨hpage, hsaved⟩ := step_of_not_saved hsaved
    constructor
    · rw [hpage, used, hsaved]
      exact hbytes
    · rw [hpage, hsaved]
      exact hentries

/-- A saved document that costs more than what is free makes the counters inexact. -/
theorem Exact.not_step {free : Nat} (h : Exact free session)
    (haffords : ¬ session.Affords call) :
  ¬ Exact free (session.step call)
  := by
  simp only [Affords, Classical.not_imp, Costs, DOCUMENT_HEADER_SIZE_toNat] at haffords
  obtain ⟨haccepts, hroom, hcosts⟩ := haffords
  obtain ⟨-, hsaved⟩ := step_of_hasRoom haccepts hroom
  rintro ⟨hbytes, -⟩
  have hbefore := h.1
  rw [used, hsaved, sum_append_document] at hbytes
  rw [used] at hbefore
  omega

/-- A call after which the counters are exact costs at most what was free, if it saved its
content. -/
theorem Exact.costs {free : Nat} (h : Exact free session) (hnext : Exact free (session.step call))
    (hsaved : (session.step call).saved ≠ session.saved) :
  session.Costs call
  := by
  by_contra hcosts
  apply h.not_step _ hnext
  intro haffords
  by_cases hroom : DataPage.Accepts session.page.header call.content call.typeId
      ∧ session.HasRoom call
  · exact hcosts (haffords hroom.1 hroom.2)
  · exact hsaved (step_of_not_saved hroom).2

/-! ### The accounting law -/

/-- The accounting law of every run on a page that counts no documents and at most
`PAGE_SIZE` free bytes, over a slot of zeros. -/
def AccountingLaw : Prop :=
  ∀ (page : DataPage) (size : Nat) (contents : List Bytes), size < 2 ^ 31 →
    page.start + PAGE_SIZE_INCL_HEADER.toNat ≤ size →
      page.header.pageTypeId = 0 → page.header.pageNumberOfEntries = 0 →
        page.header.pageNumberOfFreeBytes ≤ PAGE_SIZE →
          (start page (List.replicate size 0)).Accounts (contents.map (fun content => ⟨content, 0⟩))

/-- On a page that counts no documents and at most `PAGE_SIZE` free bytes, over any memory, a
run obeys the accounting law exactly when every call that gets past the checks and has room
costs at most what is free. -/
theorem accounts_iff_affords {page : DataPage} {memory : Bytes} (calls : List AddCall)
    (hentries : page.header.pageNumberOfEntries = 0)
    (hfree : page.header.pageNumberOfFreeBytes ≤ PAGE_SIZE) :
  (start page memory).Accounts calls ↔ Run.Along step Affords (start page memory) calls
  := by
  have hstart : Exact page.header.pageNumberOfFreeBytes.toNat (start page memory) := by
    constructor
    · simp [start, used]
    · simp [start, hentries]
  have hfree := UInt32.le_iff_toNat_le.mp hfree
  have hkeep : ∀ session call, Exact page.header.pageNumberOfFreeBytes.toNat session →
      session.Affords call → Exact page.header.pageNumberOfFreeBytes.toNat (session.step call) :=
    fun session call h haffords => h.step hfree haffords
  have hexact := Run.forall_take_iff_along hkeep (fun _ h => h)
    (fun session call h haffords => h.not_step haffords) calls hstart
  constructor
  · rintro ⟨hall, -⟩
    exact hexact.mp hall
  · intro hrun
    use hexact.mpr hrun
    apply Run.Along.imp hkeep _ hrun hstart
    intro session call h haffords
    apply h.costs (hkeep session call h haffords)

/-- Calls that together cost at most what is free each cost at most what is free then. -/
theorem along_affords_of_le :
  ∀ {session : Session} (calls : List AddCall),
    session.page.header.pageNumberOfFreeBytes ≤ PAGE_SIZE →
      (calls.map (fun call => call.content.length + 48)).sum
        ≤ session.page.header.pageNumberOfFreeBytes.toNat →
        Run.Along step Affords session calls
  | _, [], _, _ => trivial
  | session, call :: calls, hfree, hsum => by
      have hmax := UInt32.le_iff_toNat_le.mp hfree
      rw [show PAGE_SIZE.toNat = 64000 from rfl] at hmax
      rw [List.map_cons, List.sum_cons] at hsum
      refine ⟨fun _ _ => Nat.le_of_add_right_le hsum, along_affords_of_le calls ?_ ?_⟩
      all_goals
        by_cases hsaved : DataPage.Accepts session.page.header call.content call.typeId
          ∧ session.HasRoom call
      · rw [UInt32.le_iff_toNat_le, (step_of_hasRoom hsaved.1 hsaved.2).1,
          toNat_free_addEntry (by omega) (by omega), show PAGE_SIZE.toNat = 64000 from rfl]
        omega
      · rw [(step_of_not_saved hsaved).1]
        exact hfree
      · rw [(step_of_hasRoom hsaved.1 hsaved.2).1, toNat_free_addEntry (by omega) (by omega)]
        omega
      · rw [(step_of_not_saved hsaved).1]
        omega

/-- A data page over a slot of zeros that counts no documents and ten free bytes. -/
def almostFull : DataPage where
  header := PageHeader.zero.setPageNumberOfFreeBytes 10
  start := 0
  isDirty := false

theorem almostFull_header :
  almostFull.header.pageTypeId = 0 ∧ almostFull.header.pageNumberOfEntries = 0
    ∧ almostFull.header.pageNumberOfFreeBytes = 10
  := by
  decide

/-- Three contents on a page that has just the free bytes for them are accounted for. -/
theorem accounts_three :
  ∃ page : DataPage, page.header.pageNumberOfFreeBytes = 147
    ∧ (start page (List.replicate 64092 0)).Accounts [⟨[], 0⟩, ⟨[7], 0⟩, ⟨[8, 9], 0⟩]
  := by
  refine ⟨⟨PageHeader.zero.setPageNumberOfFreeBytes 147, 0, false⟩, by decide, ?_⟩
  apply (accounts_iff_affords _ (by decide) (by decide)).mpr
  apply along_affords_of_le
  · decide
  · decide

/-- The accounting law fails: on a page with ten free bytes an empty content is saved. -/
theorem not_accountingLaw :
  ¬ AccountingLaw
  := by
  intro hlaw
  obtain ⟨htype, hentries, hfree⟩ := almostFull_header
  have hten : almostFull.header.pageNumberOfFreeBytes.toNat = 10 := by
    rw [hfree]
    rfl
  have haccounts := hlaw almostFull 64092 [[]] (by decide) (by decide) htype hentries
    (by rw [hfree]; decide)
  have haffords := ((accounts_iff_affords _ hentries (by rw [hfree]; decide)).mp haccounts).1
  have hcosts := haffords ⟨htype.symm, Nat.zero_le _⟩ ?_
  · simp only [Costs, start, hten, DOCUMENT_HEADER_SIZE_toNat] at hcosts
    omega
  · use 0
    constructor
    · apply DataPage.findEmptySlot_of_end
      right
      rfl
    · rw [start, List.length_replicate]
      change 0 + 0 + 48 + 0 ≤ 64092
      omega

end Datatent.Session
