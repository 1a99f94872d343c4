import Datatent.Core.Pages.PageArea
import Datatent.Core.Pages.PageStore

/-!
# Reopening a page

A page object keeps its header, and only documents are written to the memory. A session that
begins with a page of a block memory is compared with the page that a second `GetPageById`
returns on the memory the session has come to: they agree until a call writes a document, and
then they differ, since the header in the memory is not counted on with the one of the page.
-/

namespace Datatent

open DataPageManager

namespace Session

/-- Reopening the page loses nothing: no call wrote past the slice, and `GetPageById` returns
a data page with the same value in every field of the header, on which `FindById` agrees. -/
def Reopens (id : UInt32) (session : Session) : Prop :=
  Fault.outsideSlice ∉ session.faults
    ∧ ∃ page, getPageById session.memory id = .ok (.data page)
      ∧ page.header.SameFields session.page.header
      ∧ ∀ documentId, page.findById session.memory documentId
          = session.page.findById session.memory documentId

/-- A call gets past the checks and finds room for a header, and for the first byte of its
content if it has one, behind the documents. -/
def Writes (session : Session) (call : AddCall) : Prop :=
  DataPage.Accepts session.page.header call.content call.typeId
    ∧ ∃ d, session.page.SlotAt session.memory d
      ∧ session.page.start + d + 48 + min call.content.length 1 ≤ session.memory.length

/-- No call of a sequence writes. -/
def NoneWrites (session : Session) (calls : List AddCall) : Prop :=
  Run.Along step (fun session call => ¬ session.Writes call) session calls

/-- A session in which nothing was written since the page was opened. -/
structure Unwritten (memory : Bytes) (id : UInt32) (page : DataPage) (session : Session) :
    Prop where
  opened : getPageById memory id = .ok (.data page)
  page : session.page = page
  memory : session.memory = memory
  faults : Fault.outsideSlice ∉ session.faults

section Unwritten

variable {memory : Bytes} {id : UInt32} {page : DataPage} {session : Session}

/-- Opening a page begins a session in which nothing was written. -/
theorem Unwritten.start (h : getPageById memory id = .ok (.data page)) :
  Unwritten memory id page (Session.start page memory)
  := by
  constructor
  · exact h
  · rfl
  · rfl
  · simp [Session.start]

/-- As long as nothing was written the page reopens. -/
theorem Unwritten.reopens (h : Unwritten memory id page session) :
  session.Reopens id
  := by
  use h.faults, page
  rw [h.memory, h.page]
  exact ⟨h.opened, ⟨rfl, rfl, rfl, rfl, rfl, rfl, rfl, rfl⟩, fun _ => rfl⟩

/-- A call that does not write leaves the page and the memory. -/
theorem Unwritten.step (h : Unwritten memory id page session) {call : AddCall}
    (hwrites : ¬ session.Writes call) :
  Unwritten memory id page (session.step call)
  := by
  by_cases haccepts : DataPage.Accepts session.page.header call.content call.typeId
  · have hfull : ∀ d, session.page.SlotAt session.memory d →
        session.memory.length
          < session.page.start + d + 48 + min call.content.length 1 := by
      intro d hslot
      by_contra hroom
      exact hwrites ⟨haccepts, d, hslot, by omega⟩
    cases hadd : session.page.tryAddContent session.memory call.content call.typeId with
    | error fault =>
        have hfault := DataPage.tryAddContent_eq_error haccepts hfull hadd
        rw [step_of_error hadd]
        refine ⟨h.opened, h.page, h.memory, ?_⟩
        rw [List.mem_append, List.mem_singleton]
        rintro (hmem | rfl)
        · exact h.faults hmem
        · exact hfault rfl
    | ok result =>
        obtain ⟨d, hslot, hfits, -⟩ := DataPage.tryAddContent_eq_ok haccepts hadd
        have hlength := hfull d hslot
        omega
  · rw [step_of_not_accepts haccepts]
    exact h

end Unwritten

end Session

/-! ### The header in the memory after a document was written -/

namespace DataPageManager

variable {memory : Bytes} {id : UInt32} {header header' : PageHeader} {d : Nat}
  {content : Bytes}

/-- A `ushort` field of the header in the memory. -/
theorem HasDataPage.readUInt16_header (h : HasDataPage memory id header) {i : Nat}
    (hi : i + 2 ≤ 92) :
  Span.readUInt16 header.bytes i
    = Span.readUInt16 (memory.drop (64092 * id.toNat)) i
  := by
  rw [Span.readUInt16, Span.readUInt16, h.readLE_header hi]

/-- After a document was written the id of the next document or the id of the page in the
memory is not the one that the page counts with. -/
theorem HasDataPage.not_sameFields (h : HasDataPage memory id header)
    (hslot : (pageOver id header).SlotAt memory d)
    (hfits : 64092 * id.toNat + d + 48 + content.length ≤ memory.length)
    (h' : HasDataPage (Bytes.overwrite memory (64092 * id.toNat + d)
      (Document.encode header.pageNextDocumentId content)) id header') :
  ¬ header'.SameFields (DataPage.addEntry header (UInt32.ofNat content.length))
  := by
  rintro ⟨hpage, -, -, -, -, hnext, -, -⟩
  rw [DataPage.addEntry_pageId] at hpage
  rw [DataPage.addEntry_pageNextDocumentId] at hnext
  have hinside : 64092 * id.toNat + d
      + (Document.encode header.pageNextDocumentId content).length ≤ memory.length := by
    rw [Document.length_encode]
    omega
  by_cases hid : header.pageId.toNat % 256 = 0
  · obtain rfl : d = 0 := by
      apply hslot.unique (h.slotAt_zero hid)
      · change 64092 * id.toNat + d ≤ memory.length
        omega
      · change 64092 * id.toNat + 0 ≤ memory.length
        omega
    have hdrop := Bytes.drop_overwrite
      (s := Document.encode header.pageNextDocumentId content)
      (show 64092 * id.toNat ≤ memory.length by omega)
    rw [Nat.add_zero] at h'
    have hpage' : header'.pageId = header.pageNextDocumentId := by
      rw [PageHeader.pageId, h'.readUInt16_header (by decide), hdrop]
      exact Document.readUInt16_encode _ _ _
    have hnext' : header'.pageNextDocumentId.toNat = 0 := by
      rw [PageHeader.pageNextDocumentId, h'.readUInt16_header (by decide), hdrop,
        Span.readUInt16_toNat]
      apply Bytes.readLE_eq_zero
      intro i hi
      rw [List.getElem?_drop, PageHeader.PAGE_NEXT_DOCUMENT_ID,
        Document.getElem?_encode_zero _ _ _ (by omega) (by omega)]
    have hsum := congrArg UInt16.toNat hnext
    rw [hnext', UInt16.toNat_add, ← hpage', hpage] at hsum
    change 0 = (header.pageId.toNat + 1) % 65536 at hsum
    omega
  · have hfirst := h.le_of_slotAt hid hslot (by omega)
    have hsame : header'.pageNextDocumentId = header.pageNextDocumentId := by
      rw [PageHeader.pageNextDocumentId, PageHeader.pageNextDocumentId,
        h.readUInt16_header (by decide), h'.readUInt16_header (by decide), Span.readUInt16,
        Span.readUInt16, List.drop_drop, List.drop_drop,
        Bytes.readLE_overwrite_of_disjoint hinside]
      left
      rw [firstSize] at hfirst
      rw [PageHeader.PAGE_NEXT_DOCUMENT_ID]
      omega
    rw [hsame] at hnext
    simp at hnext

end DataPageManager

/-! ### Runs of a page that was opened -/

namespace Session

variable {memory : Bytes} {id : UInt32} {page : DataPage} {session : Session}

/-- A call that writes makes the page differ from the reopened one, or copies past the
slice. -/
theorem Unwritten.not_reopens (h : Unwritten memory id page session) {call : AddCall}
    (hwrites : session.Writes call) :
  ¬ (session.step call).Reopens id
  := by
  obtain ⟨haccepts, d, hslot, hheader⟩ := hwrites
  obtain ⟨-, hdata, hover⟩ := getPageById_eq_ok h.opened
  by_cases hfits : session.page.start + d + 48 + call.content.length ≤ session.memory.length
  · have hadd := DataPage.tryAddContent_of_slotAt haccepts hslot hfits
    rintro ⟨-, page', hpage', hsame, -⟩
    obtain ⟨-, hdata', -⟩ := getPageById_eq_ok hpage'
    rw [Session.step, hadd] at hdata' hsame
    rw [h.page, h.memory] at hslot hfits hdata' hsame
    rw [hover] at hslot hfits hdata' hsame
    exact hdata.not_sameFields hslot hfits hdata' hsame
  · have hadd := DataPage.tryAddContent_of_slotAt_overrun haccepts hslot hheader (by omega)
    rw [step_of_error hadd]
    rintro ⟨hfaults, -⟩
    apply hfaults
    simp

/-- A run of one call is one step. -/
theorem run_singleton (session : Session) (call : AddCall) :
  session.run [call] = session.step call
  := rfl

/-- A page reopens after every part of a run of calls exactly when no call writes. -/
theorem reopens_iff_noneWrites (h : getPageById memory id = .ok (.data page))
    (calls : List AddCall) :
  (∀ n, ((Session.start page memory).run (calls.take n)).Reopens id)
    ↔ (Session.start page memory).NoneWrites calls
  := by
  apply Run.forall_take_iff_along (I := Unwritten memory id page)
  · intro session call hunwritten hwrites
    exact hunwritten.step hwrites
  · intro session hunwritten
    exact hunwritten.reopens
  · intro session call hunwritten hwrites
    exact hunwritten.not_reopens (not_not.mp hwrites)
  · exact Unwritten.start h

/-- A content is written to a fresh page that is clear for it. -/
theorem writes_of_clear {header : PageHeader} (h : FreshSlot memory id header)
    (content : Bytes)
    (hlength : content.length + 48 ≤ header.pageNumberOfFreeBytes.toNat)
    (hclear : Clear id header content.length) :
  (Session.start (pageOver id header) memory).Writes ⟨content, header.pageTypeId⟩
  := by
  obtain ⟨-, d, hslot, hfits, -⟩ :=
    (h.addsWithin_iff hlength).mp (h.addsWithin_of_clear hlength hclear)
  refine ⟨FreshSlot.accepts id hlength, d, hslot, ?_⟩
  change 64092 * id.toNat + d + 48 + min content.length 1 ≤ memory.length
  omega

/-- The second page of the image of two fresh pages. -/
theorem getPageById_two :
  getPageById (image [freshHeader 0 0 0, freshHeader 1 1 0]) 1
    = .ok (.data (pageOver 1 (freshHeader 1 1 0)))
  := getPageById_eq_data (by decide) (freshImage_two 1 (by decide)).toHasDataPage

/-- A page to which a content of another type is offered reopens. -/
theorem reopens_refused :
  ((Session.start (pageOver 1 (freshHeader 1 1 0))
    (image [freshHeader 0 0 0, freshHeader 1 1 0])).run ([⟨[7], 99⟩].take 1)).Reopens 1
  := by
  apply (reopens_iff_noneWrites getPageById_two [⟨[7], 99⟩]).mpr _ 1
  refine ⟨?_, trivial⟩
  rintro ⟨⟨htype, -⟩, -⟩
  revert htype
  decide

/-- Whatever is offered to a page of a block memory, reopening it loses nothing. -/
def ReopeningLosesNothing : Prop :=
  ∀ (memory : Bytes) (id : UInt32) (page : DataPage) (calls : List AddCall),
    getPageById memory id = .ok (.data page) → page.header.pageId.toNat = id.toNat →
      ((Session.start page memory).run calls).Reopens id

/-- After a content of one byte was added to the second page of a block the page does not
reopen. -/
theorem not_reopeningLosesNothing :
  ¬ ReopeningLosesNothing
  := by
  intro h
  have hwrites := writes_of_clear (freshImage_two 1 (by decide)) [7] (by decide) (by decide)
  apply (Unwritten.start getPageById_two).not_reopens hwrites
  rw [← run_singleton]
  apply h _ _ _ _ getPageById_two (by decide)

end Session

end Datatent
