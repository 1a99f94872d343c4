import Datatent.Core.Block.DataBlock
import Datatent.Core.Pages.PageReopen

/-!
# Saving to a block

`SaveData` looks for a data page from the front of the memory, and takes the page behind the
one it finds. Every call reads the header of that page from the memory again, where no call
has counted on the id of the next document. So the page gives all its documents one id, and a
block keeps what it was given as long as it is given one document.
-/

namespace Datatent

open Constants DataPageManager

/-! ### Looking up a document behind the others -/

section Lookup

variable {id : UInt16} {slot slot' : Bytes}

/-- The walk reads a document with a header where the same bytes are. -/
theorem getNext_congr {size : Nat} (hlength : slot'.length = slot.length)
    (hsame : ∀ i < size, slot'[i]? = slot[i]?) (hheader : 48 ≤ size) (hsize : size ≤ slot.length)
    (hhead : slot.headD 0 ≠ 0)
    (hint : toInt (Span.readUInt32 slot Document.DOCUMENT_LENGTH + DOCUMENT_HEADER_SIZE) = size) :
  Document.getNextDocumentSliceAndAdjustOffset slot'
    = .ok (some (slot.take size), Span.readUInt16 slot Document.DOCUMENT_ID, slot'.drop size)
  := by
  have hread : ∀ i n, i + n ≤ 48 →
      Bytes.readLE (slot'.drop i) n = Bytes.readLE (slot.drop i) n := by
    intro i n hi
    apply Bytes.readLE_drop_congr
    intro j _ hj
    exact hsame j (by omega)
  have hlengthField : Span.readUInt32 slot' Document.DOCUMENT_LENGTH
      = Span.readUInt32 slot Document.DOCUMENT_LENGTH := by
    rw [Span.readUInt32, Span.readUInt32, hread _ _ (by decide)]
  have hid : Span.readUInt16 slot' Document.DOCUMENT_ID
      = Span.readUInt16 slot Document.DOCUMENT_ID := by
    rw [Span.readUInt16, Span.readUInt16, hread _ _ (by decide)]
  have hhead' : slot'.headD 0 ≠ 0 := by
    rw [List.headD_eq_head?_getD, List.head?_eq_getElem?, hsame 0 (by omega),
      ← List.head?_eq_getElem?, ← List.headD_eq_head?_getD]
    exact hhead
  have htake : slot'.take size = slot.take size := by
    apply List.ext_getElem?
    intro i
    rw [List.getElem?_take, List.getElem?_take]
    split
    · exact hsame i ‹_›
    · rfl
  rw [Document.getNext_eq_of_size (by omega) hhead' (hlengthField ▸ hint) (by omega), htake, hid]

/-- Where the documents before a place are the same, the search for an id finds the same one
of them, or comes to the place. -/
theorem findByIdFrom_behind :
  ∀ {rounds : Nat} {slot slot' : Bytes} {d : Nat} {result : Option Bytes},
    DataPage.findEmptySlot rounds slot = .ok (slot.drop d) → d ≤ slot.length →
      slot'.length = slot.length → (∀ i < d, slot'[i]? = slot[i]?) →
      DataPage.findByIdFrom id rounds slot = .ok result →
        (result.isSome → DataPage.findByIdFrom id rounds slot' = .ok result)
          ∧ (result = none → ∃ rounds', DataPage.findByIdFrom id rounds slot'
              = DataPage.findByIdFrom id (rounds' + 1) (slot'.drop d))
  | 0, _, _, _, _, hslot, _, _, _, _ => by cases hslot
  | rounds + 1, slot, slot', d, result, hslot, hd, hlength, hsame, hfind => by
      obtain ⟨⟨documentSlice, id', rest⟩, hnext, hrest⟩ := Except.bind_eq_ok_iff.mp hslot
      obtain ⟨_, hnext', hread⟩ := Except.bind_eq_ok_iff.mp hfind
      rw [hnext] at hnext'
      cases hnext'
      cases documentSlice with
      | none =>
          cases hread
          obtain ⟨rfl, -⟩ := Document.getNext_eq_none hnext
          have hdrop := congrArg List.length (Except.ok.inj hrest)
          rw [List.length_drop] at hdrop
          obtain rfl : d = 0 := by omega
          refine ⟨fun h => Bool.noConfusion h, fun _ => ⟨rounds, ?_⟩⟩
          rw [List.drop_zero]
      | some documentSlice =>
          obtain ⟨document, hdocument, hmatch⟩ := Except.bind_eq_ok_iff.mp hread
          obtain ⟨hhead, size, hsize, hint, rfl, rfl⟩ := Document.getNext_eq_some hnext
          obtain ⟨hheader, -⟩ := Document.ofSlice_eq_ok hdocument
          rw [List.length_take, Nat.min_eq_left hsize] at hheader
          obtain ⟨d', hd', hdrop, -⟩ := DataPage.findEmptySlot_eq_ok hrest
          have hsum := congrArg List.length hdrop
          simp only [List.length_drop] at hsum hd'
          obtain rfl : d = size + d' := by omega
          have hnext' := getNext_congr hlength (fun i hi => hsame i (by omega)) hheader hsize
            hhead hint
          rw [DataPage.findByIdFrom_of_next rounds hnext' hdocument]
          split at hmatch
          · rename_i hid
            rw [if_pos hid]
            obtain ⟨content, hcontent, hresult⟩ := Except.bind_eq_ok_iff.mp hmatch
            cases hresult
            rw [hcontent]
            exact ⟨fun _ => rfl, fun h => by cases h⟩
          · rename_i hid
            rw [if_neg hid, ← List.drop_drop]
            rw [← List.drop_drop] at hrest
            apply findByIdFrom_behind hrest _ _ _ hmatch
            · rw [List.length_drop]
              omega
            · rw [List.length_drop, List.length_drop, hlength]
            · intro i hi
              rw [List.getElem?_drop, List.getElem?_drop]
              exact hsame (size + i) (by omega)

end Lookup

namespace DataPage

variable {page : DataPage} {memory content : Bytes} {d : Nat}

/-- The next document of a page can be found by its id: no document of the page has the id
before, and its low byte is not zero. A document that has the id and the content already does
no harm. -/
def Retrievable (page : DataPage) (memory content : Bytes) : Prop :=
  (page.header.pageNextDocumentId.toNat % 256 ≠ 0
      ∧ page.findById memory page.header.pageNextDocumentId = .ok none)
    ∨ page.findById memory page.header.pageNextDocumentId = .ok (some content)

/-- A retrievable document is found where it was written. -/
theorem Retrievable.findById (h : page.Retrievable memory content) (hslot : page.SlotAt memory d)
    (hfits : page.start + d + 48 + content.length ≤ memory.length)
    (hlength : memory.length < 2 ^ 31) :
  page.findById (Bytes.overwrite memory (page.start + d)
      (Document.encode page.header.pageNextDocumentId content)) page.header.pageNextDocumentId
    = .ok (some content)
  := by
  have hinside : page.start + d
      + (Document.encode page.header.pageNextDocumentId content).length ≤ memory.length := by
    rw [Document.length_encode]
    omega
  have hwritten := Bytes.length_overwrite hinside
  have hd : d ≤ (memory.drop page.start).length := by
    rw [List.length_drop]
    omega
  have hsame : ∀ i < d, ((Bytes.overwrite memory (page.start + d)
      (Document.encode page.header.pageNextDocumentId content)).drop page.start)[i]?
      = (memory.drop page.start)[i]? := by
    intro i hi
    rw [List.getElem?_drop, List.getElem?_drop,
      Bytes.getElem?_overwrite_of_lt hinside (by omega)]
  have hdrop : ((Bytes.overwrite memory (page.start + d)
      (Document.encode page.header.pageNextDocumentId content)).drop page.start).length
      = (memory.drop page.start).length := by
    rw [List.length_drop, List.length_drop, hwritten]
  rw [DataPage.findById, hdrop]
  rcases h with ⟨hid, hnone⟩ | hsome
  · obtain ⟨-, hbehind⟩ := findByIdFrom_behind hslot hd hdrop hsame hnone
    obtain ⟨rounds, hrounds⟩ := hbehind rfl
    rw [hrounds, List.drop_drop, Bytes.drop_overwrite (by omega)]
    exact findByIdFrom_encode _ _ ⟨hid, show content.length + 48 < 2 ^ 31 by omega⟩
  · exact (findByIdFrom_behind hslot hd hdrop hsame hsome).1 rfl

end DataPage

/-! ### One call -/

namespace DataBlock

variable {memory content : Bytes} {typeId : UInt32} {header first : PageHeader} {fault : Fault}

/-- The manager goes past a data page at the front of the memory and takes what comes then. -/
theorem saveContent_of_first (h : HasDataPage memory 0 first) :
  saveContent memory content typeId
    = (checkPageAndInit memory PageType.data.toByte 64092
        >>= saveContentTo memory content typeId 2)
  := by
  have hnext := h.hasNextPage
  rw [show 64092 * (0 : UInt32).toNat = 0 from rfl] at hnext
  rw [saveContent, getNextPageOfType]
  simp only [hnext, PAGE_SIZE_INCL_HEADER_toNat, Nat.zero_add]
  rw [if_pos trivial, if_neg (by simp)]
  cases checkPageAndInit memory PageType.data.toByte 64092 with
  | error fault => rfl
  | ok basePage => rfl

/-- A round of the loop at the page of the second slot. -/
theorem saveContentTo_succ (h' : HasDataPage memory 1 header) (rounds : Nat) :
  saveContentTo memory content typeId (rounds + 1) (.data (pageOver 1 header))
    = (pageOver 1 header).tryAddContent memory content typeId >>= fun result =>
        if result.saved then
          .ok
            { saved := true
              pageId := result.page.header.pageId
              documentId := result.id
              memory := result.memory }
        else saveContentTo result.memory content typeId rounds (.data result.page)
  := by
  have htype : (pageOver 1 header).header.pageType = PageType.data.toByte := h'.type
  rw [saveContentTo, if_pos htype]
  rfl

/-- The page of the second slot is the one that the loop stays at. -/
theorem saveContent_of_second (h : HasDataPage memory 0 first)
    (h' : HasDataPage memory 1 header) :
  saveContent memory content typeId
    = saveContentTo memory content typeId 2 (.data (pageOver 1 header))
  := by
  have hpage : checkPageAndInit memory PageType.data.toByte 64092
      = .ok (.data (pageOver 1 header)) := h'.checkPageAndInit
  rw [saveContent_of_first h, hpage, Except.ok_bind]

/-- A document that the page of the second slot accepts is written to it. -/
theorem saveContent_of_slotAt (h : HasDataPage memory 0 first) (h' : HasDataPage memory 1 header)
    {d : Nat} (haccepts : DataPage.Accepts header content typeId)
    (hslot : (pageOver 1 header).SlotAt memory d)
    (hfits : 64092 + d + 48 + content.length ≤ memory.length) :
  saveContent memory content typeId = .ok
    { saved := true
      pageId := header.pageId
      documentId := header.pageNextDocumentId
      memory := Bytes.overwrite memory (64092 + d)
        (Document.encode header.pageNextDocumentId content) }
  := by
  have hadd : (pageOver 1 header).tryAddContent memory content typeId
      = .ok ((pageOver 1 header).addedAt memory d content) :=
    DataPage.tryAddContent_of_slotAt haccepts hslot hfits
  have hpageId : ((pageOver 1 header).addedAt memory d content).page.header.pageId
      = header.pageId := DataPage.addEntry_pageId _ _
  have hsaved : ((pageOver 1 header).addedAt memory d content).saved = true := rfl
  rw [saveContent_of_second h h', saveContentTo_succ h', hadd, Except.ok_bind, if_pos hsaved,
    hpageId]
  rfl

/-- Where the page of the second slot refuses a content the loop has no end. -/
theorem saveContent_of_not_accepts (h : HasDataPage memory 0 first)
    (h' : HasDataPage memory 1 header) (haccepts : ¬ DataPage.Accepts header content typeId) :
  saveContent memory content typeId = .error .endless
  := by
  have hadd : (pageOver 1 header).tryAddContent memory content typeId
      = .ok { saved := false, id := 0, page := pageOver 1 header, memory := memory } :=
    DataPage.tryAddContent_of_not_accepts haccepts
  have hround : ∀ rounds, saveContentTo memory content typeId (rounds + 1)
      (.data (pageOver 1 header))
      = saveContentTo memory content typeId rounds (.data (pageOver 1 header)) := by
    intro rounds
    rw [saveContentTo_succ h', hadd, Except.ok_bind]
    exact if_neg Bool.false_ne_true
  rw [saveContent_of_second h h', hround, hround]
  rfl

/-- Where adding to the page of the second slot throws, saving throws. -/
theorem saveContent_of_error (h : HasDataPage memory 0 first) (h' : HasDataPage memory 1 header)
    (hadd : (pageOver 1 header).tryAddContent memory content typeId = .error fault) :
  saveContent memory content typeId = .error fault
  := by
  rw [saveContent_of_second h h', saveContentTo_succ h', hadd, Except.error_bind]

/-- Without a data page in the second slot nothing is saved, and the memory stays as it is. -/
theorem saveContent_of_no_second (h : HasDataPage memory 0 first)
    (h' : ∀ header, ¬ HasDataPage memory 1 header) :
  saveContent memory content typeId = .error .argument
    ∨ saveContent memory content typeId
      = .ok { saved := false, pageId := 0, documentId := 0, memory := memory }
  := by
  rw [saveContent_of_first h, checkPageAndInit, if_pos rfl, DataPage.initExisting,
    PAGE_SIZE_INCL_HEADER_toNat]
  split
  · exact .inl rfl
  · rename_i hroom
    rw [List.length_drop] at hroom
    rw [PageHeader.read, dif_neg (by rw [List.length_drop, PAGE_HEADER_SIZE_toNat]; omega)]
    right
    apply if_neg
    intro htype
    apply h' _ ⟨_, rfl, htype⟩
    change 64092 + 64092 ≤ memory.length
    omega

end DataBlock

/-- A document that is written behind the first fields of the header of a slot leaves a data
page there. -/
theorem DataPageManager.HasDataPage.overwritten {memory document : Bytes} {id : UInt32}
    {header : PageHeader} {offset : Nat} (h : HasDataPage memory id header)
    (hinside : offset + document.length ≤ memory.length)
    (hbehind : 64092 * id.toNat + 50 ≤ offset) :
  ∃ header', HasDataPage (Bytes.overwrite memory offset document) id header'
  := by
  have hroom := h.room
  have hlength := Bytes.length_overwrite hinside
  refine ⟨⟨((Bytes.overwrite memory offset document).drop (64092 * id.toNat)).take 92, ?_⟩, ?_,
    rfl, ?_⟩
  · rw [List.length_take, List.length_drop, hlength, PAGE_HEADER_SIZE_toNat]
    omega
  · rw [hlength]
    exact h.room
  · rw [← h.type, PageHeader.pageType, PageHeader.pageType, List.getD_eq_getElem?_getD,
      List.getD_eq_getElem?_getD, ← h.bytes, List.getElem?_take_of_lt (by decide),
      List.getElem?_take_of_lt (by decide), List.getElem?_drop, List.getElem?_drop,
      Bytes.getElem?_overwrite_of_lt hinside]
    rw [PageHeader.PAGE_TYPE]
    omega

/-! ### Runs of calls -/

/-- A block with the documents reported as saved so far, by their addresses, and the faults. -/
structure BlockSession where
  block : DataBlock
  saved : List (Address × Bytes)
  faults : List Fault

namespace BlockSession

/-- The session before the first call. -/
def start (block : DataBlock) : BlockSession where
  block := block
  saved := []
  faults := []

/-- The session after one call. A call that ends in a fault leaves the block as it was; after
one that does not return there is no other call. -/
def step (session : BlockSession) (call : AddCall) : BlockSession :=
  if Fault.endless ∈ session.faults then session
  else
    match session.block.saveData call.content call.typeId with
    | .error fault => { session with faults := session.faults ++ [fault] }
    | .ok (address, block) =>
        { session with
          block := block
          saved := session.saved ++ (address.map (fun address => (address, call.content))).toList }

/-- The session after some calls. -/
def run (session : BlockSession) (calls : List AddCall) : BlockSession :=
  Run.final step session calls

/-- The page with the number in the address has a document with the id in the address and the
given content. -/
def Resolves (memory : Bytes) (address : Address) (content : Bytes) : Prop :=
  ∃ page, getPageById memory address.page.toUInt32 = .ok (.data page)
    ∧ page.findById memory address.document = .ok (some content)

/-- The addresses of the saved documents are pairwise distinct, and each of them resolves to
what was saved; no call copied past the memory. -/
def Lawful (session : BlockSession) : Prop :=
  Fault.outsideSlice ∉ session.faults
    ∧ (session.saved.map Prod.fst).Nodup
    ∧ ∀ document ∈ session.saved, Resolves session.block.memory document.1 document.2

/-- A call that writes to the page of the second slot is the first one to do so, its document
fits into the memory and is retrievable there, and the page has the number of its slot. -/
def SavesOnce (session : BlockSession) (call : AddCall) : Prop :=
  ∀ header d, HasDataPage session.block.memory 1 header →
    DataPage.Accepts header call.content call.typeId →
    (pageOver 1 header).SlotAt session.block.memory d →
    64092 + d + 48 + min call.content.length 1 ≤ session.block.memory.length →
      session.saved = [] ∧ 64092 + d + 48 + call.content.length ≤ session.block.memory.length
        ∧ header.pageId = 1 ∧ (pageOver 1 header).Retrievable session.block.memory call.content

/-- The session keeps what it saved, and the first slot still has a data page. -/
structure Keeps (session : BlockSession) : Prop where
  first : ∃ header, HasDataPage session.block.memory 0 header
  length : session.block.memory.length < 2 ^ 31
  lawful : session.Lawful

section Step

variable {session : BlockSession} {call : AddCall} {fault : Fault}

/-- A call after one that did not return is not made. -/
theorem step_of_endless (hrun : Fault.endless ∈ session.faults) :
  session.step call = session
  := by
  rw [step, if_pos hrun]

/-- A call that throws leaves the block and the saved documents. -/
theorem step_of_error (hrun : Fault.endless ∉ session.faults)
    (hsave : saveContent session.block.memory call.content call.typeId = .error fault) :
  session.step call = { session with faults := session.faults ++ [fault] }
  := by
  rw [step, if_neg hrun, DataBlock.saveData, hsave]
  rfl

/-- A call that saves nothing leaves the session. -/
theorem step_of_not_saved (hrun : Fault.endless ∉ session.faults)
    (hsave : saveContent session.block.memory call.content call.typeId
      = .ok { saved := false, pageId := 0, documentId := 0, memory := session.block.memory }) :
  session.step call = session
  := by
  have hsaved : session.saved ++ ((none : Option (Address × Bytes)).toList) = session.saved :=
    List.append_nil session.saved
  rw [step, if_neg hrun, DataBlock.saveData, hsave]
  exact congrArg (BlockSession.mk session.block · session.faults) hsaved

/-- A call that saves has a further document in the session. -/
theorem step_of_saved (hrun : Fault.endless ∉ session.faults) {pageId documentId : UInt16}
    {memory : Bytes} (hsave : saveContent session.block.memory call.content call.typeId
      = .ok { saved := true, pageId := pageId, documentId := documentId, memory := memory }) :
  session.step call =
    { session with
      block := { session.block with memory := memory }
      saved := session.saved ++ [(Address.create .document session.block.header.id pageId
        documentId, call.content)] }
  := by
  rw [step, if_neg hrun, DataBlock.saveData, hsave]
  rfl

/-- A fault that is no copy past the memory keeps the session. -/
theorem Keeps.addFault (h : session.Keeps) (hfault : fault ≠ .outsideSlice) :
  ({ session with faults := session.faults ++ [fault] } : BlockSession).Keeps
  := by
  obtain ⟨hfaults, hnodup, hresolves⟩ := h.lawful
  refine ⟨h.first, h.length, ?_, hnodup, hresolves⟩
  rw [List.mem_append, List.mem_singleton]
  rintro (hmem | rfl)
  · exact hfaults hmem
  · exact hfault rfl

/-- A document in the second slot that is retrievable resolves. -/
theorem resolves_second {memory content : Bytes} {header : PageHeader} {d : Nat}
    (hpage : HasDataPage memory 1 header) (hid : header.pageId = 1)
    (hslot : (pageOver 1 header).SlotAt memory d)
    (hfits : 64092 + d + 48 + content.length ≤ memory.length) (hlength : memory.length < 2 ^ 31)
    (hretrievable : (pageOver 1 header).Retrievable memory content) (block : UInt16) :
  Resolves
    (Bytes.overwrite memory (64092 + d) (Document.encode header.pageNextDocumentId content))
    (Address.create .document block header.pageId header.pageNextDocumentId) content
  := by
  have hroom := hpage.room
  have hinside : 64092 + d + (Document.encode header.pageNextDocumentId content).length
      ≤ memory.length := by
    rw [Document.length_encode]
    omega
  have hbehind : 50 ≤ d := by
    have hfirst := hpage.le_of_slotAt (by rw [hid]; decide) hslot
      (show 64092 * 1 + d < memory.length by omega)
    rw [firstSize] at hfirst
    omega
  have hpage' := hpage.overwritten hinside (show 64092 * 1 + 50 ≤ 64092 + d by omega)
  obtain ⟨header', hdata⟩ := hpage'
  refine ⟨pageOver 1 header', ?_, ?_⟩
  · rw [Address.create_page, hid]
    exact getPageById_eq_data (by decide) hdata
  · rw [Address.create_document]
    exact hretrievable.findById hslot hfits hlength

/-- A call that saves once keeps the session. -/
theorem Keeps.step (h : session.Keeps) (hsaves : session.SavesOnce call) :
  (session.step call).Keeps
  := by
  by_cases hrun : Fault.endless ∈ session.faults
  · rw [step_of_endless hrun]
    exact h
  obtain ⟨first, hfirst⟩ := h.first
  by_cases hsecond : ∃ header, HasDataPage session.block.memory 1 header
  · obtain ⟨header, hpage⟩ := hsecond
    by_cases haccepts : DataPage.Accepts header call.content call.typeId
    · by_cases hroom : ∃ d, (pageOver 1 header).SlotAt session.block.memory d
          ∧ 64092 + d + 48 + min call.content.length 1 ≤ session.block.memory.length
      · obtain ⟨d, hslot, hroom⟩ := hroom
        obtain ⟨hnil, hfits, hid, hretrievable⟩ := hsaves header d hpage haccepts hslot hroom
        have hinside : 64092 + d
            + (Document.encode header.pageNextDocumentId call.content).length
            ≤ session.block.memory.length := by
          rw [Document.length_encode]
          omega
        have hresolves := resolves_second hpage hid hslot hfits h.length hretrievable
          session.block.header.id
        rw [step_of_saved hrun (DataBlock.saveContent_of_slotAt hfirst hpage haccepts hslot hfits),
          hnil]
        refine ⟨hfirst.overwritten hinside (show 64092 * 0 + 50 ≤ 64092 + d by omega), ?_,
          h.lawful.1, List.nodup_singleton _, ?_⟩
        · rw [Bytes.length_overwrite hinside]
          exact h.length
        · intro document hdocument
          rw [List.nil_append, List.mem_singleton] at hdocument
          rw [hdocument]
          exact hresolves
      · have haccepts' : DataPage.Accepts (pageOver 1 header).header call.content call.typeId :=
          haccepts
        cases hadd : (pageOver 1 header).tryAddContent session.block.memory call.content
            call.typeId with
        | ok result =>
            obtain ⟨d, hslot, hfits, -⟩ := DataPage.tryAddContent_eq_ok haccepts' hadd
            have hfits' : 64092 + d + 48 + call.content.length ≤ session.block.memory.length :=
              hfits
            exact absurd ⟨d, hslot, by omega⟩ hroom
        | error fault =>
            rw [step_of_error hrun (DataBlock.saveContent_of_error hfirst hpage hadd)]
            apply h.addFault
            apply DataPage.tryAddContent_eq_error haccepts' _ hadd
            intro d hslot
            by_contra hlt
            exact hroom ⟨d, hslot, Nat.le_of_not_lt hlt⟩
    · rw [step_of_error hrun (DataBlock.saveContent_of_not_accepts hfirst hpage haccepts)]
      exact h.addFault (by decide)
  · rcases DataBlock.saveContent_of_no_second hfirst (not_exists.mp hsecond) with hsave | hsave
    · rw [step_of_error hrun hsave]
      exact h.addFault (by decide)
    · rw [step_of_not_saved hrun hsave]
      exact h

end Step

/-! ### Blocks of data pages -/

/-- The first slots of the memory have data pages with the ids of the slots and without
documents. -/
structure HoldsPages (memory : Bytes) (n : Nat) : Prop where
  pos : 1 ≤ n
  pages : ∀ id : UInt32, id.toNat < n → ∃ header, HasDataPage memory id header
    ∧ header.pageId.toNat = id.toNat
    ∧ ∀ i, 92 ≤ i → i < 64092 → memory[64092 * id.toNat + i]? = some 0

/-- In every run on a block of data pages in which every call that writes saves once, the saved
documents have distinct addresses that resolve to them. -/
theorem lawful_of_savesOnce {block : DataBlock} {n : Nat} (hpages : HoldsPages block.memory n)
    (hlength : block.memory.length < 2 ^ 31) (calls : List AddCall)
    (hrun : Run.Along step SavesOnce (start block) calls) (k : Nat) :
  ((start block).run (calls.take k)).Lawful
  := by
  obtain ⟨header, hpage, -⟩ := hpages.pages 0 hpages.pos
  have hstart : (start block).Keeps :=
    ⟨⟨header, hpage⟩, hlength, by simp [start], List.nodup_nil, by simp [start]⟩
  apply Keeps.lawful
  apply (hrun.take k).invariant _ hstart
  exact fun _ _ hkeeps hsaves => hkeeps.step hsaves

/-- In every run on a block of data pages the saved documents have distinct addresses that
resolve to them. -/
def SavingLaw : Prop :=
  ∀ (block : DataBlock) (n : Nat) (calls : List AddCall), HoldsPages block.memory n →
    block.memory.length < 2 ^ 31 → ((start block).run calls).Lawful

/-- A block image with fresh pages holds its pages. -/
theorem holdsPages_of_fresh {memory : Bytes} {headers : List PageHeader}
    (himage : FreshImage memory headers) (hpos : 1 ≤ headers.length) :
  HoldsPages memory headers.length
  := ⟨hpos, fun id hid => ⟨headers[id.toNat], (himage id hid).toHasDataPage, (himage id hid).pageId,
    (himage id hid).area⟩⟩

/-- A block with an image of two pages whose second one has the given header. -/
def blockOf (header : PageHeader) : DataBlock where
  header := { marker := 1, id := 0, type := 1, numberOfPages := 2 }
  memory := image [freshHeader 0 0 0, header]

/-- A content that a fresh page in the second slot is clear for is saved there. -/
theorem step_of_clear (block : DataBlock) {first header : PageHeader} {content : Bytes}
    (himage : FreshImage block.memory [first, header])
    (hlength : content.length + 48 ≤ header.pageNumberOfFreeBytes.toNat)
    (hclear : Clear 1 header content.length) :
  (start block).step ⟨content, header.pageTypeId⟩ =
    { start block with
      block := { block with
        memory := Bytes.overwrite block.memory (64092 + firstSize header)
          (Document.encode header.pageNextDocumentId content) }
      saved := [(Address.create .document block.header.id header.pageId
        header.pageNextDocumentId, content)] }
  := by
  have hfirst := (himage 0 (show 0 < 2 by decide)).toHasDataPage
  have hpage : FreshSlot block.memory 1 header := himage 1 (show 1 < 2 by decide)
  have hsave := DataBlock.saveContent_of_slotAt hfirst hpage.toHasDataPage
    (FreshSlot.accepts 1 hlength) (hpage.slotAt_of_clear hclear) (hpage.fits_of_clear hclear)
  exact step_of_saved (by simp [start]) hsave

/-- On a fresh page that is clear for a content and does not have the id of its next document
the content is saved once. -/
theorem savesOnce_of_clear {block : DataBlock} {first header : PageHeader} {content : Bytes}
    (himage : FreshImage block.memory [first, header])
    (hclear : Clear 1 header content.length)
    (hnext : header.pageNextDocumentId.toNat % 256 ≠ 0)
    (hne : header.pageId ≠ header.pageNextDocumentId) :
  (start block).SavesOnce ⟨content, header.pageTypeId⟩
  := by
  have hpage : FreshSlot block.memory 1 header := himage 1 (show 1 < 2 by decide)
  obtain ⟨hlow, hwithin, hlt, hend⟩ := hpage.ends_of_clear hclear
  have hslot := hpage.slotAt_of_clear hclear
  have hfits : 64092 + firstSize header + 48 + content.length ≤ block.memory.length :=
    hpage.fits_of_clear hclear
  intro header' d hpage' haccepts hslot' hroom'
  obtain rfl := hpage.toHasDataPage.unique hpage'
  obtain rfl := hslot.unique hslot' (show 64092 + firstSize header ≤ block.memory.length by omega)
    (show 64092 + d ≤ block.memory.length from
      Nat.le_of_add_right_le (Nat.le_of_add_right_le hroom'))
  refine ⟨rfl, hfits, UInt16.toNat_inj.mp hpage.pageId, .inl ⟨hnext, ?_⟩⟩
  exact hpage.findById_ne hlow hwithin hlt (.inr hend) hne

/-- The header of a fresh page that is clear for a content stays where the content is added. -/
theorem hasDataPage_of_clear {memory : Bytes} {first header : PageHeader} {content : Bytes}
    (himage : FreshImage memory [first, header]) (hclear : Clear 1 header content.length) :
  HasDataPage (Bytes.overwrite memory (64092 + firstSize header)
    (Document.encode header.pageNextDocumentId content)) 1 header
  := by
  have hpage : FreshSlot memory 1 header := himage 1 (show 1 < 2 by decide)
  obtain ⟨-, -, hbehind, hfits⟩ := hclear
  have hroom : 64092 * 1 + 64092 ≤ memory.length := hpage.room
  have hinside : 64092 + firstSize header
      + (Document.encode header.pageNextDocumentId content).length ≤ memory.length := by
    rw [Document.length_encode]
    omega
  exact hpage.toHasDataPage.congr (Bytes.length_overwrite hinside) (fun i hi => by
    apply Bytes.getElem?_overwrite_of_lt hinside
    change 64092 * 1 + i < 64092 + firstSize header
    omega)

/-- After a content was saved on a page that was clear for it, a call with another type saves
nothing. -/
theorem savesOnce_of_type_ne {block : DataBlock} {first header : PageHeader} {content : Bytes}
    {call : AddCall} (himage : FreshImage block.memory [first, header])
    (hlength : content.length + 48 ≤ header.pageNumberOfFreeBytes.toNat)
    (hclear : Clear 1 header content.length) (htype : call.typeId ≠ header.pageTypeId) :
  ((start block).step ⟨content, header.pageTypeId⟩).SavesOnce call
  := by
  rw [step_of_clear block himage hlength hclear]
  intro header' d hpage' haccepts
  obtain rfl := (hasDataPage_of_clear himage hclear).unique hpage'
  exact absurd haccepts.1 htype

/-- A document saved under the id of its page does not resolve: the header of the page is found
in its place. -/
theorem not_resolves_of_clear {memory : Bytes} {first header : PageHeader} {content : Bytes}
    (himage : FreshImage memory [first, header]) (hclear : Clear 1 header content.length)
    (hsame : header.pageId = header.pageNextDocumentId)
    (hsize : content.length + 48 ≠ firstSize header) (block : UInt16) :
  ¬ Resolves
      (Bytes.overwrite memory (64092 + firstSize header)
        (Document.encode header.pageNextDocumentId content))
      (Address.create .document block header.pageId header.pageNextDocumentId) content
  := by
  have hpage : FreshSlot memory 1 header := himage 1 (show 1 < 2 by decide)
  obtain ⟨hlow, hwithin, hlt, -⟩ := hpage.ends_of_clear hclear
  have hpage' := hasDataPage_of_clear himage hclear
  obtain ⟨-, -, -, hfits⟩ := hclear
  have hroom : 64092 * 1 + 64092 ≤ memory.length := hpage.room
  have hwritten : (Bytes.overwrite memory (64092 + firstSize header)
      (Document.encode header.pageNextDocumentId content)).length = memory.length := by
    apply Bytes.length_overwrite
    rw [Document.length_encode]
    omega
  rintro ⟨page, hget, hfind⟩
  have hid : header.pageId = 1 := UInt16.toNat_inj.mp hpage.pageId
  rw [Address.create_page, hid] at hget
  have hover := getPageById_eq_data (by decide) hpage'
  rw [show (1 : UInt16).toUInt32 = 1 from rfl, hover] at hget
  cases hget
  rw [List.length_drop] at hwithin
  obtain ⟨found, hfound, hlength⟩ :=
    hpage'.findById_pageId hlow (by rw [List.length_drop, hwritten]; exact hwithin) hlt
  rw [hsame] at hfound
  rw [Address.create_document, hfound] at hfind
  cases hfind
  exact hsize hlength

/-- The header of a fresh page that has a document id of its own to give. -/
def secondHeader : PageHeader :=
  (freshHeader 1 1 0).setPageNextDocumentId 2

theorem freshImage_second :
  FreshImage (blockOf secondHeader).memory [freshHeader 0 0 0, secondHeader]
  := by
  have hfree : (freshHeader 0 0 0).pageNumberOfFreeBytes = Constants.PAGE_SIZE := by decide
  have hfree' : secondHeader.pageNumberOfFreeBytes = Constants.PAGE_SIZE := by decide
  apply freshImage_image
  intro p h
  match p with
  | 0 => exact ⟨rfl, rfl, hfree, fun _ => freshHeader_reserved⟩
  | 1 =>
      refine ⟨rfl, rfl, hfree', fun i h h' => ?_⟩
      rw [List.getElem_cons_succ, List.getElem_cons_zero, secondHeader,
        PageHeader.setPageNextDocumentId, PageHeader.getElem?_assign_of_le]
      · exact freshHeader_reserved h h'
      · rw [PageHeader.PAGE_NEXT_DOCUMENT_ID]
        simp
        omega

/-- A document of one byte on a page whose next document does not have the id of the page, and
a call that the page refuses. -/
theorem lawful_of_savesOnce_second :
  ((start (blockOf secondHeader)).run
    ([⟨[7], secondHeader.pageTypeId⟩, ⟨[8, 9], 99⟩].take 2)).Lawful
  := by
  have hlength : (blockOf secondHeader).memory.length < 2 ^ 31 := by
    rw [blockOf, length_image]
    decide
  apply lawful_of_savesOnce (holdsPages_of_fresh freshImage_second (by decide)) hlength
  refine ⟨?_, ?_, trivial⟩
  · exact savesOnce_of_clear freshImage_second (by decide) (by decide) (by decide)
  · exact savesOnce_of_type_ne freshImage_second (by decide) (by decide) (by decide)

/-- On a fresh page the first document has the id of the page, under which the header of the
page is found. -/
theorem not_savingLaw :
  ¬ SavingLaw
  := by
  intro h
  have hlength : (blockOf (freshHeader 1 1 0)).memory.length < 2 ^ 31 := by
    rw [blockOf, length_image]
    decide
  have hlawful := h (blockOf (freshHeader 1 1 0)) 2 [⟨[7], (freshHeader 1 1 0).pageTypeId⟩]
    (holdsPages_of_fresh freshImage_two (by decide)) hlength
  have hstep := step_of_clear (blockOf (freshHeader 1 1 0)) freshImage_two
    (show [7].length + 48 ≤ _ by decide) (show Clear 1 (freshHeader 1 1 0) [7].length by decide)
  obtain ⟨-, -, hresolves⟩ := hlawful
  rw [run, Run.final, List.foldl_cons, List.foldl_nil, hstep] at hresolves
  have hsaved := hresolves _ (List.mem_singleton_self _)
  exact not_resolves_of_clear freshImage_two (by decide) (by decide) (by decide) _ hsaved

end BlockSession

end Datatent
