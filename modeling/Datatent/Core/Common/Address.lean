import Datatent.Core.IO.SpanExtensions

/-!
# Addresses

An address packs a document number, a page number, a block number and a scope into 64 bits.
`toPosition` turns it into an offset and a length in the data file, computed in 32 bits.
Page addresses do not alias as long as their offsets are below `2 ^ 32`.
-/

namespace Datatent

open Constants

/-- The granularity of an address. -/
inductive AddressScope where
  | block
  | page
  | document
deriving DecidableEq, Repr

/-- The byte a scope is stored as. -/
def AddressScope.toByte : AddressScope → UInt8
  | block => 1
  | page => 2
  | document => 3

/-- The scope stored as the given byte, if there is one. -/
def AddressScope.ofByte (b : UInt8) : Option AddressScope :=
  if b = 1 then some block
  else if b = 2 then some page
  else if b = 3 then some document
  else none

/-- A position of data in the database. -/
structure Address where
  fullAddress : UInt64
deriving DecidableEq, Repr

namespace Address

/-- The document number of the address. -/
def document (address : Address) : UInt16 :=
  address.fullAddress.toUInt16

/-- The page number of the address. -/
def page (address : Address) : UInt16 :=
  (address.fullAddress.toUInt32 >>> 16).toUInt16

/-- The block number of the address. -/
def block (address : Address) : UInt16 :=
  (address.fullAddress >>> 32).toUInt16

/-- The scope of the address; none where its byte is not one of a scope. -/
def scope (address : Address) : Option AddressScope :=
  AddressScope.ofByte (address.fullAddress >>> 48).toUInt8

/-- The address with the given scope and numbers. -/
def create (scope : AddressScope) (block page document : UInt16) : Address where
  fullAddress := (block.toUInt64 <<< 32 ||| (page.toUInt32 <<< 16).toUInt64
    ||| document.toUInt64) ||| (scope.toByte.toUInt64 <<< 48)

/-! ### The numbers of a created address -/

section Create

variable (scope : AddressScope) (block page document : UInt16)

/-- Joining a shifted number with a number below the shift adds the two. -/
theorem shiftLeft_or {a b i : Nat} (h : b < 2 ^ i) :
  a <<< i ||| b = a * 2 ^ i + b
  := by
  rw [← Nat.shiftLeft_add_eq_or_of_lt h, Nat.shiftLeft_eq]

/-- Shifting a number within the word multiplies it. -/
theorem shiftLeft_mod {a i w : Nat} (h : a * 2 ^ i < 2 ^ w) :
  a <<< i % 2 ^ w = a * 2 ^ i
  := by
  rw [Nat.shiftLeft_eq, Nat.mod_eq_of_lt h]

/-- The full address as a number in base `2 ^ 16`. -/
theorem create_toNat :
  (create scope block page document).fullAddress.toNat
    = ((scope.toByte.toNat * 65536 + block.toNat) * 65536 + page.toNat) * 65536
      + document.toNat
  := by
  have hblock := block.toNat_lt
  have hpage := page.toNat_lt
  have hdocument := document.toNat_lt
  have hscope := scope.toByte.toNat_lt
  have hhigh : block.toNat * 2 ^ 32 ||| page.toNat * 2 ^ 16
      = block.toNat * 2 ^ 32 + page.toNat * 2 ^ 16 := by
    have h := shiftLeft_or (a := block.toNat) (b := page.toNat * 2 ^ 16) (i := 32) (by omega)
    rwa [Nat.shiftLeft_eq] at h
  have hlow : block.toNat * 2 ^ 32 + page.toNat * 2 ^ 16 ||| document.toNat
      = block.toNat * 2 ^ 32 + page.toNat * 2 ^ 16 + document.toNat := by
    have hsum : block.toNat * 2 ^ 32 + page.toNat * 2 ^ 16
        = (block.toNat * 2 ^ 16 + page.toNat) <<< 16 := by
      rw [Nat.shiftLeft_eq]
      omega
    rw [hsum, shiftLeft_or (by omega), Nat.shiftLeft_eq]
  have hall : block.toNat * 2 ^ 32 + page.toNat * 2 ^ 16 + document.toNat
      ||| scope.toByte.toNat * 2 ^ 48
        = scope.toByte.toNat * 2 ^ 48
          + (block.toNat * 2 ^ 32 + page.toNat * 2 ^ 16 + document.toNat) := by
    have h := shiftLeft_or (a := scope.toByte.toNat)
      (b := block.toNat * 2 ^ 32 + page.toNat * 2 ^ 16 + document.toNat) (i := 48) (by omega)
    rwa [Nat.shiftLeft_eq, Nat.or_comm] at h
  simp only [create, UInt64.toNat_or, UInt64.toNat_shiftLeft, UInt16.toNat_toUInt64,
    UInt32.toNat_toUInt64, UInt32.toNat_shiftLeft, UInt16.toNat_toUInt32, UInt8.toNat_toUInt64]
  change ((block.toNat <<< 32 % 2 ^ 64 ||| page.toNat <<< 16 % 2 ^ 32) ||| document.toNat)
    ||| scope.toByte.toNat <<< 48 % 2 ^ 64 = _
  rw [shiftLeft_mod (by omega), shiftLeft_mod (by omega), shiftLeft_mod (by omega), hhigh, hlow,
    hall]
  omega

@[simp]
theorem create_block :
  (create scope block page document).block = block
  := by
  have hblock := block.toNat_lt
  have hpage := page.toNat_lt
  have hdocument := document.toNat_lt
  apply UInt16.toNat_inj.mp
  rw [Address.block, UInt64.toNat_toUInt16, UInt64.toNat_shiftRight, create_toNat]
  change _ >>> 32 % _ = _
  rw [Nat.shiftRight_eq_div_pow]
  omega

@[simp]
theorem create_page :
  (create scope block page document).page = page
  := by
  have hpage := page.toNat_lt
  have hdocument := document.toNat_lt
  apply UInt16.toNat_inj.mp
  rw [Address.page, UInt32.toNat_toUInt16, UInt32.toNat_shiftRight, UInt64.toNat_toUInt32,
    create_toNat]
  change (_ % _) >>> 16 % _ = _
  rw [Nat.shiftRight_eq_div_pow]
  omega

@[simp]
theorem create_document :
  (create scope block page document).document = document
  := by
  have hdocument := document.toNat_lt
  apply UInt16.toNat_inj.mp
  rw [Address.document, UInt64.toNat_toUInt16, create_toNat]
  omega

@[simp]
theorem create_scope :
  (create scope block page document).scope = some scope
  := by
  have hblock := block.toNat_lt
  have hpage := page.toNat_lt
  have hdocument := document.toNat_lt
  have hscope := scope.toByte.toNat_lt
  have hbyte : ((create scope block page document).fullAddress >>> 48).toUInt8
      = scope.toByte := by
    apply UInt8.toNat_inj.mp
    rw [UInt64.toNat_toUInt8, UInt64.toNat_shiftRight, create_toNat]
    change _ >>> 48 % _ = _
    rw [Nat.shiftRight_eq_div_pow]
    omega
  rw [Address.scope, hbyte]
  cases scope with
  | block => rfl
  | page => rfl
  | document => rfl

end Create

/-- The offset in the file and the length of what the address stands for. The scopes of a
page and of a document give the page. -/
def toPosition (address : Address) : Except Fault (UInt32 × UInt32) :=
  let offset := DATABASE_HEADER_SIZE
  match address.scope with
  | some .block =>
      let length := BLOCK_SIZE_INCL_HEADER
      let offset := offset + address.block.toUInt32 * BLOCK_SIZE_INCL_HEADER
      .ok (offset, length)
  | some .page =>
      let length := PAGE_SIZE_INCL_HEADER
      let offset := offset + address.block.toUInt32 * BLOCK_SIZE_INCL_HEADER
      let offset := offset + address.page.toUInt32 * PAGE_SIZE_INCL_HEADER
      .ok (offset, length)
  | some .document =>
      let length := PAGE_SIZE_INCL_HEADER
      let offset := offset + address.block.toUInt32 * BLOCK_SIZE_INCL_HEADER
      let offset := offset + address.page.toUInt32 * PAGE_SIZE_INCL_HEADER
      .ok (offset, length)
  | none => .error .invalidOperation

/-! ### The exact offset -/

/-- The offset of a page as an exact number. -/
def exactOffset (block page : Nat) : Nat :=
  2048 + block * 6409292 + page * 64092

/-- The blocks and pages whose exact offset is a 32-bit number: all pages of the blocks below
`670` and the first twelve of the block `670`. -/
def Addressable (address : Address) : Prop :=
  address.block.toNat < 670 ∨ address.block.toNat = 670 ∧ address.page.toNat < 12

instance (address : Address) : Decidable address.Addressable :=
  inferInstanceAs (Decidable (_ ∨ _))

/-- A page of a block is addressable when its exact offset is a 32-bit number. -/
theorem addressable_iff {address : Address} (hpage : address.page.toNat < 100) :
  address.Addressable ↔ exactOffset address.block.toNat address.page.toNat < 2 ^ 32
  := by
  rw [Addressable, exactOffset]
  omega

/-- The position of a page: its exact offset up to multiples of `2 ^ 32`. -/
theorem toPosition_page {address : Address} (hscope : address.scope = some .page) :
  ∃ offset : UInt32, address.toPosition = .ok (offset, PAGE_SIZE_INCL_HEADER)
    ∧ offset.toNat = exactOffset address.block.toNat address.page.toNat % 2 ^ 32
  := by
  refine ⟨_, by rw [toPosition, hscope], ?_⟩
  have hblock := address.block.toNat_lt
  have hpage := address.page.toNat_lt
  simp only [UInt32.toNat_add, UInt32.toNat_mul, UInt16.toNat_toUInt32,
    DATABASE_HEADER_SIZE_toNat, BLOCK_SIZE_INCL_HEADER_toNat, PAGE_SIZE_INCL_HEADER_toNat,
    exactOffset]
  omega

/-- The position of a block: the exact offset of its first page up to multiples of
`2 ^ 32`. -/
theorem toPosition_block {address : Address} (hscope : address.scope = some .block) :
  ∃ offset : UInt32, address.toPosition = .ok (offset, BLOCK_SIZE_INCL_HEADER)
    ∧ offset.toNat = exactOffset address.block.toNat 0 % 2 ^ 32
  := by
  refine ⟨_, by rw [toPosition, hscope], ?_⟩
  have hblock := address.block.toNat_lt
  simp only [UInt32.toNat_add, UInt32.toNat_mul, UInt16.toNat_toUInt32,
    DATABASE_HEADER_SIZE_toNat, BLOCK_SIZE_INCL_HEADER_toNat, exactOffset]
  omega

/-- The pages of different blocks or with different numbers have exact offsets that lie at
least a page apart. -/
theorem exactOffset_apart {block page block' page' : Nat} (hpage : page < 100)
    (hpage' : page' < 100) (h : (block, page) ≠ (block', page')) :
  exactOffset block page + 64092 ≤ exactOffset block' page'
    ∨ exactOffset block' page' + 64092 ≤ exactOffset block page
  := by
  have hne : block ≠ block' ∨ page ≠ page' := by
    by_contra hboth
    apply h
    rw [Prod.mk.injEq]
    tauto
  rw [exactOffset, exactOffset]
  rcases Nat.lt_trichotomy block block' with hlt | rfl | hlt
  · left
    omega
  · omega
  · right
    omega

/-! ### Aliasing -/

/-- Two addresses do not alias: their byte ranges are disjoint, lie behind the header of the
database, and their offsets are the exact ones. -/
def NoAlias (address address' : Address) : Prop :=
  ∃ offset length offset' length' : UInt32,
    address.toPosition = .ok (offset, length) ∧ address'.toPosition = .ok (offset', length')
      ∧ (offset.toNat + length.toNat ≤ offset'.toNat
          ∨ offset'.toNat + length'.toNat ≤ offset.toNat)
      ∧ DATABASE_HEADER_SIZE.toNat ≤ offset.toNat
      ∧ DATABASE_HEADER_SIZE.toNat ≤ offset'.toNat
      ∧ offset.toNat = exactOffset address.block.toNat address.page.toNat
      ∧ offset'.toNat = exactOffset address'.block.toNat address'.page.toNat

/-- The addresses of two different pages do not alias exactly when both are addressable. -/
theorem noAlias_iff {address address' : Address} (hscope : address.scope = some .page)
    (hscope' : address'.scope = some .page) (hpage : address.page.toNat < 100)
    (hpage' : address'.page.toNat < 100)
    (h : (address.block, address.page) ≠ (address'.block, address'.page)) :
  address.NoAlias address' ↔ address.Addressable ∧ address'.Addressable
  := by
  obtain ⟨offset, hposition, hoffset⟩ := toPosition_page hscope
  obtain ⟨offset', hposition', hoffset'⟩ := toPosition_page hscope'
  rw [addressable_iff hpage, addressable_iff hpage']
  constructor
  · rintro ⟨o, l, o', l', ho, ho', -, -, -, hexact, hexact'⟩
    rw [hposition] at ho
    rw [hposition'] at ho'
    cases ho
    cases ho'
    constructor
    · rw [← hexact]
      exact offset.toNat_lt
    · rw [← hexact']
      exact offset'.toNat_lt
  · rintro ⟨hlt, hlt'⟩
    rw [Nat.mod_eq_of_lt hlt] at hoffset
    rw [Nat.mod_eq_of_lt hlt'] at hoffset'
    have hne : (address.block.toNat, address.page.toNat)
        ≠ (address'.block.toNat, address'.page.toNat) := by
      intro heq
      apply h
      simp only [Prod.mk.injEq, UInt16.toNat_inj] at heq
      rw [heq.1, heq.2]
    have hapart := exactOffset_apart hpage hpage' hne
    rw [← hoffset, ← hoffset'] at hapart
    have hstart : 2048 ≤ offset.toNat := by
      rw [hoffset, exactOffset]
      omega
    have hstart' : 2048 ≤ offset'.toNat := by
      rw [hoffset', exactOffset]
      omega
    exact ⟨offset, _, offset', _, hposition, hposition', hapart, hstart, hstart', hoffset,
      hoffset'⟩

/-- The last addressable page does not alias the first page. -/
theorem noAlias_last_first :
  (create .page 670 11 0).NoAlias (create .page 0 0 0)
  := by
  apply (noAlias_iff (by decide) (by decide) (by decide) (by decide) (by decide)).mpr
  decide

/-- The page addresses of a database do not alias. -/
def PagesDoNotAlias : Prop :=
  ∀ address address' : Address, address.scope = some .page → address'.scope = some .page →
    address.page.toNat < 100 → address'.page.toNat < 100 →
      (address.block, address.page) ≠ (address'.block, address'.page) →
        address.NoAlias address'

/-- The offset of the first page of the block `671` wraps into the page `88` of the
block `0`. -/
theorem not_pagesDoNotAlias :
  ¬ PagesDoNotAlias
  := by
  intro h
  have hwrapped : (create .page 671 0 0).toPosition = .ok (5669684, 64092) := by decide
  have hpage : (create .page 0 88 0).toPosition = .ok (5642144, 64092) := by decide
  obtain ⟨offset, length, offset', length', hposition, hposition', hdisjoint, -⟩ :=
    h (create .page 671 0 0) (create .page 0 88 0) (by decide) (by decide) (by decide)
      (by decide) (by decide)
  rw [hwrapped] at hposition
  rw [hpage] at hposition'
  cases hposition
  cases hposition'
  revert hdisjoint
  decide

end Address

end Datatent
