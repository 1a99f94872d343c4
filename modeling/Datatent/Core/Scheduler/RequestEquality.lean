import Datatent.Core.IO.FileSystemService

/-!
# Equal addresses and requests

Two addresses are compared by the parts that their scope has, and two requests by their
addresses and directions. The hash codes are computed from all bits of an address. So the hash
codes of equal addresses are the same only if the parts that are not compared are the same, up to
bits of the page that the bits above the scope cancel.
-/

namespace Datatent

/-- The bits of the hash code of a number of type `ulong`: its lower and its upper half. -/
def hashCodeUInt64 (x : UInt64) : UInt32 :=
  x.toUInt32 ^^^ (x >>> 32).toUInt32

namespace Address

/-- The byte of the scope. -/
def scopeByte (address : Address) : UInt8 :=
  (address.fullAddress >>> 48).toUInt8

/-- The upper bits of the address: the byte of the scope and a byte above it that is no part of
the address. -/
def upperBits (address : Address) : UInt16 :=
  (address.fullAddress >>> 48).toUInt16

/-- Compare two addresses. The scope can be ignored. -/
def areTheSame (a1 a2 : Address) (ignoreScope : Bool) : Except Fault Bool :=
  if ¬ ignoreScope ∧ a1.scopeByte ≠ a2.scopeByte then .ok false
  else
    match a1.scope with
    | some .block => .ok (a1.block = a2.block)
    | some .page => .ok (a1.block = a2.block ∧ a1.page = a2.page)
    | some .document =>
        .ok (a1.block = a2.block ∧ a1.page = a2.page ∧ a1.document = a2.document)
    | none => .error .argumentOutOfRange

/-- The operator `==`. -/
def equal (address1 address2 : Address) : Except Fault Bool :=
  areTheSame address1 address2 false

/-- The hash code of an address. -/
def getHashCode (address : Address) : UInt32 :=
  hashCodeUInt64 address.fullAddress ^^^ address.scopeByte.toUInt32

end Address

namespace IORequest

/-- The operator `==`, which `Equals` is for two requests. -/
def equals (request1 request2 : IORequest) : Except Fault Bool := do
  let same ← request1.address.areTheSame request2.address false
  return same ∧ request1.requestDirection = request2.requestDirection

/-- The hash code of a request. -/
def getHashCode (request : IORequest) : UInt32 :=
  hashCodeUInt64 request.address.fullAddress

end IORequest

/-! ### What is compared -/

namespace Address

/-- The scopes of two addresses and the parts that this scope has are the same. -/
structure SameParts (a b : Address) : Prop where
  scope : a.scope = b.scope
  block : a.block = b.block
  page : a.scope ≠ some .block → a.page = b.page
  document : a.scope = some .document → a.document = b.document

/-- What the scopes of two addresses do not compare cancels in their hash codes. -/
def SameRest (a b : Address) : Prop :=
  a.document = b.document ∧ a.page ^^^ a.upperBits = b.page ^^^ b.upperBits

instance (a b : Address) : Decidable (a.SameRest b) :=
  inferInstanceAs (Decidable (_ ∧ _))

section

variable {a b c : Address}

/-- A scope has one byte. -/
theorem scopeByte_of_scope {scope : AddressScope} (h : a.scope = some scope) :
  a.scopeByte = scope.toByte
  := by
  change AddressScope.ofByte a.scopeByte = some scope at h
  rw [AddressScope.ofByte] at h
  split at h
  · rename_i hbyte
    cases h
    exact hbyte
  · split at h
    · rename_i hbyte
      cases h
      exact hbyte
    · split at h
      · rename_i hbyte
        cases h
        exact hbyte
      · cases h

/-- Two valid addresses have the same byte for their scope when they have the same scope. -/
theorem scopeByte_eq_iff (ha : a.scope.isSome) :
  a.scopeByte = b.scopeByte ↔ a.scope = b.scope
  := by
  constructor
  · intro h
    change AddressScope.ofByte a.scopeByte = AddressScope.ofByte b.scopeByte
    rw [h]
  · intro h
    obtain ⟨scope, hscope⟩ := Option.isSome_iff_exists.mp ha
    rw [scopeByte_of_scope hscope, scopeByte_of_scope (h.symm.trans hscope)]

/-- Valid addresses are compared by the parts of their scope. -/
theorem areTheSame_iff (ha : a.scope.isSome) :
  areTheSame a b false = .ok true ↔ a.SameParts b
  := by
  rw [areTheSame]
  split
  · rename_i hscope
    constructor
    · intro h
      cases h
    · intro h
      exact absurd ((scopeByte_eq_iff ha).mpr h.scope) hscope.2
  · rename_i hbytes
    have hscope : a.scope = b.scope := by
      apply (scopeByte_eq_iff ha).mp
      by_contra hne
      exact hbytes ⟨Bool.false_ne_true, hne⟩
    split
    · rename_i hblock
      rw [Except.ok.injEq, decide_eq_true_eq]
      constructor
      · intro h
        exact ⟨hscope, h, fun hne => absurd hblock hne,
          fun hdocument => absurd (hblock.symm.trans hdocument) (by decide)⟩
      · intro h
        exact h.block
    · rename_i hpage
      rw [Except.ok.injEq, decide_eq_true_eq]
      have hne : a.scope ≠ some .block := by
        rw [hpage]
        decide
      constructor
      · rintro ⟨hblock, hpages⟩
        exact ⟨hscope, hblock, fun _ => hpages,
          fun hdocument => absurd (hpage.symm.trans hdocument) (by decide)⟩
      · intro h
        exact ⟨h.block, h.page hne⟩
    · rename_i hdocument
      rw [Except.ok.injEq, decide_eq_true_eq]
      have hne : a.scope ≠ some .block := by
        rw [hdocument]
        decide
      constructor
      · rintro ⟨hblock, hpages, hdocuments⟩
        exact ⟨hscope, hblock, fun _ => hpages, fun _ => hdocuments⟩
      · intro h
        exact ⟨h.block, h.page hne, h.document hdocument⟩
    · rename_i hnone
      rw [hnone] at ha
      cases ha

/-! ### Hash codes -/

/-- The lower half of the hash code of the full address. -/
theorem hashCode_mod :
  (hashCodeUInt64 a.fullAddress).toNat % 2 ^ 16 = a.document.toNat ^^^ a.block.toNat
  := by
  rw [hashCodeUInt64, UInt32.toNat_xor, Nat.xor_mod_two_pow, document, block,
    UInt64.toNat_toUInt32, UInt64.toNat_toUInt32, UInt64.toNat_toUInt16, UInt64.toNat_toUInt16]
  congr 1
  · omega
  · omega

/-- The upper half of the hash code of the full address. -/
theorem hashCode_div :
  (hashCodeUInt64 a.fullAddress).toNat / 2 ^ 16 = a.page.toNat ^^^ a.upperBits.toNat
  := by
  have hlt := a.fullAddress.toNat_lt
  rw [hashCodeUInt64, UInt32.toNat_xor, Nat.xor_div_two_pow, page, upperBits,
    UInt32.toNat_toUInt16, UInt32.toNat_shiftRight, UInt64.toNat_toUInt32,
    UInt64.toNat_toUInt32, UInt64.toNat_toUInt16, UInt64.toNat_shiftRight,
    UInt64.toNat_shiftRight]
  change _ / _ ^^^ _ >>> 32 % _ / _ = _ >>> 16 % _ ^^^ _ >>> 48 % _
  simp only [Nat.shiftRight_eq_div_pow]
  congr 1
  · omega
  · omega

/-- The hash codes of the full addresses of two addresses with the same block. -/
theorem hashCodeUInt64_eq_iff (hblock : a.block = b.block) :
  hashCodeUInt64 a.fullAddress = hashCodeUInt64 b.fullAddress ↔ a.SameRest b
  := by
  rw [← UInt32.toNat_inj, SameRest, ← UInt16.toNat_inj, ← UInt16.toNat_inj, UInt16.toNat_xor,
    UInt16.toNat_xor, ← hashCode_div, ← hashCode_div]
  have ha := @hashCode_mod a
  have hb := @hashCode_mod b
  constructor
  · intro h
    rw [h]
    refine ⟨?_, rfl⟩
    rw [h, hb, hblock] at ha
    have hcancel := congrArg (· ^^^ b.block.toNat) ha
    simpa only [Nat.xor_assoc, Nat.xor_self, Nat.xor_zero] using hcancel.symm
  · rintro ⟨hdocument, hdiv⟩
    rw [hdocument, hblock, ← hb] at ha
    omega

/-- The hash codes of two addresses with the same block and scope. -/
theorem getHashCode_eq_iff (hscope : a.scopeByte = b.scopeByte) (hblock : a.block = b.block) :
  a.getHashCode = b.getHashCode ↔ a.SameRest b
  := by
  rw [getHashCode, getHashCode, hscope, ← hashCodeUInt64_eq_iff hblock]
  constructor
  · intro h
    have hcancel := congrArg (· ^^^ b.scopeByte.toUInt32) h
    simpa only [UInt32.xor_assoc, UInt32.xor_self, UInt32.xor_zero] using hcancel
  · intro h
    rw [h]

end

end Address

/-! ### Where the comparisons and the hash codes are consistent -/

/-- The operator `==` is an equivalence for the addresses, and equal addresses and equal requests
have the same hash codes. -/
structure ConsistentAt (a b c : Address) (request1 request2 : IORequest) : Prop where
  refl : a.equal a = .ok true
  symm : a.equal b = .ok true → b.equal a = .ok true
  trans : a.equal b = .ok true → b.equal c = .ok true → a.equal c = .ok true
  hash : a.equal b = .ok true → a.getHashCode = b.getHashCode
  requestHash : request1.equals request2 = .ok true →
    request1.getHashCode = request2.getHashCode

namespace Address.SameParts

variable {a b c : Address}

/-- An address has the parts of itself. -/
theorem refl (a : Address) :
  a.SameParts a
  := ⟨rfl, rfl, fun _ => rfl, fun _ => rfl⟩

/-- Having the same parts is symmetric. -/
theorem symm (h : a.SameParts b) :
  b.SameParts a
  := by
  constructor
  · exact h.scope.symm
  · exact h.block.symm
  · intro hscope
    apply Eq.symm
    apply h.page
    rw [h.scope]
    exact hscope
  · intro hscope
    apply Eq.symm
    apply h.document
    rw [h.scope]
    exact hscope

/-- Having the same parts is transitive. -/
theorem trans (h : a.SameParts b) (h' : b.SameParts c) :
  a.SameParts c
  := by
  constructor
  · exact h.scope.trans h'.scope
  · exact h.block.trans h'.block
  · intro hscope
    apply (h.page hscope).trans
    apply h'.page
    rw [← h.scope]
    exact hscope
  · intro hscope
    apply (h.document hscope).trans
    apply h'.document
    rw [← h.scope]
    exact hscope

end Address.SameParts

/-- Two valid requests are equal when their addresses have the same parts and they have the
same direction. -/
theorem IORequest.equals_iff {request1 request2 : IORequest}
    (h : request1.address.scope.isSome) :
  request1.equals request2 = .ok true
    ↔ request1.address.SameParts request2.address
      ∧ request1.requestDirection = request2.requestDirection
  := by
  rw [IORequest.equals, ← Address.areTheSame_iff h, Except.bind_eq_ok_iff]
  constructor
  · rintro ⟨same, hsame, hboth⟩
    have hboth : decide (same = true ∧ _) = true := Except.ok.inj hboth
    rw [decide_eq_true_eq] at hboth
    obtain ⟨rfl, hdirection⟩ := hboth
    exact ⟨hsame, hdirection⟩
  · rintro ⟨hsame, hdirection⟩
    refine ⟨true, hsame, congrArg Except.ok ?_⟩
    rw [decide_eq_true_eq]
    exact ⟨rfl, hdirection⟩

/-- The comparisons and the hash codes are consistent when for addresses with the same parts what
the parts leave out cancels. -/
theorem consistentAt_iff {a b c : Address} {request1 request2 : IORequest}
    (ha : a.scope.isSome) (hb : b.scope.isSome) (h1 : request1.address.scope.isSome) :
  ConsistentAt a b c request1 request2
    ↔ (a.SameParts b → a.SameRest b)
      ∧ (request1.address.SameParts request2.address
          ∧ request1.requestDirection = request2.requestDirection →
        request1.address.SameRest request2.address)
  := by
  constructor
  · intro h
    constructor
    · intro hsame
      apply (Address.getHashCode_eq_iff ((Address.scopeByte_eq_iff ha).mpr hsame.scope)
        hsame.block).mp
      exact h.hash ((Address.areTheSame_iff ha).mpr hsame)
    · intro hsame
      apply (Address.hashCodeUInt64_eq_iff hsame.1.block).mp
      exact h.requestHash ((IORequest.equals_iff h1).mpr hsame)
  · rintro ⟨hrest, hrest'⟩
    constructor
    · exact (Address.areTheSame_iff ha).mpr (.refl a)
    · intro hab
      exact (Address.areTheSame_iff hb).mpr ((Address.areTheSame_iff ha).mp hab).symm
    · intro hab hbc
      apply (Address.areTheSame_iff ha).mpr
      exact ((Address.areTheSame_iff ha).mp hab).trans ((Address.areTheSame_iff hb).mp hbc)
    · intro hab
      have hsame := (Address.areTheSame_iff ha).mp hab
      apply (Address.getHashCode_eq_iff ((Address.scopeByte_eq_iff ha).mpr hsame.scope)
        hsame.block).mpr
      exact hrest hsame
    · intro hequals
      have hsame := (IORequest.equals_iff h1).mp hequals
      exact (Address.hashCodeUInt64_eq_iff hsame.1.block).mpr (hrest' hsame)

/-- A read request for an address. -/
def readRequest (address : Address) : IORequest where
  id := 0
  requestDirection := .read
  address := address
  payload := []
  ioRequestProperties := { flush := false, onlyHeader := false }

/-- The address of a block with the number `256` for the page, and with a bit in front of the
byte of the scope that cancels it. -/
def cancellingAddress : Address where
  fullAddress := (Address.create .block 3 256 0).fullAddress ||| 0x0100000000000000

/-- For the address of a block and one that differs from it in bits that cancel they are
consistent. -/
theorem consistentAt_cancelling :
  ConsistentAt (.create .block 3 0 0) cancellingAddress (.create .block 3 6 0)
    (readRequest (.create .block 3 0 0)) (readRequest cancellingAddress)
  := by
  apply (consistentAt_iff (by decide) (by decide) (by decide)).mpr
  have hrest : (Address.create .block 3 0 0).SameRest cancellingAddress := by decide
  exact ⟨fun _ => hrest, fun _ => hrest⟩

/-- For all valid addresses the comparisons and the hash codes are consistent. -/
def Consistent : Prop :=
  ∀ (a b c : Address) (request1 request2 : IORequest),
    a.scope.isSome → b.scope.isSome → c.scope.isSome →
    request1.address.scope.isSome → request2.address.scope.isSome →
      ConsistentAt a b c request1 request2

/-- The address of a block with another number for the page is equal to the address of the block
and has another hash code. -/
theorem not_consistent :
  ¬ Consistent
  := by
  intro h
  have hconsistent := h (.create .block 1 0 0) (.create .block 1 1 0) (.create .block 1 0 0)
    (readRequest (.create .block 1 0 0)) (readRequest (.create .block 1 1 0))
    (by decide) (by decide) (by decide) (by decide) (by decide)
  exact absurd (hconsistent.hash (by decide)) (by decide)

end Datatent
