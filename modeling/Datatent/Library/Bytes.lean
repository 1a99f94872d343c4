import Mathlib.Data.List.TakeDrop
import Mathlib.Tactic.Ring

/-!
# Byte strings

Little-endian fields of a byte string and the replacement of a range of its bytes.
`Bytes.readLE` reads the number held by the first bytes of a string, `Bytes.toLE` is the
string of given length holding a number, and `Bytes.overwrite m offset s` is `m` with the
bytes from `offset` on replaced by those of `s`. `Bytes.blockCopy` is such a copy with a check
of its range, in any monad with exceptions.
-/

/-- A string of bytes. -/
abbrev Bytes := List UInt8

namespace Bytes

/-! ### Little-endian numbers -/

/-- The number whose little-endian digits are the first `n` bytes; the digits past the end
of the string are zero. -/
def readLE : Bytes → Nat → Nat
  | _, 0 => 0
  | m, n + 1 => (m.headD 0).toNat + 256 * readLE m.tail n

/-- The `n` little-endian bytes of a number, without its higher digits. -/
def toLE : Nat → Nat → Bytes
  | 0, _ => []
  | n + 1, v => UInt8.ofNat v :: toLE n (v / 256)

@[simp]
theorem length_toLE (n v : Nat) :
  (toLE n v).length = n
  := by
  induction n generalizing v with
  | zero => rfl
  | succ n ih => simp only [toLE, List.length_cons, ih]

/-- A number read from `n` bytes has `n` digits. -/
theorem readLE_lt (m : Bytes) (n : Nat) :
  readLE m n < 256 ^ n
  := by
  induction n generalizing m with
  | zero => simp [readLE]
  | succ n ih =>
      have hhead : (m.headD 0).toNat < 256 := UInt8.toNat_lt _
      have htail := ih m.tail
      rw [readLE, pow_succ]
      omega

/-- Reading the bytes of a number at the front of a string gives the number back. -/
theorem readLE_toLE_append (n v : Nat) (s : Bytes) :
  readLE (toLE n v ++ s) n = v % 256 ^ n
  := by
  induction n generalizing v with
  | zero => simp [readLE, Nat.mod_one]
  | succ n ih =>
      have hdigit : (UInt8.ofNat v).toNat = v % 256 := UInt8.toNat_ofNat'
      simp only [toLE, List.cons_append, readLE, List.headD_cons, List.tail_cons, ih, hdigit]
      rw [pow_succ', Nat.mod_mul]

/-- The bytes of a number that was read are those it was read from. -/
theorem toLE_readLE {m : Bytes} {n : Nat} (h : n ≤ m.length) :
  toLE n (readLE m n) = m.take n
  := by
  induction n generalizing m with
  | zero => rfl
  | succ n ih =>
      cases m with
      | nil => simp at h
      | cons b m =>
          have hb := UInt8.toNat_lt b
          have hdiv : (b.toNat + 256 * readLE m n) / 256 = readLE m n := by omega
          have hmod : UInt8.ofNat (b.toNat + 256 * readLE m n) = b := by
            apply UInt8.toNat_inj.mp
            rw [UInt8.toNat_ofNat']
            omega
          rw [List.length_cons] at h
          rw [readLE, List.headD_cons, List.tail_cons, toLE, hdiv, hmod, ih (by omega),
            List.take_succ_cons]

/-- A number depends only on the bytes it is read from. -/
theorem readLE_congr {m m' : Bytes} {n : Nat} (h : m.take n = m'.take n) :
  readLE m n = readLE m' n
  := by
  induction n generalizing m m' with
  | zero => rfl
  | succ n ih =>
      cases m with
      | nil =>
          cases m' with
          | nil => rfl
          | cons b m' => simp at h
      | cons a m =>
          cases m' with
          | nil => simp at h
          | cons b m' =>
              simp only [List.take_succ_cons, List.cons.injEq] at h
              obtain ⟨rfl, h⟩ := h
              simp only [readLE, List.headD_cons, List.tail_cons, ih h]

/-- A number read from `a + b` bytes is put together from its lower and its higher digits. -/
theorem readLE_add (m : Bytes) (a b : Nat) :
  readLE m (a + b) = readLE m a + 256 ^ a * readLE (m.drop a) b
  := by
  induction a generalizing m with
  | zero => simp [readLE]
  | succ a ih =>
      have hdrop : m.drop (a + 1) = m.tail.drop a := by
        rw [List.drop_tail]
      rw [Nat.add_right_comm, readLE, readLE, ih, hdrop, pow_succ']
      ring

/-- The number held by zero bytes is zero. -/
theorem readLE_eq_zero {m : Bytes} {n : Nat} (h : ∀ i < n, m[i]? = some 0) :
  readLE m n = 0
  := by
  induction n generalizing m with
  | zero => rfl
  | succ n ih =>
      have hhead : m.headD 0 = 0 := by
        rw [List.headD_eq_head?_getD, List.head?_eq_getElem?, h 0 (by omega)]
        rfl
      have htail : readLE m.tail n = 0 := by
        apply ih
        intro i hi
        rw [List.getElem?_tail]
        apply h
        omega
      rw [readLE, hhead, htail]
      rfl

/-! ### Replacing a range of bytes -/

/-- A range of a string is put together from its front and what is left of it. -/
theorem slice_split (m : Bytes) (i : Nat) {n k : Nat} (h : n ≤ k) :
  (m.drop i).take k = (m.drop i).take n ++ (m.drop (i + n)).take (k - n)
  := by
  rw [← List.drop_drop, ← List.take_add, Nat.add_sub_cancel' h]

/-- The string with the bytes from `offset` on replaced by `s`. -/
def overwrite (m : Bytes) (offset : Nat) (s : Bytes) : Bytes :=
  m.take offset ++ (s ++ m.drop (offset + s.length))

/-- Replacing bytes within a string keeps its length. -/
theorem length_overwrite {m s : Bytes} {offset : Nat} (h : offset + s.length ≤ m.length) :
  (overwrite m offset s).length = m.length
  := by
  simp only [overwrite, List.length_append, List.length_take, List.length_drop]
  omega

/-- A byte before the replaced range is the old one. -/
theorem getElem?_overwrite_of_lt {m s : Bytes} {offset i : Nat}
    (h : offset + s.length ≤ m.length) (hi : i < offset) :
  (overwrite m offset s)[i]? = m[i]?
  := by
  rw [overwrite, List.getElem?_append_left, List.getElem?_take_of_lt hi]
  rw [List.length_take]
  omega

/-- A byte after the replaced range is the old one. -/
theorem getElem?_overwrite_of_le {m s : Bytes} {offset i : Nat}
    (h : offset + s.length ≤ m.length) (hi : offset + s.length ≤ i) :
  (overwrite m offset s)[i]? = m[i]?
  := by
  have htake : (m.take offset).length = offset := by
    rw [List.length_take]
    omega
  rw [overwrite, List.getElem?_append_right (by omega), htake,
    List.getElem?_append_right (by omega), List.getElem?_drop]
  congr 1
  omega

/-- A byte of the replaced range is the one written. -/
theorem getElem?_overwrite_of_mem {m s : Bytes} {offset i : Nat}
    (h : offset + s.length ≤ m.length) (hi : i < s.length) :
  (overwrite m offset s)[offset + i]? = s[i]?
  := by
  have htake : (m.take offset).length = offset := by
    rw [List.length_take]
    omega
  rw [overwrite, List.getElem?_append_right (by omega), htake, Nat.add_sub_cancel_left,
    List.getElem?_append_left hi]

/-- The bytes of a string with a range of its bytes replaced. -/
theorem getElem?_overwrite {m s : Bytes} {offset : Nat} (h : offset + s.length ≤ m.length)
    (i : Nat) :
  (overwrite m offset s)[i]?
    = if offset ≤ i ∧ i < offset + s.length then s[i - offset]? else m[i]?
  := by
  split
  · rename_i hi
    obtain ⟨j, rfl⟩ := Nat.exists_eq_add_of_le hi.1
    rw [getElem?_overwrite_of_mem h (by omega), Nat.add_sub_cancel_left]
  · rcases Nat.lt_or_ge i offset with hi | hi
    · exact getElem?_overwrite_of_lt h hi
    · exact getElem?_overwrite_of_le h (by omega)

/-- The destination after `count` bytes of the source were copied to it. A negative argument and
a copy past the end of one of the two are refused, each with an exception of its own. -/
def blockCopy {ε : Type} {m : Type → Type} [Monad m] [MonadExcept ε m] (negative outside : ε)
    (src : Bytes) (srcOffset : Int) (dst : Bytes) (dstOffset count : Int) : m Bytes :=
  if srcOffset < 0 ∨ dstOffset < 0 ∨ count < 0 then throw negative
  else if src.length < srcOffset + count ∨ dst.length < dstOffset + count then throw outside
  else pure (overwrite dst dstOffset.toNat ((src.drop srcOffset.toNat).take count.toNat))

/-- A copy in range. -/
theorem blockCopy_eq {ε : Type} {m : Type → Type} [Monad m] [MonadExcept ε m] {e e' : ε}
    (src dst : Bytes) (i j n : Nat) (hsrc : i + n ≤ src.length) (hdst : j + n ≤ dst.length) :
  (blockCopy e e' src i dst j n : m Bytes) = pure (overwrite dst j ((src.drop i).take n))
  := by
  rw [blockCopy, if_neg (by omega), if_neg (by omega)]
  rfl

/-- Replacing no byte. -/
theorem overwrite_nil (m : Bytes) (offset : Nat) :
  overwrite m offset [] = m
  := by
  rw [overwrite, List.nil_append, List.length_nil, Nat.add_zero, List.take_append_drop]

/-- Replacing all bytes. -/
theorem overwrite_all {m s : Bytes} (h : s.length = m.length) :
  overwrite m 0 s = s
  := by
  rw [overwrite, List.take_zero, List.nil_append, Nat.zero_add, h, List.drop_length,
    List.append_nil]

/-- Replacing two ranges next to each other. -/
theorem overwrite_append {m s s' : Bytes} {offset : Nat}
    (h : offset + s.length + s'.length ≤ m.length) :
  overwrite (overwrite m offset s) (offset + s.length) s' = overwrite m offset (s ++ s')
  := by
  have hs : offset + s.length ≤ m.length := by omega
  have hs' : offset + s.length + s'.length ≤ (overwrite m offset s).length := by
    rwa [length_overwrite hs]
  have hboth : offset + (s ++ s').length ≤ m.length := by
    rw [List.length_append]
    omega
  apply List.ext_getElem?
  intro i
  rw [getElem?_overwrite hs', getElem?_overwrite hs, getElem?_overwrite hboth,
    List.getElem?_append, List.length_append]
  split_ifs <;> first | rfl | omega | (congr 1; omega)

/-- What is replaced from the middle of two parts on, where the replaced range lies in the
second one. -/
theorem drop_overwrite_of_le {m s : Bytes} {offset k : Nat} (h : offset + s.length ≤ m.length)
    (hk : k ≤ offset) :
  (overwrite m offset s).drop k = overwrite (m.drop k) (offset - k) s
  := by
  have hdrop : offset - k + s.length ≤ (m.drop k).length := by
    rw [List.length_drop]
    omega
  apply List.ext_getElem?
  intro i
  rw [List.getElem?_drop, getElem?_overwrite h, getElem?_overwrite hdrop, List.getElem?_drop]
  split_ifs <;> first | rfl | omega | (congr 1; omega)

/-- What is behind the replaced range is as before. -/
theorem drop_overwrite_of_ge {m s : Bytes} {offset k : Nat} (h : offset + s.length ≤ m.length)
    (hk : offset + s.length ≤ k) :
  (overwrite m offset s).drop k = m.drop k
  := by
  apply List.ext_getElem?
  intro i
  rw [List.getElem?_drop, getElem?_overwrite_of_le h (by omega), List.getElem?_drop]

/-- The front of a string, where the replaced range lies in it. -/
theorem take_overwrite_of_le {m s : Bytes} {offset k : Nat} (h : offset + s.length ≤ m.length)
    (hk : offset + s.length ≤ k) :
  (overwrite m offset s).take k = overwrite (m.take k) offset s
  := by
  have htake : offset + s.length ≤ (m.take k).length := by
    rw [List.length_take]
    omega
  apply List.ext_getElem?
  intro i
  rw [List.getElem?_take, getElem?_overwrite h, getElem?_overwrite htake, List.getElem?_take]
  split_ifs <;> first | rfl | omega

/-- What is in front of the replaced range is as before. -/
theorem take_overwrite_of_ge {m s : Bytes} {offset k : Nat} (h : offset + s.length ≤ m.length)
    (hk : k ≤ offset) :
  (overwrite m offset s).take k = m.take k
  := by
  apply List.ext_getElem?
  intro i
  rw [List.getElem?_take, List.getElem?_take]
  split
  · rw [getElem?_overwrite_of_lt h (by omega)]
  · rfl

/-- The string from the replaced range on begins with what was written. -/
theorem drop_overwrite {m s : Bytes} {offset : Nat} (h : offset ≤ m.length) :
  (overwrite m offset s).drop offset = s ++ m.drop (offset + s.length)
  := by
  have htake : (m.take offset).length = offset := by
    rw [List.length_take]
    omega
  rw [overwrite, List.drop_append_of_le_length (by omega), List.drop_of_length_le (by omega),
    List.nil_append]

/-- Replacing bytes at the front of a later part of a string. -/
theorem append_overwrite_zero (pre slot s : Bytes) :
  pre ++ overwrite slot 0 s = overwrite (pre ++ slot) pre.length s
  := by
  rw [overwrite, overwrite, List.take_zero, List.nil_append, List.take_left, Nat.zero_add,
    List.drop_length_add_append]

/-- Replacing bytes of the first of two strings. -/
theorem overwrite_append_left {pre slot s : Bytes} {offset : Nat}
    (h : offset + s.length ≤ pre.length) :
  overwrite (pre ++ slot) offset s = overwrite pre offset s ++ slot
  := by
  rw [overwrite, overwrite, List.take_append_of_le_length (by omega),
    List.drop_append_of_le_length h, List.append_assoc, List.append_assoc]

/-- Replacing bytes of the second of two strings. -/
theorem overwrite_append_right {pre slot s : Bytes} {offset : Nat} (h : pre.length ≤ offset) :
  overwrite (pre ++ slot) offset s = pre ++ overwrite slot (offset - pre.length) s
  := by
  rw [overwrite, overwrite, List.take_append, List.drop_append, List.take_of_length_le h,
    List.drop_of_length_le (by omega), List.nil_append, List.append_assoc]
  congr 4
  omega

/-- Two strings with the same bytes from `i` to `i + n` hold the same number there. -/
theorem readLE_drop_congr {m m' : Bytes} {i n : Nat}
    (h : ∀ j, i ≤ j → j < i + n → m[j]? = m'[j]?) :
  readLE (m.drop i) n = readLE (m'.drop i) n
  := by
  apply readLE_congr
  apply List.ext_getElem?
  intro j
  rw [List.getElem?_take, List.getElem?_take]
  split
  · rw [List.getElem?_drop, List.getElem?_drop]
    apply h <;> omega
  · rfl

/-- A number written at `offset` is read back from there. -/
theorem readLE_overwrite_same {m : Bytes} {offset n : Nat} (v : Nat) (h : offset ≤ m.length) :
  readLE ((overwrite m offset (toLE n v)).drop offset) n = v % 256 ^ n
  := by
  rw [drop_overwrite h, readLE_toLE_append]

/-- A number read from bytes outside the replaced range is the old one. -/
theorem readLE_overwrite_of_disjoint {m s : Bytes} {offset i n : Nat}
    (h : offset + s.length ≤ m.length) (hi : i + n ≤ offset ∨ offset + s.length ≤ i) :
  readLE ((overwrite m offset s).drop i) n = readLE (m.drop i) n
  := by
  apply readLE_drop_congr
  intro j hij hjn
  rcases hi with hi | hi
  · apply getElem?_overwrite_of_lt h
    omega
  · apply getElem?_overwrite_of_le h
    omega

end Bytes
