import Mathlib.Data.Nat.Log
import Mathlib.Tactic.Ring
import Mathlib.Tactic.Linarith

/-!
# Numbers of the format double

A double has 53 binary digits. A natural number is rounded to the nearest double, and so is the
quotient of two; of two doubles that are equally near it is the one with an even last digit.
-/

namespace Double

/-! ### Rounding a quotient -/

/-- The natural number nearest to a quotient, and the even one of two that are equally near. -/
def roundQuotient (a b : Nat) : Nat :=
  if 2 * (a % b) < b ∨ 2 * (a % b) = b ∧ a / b % 2 = 0 then a / b else a / b + 1

/-- A natural number as a double. -/
def ofNat (a : Nat) : Nat :=
  roundQuotient a (2 ^ (a.log2 - 52)) * 2 ^ (a.log2 - 52)

/-- The ceiling of the quotient of two natural numbers, when the quotient is a double. -/
def ceilQuotient (a b : Nat) : Nat :=
  if a < b then min a 1
  else
    let digits := (a / b).log2
    (roundQuotient (a * 2 ^ (52 - digits)) (b * 2 ^ (digits - 52)) * 2 ^ (digits - 52)
      + (2 ^ (52 - digits) - 1)) / 2 ^ (52 - digits)

section RoundQuotient

variable {a b m : Nat}

/-- A quotient is rounded by at most a half. -/
theorem roundQuotient_near (hb : 0 < b) :
  2 * (roundQuotient a b * b) ≤ 2 * a + b ∧ 2 * a ≤ 2 * (roundQuotient a b * b) + b
  := by
  have hdiv := Nat.div_add_mod' a b
  have hmod := Nat.mod_lt a hb
  rw [roundQuotient]
  split
  · omega
  · rw [Nat.add_mul, Nat.one_mul]
    omega

/-- A quotient that is at least a natural number is rounded to at least that number. -/
theorem le_roundQuotient (hb : 0 < b) (h : m * b ≤ a) :
  m ≤ roundQuotient a b
  := by
  have hle := (Nat.le_div_iff_mul_le hb).mpr h
  rw [roundQuotient]
  split
  · exact hle
  · omega

/-- A quotient is rounded to at most an even number when it is at most a half above it. -/
theorem roundQuotient_le_iff (hb : 0 < b) (hm : m % 2 = 0) :
  roundQuotient a b ≤ m ↔ 2 * a ≤ 2 * (m * b) + b
  := by
  have hdiv := Nat.div_add_mod' a b
  have hmod := Nat.mod_lt a hb
  obtain hlt | heq | hgt := lt_trichotomy (a / b) m
  · have hmul : (a / b + 1) * b ≤ m * b := Nat.mul_le_mul_right b hlt
    rw [Nat.add_mul, Nat.one_mul] at hmul
    rw [roundQuotient]
    split
    · omega
    · omega
  · rw [roundQuotient, ← heq]
    rw [← heq] at hm
    split
    · omega
    · omega
  · have hmul : (m + 1) * b ≤ a / b * b := Nat.mul_le_mul_right b hgt
    rw [Nat.add_mul, Nat.one_mul] at hmul
    rw [roundQuotient]
    split
    · omega
    · omega

end RoundQuotient

/-! ### Multiples -/

section Multiples

variable {a b n : Nat}

/-- A number of at most 53 binary digits is a double. -/
theorem ofNat_of_lt (h : a < 2 ^ 53) :
  ofNat a = a
  := by
  have hlog : a.log2 ≤ 52 := by
    by_cases ha : a = 0
    · simp [ha]
    · exact Nat.lt_succ_iff.mp ((Nat.log2_lt ha).mpr h)
  rw [ofNat, Nat.sub_eq_zero_of_le hlog, pow_zero, roundQuotient, Nat.mod_one, Nat.div_one,
    if_pos (.inl (by omega)), Nat.mul_one]

/-- A multiple of a number is rounded by at most a half of the number, if it is not too large a
multiple. -/
theorem ofNat_near (hn : n ≤ 2 ^ 52) :
  2 * (n * b) ≤ 2 * ofNat (n * b) + b ∧ 2 * ofNat (n * b) ≤ 2 * (n * b) + b
  := by
  have hstep : 2 ^ ((n * b).log2 - 52) ≤ max b 1 := by
    by_cases hlog : (n * b).log2 ≤ 52
    · rw [Nat.sub_eq_zero_of_le hlog]
      exact Nat.le_max_right b 1
    · have hne : n * b ≠ 0 := by
        intro hzero
        rw [hzero] at hlog
        exact hlog (by simp)
      have hle := Nat.log2_self_le hne
      have hsplit : 2 ^ (n * b).log2 = 2 ^ 52 * 2 ^ ((n * b).log2 - 52) := by
        rw [← pow_add]
        congr 1
        omega
      have hmul : n * b ≤ 2 ^ 52 * b := Nat.mul_le_mul_right b hn
      apply le_trans _ (Nat.le_max_left b 1)
      apply Nat.le_of_mul_le_mul_left _ (Nat.two_pow_pos 52)
      rw [← hsplit]
      exact hle.trans hmul
  obtain ⟨hlow, hhigh⟩ := roundQuotient_near (a := n * b) (Nat.two_pow_pos ((n * b).log2 - 52))
  rw [← ofNat] at hlow hhigh
  by_cases hb : b = 0
  · subst hb
    rw [Nat.mul_zero]
    decide
  · omega

/-- A number of parts that is above `m` wholes, of `p` parts each, and at most one more takes
`m + 1` wholes. -/
theorem ceil_of_between {m p x : Nat} (hlow : m * p < x) (hhigh : x ≤ (m + 1) * p) :
  (x + (p - 1)) / p = m + 1
  := by
  have hnext : (m + 1 + 1) * p = (m + 1) * p + p := by ring
  have hsame : (m + 1) * p = m * p + p := by ring
  apply Nat.div_eq_of_lt_le
  · omega
  · omega

/-- A number below `2 ^ 52` leaves digits of a double behind the point. -/
theorem exists_parts {n : Nat} (h : n < 2 ^ 52) :
  ∃ p, 2 ^ (52 - n.log2) = 2 * p ∧ 0 < p ∧ n.log2 - 52 = 0 ∧ 2 * p * 2 * 2 ^ n.log2 = 2 ^ 53
  := by
  have hlog : n.log2 < 52 := by
    by_cases hn : n = 0
    · simp [hn]
    · exact (Nat.log2_lt hn).mpr h
  have hpow : 2 ^ (52 - n.log2) = 2 * 2 ^ (51 - n.log2) := by
    rw [← pow_succ']
    congr 1
    omega
  refine ⟨2 ^ (51 - n.log2), hpow, Nat.two_pow_pos _, by omega, ?_⟩
  rw [← hpow, ← pow_succ, ← pow_add]
  congr 1
  omega

/-- The ceiling of a quotient that is at most a half below a number. -/
theorem ceilQuotient_of_lt (hb : 0 < b) (hsmall : n < 2 ^ 52) (hlow : 2 * (n * b) ≤ 2 * a + b)
    (hlt : a < n * b) :
  ceilQuotient a b = n
  := by
  obtain _ | m := n
  · rw [Nat.zero_mul] at hlt
    omega
  rw [Nat.add_mul, Nat.one_mul] at hlow hlt
  rw [ceilQuotient]
  split
  · rename_i hab
    have hm : m * b < b := by omega
    have hzero : m = 0 := by
      by_contra hm'
      have hmul := Nat.le_mul_of_pos_left b (Nat.pos_of_ne_zero hm')
      omega
    subst hzero
    rw [Nat.zero_mul] at hlow
    omega
  · have hdiv : a / b = m := by
      apply Nat.div_eq_of_lt_le
      · omega
      · rw [Nat.add_mul, Nat.one_mul]
        omega
    obtain ⟨p, hparts, hp, hshift, -⟩ := exists_parts (show m < 2 ^ 52 by omega)
    dsimp only
    rw [hdiv, hparts, hshift, pow_zero, Nat.mul_one, Nat.mul_one]
    apply ceil_of_between
    · apply le_roundQuotient hb
      calc (m * (2 * p) + 1) * b = 2 * (m * b) * p + b * 1 := by ring
        _ ≤ 2 * (m * b) * p + b * p := by gcongr; exact hp
        _ = (2 * (m * b) + b) * p := by ring
        _ ≤ 2 * a * p := by gcongr; omega
        _ = a * (2 * p) := by ring
    · rw [roundQuotient_le_iff hb (by rw [Nat.mul_left_comm, Nat.mul_mod_right])]
      calc 2 * (a * (2 * p)) ≤ 2 * ((m * b + b) * (2 * p)) := by gcongr
        _ = 2 * ((m + 1) * (2 * p) * b) := by ring
        _ ≤ 2 * ((m + 1) * (2 * p) * b) + b := Nat.le_add_right _ _

/-- The ceiling of a quotient that is at most a half above a number is this number, or the next
one where the quotient is more than half a digit above. -/
theorem ceilQuotient_of_le (hb : 0 < b) (hn : 0 < n) (hsmall : n < 2 ^ 52) (hle : n * b ≤ a)
    (hhigh : 2 * a ≤ 2 * (n * b) + b) :
  ceilQuotient a b = if (a - n * b) * 2 ^ 53 ≤ b * 2 ^ n.log2 then n else n + 1
  := by
  obtain ⟨d, rfl⟩ := Nat.exists_eq_add_of_le hle
  obtain ⟨p, hparts, hp, hshift, hdigits⟩ := exists_parts hsmall
  have hnot : ¬ n * b + d < b := by
    have hmul := Nat.le_mul_of_pos_left b hn
    omega
  have hdiv : (n * b + d) / b = n := by
    rw [Nat.mul_comm, Nat.mul_add_div hb, Nat.div_eq_of_lt (by omega), Nat.add_zero]
  have hround : roundQuotient ((n * b + d) * (2 * p)) b ≤ n * (2 * p)
      ↔ d * 2 ^ 53 ≤ b * 2 ^ n.log2 := by
    rw [roundQuotient_le_iff hb (by rw [Nat.mul_left_comm, Nat.mul_mod_right]), ← hdigits,
      ← Nat.mul_assoc d, Nat.mul_le_mul_right_iff (Nat.two_pow_pos _)]
    have hleft : 2 * ((n * b + d) * (2 * p)) = 2 * (n * (2 * p) * b) + d * (2 * p * 2) := by ring
    omega
  rw [ceilQuotient, if_neg hnot, Nat.add_sub_cancel_left]
  dsimp only
  rw [hdiv, hparts, hshift, pow_zero, Nat.mul_one, Nat.mul_one]
  split
  · rename_i hexact
    obtain ⟨m, rfl⟩ : ∃ m, n = m + 1 := ⟨n - 1, by omega⟩
    apply ceil_of_between
    · have hge : (m + 1) * (2 * p) ≤ roundQuotient (((m + 1) * b + d) * (2 * p)) b := by
        apply le_roundQuotient hb
        calc (m + 1) * (2 * p) * b = (m + 1) * b * (2 * p) := by ring
          _ ≤ ((m + 1) * b + d) * (2 * p) := by gcongr
      have hnext : (m + 1) * (2 * p) = m * (2 * p) + 2 * p := by ring
      omega
    · exact hround.mpr hexact
  · rename_i hexact
    rw [← hround, Nat.not_le] at hexact
    apply ceil_of_between hexact
    rw [roundQuotient_le_iff hb (by rw [Nat.mul_left_comm, Nat.mul_mod_right])]
    calc 2 * ((n * b + d) * (2 * p)) = (2 * (n * b + d)) * (2 * p) := by ring
      _ ≤ (2 * (n * b) + b) * (2 * p) := by gcongr
      _ ≤ 2 * ((n + 1) * (2 * p) * b) + b := by
        have hsame : 2 * ((n + 1) * (2 * p) * b) = (2 * (n * b) + 2 * b) * (2 * p) := by ring
        rw [hsame]
        apply le_trans _ (Nat.le_add_right _ _)
        gcongr
        omega

/-- The number of times that a number divides a multiple, where the multiple and the quotient are
rounded to doubles: it is the next number where the rounding adds too much to the multiple. -/
theorem ceilQuotient_ofNat (hb : 0 < b) (hn : n < 2 ^ 52) :
  ceilQuotient (ofNat (n * b)) b
    = if (ofNat (n * b) - n * b) * 2 ^ 53 ≤ b * 2 ^ n.log2 then n else n + 1
  := by
  obtain ⟨hlow, hhigh⟩ := ofNat_near (b := b) hn.le
  obtain hlt | hle := Nat.lt_or_ge (ofNat (n * b)) (n * b)
  · rw [ceilQuotient_of_lt hb hn hlow hlt, Nat.sub_eq_zero_of_le hlt.le, Nat.zero_mul,
      if_pos (Nat.zero_le _)]
  · obtain rfl | hpos := Nat.eq_zero_or_pos n
    · rw [Nat.zero_mul, ofNat_of_lt (by decide), ceilQuotient, if_pos hb,
        if_pos (by rw [Nat.sub_self, Nat.zero_mul]; exact Nat.zero_le _)]
      rfl
    · exact ceilQuotient_of_le hb hpos hn hle hhigh

end Multiples

end Double
