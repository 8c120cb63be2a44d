import Mathlib.Data.Nat.ModEq
import Mathlib.Tactic.Ring

/-!
# Double words

A number is held in two words of the same width, the higher and the lower one. Sums, doubles and
negatives are computed word by word, with the carry from the lower word to the higher one.
-/

namespace DoubleWords

variable {w : ℕ}

/-- The number in a higher and a lower word. -/
def value (hi lo : BitVec w) : ℕ := hi.toNat * 2 ^ w + lo.toNat

theorem value_lt (hi lo : BitVec w) :
  value hi lo < 2 ^ (w + w)
  := by
  have hhi : (hi.toNat + 1) * 2 ^ w ≤ 2 ^ w * 2 ^ w := Nat.mul_le_mul_right _ hi.isLt
  have hlo := lo.isLt
  rw [value, Nat.pow_add]
  rw [Nat.add_mul, Nat.one_mul] at hhi
  omega

/-- The two words one after the other. -/
theorem toNat_append (hi lo : BitVec w) :
  (hi ++ lo).toNat = value hi lo
  := by
  rw [BitVec.toNat_append, Nat.shiftLeft_eq, Nat.mul_comm, value,
    ← Nat.two_pow_add_eq_or_of_lt lo.isLt, Nat.mul_comm]

theorem append_eq_ofNat {hi lo : BitVec w} {n : ℕ} (h : value hi lo ≡ n [MOD 2 ^ (w + w)]) :
  hi ++ lo = BitVec.ofNat (w + w) n
  := by
  apply BitVec.eq_of_toNat_eq
  rw [toNat_append, BitVec.toNat_ofNat, ← h, Nat.mod_eq_of_lt (value_lt hi lo)]

/-- What is carried from the lower word is added to the higher one. -/
theorem value_of_carry {hi lo : BitVec w} {h l : ℕ} (hhi : hi.toNat ≡ h + l / 2 ^ w [MOD 2 ^ w])
    (hlo : lo.toNat = l % 2 ^ w) :
  value hi lo ≡ h * 2 ^ w + l [MOD 2 ^ (w + w)]
  := by
  have hdiv : (h + l / 2 ^ w) * 2 ^ w + l % 2 ^ w = h * 2 ^ w + l := by
    rw [Nat.add_mul, Nat.add_assoc, Nat.mul_comm (l / 2 ^ w), Nat.div_add_mod]
  rw [value, hlo, ← hdiv, Nat.pow_add]
  exact (hhi.mul_right' _).add_right _

/-- A sum of double words. There is a carry if the lower word has become smaller. -/
theorem value_add (hi lo hi' lo' : BitVec w) :
  value (hi + (if lo + lo' < lo' then 1#w else 0#w) + hi') (lo + lo') ≡
    value hi lo + value hi' lo' [MOD 2 ^ (w + w)]
  := by
  have hcarry : (if lo + lo' < lo' then 1#w else 0#w).toNat ≡
      (lo.toNat + lo'.toNat) / 2 ^ w [MOD 2 ^ w] := by
    have hlo := lo.isLt
    have hlo' := lo'.isLt
    simp only [BitVec.lt_def, BitVec.toNat_add]
    by_cases hlt : lo.toNat + lo'.toNat < 2 ^ w
    · rw [Nat.mod_eq_of_lt hlt, if_neg (by omega), Nat.div_eq_of_lt hlt]
      rfl
    · have hmod : (lo.toNat + lo'.toNat) % 2 ^ w = lo.toNat + lo'.toNat - 2 ^ w := by
        rw [Nat.mod_eq_sub_mod (by omega), Nat.mod_eq_of_lt (by omega)]
      have hdiv : (lo.toNat + lo'.toNat) / 2 ^ w = 1 :=
        Nat.div_eq_of_lt_le (by omega) (by omega)
      rw [hmod, if_pos (by omega), hdiv]
      exact Nat.mod_modEq 1 (2 ^ w)
  have hhi : (hi + (if lo + lo' < lo' then 1#w else 0#w) + hi').toNat ≡
      hi.toNat + hi'.toNat + (lo.toNat + lo'.toNat) / 2 ^ w [MOD 2 ^ w] := by
    rw [BitVec.toNat_add, BitVec.toNat_add]
    calc
      _ ≡ hi.toNat + (if lo + lo' < lo' then 1#w else 0#w).toNat + hi'.toNat
          [MOD 2 ^ w] := (Nat.mod_modEq _ _).trans ((Nat.mod_modEq _ _).add_right _)
      _ ≡ hi.toNat + (lo.toNat + lo'.toNat) / 2 ^ w + hi'.toNat [MOD 2 ^ w] :=
        (hcarry.add_left _).add_right _
      _ = _ := by omega
  have hvalue := value_of_carry hhi (BitVec.toNat_add lo lo')
  have hsum : (hi.toNat + hi'.toNat) * 2 ^ w + (lo.toNat + lo'.toNat) =
      value hi lo + value hi' lo' := by
    rw [value, value]
    ring
  rwa [hsum] at hvalue

/-- A bit is put into the place that a shift has cleared. -/
theorem toNat_shiftLeft_or (x : BitVec (w + 1)) (bit : Bool) :
  (x <<< 1 ||| if bit then 1#(w + 1) else 0#(w + 1)).toNat ≡
    2 * x.toNat + bit.toNat [MOD 2 ^ (w + 1)]
  := by
  have hbit : (if bit then 1#(w + 1) else 0#(w + 1)).toNat = bit.toNat := by
    cases bit <;> simp
  have hshift : (x <<< 1).toNat = 2 ^ 1 * (x.toNat % 2 ^ w) := by
    rw [BitVec.toNat_shiftLeft, Nat.shiftLeft_eq, Nat.pow_one, Nat.mul_comm, Nat.pow_succ',
      Nat.mul_mod_mul_left]
  rw [BitVec.toNat_or, hbit, hshift, ← Nat.two_pow_add_eq_or_of_lt bit.toNat_lt,
    Nat.pow_one, Nat.pow_succ']
  exact ((Nat.mod_modEq _ _).mul_left' 2).add_right _

/-- A double word is shifted by one bit. -/
theorem value_shiftLeft (hi lo : BitVec (w + 1)) :
  value (hi <<< 1 ||| if lo.msb then 1#(w + 1) else 0#(w + 1)) (lo <<< 1) ≡
    2 * value hi lo [MOD 2 ^ (w + 1 + (w + 1))]
  := by
  have hlo : (lo <<< 1).toNat = 2 * lo.toNat % 2 ^ (w + 1) := by
    rw [BitVec.toNat_shiftLeft, Nat.shiftLeft_eq, Nat.pow_one, Nat.mul_comm]
  have hcarry : lo.msb.toNat = 2 * lo.toNat / 2 ^ (w + 1) := by
    have hlt := lo.isLt
    cases hmsb : lo.msb
    · have hsmall := BitVec.msb_eq_false_iff_two_mul_lt.mp hmsb
      exact (Nat.div_eq_of_lt hsmall).symm
    · have hlarge := BitVec.msb_eq_true_iff_two_mul_ge.mp hmsb
      exact (Nat.div_eq_of_lt_le (by rwa [Bool.toNat_true, Nat.one_mul])
        (by rw [Bool.toNat_true]; omega)).symm
  have hvalue := value_of_carry (hcarry ▸ toNat_shiftLeft_or hi lo.msb) hlo
  have hdouble : 2 * hi.toNat * 2 ^ (w + 1) + 2 * lo.toNat = 2 * value hi lo := by
    rw [value]
    ring
  rwa [hdouble] at hvalue

/-- The negative of a double word. -/
theorem value_neg (hi lo : BitVec w) :
  value (if ~~~lo + 1#w = 0#w then ~~~hi + 1#w else ~~~hi) (~~~lo + 1#w) + value hi lo ≡
    0 [MOD 2 ^ (w + w)]
  := by
  have hlt := lo.isLt
  have hhi : (if ~~~lo + 1#w = 0#w then ~~~hi + 1#w else ~~~hi).toNat ≡
      (~~~hi).toNat + (2 ^ w - lo.toNat) / 2 ^ w [MOD 2 ^ w] := by
    simp only [← BitVec.neg_eq_not_add lo, BitVec.neg_eq_zero_iff]
    by_cases hlo : lo = 0#w
    · rw [if_pos hlo, hlo, BitVec.toNat_zero, Nat.sub_zero, Nat.div_self (Nat.two_pow_pos w),
        BitVec.toNat_add]
      exact (Nat.mod_modEq _ _).trans ((Nat.mod_modEq 1 _).add_left _)
    · have hpos : lo.toNat ≠ 0 := fun h => hlo (BitVec.eq_of_toNat_eq h)
      rw [if_neg hlo, Nat.div_eq_of_lt (by omega)]
      rfl
  have hlo : (~~~lo + 1#w).toNat = (2 ^ w - lo.toNat) % 2 ^ w := by
    rw [← BitVec.neg_eq_not_add, BitVec.toNat_neg]
  have hsum : (~~~hi).toNat * 2 ^ w + (2 ^ w - lo.toNat) + value hi lo = 2 ^ (w + w) := by
    have hnot : (~~~hi).toNat + 1 + hi.toNat = 2 ^ w := by
      have hhi := hi.isLt
      rw [BitVec.toNat_not]
      omega
    calc
      _ = ((~~~hi).toNat + 1 + hi.toNat) * 2 ^ w := by
        rw [value, Nat.add_mul, Nat.add_mul]
        omega
      _ = 2 ^ (w + w) := by rw [hnot, Nat.pow_add]
  calc
    _ ≡ (~~~hi).toNat * 2 ^ w + (2 ^ w - lo.toNat) + value hi lo [MOD 2 ^ (w + w)] :=
      (value_of_carry hhi hlo).add_right _
    _ ≡ 0 [MOD 2 ^ (w + w)] := by rw [hsum]; exact Nat.modEq_zero_iff_dvd.mpr dvd_rfl

theorem append_neg (hi lo : BitVec w) :
  (if ~~~lo + 1#w = 0#w then ~~~hi + 1#w else ~~~hi) ++ (~~~lo + 1#w) = -(hi ++ lo)
  := by
  rw [← BitVec.add_left_inj (hi ++ lo), BitVec.add_left_neg]
  apply BitVec.eq_of_toNat_eq
  rw [BitVec.toNat_add, toNat_append, toNat_append, BitVec.toNat_zero]
  exact value_neg hi lo

end DoubleWords
