import Mathlib.Algebra.Order.Ring.Abs
import Nachos.Library.DoubleWords
import Nachos.Machine.Basic

/-!
# Multiplication

The loop of `Mult` adds the multiples of `b` for the bits of `a`, from the lowest one on. Its results
are the exact products, of numbers with a sign and of numbers without.
-/

namespace Nachos.Machine

open DoubleWords

/-! ### Bits of the operands -/

theorem sign_eq_msb (x : BitVec 32) :
  sign x = x.msb
  := by
  have hand : x &&& 0x80000000#32 = if x.getLsbD 31 then BitVec.twoPow 32 31 else 0#32 :=
    BitVec.and_twoPow x 31
  rw [sign, hand, BitVec.msb_eq_getLsbD_last]
  cases x.getLsbD 31 <;> rfl

theorem odd_iff (a : BitVec 32) :
  (a &&& 1#32 != 0#32) = true ↔ a.toNat % 2 = 1
  := by
  have hand : (a &&& 1#32).toNat = a.toNat % 2 := by
    rw [BitVec.toNat_and, BitVec.toNat_ofNat, Nat.one_mod_two_pow (by decide), Nat.and_one_is_mod]
  rw [bne_iff_ne, ne_eq, ← BitVec.toNat_inj, hand, BitVec.toNat_zero]
  omega

/-- A number of which no bit but the lowest one is set. -/
theorem toNat_lt_two {a : BitVec 32} (h : a &&& 0xfffffffe#32 = 0#32) :
  a.toNat < 2
  := by
  have hand : a &&& 1#32 = a := by
    calc
      a &&& 1#32 = a &&& 0xfffffffe#32 ||| a &&& 1#32 := by rw [h, BitVec.zero_or]
      _ = a &&& 0xffffffff#32 := by rw [← BitVec.and_or_distrib_left]; rfl
      _ = a := BitVec.and_allOnes
  rw [← hand, BitVec.toNat_and]
  exact Nat.lt_succ_of_le Nat.and_le_right

/-- The bits of a number that has been shifted. What is shifted in from the left is not reached. -/
theorem toNat_sshiftRight_mod {a : BitVec 32} {n : ℕ} (hn : n + 1 ≤ 32) :
  (a.sshiftRight 1).toNat % 2 ^ n = a.toNat / 2 % 2 ^ n
  := by
  apply Nat.eq_of_testBit_eq
  intro i
  rw [Nat.testBit_mod_two_pow, Nat.testBit_mod_two_pow, BitVec.testBit_toNat,
    BitVec.getLsbD_sshiftRight, Nat.testBit_div_two, BitVec.testBit_toNat]
  by_cases hi : i < n
  · have hle : ¬ 32 ≤ i := by omega
    have hlt : i + 1 < 32 := by omega
    simp only [hi, hle, Nat.add_comm 1 i, hlt, decide_true, decide_false, Bool.true_and,
      Bool.not_false, if_true]
  · simp [hi]

/-! ### The loop -/

/-- The remaining iterations add a multiple of `b` for the bits of `a` that are left. -/
theorem value_multLoop {n : ℕ} (hn : n ≤ 32) (a bHi bLo hi lo : BitVec 32) :
  value (multLoop n a bHi bLo hi lo).1 (multLoop n a bHi bLo hi lo).2 ≡
    value hi lo + a.toNat % 2 ^ n * value bHi bLo [MOD 2 ^ (32 + 32)]
  := by
  induction n generalizing a bHi bLo hi lo with
  | zero => simp [multLoop, Nat.mod_one, Nat.ModEq]
  | succ n ih =>
      have hbits : a.toNat % 2 ^ (n + 1) = a.toNat % 2 + 2 * (a.toNat / 2 % 2 ^ n) := by
        rw [Nat.pow_succ', Nat.mod_mul]
      -- The double word after the sum for the lowest bit.
      have hsum (hodd : a.toNat % 2 = 1) :
          value (hi + (if lo + bLo < bLo then 1#32 else 0#32) + bHi) (lo + bLo) ≡
            value hi lo + a.toNat % 2 * value bHi bLo [MOD 2 ^ (32 + 32)] := by
        rw [hodd, Nat.one_mul]
        exact value_add hi lo bHi bLo
      have hnext (hi' lo' : BitVec 32)
          (h : value hi' lo' ≡ value hi lo + a.toNat % 2 * value bHi bLo [MOD 2 ^ (32 + 32)]) :
          let result := multLoop n (a.sshiftRight 1)
            (bHi <<< 1 ||| (if sign bLo then 1#32 else 0#32)) (bLo <<< 1) hi' lo'
          value result.1 result.2 ≡
            value hi lo + a.toNat % 2 ^ (n + 1) * value bHi bLo [MOD 2 ^ (32 + 32)] := by
        rw [sign_eq_msb]
        intro result
        calc
          value result.1 result.2
          _ ≡ value hi' lo' + a.toNat / 2 % 2 ^ n *
                value (bHi <<< 1 ||| if bLo.msb then 1#32 else 0#32) (bLo <<< 1)
                [MOD 2 ^ (32 + 32)] := by
            rw [← toNat_sshiftRight_mod hn]
            exact ih (by omega) ..
          _ ≡ value hi lo + a.toNat % 2 * value bHi bLo +
                a.toNat / 2 % 2 ^ n * (2 * value bHi bLo) [MOD 2 ^ (32 + 32)] :=
            h.add ((value_shiftLeft bHi bLo).mul_left _)
          _ = value hi lo + a.toNat % 2 ^ (n + 1) * value bHi bLo := by
            rw [hbits]
            ring
      by_cases hodd : a.toNat % 2 = 1
      · have hset := (odd_iff a).mpr hodd
        by_cases hlast : a &&& 0xfffffffe#32 = 0#32
        · have hone : a.toNat / 2 = 0 := Nat.div_eq_of_lt (toNat_lt_two hlast)
          have hbit : a.toNat % 2 ^ (n + 1) = a.toNat % 2 := by
            rw [hbits, hone, Nat.zero_mod, Nat.mul_zero, Nat.add_zero]
          simp only [multLoop, hset, hlast, if_pos, hbit, Bool.true_and, beq_self_eq_true]
          exact hsum hodd
        · have hmore : (a &&& 0xfffffffe#32 == 0#32) = false := beq_eq_false_iff_ne.mpr hlast
          simp only [multLoop, hset, hmore, if_pos, Bool.and_false, Bool.false_eq_true, if_false]
          exact hnext _ _ (hsum hodd)
      · have hclear : (a &&& 1#32 != 0#32) = false :=
          Bool.eq_false_iff.mpr (fun h => hodd ((odd_iff a).mp h))
        have heven : a.toNat % 2 = 0 := by omega
        simp only [multLoop, hclear, Bool.false_and, Bool.false_eq_true, if_false]
        apply hnext
        suffices value hi lo = value hi lo + a.toNat % 2 * value bHi bLo from congrArg (· % _) this
        rw [heven, Nat.zero_mul, Nat.add_zero]

/-- All bits of `a` have been used after 32 iterations. -/
theorem append_multLoop (a b : BitVec 32) :
  (multLoop 32 a 0#32 b 0#32 0#32).1 ++ (multLoop 32 a 0#32 b 0#32 0#32).2 =
    BitVec.ofNat 64 (a.toNat * b.toNat)
  := by
  apply append_eq_ofNat
  have hvalue := value_multLoop (Nat.le_refl 32) a 0#32 b 0#32 0#32
  rw [Nat.mod_eq_of_lt a.isLt] at hvalue
  simpa [value] using hvalue

/-! ### The products -/

/-- The size of a number, in a word without a sign. Also that of the smallest number fits. -/
theorem toNat_natAbs (a : BitVec 32) :
  (if sign a then -a else a).toNat = a.toInt.natAbs
  := by
  rw [sign_eq_msb, BitVec.toInt_eq_msb_cond]
  have hlt := a.isLt
  by_cases hmsb : a.msb = true
  · have hge := BitVec.msb_eq_true_iff_two_mul_ge.mp hmsb
    rw [if_pos hmsb, if_pos hmsb, BitVec.toNat_neg, Nat.mod_eq_of_lt (by omega)]
    omega
  · rw [if_neg hmsb, if_neg hmsb, Int.natAbs_natCast]

theorem toInt_of_sign (a : BitVec 32) :
  a.toInt = if sign a then -(a.toInt.natAbs : ℤ) else a.toInt.natAbs
  := by
  have hsign : sign a = decide (a.toInt < 0) := by
    rw [sign_eq_msb, BitVec.msb_eq_toInt]
  rw [hsign]
  by_cases hneg : a.toInt < 0
  · rw [if_pos (decide_eq_true hneg)]
    omega
  · rw [if_neg (by simpa using hneg)]
    omega

theorem ofInt_mul_natAbs (a b : BitVec 32) :
  BitVec.ofInt 64 (a.toInt * b.toInt) =
    if sign a != sign b then -BitVec.ofNat 64 (a.toInt.natAbs * b.toInt.natAbs)
    else BitVec.ofNat 64 (a.toInt.natAbs * b.toInt.natAbs)
  := by
  rw [← BitVec.ofInt_natCast, Nat.cast_mul, ← BitVec.ofInt_neg]
  conv_lhs => rw [toInt_of_sign a, toInt_of_sign b]
  cases sign a <;> cases sign b <;> simp

/-- The double word is negated when the signs are not the same. -/
theorem mult_signed (a b : BitVec 32) :
  (mult a b true).1 ++ (mult a b true).2 = BitVec.ofInt 64 (a.toInt * b.toInt)
  := by
  unfold mult
  by_cases hzero : a = 0#32 ∨ b = 0#32
  · rw [if_pos hzero]
    rcases hzero with rfl | rfl <;> simp
  · rw [if_neg hzero, ofInt_mul_natAbs]
    have hprod := append_multLoop (if sign a then -a else a) (if sign b then -b else b)
    rw [toNat_natAbs, toNat_natAbs] at hprod
    simp only [Bool.true_and, ← hprod]
    cases sign a != sign b
    · rfl
    · exact append_neg _ _

theorem mult_unsigned (a b : BitVec 32) :
  (mult a b false).1 ++ (mult a b false).2 = BitVec.ofNat 64 (a.toNat * b.toNat)
  := by
  unfold mult
  by_cases hzero : a = 0#32 ∨ b = 0#32
  · rw [if_pos hzero]
    rcases hzero with rfl | rfl <;> simp
  · rw [if_neg hzero]
    exact append_multLoop a b

theorem toInt_mul_bound (a b : BitVec 32) :
  -2 ^ 63 ≤ a.toInt * b.toInt ∧ a.toInt * b.toInt < 2 ^ 63
  := by
  have ha : |a.toInt| ≤ 2 ^ 31 := abs_le.mpr ⟨BitVec.le_toInt a, BitVec.toInt_lt.le⟩
  have hb : |b.toInt| ≤ 2 ^ 31 := abs_le.mpr ⟨BitVec.le_toInt b, BitVec.toInt_lt.le⟩
  have hmul : |a.toInt * b.toInt| ≤ 2 ^ 31 * 2 ^ 31 := by
    rw [abs_mul]
    exact mul_le_mul ha hb (abs_nonneg _) (by decide)
  obtain ⟨hge, hle⟩ := abs_le.mp hmul
  constructor <;> omega

/-- The two words are the product of the operands, exactly. -/
theorem mult_exact (a b : BitVec 32) :
  ((mult a b true).1 ++ (mult a b true).2).toInt = a.toInt * b.toInt ∧
    ((mult a b false).1 ++ (mult a b false).2).toNat = a.toNat * b.toNat
  := by
  rw [mult_signed, mult_unsigned]
  constructor
  · obtain ⟨hge, hlt⟩ := toInt_mul_bound a b
    exact BitVec.toInt_ofInt_eq_self (by decide) hge hlt
  · rw [BitVec.toNat_ofNat]
    have hlt : a.toNat * b.toNat < 2 ^ 32 * 2 ^ 32 := Nat.mul_lt_mul'' a.isLt b.isLt
    exact Nat.mod_eq_of_lt hlt

end Nachos.Machine
