import Mathlib.Data.Nat.Notation
import Mathlib.Logic.Function.Basic

/-!
# Bits

A bit of a word is tested, set and cleared by a mask with one bit.
-/

namespace Bits

variable {w : ℕ} {ι : Type*} [DecidableEq ι]

/-- The mask of a bit. -/
def mask (w j : ℕ) : BitVec w := 1#w <<< j

theorem mask_eq_twoPow (w j : ℕ) :
  mask w j = BitVec.twoPow w j
  := (BitVec.twoPow_eq w j).symm

theorem and_mask_ne_zero (x : BitVec w) {j : ℕ} (hj : j < w) :
  (x &&& mask w j != 0#w) = x.getLsbD j
  := by
  rw [mask_eq_twoPow, BitVec.and_twoPow]
  cases x.getLsbD j
  · simp
  · have hne : BitVec.twoPow w j ≠ 0#w := by
      intro h
      have hbit := congrArg (BitVec.getLsbD · j) h
      simp [hj] at hbit
    simpa using hne

theorem getLsbD_or_mask (x : BitVec w) {j : ℕ} (hj : j < w) (i : ℕ) :
  (x ||| mask w j).getLsbD i = (decide (i = j) || x.getLsbD i)
  := by
  rw [mask_eq_twoPow, BitVec.getLsbD_or, BitVec.getLsbD_twoPow, Bool.or_comm]
  simp [hj, eq_comm]

theorem getLsbD_and_not_mask (x : BitVec w) (j : ℕ) {i : ℕ} (hi : i < w) :
  (x &&& ~~~mask w j).getLsbD i = (!decide (i = j) && x.getLsbD i)
  := by
  rw [mask_eq_twoPow, BitVec.getLsbD_and, BitVec.getLsbD_not, BitVec.getLsbD_twoPow, Bool.and_comm]
  by_cases h : i = j
  · simp [h]
  · simp [h, hi, Ne.symm h]

/-! ### Words of bits -/

/-- A bit of one of the words is set. -/
def set (map : ι → BitVec w) (k : ι) (j : ℕ) : ι → BitVec w :=
  Function.update map k (map k ||| mask w j)

/-- A bit of one of the words is cleared. -/
def clear (map : ι → BitVec w) (k : ι) (j : ℕ) : ι → BitVec w :=
  Function.update map k (map k &&& ~~~mask w j)

theorem getLsbD_set (map : ι → BitVec w) (k k' : ι) {j : ℕ} (hj : j < w) (j' : ℕ) :
  (set map k j k').getLsbD j' = (decide (k' = k ∧ j' = j) || (map k').getLsbD j')
  := by
  by_cases hk : k' = k
  · subst hk
    rw [set, Function.update_self, getLsbD_or_mask _ hj]
    simp
  · rw [set, Function.update_of_ne hk]
    simp [hk]

theorem getLsbD_clear (map : ι → BitVec w) (k k' : ι) (j : ℕ) {j' : ℕ} (hj' : j' < w) :
  (clear map k j k').getLsbD j' = (!decide (k' = k ∧ j' = j) && (map k').getLsbD j')
  := by
  by_cases hk : k' = k
  · subst hk
    rw [clear, Function.update_self, getLsbD_and_not_mask _ _ hj']
    simp
  · rw [clear, Function.update_of_ne hk]
    simp [hk]

end Bits
