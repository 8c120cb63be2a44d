import Mathlib.Data.Finset.Card
import Mathlib.Data.Finset.Range
import Mathlib.Data.Int.Order.Basic
import Nachos.Library.Bits
import Nachos.Library.DataTypes

/-!
# Bit maps

`userprog/bitmap.cc`: the bits are in words of 32 bits, of which the last one may be used in part. The
map represents the set of the numbers whose bits are set. A failed assertion is `none`.
-/

namespace Nachos.Userprog

def BitsInWord : ℕ := 32

def divRoundUp (n s : ℕ) : ℕ := n / s + if 0 < n % s then 1 else 0

structure BitMap (numBits : ℕ) where
  map : Fin (divRoundUp numBits BitsInWord) → BitVec 32

namespace BitMap

variable {numBits : ℕ}

/-- What the assertions check. -/
def InRange (numBits : ℕ) (which : ℤ) : Prop := 0 ≤ which ∧ which < numBits

instance (numBits : ℕ) (which : ℤ) : Decidable (InRange numBits which) := by
  unfold InRange
  infer_instance

theorem div_lt {i : ℕ} (hi : i < numBits) :
  i / BitsInWord < divRoundUp numBits BitsInWord
  := by
  rw [BitsInWord, divRoundUp]
  split <;> omega

theorem InRange.toNat_lt {which : ℤ} (h : InRange numBits which) :
  which.toNat < numBits
  := by
  have hlt := h.2
  have hnonneg := h.1
  omega

/-- The word of a bit, and its place there. -/
def word {which : ℤ} (h : InRange numBits which) : Fin (divRoundUp numBits BitsInWord) :=
  ⟨which.toNat / BitsInWord, div_lt h.toNat_lt⟩

def place (which : ℤ) : ℕ := which.toNat % BitsInWord

def mark (m : BitMap numBits) (which : ℤ) : Option (BitMap numBits) :=
  if h : InRange numBits which then
    some ⟨Function.update m.map (word h) (m.map (word h) ||| 1#32 <<< place which)⟩
  else none

def clear (m : BitMap numBits) (which : ℤ) : Option (BitMap numBits) :=
  if h : InRange numBits which then
    some ⟨Function.update m.map (word h) (m.map (word h) &&& ~~~(1#32 <<< place which))⟩
  else none

def test (m : BitMap numBits) (which : ℤ) : Option Bool :=
  if h : InRange numBits which then some (m.map (word h) &&& 1#32 <<< place which != 0#32)
  else none

/-- The loop of `Find` for the remaining bits. -/
def findLoop (m : BitMap numBits) : ℕ → ℕ → Option (ℤ × BitMap numBits)
  | 0, _ => some (-1, m)
  | n + 1, i => do
      if !(← m.test i) then
        let m ← m.mark i
        return (i, m)
      else m.findLoop n (i + 1)

def find (m : BitMap numBits) : Option (ℤ × BitMap numBits) := m.findLoop numBits 0

/-- The loop of `NumClear` for the remaining bits. -/
def numClearLoop (m : BitMap numBits) : ℕ → ℕ → ℤ → Option ℤ
  | 0, _, count => some count
  | n + 1, i, count => do
      if !(← m.test i) then m.numClearLoop n (i + 1) (count + 1)
      else m.numClearLoop n (i + 1) count

def numClear (m : BitMap numBits) : Option ℤ := m.numClearLoop numBits 0 0

/-- The loop of the constructor for the remaining bits. -/
def newLoop : ℕ → ℕ → BitMap numBits → Option (BitMap numBits)
  | 0, _, m => some m
  | n + 1, i, m => (m.clear i).bind (newLoop n (i + 1))

/-- `BitMap::BitMap`. The words are allocated with what is in memory. -/
def new (memory : Fin (divRoundUp numBits BitsInWord) → BitVec 32) : Option (BitMap numBits) :=
  newLoop numBits 0 ⟨memory⟩

end BitMap

/-! ### Operations -/

inductive Operation where
  | mark (which : ℤ)
  | clear (which : ℤ)
  | test (which : ℤ)
  | find
  | numClear

inductive Answer where
  | done
  | truth (b : Bool)
  | number (n : ℤ)
deriving DecidableEq

/-- The argument is the number of a bit. -/
def Operation.InRange (numBits : ℕ) : Operation → Prop
  | .mark which | .clear which | .test which => BitMap.InRange numBits which
  | .find | .numClear => True

/-- An operation on a bit map. -/
def BitMap.perform {numBits : ℕ} (m : BitMap numBits) : Operation → Option (Answer × BitMap numBits)
  | .mark which => (m.mark which).map (.done, ·)
  | .clear which => (m.clear which).map (.done, ·)
  | .test which => (m.test which).map (.truth ·, m)
  | .find => m.find.map (fun r => (.number r.1, r.2))
  | .numClear => m.numClear.map (.number ·, m)

/-- An operation on a set of numbers below `numBits`. -/
inductive Acts (numBits : ℕ) : Finset ℕ → Operation → Answer → Finset ℕ → Prop
  | mark (s : Finset ℕ) (i : ℕ) : Acts numBits s (.mark i) .done (insert i s)
  | clear (s : Finset ℕ) (i : ℕ) : Acts numBits s (.clear i) .done (s.erase i)
  | test (s : Finset ℕ) (i : ℕ) : Acts numBits s (.test i) (.truth (decide (i ∈ s))) s
  | found {s : Finset ℕ} {i : ℕ} (hi : i < numBits) (hclear : i ∉ s) (hleast : ∀ j < i, j ∈ s) :
      Acts numBits s .find (.number i) (insert i s)
  | full {s : Finset ℕ} (hfull : ∀ i < numBits, i ∈ s) : Acts numBits s .find (.number (-1)) s
  | numClear (s : Finset ℕ) : Acts numBits s .numClear (.number (numBits - s.card)) s

namespace BitMap

variable {numBits : ℕ}

/-! ### Bits -/

def bit (m : BitMap numBits) (i : ℕ) : Bool :=
  if h : i < numBits then (m.map ⟨i / BitsInWord, div_lt h⟩).getLsbD (i % BitsInWord) else false

theorem inRange_natCast {i : ℕ} (hi : i < numBits) :
  InRange numBits i
  := ⟨Int.natCast_nonneg i, Int.ofNat_lt.mpr hi⟩

theorem place_lt (which : ℤ) :
  place which < 32
  := Nat.mod_lt _ (by decide)

/-- Two bits are the same if they are at the same place of the same word. -/
theorem eq_iff_place {i j : ℕ} (hi : i < numBits) (hj : j < numBits) :
  (⟨i / BitsInWord, div_lt hi⟩ : Fin (divRoundUp numBits BitsInWord)) = word (inRange_natCast hj) ∧
      i % BitsInWord = place j ↔
    i = j
  := by
  rw [word, place, Fin.mk.injEq, BitsInWord, Int.toNat_natCast]
  omega

theorem test_eq (m : BitMap numBits) {i : ℕ} (hi : i < numBits) :
  m.test i = some (m.bit i)
  := by
  rw [test, dif_pos (inRange_natCast hi), bit, dif_pos hi]
  exact congrArg some (Bits.and_mask_ne_zero _ (place_lt i))

theorem exists_mark (m : BitMap numBits) {i : ℕ} (hi : i < numBits) :
  ∃ m', m.mark i = some m' ∧ ∀ j < numBits, m'.bit j = (decide (j = i) || m.bit j)
  := by
  refine ⟨_, dif_pos (inRange_natCast hi), ?_⟩
  intro j hj
  have hset := Bits.getLsbD_set m.map (word (inRange_natCast hi)) ⟨j / BitsInWord, div_lt hj⟩
    (place_lt i) (j % BitsInWord)
  rw [decide_eq_decide.mpr (eq_iff_place hj hi)] at hset
  rw [bit, bit, dif_pos hj, dif_pos hj]
  exact hset

theorem exists_clear (m : BitMap numBits) {i : ℕ} (hi : i < numBits) :
  ∃ m', m.clear i = some m' ∧ ∀ j < numBits, m'.bit j = (!decide (j = i) && m.bit j)
  := by
  refine ⟨_, dif_pos (inRange_natCast hi), ?_⟩
  intro j hj
  have hclear := Bits.getLsbD_clear m.map (word (inRange_natCast hi)) ⟨j / BitsInWord, div_lt hj⟩
    (place i) (Nat.mod_lt j (by decide) : j % BitsInWord < 32)
  rw [decide_eq_decide.mpr (eq_iff_place hj hi)] at hclear
  rw [bit, bit, dif_pos hj, dif_pos hj]
  exact hclear

/-! ### Loops -/

/-- The loop of `Find`, when the bits before `i` are set. -/
theorem findLoop_spec (m : BitMap numBits) {n i : ℕ} (hn : n + i = numBits)
    (hset : ∀ j < i, m.bit j = true) :
  (∃ (k : ℕ) (m' : BitMap numBits), m.findLoop n i = some ((k : ℤ), m') ∧ k < numBits ∧
      m.bit k = false ∧ (∀ j < k, m.bit j = true) ∧ m.mark k = some m') ∨
    m.findLoop n i = some (-1, m) ∧ ∀ j < numBits, m.bit j = true
  := by
  induction n generalizing i with
  | zero =>
      rw [Nat.zero_add] at hn
      exact .inr ⟨rfl, hn ▸ hset⟩
  | succ n ih =>
      have hi : i < numBits := by omega
      have htest := m.test_eq hi
      cases hbit : m.bit i with
      | false =>
          left
          obtain ⟨m', hmark, -⟩ := m.exists_mark hi
          refine ⟨i, m', ?_, hi, hbit, hset, hmark⟩
          rw [findLoop, htest, hbit]
          simp [hmark]
      | true =>
          have hloop : m.findLoop (n + 1) i = m.findLoop n (i + 1) := by
            conv_lhs => rw [findLoop, htest, hbit]
            rfl
          rw [hloop]
          apply ih (by omega)
          intro j hj
          rcases Nat.lt_succ_iff_lt_or_eq.mp hj with hj | rfl
          · exact hset j hj
          · exact hbit

/-- The bits before `i` that are clear. -/
def clearBefore (m : BitMap numBits) (i : ℕ) : Finset ℕ :=
  (Finset.range i).filter (fun j => m.bit j = false)

theorem card_clearBefore_succ (m : BitMap numBits) (i : ℕ) :
  (m.clearBefore (i + 1)).card = (m.clearBefore i).card + if m.bit i = false then 1 else 0
  := by
  have hnotMem : i ∉ (Finset.range i).filter (fun j => m.bit j = false) := by simp
  rw [clearBefore, clearBefore, Finset.range_add_one, Finset.filter_insert]
  split
  · rw [Finset.card_insert_of_notMem hnotMem]
  · rfl

/-- The loop of `NumClear`, when the bits before `i` have been counted. -/
theorem numClearLoop_spec (m : BitMap numBits) {n i : ℕ} (hn : n + i = numBits) :
  m.numClearLoop n i (m.clearBefore i).card = some ((m.clearBefore numBits).card : ℤ)
  := by
  induction n generalizing i with
  | zero =>
      rw [Nat.zero_add] at hn
      rw [hn]
      rfl
  | succ n ih =>
      have htest : m.test i = some (m.bit i) := m.test_eq (by omega)
      have hnext := ih (i := i + 1) (by omega)
      rw [card_clearBefore_succ] at hnext
      rw [numClearLoop, htest]
      cases hbit : m.bit i with
      | false => simpa [hbit] using hnext
      | true => simpa [hbit] using hnext

/-- The loop of the constructor leaves the remaining bits clear, and those before as they are. -/
theorem newLoop_spec (m : BitMap numBits) {n i : ℕ} (hn : n + i = numBits)
    (hclear : ∀ j < i, m.bit j = false) :
  ∃ m', newLoop n i m = some m' ∧ ∀ j < numBits, m'.bit j = false
  := by
  induction n generalizing i m with
  | zero =>
      rw [Nat.zero_add] at hn
      exact ⟨m, rfl, hn ▸ hclear⟩
  | succ n ih =>
      obtain ⟨m₁, hm₁, hbit⟩ := m.exists_clear (i := i) (by omega)
      obtain ⟨m', hloop, hm'⟩ := ih m₁ (i := i + 1) (by omega) (by
        intro j hj
        rw [hbit j (by omega)]
        by_cases h : j = i
        · simp [h]
        · simp [hclear j (by omega)])
      refine ⟨m', ?_, hm'⟩
      rw [newLoop, hm₁]
      exact hloop

/-! ### The set of a map -/

/-- The numbers whose bits are set. -/
def elements (m : BitMap numBits) : Finset ℕ :=
  (Finset.range numBits).filter (fun i => m.bit i = true)

theorem mem_elements {m : BitMap numBits} {i : ℕ} :
  i ∈ m.elements ↔ m.bit i = true
  := by
  rw [elements, Finset.mem_filter, Finset.mem_range, and_iff_right_iff_imp]
  intro h
  by_contra hi
  rw [bit, dif_neg hi] at h
  contradiction

theorem lt_of_mem_elements {m : BitMap numBits} {i : ℕ} (h : i ∈ m.elements) :
  i < numBits
  := Finset.mem_range.mp (Finset.filter_subset _ _ h)

theorem elements_mark {m : BitMap numBits} {i : ℕ} (hi : i < numBits) :
  ∃ m', m.mark i = some m' ∧ m'.elements = insert i m.elements
  := by
  obtain ⟨m', hmark, hbit⟩ := m.exists_mark hi
  refine ⟨m', hmark, ?_⟩
  ext j
  rw [Finset.mem_insert]
  by_cases hj : j < numBits
  · rw [mem_elements, mem_elements, hbit j hj, Bool.or_eq_true, decide_eq_true_iff]
  · have hout : ∀ m : BitMap numBits, j ∉ m.elements := fun _ h => hj (lt_of_mem_elements h)
    have hne : j ≠ i := fun h => hj (h ▸ hi)
    simp [hout, hne]

theorem elements_clear {m : BitMap numBits} {i : ℕ} (hi : i < numBits) :
  ∃ m', m.clear i = some m' ∧ m'.elements = m.elements.erase i
  := by
  obtain ⟨m', hclear, hbit⟩ := m.exists_clear hi
  refine ⟨m', hclear, ?_⟩
  ext j
  rw [Finset.mem_erase]
  by_cases hj : j < numBits
  · rw [mem_elements, mem_elements, hbit j hj, Bool.and_eq_true, Bool.not_eq_true',
      decide_eq_false_iff_not]
  · have hout : ∀ m : BitMap numBits, j ∉ m.elements := fun _ h => hj (lt_of_mem_elements h)
    simp [hout]

theorem card_clearBefore (m : BitMap numBits) :
  ((m.clearBefore numBits).card : ℤ) = numBits - m.elements.card
  := by
  have hcard := (Finset.range numBits).card_filter_add_card_filter_not (fun i => m.bit i = true)
  simp only [Bool.not_eq_true, Finset.card_range] at hcard
  rw [clearBefore, elements]
  omega

/-- Every operation does on the map what it does on the set. -/
theorem represents :
  DataType.Represents (@BitMap.perform numBits) (Acts numBits)
    (fun m s => s = m.elements) (fun _ op => op.InRange numBits)
  := by
  rintro m s op rfl hop
  cases op with
  | mark which =>
      obtain ⟨i, rfl⟩ := Int.eq_ofNat_of_zero_le hop.1
      obtain ⟨m', hmark, helements⟩ := elements_mark (m := m) (Int.ofNat_lt.mp hop.2)
      exact ⟨.done, m', _, by rw [perform, hmark]; rfl, .mark _ i, helements.symm⟩
  | clear which =>
      obtain ⟨i, rfl⟩ := Int.eq_ofNat_of_zero_le hop.1
      obtain ⟨m', hclear, helements⟩ := elements_clear (m := m) (Int.ofNat_lt.mp hop.2)
      exact ⟨.done, m', _, by rw [perform, hclear]; rfl, .clear _ i, helements.symm⟩
  | test which =>
      obtain ⟨i, rfl⟩ := Int.eq_ofNat_of_zero_le hop.1
      refine ⟨_, m, _, ?_, .test _ i, rfl⟩
      have hbit : m.bit i = decide (i ∈ m.elements) := by
        rw [Bool.eq_iff_iff, decide_eq_true_iff, mem_elements]
      rw [perform, m.test_eq (Int.ofNat_lt.mp hop.2), hbit]
      rfl
  | find =>
      obtain ⟨k, m', hfind, hk, hclear, hset, hmark⟩ | ⟨hfind, hset⟩ :=
        m.findLoop_spec (n := numBits) (i := 0) rfl (fun j hj => absurd hj (Nat.not_lt_zero j))
      · obtain ⟨m₁, hmark₁, helements⟩ := elements_mark (m := m) hk
        obtain rfl : m₁ = m' := Option.some.inj (hmark₁.symm.trans hmark)
        refine ⟨_, m₁, _, by rw [perform, find, hfind]; rfl, .found hk ?_ ?_, helements.symm⟩
        · rw [mem_elements, hclear]
          exact Bool.false_ne_true
        · exact fun j hj => mem_elements.mpr (hset j hj)
      · exact ⟨_, m, _, by rw [perform, find, hfind]; rfl,
          .full (fun i hi => mem_elements.mpr (hset i hi)), rfl⟩
  | numClear =>
      refine ⟨_, m, _, ?_, .numClear _, rfl⟩
      have hcount : m.numClear = some ((m.clearBefore numBits).card : ℤ) :=
        m.numClearLoop_spec rfl
      rw [perform, hcount, card_clearBefore]
      rfl

theorem elements_new (memory : Fin (divRoundUp numBits BitsInWord) → BitVec 32) :
  ∃ m : BitMap numBits, new memory = some m ∧ m.elements = ∅
  := by
  obtain ⟨m, hnew, hbit⟩ := newLoop_spec (⟨memory⟩ : BitMap numBits) (n := numBits) (i := 0) rfl
    (fun j hj => absurd hj (Nat.not_lt_zero j))
  refine ⟨m, hnew, Finset.filter_eq_empty_iff.mpr ?_⟩
  intro i hi
  rw [hbit i (Finset.mem_range.mp hi)]
  exact Bool.false_ne_true

/-- A bit map that has been created answers like a set that is empty at first. No assertion fails. -/
theorem refines_finset (memory : Fin (divRoundUp numBits BitsInWord) → BitVec 32)
    {ops : List Operation} (hops : ∀ op ∈ ops, op.InRange numBits) :
  ∃ (m m' : BitMap numBits) (answers : List Answer), new memory = some m ∧
    DataType.run perform m ops = some (answers, m') ∧
      DataType.Runs (Acts numBits) ∅ ops answers m'.elements
  := by
  obtain ⟨m, hnew, hempty⟩ := elements_new memory
  obtain ⟨answers, m', s, hrun, hruns, rfl⟩ := represents.run hempty.symm
    (DataType.along_of_forall hops m)
  exact ⟨m, m', answers, hnew, hrun, hruns⟩

/-- Bits on both sides of a word boundary, in memory that is not clear at first. -/
theorem refines_finset_boundary :
  ∃ (m m' : BitMap 33) (answers : List Answer), new (fun _ => 0xffffffff#32) = some m ∧
    DataType.run perform m [.mark 32, .mark 31, .find, .clear 32, .test 31, .numClear] =
      some (answers, m') ∧
    DataType.Runs (Acts 33) ∅ [.mark 32, .mark 31, .find, .clear 32, .test 31, .numClear] answers
      m'.elements
  := by
  apply refines_finset
  simp [Operation.InRange, InRange]

end BitMap

end Nachos.Userprog
