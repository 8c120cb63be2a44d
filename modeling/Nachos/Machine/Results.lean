import Nachos.Machine.Architecture
import Nachos.Machine.Multiplication
import Nachos.Machine.Restart

/-!
# The results of the instructions

The machine compared with the architecture, for one instruction that is fetched and executed without
a fault while no load is pending. The operations that do not always agree are listed in `Conforms`.
-/

namespace Nachos.Machine

open Nachos.Memory (VM)

/-! ### Decoding -/

/-- Arithmetic and logical operations, shifts, comparisons, branches and jumps. -/
def OpCode.Computes : OpCode → Bool
  | .LB | .LBU | .LH | .LHU | .LW | .LWL | .LWR | .SB | .SH | .SW | .SWL | .SWR => false
  | .RFE | .SYSCALL | .UNIMP | .RES => false
  | _ => true

/-- The format of the operations among them. -/
def OpCode.format : OpCode → Format
  | .J | .JAL => .JFMT
  | .ADDI | .ADDIU | .ANDI | .BEQ | .BGEZ | .BGEZAL | .BGTZ | .BLEZ | .BLTZ | .BLTZAL | .BNE | .LUI
  | .ORI | .SLTI | .SLTIU | .XORI => .IFMT
  | _ => .RFMT

theorem toNat_extract (value : BitVec 32) (shift width : ℕ) :
  (value.extractLsb' shift width).toNat = field value shift width
  := by
  rw [BitVec.extractLsb'_toNat, field, Nat.shiftRight_eq_div_pow]

/-- What an entry of the first table says about the architecture. -/
def Tabled (p : ℕ) : Op × Format → Prop
  | (.op op, format) => op.Computes = true →
      p ≠ 0 ∧ p ≠ 1 ∧ Mips.primary p = some op ∧ op.format = format
  | (.SPECIAL, format) => p = 0 ∧ format = .RFMT
  | (.BCOND, format) => p = 1 ∧ format = .IFMT

instance (p : ℕ) : DecidablePred (Tabled p)
  | (.op _, _) => inferInstanceAs (Decidable (_ → _))
  | (.SPECIAL, _) => inferInstanceAs (Decidable (_ ∧ _))
  | (.BCOND, _) => inferInstanceAs (Decidable (_ ∧ _))

theorem opTable_tabled (p : Fin 64) :
  Tabled p (opTable.getD p (.op .RES, .IFMT))
  := by
  revert p
  decide

theorem specialTable_spec (f : Fin 64) :
  (specialTable.getD f .RES).Computes = true →
    Mips.special f = some (specialTable.getD f .RES) ∧
      (specialTable.getD f .RES).format = .RFMT
  := by
  revert f
  decide

theorem and_rt (value : BitVec 32) :
  value &&& 0x1f0000#32 = BitVec.ofNat 32 (field value 16 5 * 2 ^ 16)
  := by
  apply BitVec.eq_of_toNat_eq
  have hlt : field value 16 5 * 2 ^ 16 < 2 ^ 32 := by
    have := field_lt value 16 5
    omega
  rw [BitVec.toNat_and, BitVec.toNat_ofNat, BitVec.toNat_ofNat, Nat.mod_eq_of_lt hlt, field]
  have hmask : 0x1f0000 % 2 ^ 32 = (2 ^ 5 - 1) * 2 ^ 16 := by decide
  rw [hmask, ← Nat.shiftRight_eq_div_pow, ← Nat.and_two_pow_sub_one_eq_mod, ← Nat.shiftLeft_eq,
    ← Nat.shiftLeft_eq]
  apply Nat.eq_of_testBit_eq
  intro i
  simp only [Nat.testBit_and, Nat.testBit_shiftLeft, Nat.testBit_shiftRight]
  by_cases hi : 16 ≤ i
  · simp [hi]
  · simp [hi]

theorem decodeOp_bcond (value : BitVec 32) :
  (decodeOp value .BCOND).Computes = true →
    Mips.regimm (field value 16 5) = some (decodeOp value .BCOND) ∧
      (decodeOp value .BCOND).format = .IFMT
  := by
  rw [decodeOp, and_rt]
  obtain ⟨t, ht⟩ : ∃ t : Fin 32, field value 16 5 = t := ⟨⟨_, field_lt value 16 5⟩, rfl⟩
  rw [ht]
  clear ht
  revert t
  decide

/-- The tables agree with the encoding of the architecture. -/
theorem decode_spec {raw : BitVec 32} (h : (decode raw).opCode.Computes = true) :
  Mips.operation raw = some (decode raw).opCode ∧
    (decode raw).extra = decodeExtra raw (decode raw).opCode.format
  := by
  have hopcode : Mips.opcode raw = field raw 26 6 := toNat_extract raw 26 6
  have hfunct : Mips.funct raw = field raw 0 6 := toNat_extract raw 0 6
  have hrt : Mips.rt raw = field raw 16 5 := toNat_extract raw 16 5
  have hentry : Tabled (field raw 26 6) (opTable.getD (field raw 26 6) (.op .RES, .IFMT)) :=
    opTable_tabled ⟨_, field_lt raw 26 6⟩
  rw [Mips.operation, hopcode, hfunct, hrt]
  simp only [decode] at h ⊢
  generalize opTable.getD (field raw 26 6) (.op .RES, .IFMT) = entry at h hentry ⊢
  obtain ⟨op, format⟩ := entry
  cases op with
  | op op =>
      obtain ⟨hzero, hone, hprimary, rfl⟩ := hentry h
      rw [if_neg hzero, if_neg hone]
      exact ⟨hprimary, rfl⟩
  | SPECIAL =>
      obtain ⟨hzero, rfl⟩ := hentry
      obtain ⟨hspecial, hformat⟩ := specialTable_spec ⟨_, field_lt raw 0 6⟩ h
      rw [if_pos hzero]
      exact ⟨hspecial, congrArg (decodeExtra raw) hformat.symm⟩
  | BCOND =>
      obtain ⟨hone, rfl⟩ := hentry
      obtain ⟨hregimm, hformat⟩ := decodeOp_bcond raw h
      rw [if_neg (by rw [hone]; decide), if_pos hone]
      exact ⟨hregimm, congrArg (decodeExtra raw) hformat.symm⟩

theorem decode_rs (raw : BitVec 32) :
  (decode raw).rs = Mips.rs raw
  := (toNat_extract raw 21 5).symm

theorem decode_rt (raw : BitVec 32) :
  (decode raw).rt = Mips.rt raw
  := (toNat_extract raw 16 5).symm

theorem decode_rd (raw : BitVec 32) :
  (decode raw).rd = Mips.rd raw
  := (toNat_extract raw 11 5).symm

/-! ### Immediate operands -/

theorem extra_immediate (raw : BitVec 32) :
  decodeExtra raw .IFMT = (Mips.immediate raw).signExtend 32
  := by
  rw [decodeExtra, Mips.immediate]
  congr 1

theorem extra_shamt (raw : BitVec 32) :
  (decodeExtra raw .RFMT).toNat = Mips.shamt raw
  := by
  have hlt : field raw 6 5 < 2 ^ 5 := field_lt raw 6 5
  rw [decodeExtra, Mips.shamt, toNat_extract, BitVec.toNat_ofNat, Nat.mod_eq_of_lt (by omega)]

theorem extra_target (raw : BitVec 32) :
  decodeExtra raw .JFMT = (Mips.target raw).zeroExtend 32
  := by
  apply BitVec.eq_of_toNat_eq
  rw [decodeExtra, Mips.target, BitVec.toNat_setWidth, toNat_extract, BitVec.toNat_and]
  have hlt : field raw 0 26 < 2 ^ 26 := field_lt raw 0 26
  rw [Nat.mod_eq_of_lt (by omega), field, Nat.pow_zero, Nat.div_one]
  exact Nat.and_two_pow_sub_one_eq_mod raw.toNat 26

theorem and_low (x : BitVec 16) :
  x.signExtend 32 &&& 0xffff#32 = x.zeroExtend 32
  := by
  have hmask : 0xffff#32 = 0#16 ++ BitVec.allOnes 16 := by decide
  rw [hmask]
  apply BitVec.eq_of_getLsbD_eq
  intro i hi
  rw [BitVec.getLsbD_and, BitVec.getLsbD_append, BitVec.getLsbD_signExtend, BitVec.getLsbD_setWidth,
    BitVec.getLsbD_allOnes, BitVec.getLsbD_zero]
  by_cases hlow : i < 16
  · simp [hlow, hi]
  · rw [if_neg hlow, if_neg hlow, Bool.and_false, BitVec.getLsbD_of_ge x i (by omega), Bool.and_false]

theorem branch_offset (offset : BitVec 16) :
  IndexToAddr (offset.signExtend 32) = BitVec.ofInt 32 (4 * offset.toInt)
  := by
  rw [IndexToAddr, BitVec.ofInt_mul, BitVec.shiftLeft_eq_mul_twoPow, BitVec.mul_comm]
  rfl

theorem upper_immediate (x : BitVec 16) :
  x.signExtend 32 <<< 16 = x ++ 0#16
  := by
  apply BitVec.eq_of_getLsbD_eq
  intro i hi
  rw [BitVec.getLsbD_shiftLeft, BitVec.getLsbD_append, BitVec.getLsbD_signExtend]
  by_cases hlow : i < 16
  · simp [hlow]
  · have hupper : i - 16 < 16 := by omega
    simp [hlow, hupper, hi]
    omega

theorem region_eq (base : BitVec 32) (target : BitVec 26) :
  base &&& 0xf0000000#32 ||| IndexToAddr (target.zeroExtend 32) =
    base.extractLsb' 28 4 ++ target ++ 0#2
  := by
  have hmask : 0xf0000000#32 = BitVec.allOnes 4 ++ 0#28 := by decide
  rw [hmask, IndexToAddr]
  apply BitVec.eq_of_getLsbD_eq
  intro i hi
  simp only [BitVec.getLsbD_or, BitVec.getLsbD_and, BitVec.getLsbD_append, BitVec.getLsbD_shiftLeft,
    BitVec.getLsbD_extractLsb', BitVec.getLsbD_setWidth, BitVec.getLsbD_allOnes, BitVec.getLsbD_zero]
  by_cases hword : i < 2
  · have hregion : i < 28 := by omega
    simp [hword, hregion]
  · by_cases hregion : i < 28
    · have htarget : i - 2 < 26 := by omega
      have hbound : i - 2 < 32 := by omega
      simp [hword, hregion, htarget, hbound, hi]
    · have htarget : ¬ i - 2 < 26 := by omega
      have hbase : i - 28 < 4 := by omega
      have hbit : i - 2 - 26 = i - 28 := by omega
      have hindex : 28 + (i - 28) = i := by omega
      have hout : target.getLsbD (i - 2) = false := BitVec.getLsbD_of_ge target _ (by omega)
      simp [hword, hregion, htarget, hbase, hbit, hindex, hout]

/-- Two jumps to the same target in the region. -/
theorem region_eq_iff (base base' : BitVec 32) (target : BitVec 26) :
  base &&& 0xf0000000#32 ||| IndexToAddr (target.zeroExtend 32) =
      base'.extractLsb' 28 4 ++ target ++ 0#2 ↔
    base &&& 0xf0000000#32 = base' &&& 0xf0000000#32
  := by
  constructor
  · intro h
    rw [region_eq] at h
    have hregion : base.extractLsb' 28 4 = base'.extractLsb' 28 4 :=
      (BitVec.append_left_inj target).mp ((BitVec.append_left_inj 0#2).mp h)
    have hbase := region_eq base 0#26
    have hbase' := region_eq base' 0#26
    rw [← hregion, ← hbase] at hbase'
    have hzero : IndexToAddr ((0#26).zeroExtend 32) = 0#32 := by decide
    rw [hzero, BitVec.or_zero, BitVec.or_zero] at hbase'
    exact hbase'.symm
  · intro h
    rw [h, region_eq]

theorem toNat_and_low (a : BitVec 32) :
  (a &&& 0x1f#32).toNat = a.toNat % 32
  := by
  rw [BitVec.toNat_and]
  exact Nat.and_two_pow_sub_one_eq_mod a.toNat 5

/-! ### Results -/

theorem add_eq_ofInt (a b : BitVec 32) :
  a + b = BitVec.ofInt 32 (a.toInt + b.toInt)
  := by
  rw [BitVec.ofInt_add, BitVec.ofInt_toInt, BitVec.ofInt_toInt]

theorem sub_eq_ofInt (a b : BitVec 32) :
  a - b = BitVec.ofInt 32 (a.toInt - b.toInt)
  := by
  apply BitVec.eq_of_toInt_eq
  rw [BitVec.toInt_sub, BitVec.toInt_ofInt]

theorem sign_xor (a b : BitVec 32) :
  sign (a ^^^ b) = (a.msb ^^ b.msb)
  := by
  rw [sign_eq_msb, BitVec.msb_xor]

/-- The test for the overflow of a sum. -/
theorem add_overflow (a b : BitVec 32) :
  (!sign (a ^^^ b) && sign (a ^^^ (a + b))) = true ↔
    ¬ (-2 ^ 31 ≤ a.toInt + b.toInt ∧ a.toInt + b.toInt < 2 ^ 31)
  := by
  have hoverflow : (!sign (a ^^^ b) && sign (a ^^^ (a + b))) = a.saddOverflow b := by
    rw [BitVec.saddOverflow_eq, sign_xor, sign_xor]
    cases a.msb <;> cases b.msb <;> cases (a + b).msb <;> rfl
  rw [hoverflow, BitVec.saddOverflow, Bool.or_eq_true, decide_eq_true_iff, decide_eq_true_iff]
  omega

/-- The same test, on the other operand. -/
theorem addi_overflow (a b : BitVec 32) :
  (!sign (a ^^^ b) && sign (b ^^^ (a + b))) = true ↔
    ¬ (-2 ^ 31 ≤ a.toInt + b.toInt ∧ a.toInt + b.toInt < 2 ^ 31)
  := by
  rw [← add_overflow, sign_xor, sign_xor, sign_xor]
  cases a.msb <;> cases b.msb <;> simp

/-- The test for the overflow of a difference. -/
theorem sub_overflow (a b : BitVec 32) :
  (sign (a ^^^ b) && sign (a ^^^ (a - b))) = true ↔
    ¬ (-2 ^ 31 ≤ a.toInt - b.toInt ∧ a.toInt - b.toInt < 2 ^ 31)
  := by
  have hoverflow : (sign (a ^^^ b) && sign (a ^^^ (a - b))) = a.ssubOverflow b := by
    rw [BitVec.ssubOverflow_eq, sign_xor, sign_xor]
    cases a.msb <;> cases b.msb <;> cases (a - b).msb <;> rfl
  rw [hoverflow, BitVec.ssubOverflow, Bool.or_eq_true, decide_eq_true_iff, decide_eq_true_iff]
  omega

theorem toInt_signExtend (x : BitVec 16) :
  (x.signExtend 32).toInt = x.toInt
  := BitVec.toInt_signExtend_of_le (by decide)

theorem shiftLeft_eq_ofInt (b : BitVec 32) (k : ℕ) :
  b <<< k = BitVec.ofInt 32 (b.toNat * 2 ^ k)
  := by
  apply BitVec.eq_of_toNat_eq
  have hcast : (b.toNat : ℤ) * 2 ^ k = (b.toNat * 2 ^ k : ℕ) := by norm_cast
  rw [hcast, BitVec.ofInt_natCast, BitVec.toNat_ofNat, BitVec.toNat_shiftLeft, Nat.shiftLeft_eq]

theorem ushiftRight_eq_ofInt (b : BitVec 32) (k : ℕ) :
  b >>> k = BitVec.ofInt 32 (b.toNat / 2 ^ k)
  := by
  apply BitVec.eq_of_toNat_eq
  have hcast : (b.toNat : ℤ) / 2 ^ k = (b.toNat / 2 ^ k : ℕ) := by norm_cast
  have hlt : b.toNat / 2 ^ k < 2 ^ 32 := lt_of_le_of_lt (Nat.div_le_self _ _) b.isLt
  rw [hcast, BitVec.ofInt_natCast, BitVec.toNat_ofNat, BitVec.toNat_ushiftRight,
    Nat.shiftRight_eq_div_pow, Nat.mod_eq_of_lt hlt]

theorem sshiftRight_eq_ofInt (b : BitVec 32) (k : ℕ) :
  b.sshiftRight k = BitVec.ofInt 32 (b.toInt / 2 ^ k)
  := by
  rw [BitVec.sshiftRight, Int.shiftRight_eq_div_pow]
  norm_cast

theorem sdiv_eq_ofInt (a b : BitVec 32) :
  a.sdiv b = BitVec.ofInt 32 (a.toInt.tdiv b.toInt)
  := by
  apply BitVec.eq_of_toInt_eq
  rw [BitVec.toInt_sdiv, BitVec.toInt_ofInt]

theorem srem_eq_ofInt (a b : BitVec 32) :
  a.srem b = BitVec.ofInt 32 (a.toInt.tmod b.toInt)
  := by
  rw [← BitVec.toInt_srem, BitVec.ofInt_toInt]

theorem udiv_eq_ofNat (a b : BitVec 32) :
  a / b = BitVec.ofNat 32 (a.toNat / b.toNat)
  := by
  rw [← BitVec.toNat_udiv, BitVec.ofNat_toNat, BitVec.setWidth_eq]

theorem umod_eq_ofNat (a b : BitVec 32) :
  a % b = BitVec.ofNat 32 (a.toNat % b.toNat)
  := by
  rw [← BitVec.toNat_umod, BitVec.ofNat_toNat, BitVec.setWidth_eq]

theorem sign_iff (a : BitVec 32) :
  sign a = true ↔ a.toInt < 0
  := by
  rw [sign_eq_msb, BitVec.msb_eq_toInt, decide_eq_true_iff]

theorem not_sign_iff (a : BitVec 32) :
  (!sign a) = true ↔ 0 ≤ a.toInt
  := by
  rw [Bool.not_eq_true', ← Bool.not_eq_true, sign_iff, not_lt]

/-- The sign of a register that is read after the return address has been written to it. -/
theorem sign_link_iff (rs : ℕ) (a link : BitVec 32) :
  (sign (if rs = 31 then link else a) = true ↔ a.toInt < 0) ↔ rs ≠ 31 ∨ a.msb = link.msb
  := by
  rw [← sign_iff, sign_eq_msb, sign_eq_msb, ← Bool.eq_iff_iff]
  by_cases hrs : rs = 31
  · rw [if_pos hrs, or_iff_right (not_not_intro hrs)]
    exact eq_comm
  · rw [if_neg hrs]
    exact iff_of_true rfl (.inl hrs)

theorem not_sign_link_iff (rs : ℕ) (a link : BitVec 32) :
  ((!sign (if rs = 31 then link else a)) = true ↔ 0 ≤ a.toInt) ↔ rs ≠ 31 ∨ a.msb = link.msb
  := by
  rw [← sign_link_iff, not_sign_iff, sign_iff, ← not_lt, ← not_lt, not_iff_not]

theorem link_target_iff (rs rd : ℕ) (a link : BitVec 32) :
  (if rs = rd then link else a) = a ↔ rs ≠ rd ∨ a = link
  := by
  by_cases hrs : rs = rd
  · rw [if_pos hrs, or_iff_right (not_not_intro hrs)]
    exact eq_comm
  · rw [if_neg hrs]
    exact iff_of_true rfl (.inl hrs)

/-- An arithmetic shift gives the result of a logical one if nothing is shifted or the sign bit is
not set. -/
theorem sshiftRight_eq_iff {b : BitVec 32} {k : ℕ} :
  b.sshiftRight k = BitVec.ofInt 32 (b.toNat / 2 ^ k) ↔ k = 0 ∨ b.msb = false
  := by
  rw [← ushiftRight_eq_ofInt]
  constructor
  · intro h
    have hmsb := congrArg BitVec.msb h
    rw [BitVec.msb_sshiftRight, BitVec.msb_ushiftRight] at hmsb
    by_cases hzero : k = 0
    · exact .inl hzero
    · right
      simpa [hzero] using hmsb
  · rintro (rfl | hmsb)
    · rw [BitVec.sshiftRight_zero, BitVec.ushiftRight_zero]
    · exact BitVec.sshiftRight_eq_of_msb_false hmsb

/-! ### The state after an instruction -/

/-- The registers, as the architecture has them. -/
def stateOf (r : Registers) : Mips.State :=
  { gpr := r, hi := r HiReg, lo := r LoReg, pc := r PCReg, next := r NextPCReg }

/-- The registers hold a state of the architecture. -/
structure Holds (r : Registers) (t : Mips.State) : Prop where
  gpr : ∀ i < 32, r i = t.gpr i
  hi : r HiReg = t.hi
  lo : r LoReg = t.lo
  pc : r PCReg = t.pc
  next : r NextPCReg = t.next

/-- The outcome of an instruction is what the architecture prescribes. After an overflow no register
has changed. -/
def Prescribed (r : Registers) : Option Mips.Result → Outcome → Prop
  | some (.computes t), .completed s => Holds s.registers t
  | some .overflows, .raised .OverflowException s => Holds s.registers (stateOf r)
  | _, _ => False

/-- The registers after an instruction, when no load is pending. -/
theorem finish_eq {r' : Registers} (hload' : r' LoadReg = 0#32) (pcAfter : BitVec 32) {i : ℕ}
    (hi : i < NextPCReg) :
  Machine.finish r' 0#32 0#32 pcAfter i =
    if i = 0 then 0#32 else r' (if i = PCReg then NextPCReg else i)
  := by
  have hlt : (if i = PCReg then NextPCReg else i) < PrevPCReg := by
    split
    · decide
    · exact hi.trans (by decide)
  rw [finish_apply _ _ _ _ (hi.trans (by decide)).ne, if_neg hi.ne, delayedLoad_apply _ _ _ hlt,
    pending_eq_zero hload']
  by_cases hpc : i = PCReg
  · subst hpc
    rfl
  · rw [if_neg hpc]
    split
    · rfl
    · rfl

theorem holds_finish {r' : Registers} (hload' : r' LoadReg = 0#32) (pcAfter : BitVec 32)
    (t : Mips.State) :
  Holds (Machine.finish r' 0#32 0#32 pcAfter) t ↔
    (∀ i < 32, (if i = 0 then 0#32 else r' i) = t.gpr i) ∧ r' HiReg = t.hi ∧ r' LoReg = t.lo ∧
      r' NextPCReg = t.pc ∧ pcAfter = t.next
  := by
  have hgpr : ∀ i < 32, Machine.finish r' 0#32 0#32 pcAfter i = if i = 0 then 0#32 else r' i := by
    intro i hi
    have hpc : i ≠ PCReg := (hi.trans (by decide)).ne
    rw [finish_eq hload' pcAfter (hi.trans (by decide)), if_neg hpc]
  have hhi : Machine.finish r' 0#32 0#32 pcAfter HiReg = r' HiReg :=
    finish_eq hload' pcAfter (by decide)
  have hlo : Machine.finish r' 0#32 0#32 pcAfter LoReg = r' LoReg :=
    finish_eq hload' pcAfter (by decide)
  have hpc : Machine.finish r' 0#32 0#32 pcAfter PCReg = r' NextPCReg :=
    finish_eq hload' pcAfter (by decide)
  have hnext : Machine.finish r' 0#32 0#32 pcAfter NextPCReg = pcAfter := rfl
  constructor
  · rintro ⟨h₁, h₂, h₃, h₄, h₅⟩
    exact ⟨fun i hi => (hgpr i hi).symm.trans (h₁ i hi), hhi.symm.trans h₂, hlo.symm.trans h₃,
      hpc.symm.trans h₄, hnext.symm.trans h₅⟩
  · rintro ⟨h₁, h₂, h₃, h₄, h₅⟩
    exact ⟨fun i hi => (hgpr i hi).trans (h₁ i hi), hhi.trans h₂, hlo.trans h₃, hpc.trans h₄,
      hnext.trans h₅⟩

section

variable {r : Registers} (hload : r LoadReg = 0#32) (hzero : r 0 = 0#32)

include hload hzero

/-- The program counters alone are changed. -/
theorem holds_goto (pcAfter target : BitVec 32) :
  Holds (Machine.finish (writeRegisters r []) 0#32 0#32 pcAfter) ((stateOf r).goto target) ↔
    pcAfter = target
  := by
  have hload' : writeRegisters r [] LoadReg = 0#32 := hload
  rw [holds_finish hload']
  constructor
  · rintro ⟨-, -, -, -, h⟩
    exact h
  · intro h
    refine ⟨?_, rfl, rfl, rfl, h⟩
    intro i _
    by_cases hi : i = 0
    · rw [if_pos hi, hi]
      exact hzero.symm
    · rw [if_neg hi]
      rfl

/-- A general register is written. A value that is written to register 0 does not matter. -/
theorem holds_write {reg : ℕ} (hreg : reg < 32) (v value pcAfter target : BitVec 32) :
  Holds (Machine.finish (writeRegisters r [(reg, v)]) 0#32 0#32 pcAfter)
      (((stateOf r).write reg value).goto target) ↔
    (reg = 0 ∨ v = value) ∧ pcAfter = target
  := by
  have hother : ∀ i, 32 ≤ i → writeRegisters r [(reg, v)] i = r i :=
    fun i hi => Function.update_of_ne (by omega) _ _
  rw [holds_finish ((hother LoadReg (by decide)).trans hload)]
  constructor
  · rintro ⟨hgpr, -, -, -, htarget⟩
    refine ⟨?_, htarget⟩
    by_cases hne : reg = 0
    · exact .inl hne
    · right
      simpa [writeRegisters, Mips.State.goto, Mips.State.write, hne] using hgpr reg hreg
  · rintro ⟨hvalue, htarget⟩
    refine ⟨?_, hother HiReg (by decide), hother LoReg (by decide), hother NextPCReg (by decide),
      htarget⟩
    intro i _
    simp only [writeRegisters, List.foldl_cons, List.foldl_nil, Mips.State.goto, Mips.State.write]
    by_cases hi : i = 0
    · subst hi
      by_cases hreg : reg = 0
      · simp [hreg, stateOf, hzero]
      · simp [hreg, stateOf, hzero, Function.update_of_ne (Ne.symm hreg)]
    · rw [if_neg hi]
      obtain rfl | rfl := hvalue
      · rw [if_pos rfl, Function.update_of_ne hi]
        rfl
      · by_cases hreg : reg = 0
        · rw [if_pos hreg, hreg, Function.update_of_ne hi]
          rfl
        · rw [if_neg hreg]
          rfl

/-- The registers for double words are written. -/
theorem holds_setHiLo {writes : List (ℕ × BitVec 32)} {hi lo : BitVec 32}
    (hwrites : ∀ w ∈ writes, w.1 = HiReg ∨ w.1 = LoReg)
    (hhi : writeRegisters r writes HiReg = hi) (hlo : writeRegisters r writes LoReg = lo) :
  Holds (Machine.finish (writeRegisters r writes) 0#32 0#32 (r NextPCReg + 4#32))
    ((stateOf r).setHiLo hi lo).advance
  := by
  have hother : ∀ i, i ≠ HiReg → i ≠ LoReg → writeRegisters r writes i = r i := by
    intro i hne hne'
    clear hhi hlo hload hzero
    induction writes generalizing r with
    | nil => rfl
    | cons w writes ih =>
        rw [List.forall_mem_cons] at hwrites
        have hw : i ≠ w.1 := by
          rcases hwrites.1 with h | h
          · exact h ▸ hne
          · exact h ▸ hne'
        exact (ih hwrites.2).trans (Function.update_of_ne hw _ _)
  rw [holds_finish ((hother LoadReg (by decide) (by decide)).trans hload)]
  refine ⟨?_, hhi, hlo, hother NextPCReg (by decide) (by decide), rfl⟩
  intro i hi
  rw [hother i (hi.trans_le (by decide)).ne (hi.trans (by decide)).ne]
  by_cases hi : i = 0
  · rw [if_pos hi, hi]
    exact hzero.symm
  · rw [if_neg hi]
    rfl

end

/-! ### The operations -/

/-- A difference between the machine and the architecture does not show. The machine computes `OR`
from `rs` alone, it shifts in the sign bit for `SRL` and `SRLV`, it takes the region of a jump from the
instruction after the delay slot, and it reads the register of `JALR`, `BGEZAL` and `BLTZAL` after the
return address has been written. -/
def Conforms (instr : Instruction) (a b next : BitVec 32) : Prop :=
  match instr.opCode with
  | .OR => instr.rd = 0 ∨ a ||| b = a
  | .SRL => instr.rd = 0 ∨ instr.extra.toNat = 0 ∨ b.msb = false
  | .SRLV => instr.rd = 0 ∨ a.toNat % 32 = 0 ∨ b.msb = false
  | .J | .JAL => (next + 4#32) &&& 0xf0000000#32 = next &&& 0xf0000000#32
  | .JALR => instr.rs ≠ instr.rd ∨ a = next + 4#32
  | .BGEZAL | .BLTZAL => instr.rs ≠ 31 ∨ a.msb = (next + 4#32).msb ∨ IndexToAddr instr.extra = 4#32
  | _ => True

/-- The division has a result. -/
def Divides (op : OpCode) (a b : BitVec 32) : Prop :=
  match op with
  | .DIV => b ≠ 0#32 ∧ ¬ (a = 0x80000000#32 ∧ b = 0xffffffff#32)
  | .DIVU => b ≠ 0#32
  | _ => True

instance (op : OpCode) (a b : BitVec 32) : Decidable (Divides op a b) := by
  unfold Divides
  split <;> infer_instance

section

variable {s : Machine} (hload : s.registers LoadReg = 0#32) (hzero : s.registers 0 = 0#32)

include hload hzero

theorem prescribed_value_iff {reg : ℕ} (hreg : reg < 32) (v value : BitVec 32) :
  Prescribed s.registers (some (.computes ((stateOf s.registers).write reg value).advance))
      (s.perform (.write [(reg, v)] (s.registers NextPCReg + 4#32))) ↔
    reg = 0 ∨ v = value
  := (holds_write hload hzero hreg ..).trans (and_iff_left rfl)

theorem prescribed_value {reg : ℕ} (hreg : reg < 32) {v value : BitVec 32} (h : v = value) :
  Prescribed s.registers (some (.computes ((stateOf s.registers).write reg value).advance))
    (s.perform (.write [(reg, v)] (s.registers NextPCReg + 4#32)))
  := (prescribed_value_iff hload hzero hreg v value).mpr (.inr h)

theorem prescribed_compare {reg : ℕ} (hreg : reg < 32) {less less' : Prop} [Decidable less]
    [Decidable less'] (h : less ↔ less') :
  Prescribed s.registers (some ((stateOf s.registers).compare reg less'))
    (s.perform (.write [(reg, if less then 1#32 else 0#32)] (s.registers NextPCReg + 4#32)))
  := prescribed_value hload hzero hreg (if_congr h rfl rfl)

theorem prescribed_overflow :
  Prescribed s.registers (some .overflows) (s.perform (.raise .OverflowException 0#32))
  := by
  have hregister : ∀ i < PrevPCReg,
      delayedLoad (Function.update s.registers BadVAddrReg 0#32) 0#32 0#32 i = s.registers i := by
    intro i hi
    have hbad : i ≠ BadVAddrReg := (hi.trans (by decide)).ne
    rw [delayedLoad_apply _ _ _ hi, pending_update (by decide), pending_eq_zero hload,
      Function.update_of_ne hbad]
    by_cases h : i = 0
    · rw [if_pos h, h, hzero]
    · rw [if_neg h, if_neg h]
  exact ⟨fun i hi => hregister i (hi.trans (by decide)), hregister HiReg (by decide),
    hregister LoReg (by decide), hregister PCReg (by decide), hregister NextPCReg (by decide)⟩

/-- The exact result of a sum or a difference, or an overflow. -/
theorem prescribed_exact {reg : ℕ} (hreg : reg < 32) {v : BitVec 32} {n : ℤ} {overflow : Bool}
    (hoverflow : overflow = true ↔ ¬ (-2 ^ 31 ≤ n ∧ n < 2 ^ 31)) (h : v = BitVec.ofInt 32 n) :
  Prescribed s.registers (some ((stateOf s.registers).exact reg n))
    (s.perform (if overflow then .raise .OverflowException 0#32
      else .write [(reg, v)] (s.registers NextPCReg + 4#32)))
  := by
  rw [Mips.State.exact]
  by_cases hfits : -2 ^ 31 ≤ n ∧ n < 2 ^ 31
  · rw [if_pos hfits, if_neg (fun h => hoverflow.mp h hfits)]
    exact prescribed_value hload hzero hreg h
  · rw [if_neg hfits, if_pos (hoverflow.mpr hfits)]
    exact prescribed_overflow hload hzero

theorem prescribed_goto (pcAfter target : BitVec 32) :
  Prescribed s.registers (some (.computes ((stateOf s.registers).goto target)))
      (s.perform (.write [] pcAfter)) ↔
    pcAfter = target
  := holds_goto hload hzero pcAfter target

/-- A branch is taken in the same cases. -/
theorem prescribed_branch {taken taken' : Prop} [Decidable taken] [Decidable taken']
    (h : taken ↔ taken') (offset : BitVec 16) :
  Prescribed s.registers (some (.computes ((stateOf s.registers).branch taken' offset)))
    (s.perform (.write [] (if taken then s.registers NextPCReg + IndexToAddr (offset.signExtend 32)
      else s.registers NextPCReg + 4#32)))
  := by
  rw [Mips.State.branch, branch_offset]
  by_cases htaken : taken
  · rw [if_pos htaken, if_pos (h.mp htaken)]
    exact (prescribed_goto hload hzero ..).mpr rfl
  · rw [if_neg htaken, if_neg (fun h' => htaken (h.mpr h'))]
    exact (prescribed_goto hload hzero ..).mpr rfl

theorem prescribed_link (pcAfter target : BitVec 32) {reg : ℕ} (hreg : reg < 32) :
  Prescribed s.registers
      (some (.computes (((stateOf s.registers).write reg (stateOf s.registers).link).goto target)))
      (s.perform (.write [(reg, s.registers NextPCReg + 4#32)] pcAfter)) ↔
    pcAfter = target
  := (holds_write hload hzero hreg ..).trans (and_iff_right (.inr rfl))

/-- A branch that writes the return address. -/
theorem prescribed_branch_link {taken taken' : Prop} [Decidable taken] [Decidable taken']
    (offset : BitVec 16) :
  Prescribed s.registers
      (some (.computes (((stateOf s.registers).write 31 (stateOf s.registers).link).branch taken'
        offset)))
      (s.perform (.write [(31, s.registers NextPCReg + 4#32)]
        (if taken then s.registers NextPCReg + IndexToAddr (offset.signExtend 32)
          else s.registers NextPCReg + 4#32))) ↔
    (taken ↔ taken') ∨ IndexToAddr (offset.signExtend 32) = 4#32
  := by
  rw [Mips.State.branch, branch_offset]
  by_cases htaken : taken
  · rw [if_pos htaken]
    by_cases htaken' : taken'
    · rw [if_pos htaken']
      exact iff_of_true ((prescribed_link hload hzero _ _ (by decide)).mpr rfl)
        (.inl (iff_of_true htaken htaken'))
    · rw [if_neg htaken', or_iff_right (fun h => htaken' (h.mp htaken))]
      exact (prescribed_link hload hzero _ _ (by decide)).trans (BitVec.add_right_inj _)
  · rw [if_neg htaken]
    by_cases htaken' : taken'
    · rw [if_pos htaken', or_iff_right (fun h => htaken (h.mpr htaken'))]
      exact (prescribed_link hload hzero _ _ (by decide)).trans
        (eq_comm.trans (BitVec.add_right_inj _))
    · rw [if_neg htaken']
      exact iff_of_true ((prescribed_link hload hzero _ _ (by decide)).mpr rfl)
        (.inl (iff_of_false htaken htaken'))

theorem prescribed_double {value : BitVec 64} {hi lo : BitVec 32} (h : hi ++ lo = value) :
  Prescribed s.registers (some ((stateOf s.registers).double value))
    (s.perform (.write [(HiReg, hi), (LoReg, lo)] (s.registers NextPCReg + 4#32)))
  := by
  subst h
  rw [Mips.State.double, BitVec.extractLsb'_append_eq_left, BitVec.extractLsb'_append_eq_right]
  apply holds_setHiLo hload hzero
  · simp
  · rfl
  · rfl

theorem perform_iff {raw : BitVec 32} (hcomputes : (decode raw).opCode.Computes = true)
    (hdiv : Divides (decode raw).opCode (s.registers (decode raw).rs) (s.registers (decode raw).rt)) :
  Prescribed s.registers (Mips.execute raw (stateOf s.registers))
      (s.perform (Machine.effectOf s.registers (decode raw))) ↔
    Conforms (decode raw) (s.registers (decode raw).rs) (s.registers (decode raw).rt)
      (s.registers NextPCReg)
  := by
  obtain ⟨hop, hextra⟩ := decode_spec hcomputes
  have hrs := decode_rs raw
  have hrt := decode_rt raw
  have hrd := decode_rd raw
  have hrt_lt : (decode raw).rt < 32 := field_lt raw 16 5
  have hrd_lt : (decode raw).rd < 32 := field_lt raw 11 5
  generalize decode raw = instr at *
  obtain ⟨op, rs, rt, rd, extra⟩ := instr
  simp only at hop hextra hrs hrt hrd hrt_lt hrd_lt hcomputes hdiv ⊢
  subst hextra hrs hrt hrd
  cases op
  case LB | LBU | LH | LHU | LW | LWL | LWR | RFE | SB | SH | SW | SWL | SWR | SYSCALL | UNIMP | RES =>
    exact absurd hcomputes (by decide)
  case ADD =>
    simp only [Mips.execute, hop]
    exact iff_of_true (prescribed_exact hload hzero hrd_lt (add_overflow _ _) (add_eq_ofInt _ _))
      trivial
  case ADDI =>
    simp only [Mips.execute, hop, OpCode.format, extra_immediate, ← toInt_signExtend]
    exact iff_of_true (prescribed_exact hload hzero hrt_lt (addi_overflow _ _) (add_eq_ofInt _ _))
      trivial
  case SUB =>
    simp only [Mips.execute, hop]
    exact iff_of_true (prescribed_exact hload hzero hrd_lt (sub_overflow _ _) (sub_eq_ofInt _ _))
      trivial
  case ADDU =>
    simp only [Mips.execute, hop]
    exact iff_of_true (prescribed_value hload hzero hrd_lt (add_eq_ofInt _ _)) trivial
  case SUBU =>
    simp only [Mips.execute, hop]
    exact iff_of_true (prescribed_value hload hzero hrd_lt (sub_eq_ofInt _ _)) trivial
  case AND =>
    simp only [Mips.execute, hop]
    exact iff_of_true (prescribed_value hload hzero hrd_lt rfl) trivial
  case XOR =>
    simp only [Mips.execute, hop]
    exact iff_of_true (prescribed_value hload hzero hrd_lt rfl) trivial
  case NOR =>
    simp only [Mips.execute, hop]
    exact iff_of_true (prescribed_value hload hzero hrd_lt rfl) trivial
  case MFHI =>
    simp only [Mips.execute, hop]
    exact iff_of_true (prescribed_value hload hzero hrd_lt rfl) trivial
  case MFLO =>
    simp only [Mips.execute, hop]
    exact iff_of_true (prescribed_value hload hzero hrd_lt rfl) trivial
  case ADDIU =>
    simp only [Mips.execute, hop, OpCode.format, extra_immediate, ← toInt_signExtend]
    exact iff_of_true (prescribed_value hload hzero hrt_lt (add_eq_ofInt _ _)) trivial
  case ANDI =>
    simp only [Mips.execute, hop, OpCode.format, extra_immediate]
    exact iff_of_true (prescribed_value hload hzero hrt_lt (congrArg (_ &&& ·) (and_low _))) trivial
  case ORI =>
    simp only [Mips.execute, hop, OpCode.format, extra_immediate]
    exact iff_of_true (prescribed_value hload hzero hrt_lt (congrArg (_ ||| ·) (and_low _))) trivial
  case XORI =>
    simp only [Mips.execute, hop, OpCode.format, extra_immediate]
    exact iff_of_true (prescribed_value hload hzero hrt_lt (congrArg (_ ^^^ ·) (and_low _))) trivial
  case LUI =>
    simp only [Mips.execute, hop, OpCode.format, extra_immediate]
    exact iff_of_true (prescribed_value hload hzero hrt_lt (upper_immediate _)) trivial
  case SLL =>
    simp only [Mips.execute, hop, ← extra_shamt]
    exact iff_of_true (prescribed_value hload hzero hrd_lt (shiftLeft_eq_ofInt _ _)) trivial
  case SLLV =>
    simp only [Mips.execute, hop, ← toNat_and_low]
    exact iff_of_true (prescribed_value hload hzero hrd_lt (shiftLeft_eq_ofInt _ _)) trivial
  case SRA =>
    simp only [Mips.execute, hop, ← extra_shamt]
    exact iff_of_true (prescribed_value hload hzero hrd_lt (sshiftRight_eq_ofInt _ _)) trivial
  case SRAV =>
    simp only [Mips.execute, hop, ← toNat_and_low]
    exact iff_of_true (prescribed_value hload hzero hrd_lt (sshiftRight_eq_ofInt _ _)) trivial
  case SLT =>
    simp only [Mips.execute, hop]
    exact iff_of_true (prescribed_compare hload hzero hrd_lt BitVec.slt_iff_toInt_lt) trivial
  case SLTU =>
    simp only [Mips.execute, hop]
    exact iff_of_true (prescribed_compare hload hzero hrd_lt BitVec.lt_def) trivial
  case SLTI =>
    simp only [Mips.execute, hop, OpCode.format, extra_immediate, ← toInt_signExtend]
    exact iff_of_true (prescribed_compare hload hzero hrt_lt BitVec.slt_iff_toInt_lt) trivial
  case SLTIU =>
    simp only [Mips.execute, hop, OpCode.format, extra_immediate]
    exact iff_of_true (prescribed_compare hload hzero hrt_lt BitVec.lt_def) trivial
  case MULT =>
    simp only [Mips.execute, hop]
    exact iff_of_true (prescribed_double hload hzero (mult_signed _ _)) trivial
  case MULTU =>
    simp only [Mips.execute, hop]
    exact iff_of_true (prescribed_double hload hzero (mult_unsigned _ _)) trivial
  case DIV =>
    simp only [Mips.execute, hop, Machine.effectOf, effect, if_neg hdiv.1, if_neg hdiv.2]
    exact iff_of_true
      (holds_setHiLo hload hzero (by simp) (srem_eq_ofInt _ _) (sdiv_eq_ofInt _ _)) trivial
  case DIVU =>
    simp only [Mips.execute, hop, Machine.effectOf, effect]
    rw [if_neg hdiv]
    exact iff_of_true (holds_setHiLo hload hzero (by simp) (umod_eq_ofNat _ _) (udiv_eq_ofNat _ _))
      trivial
  case MTHI =>
    simp only [Mips.execute, hop]
    exact iff_of_true (holds_setHiLo hload hzero (by simp) rfl rfl) trivial
  case MTLO =>
    simp only [Mips.execute, hop]
    exact iff_of_true (holds_setHiLo hload hzero (by simp) rfl rfl) trivial
  case BEQ =>
    simp only [Mips.execute, hop, Machine.effectOf, effect, OpCode.format, extra_immediate]
    exact iff_of_true (prescribed_branch hload hzero Iff.rfl _) trivial
  case BNE =>
    simp only [Mips.execute, hop, Machine.effectOf, effect, OpCode.format, extra_immediate]
    exact iff_of_true (prescribed_branch hload hzero Iff.rfl _) trivial
  case BGEZ =>
    simp only [Mips.execute, hop, Machine.effectOf, effect, OpCode.format, extra_immediate]
    exact iff_of_true (prescribed_branch hload hzero (not_sign_iff _) _) trivial
  case BLTZ =>
    simp only [Mips.execute, hop, Machine.effectOf, effect, OpCode.format, extra_immediate]
    exact iff_of_true (prescribed_branch hload hzero (sign_iff _) _) trivial
  case BGTZ =>
    simp only [Mips.execute, hop, Machine.effectOf, effect, OpCode.format, extra_immediate]
    exact iff_of_true (prescribed_branch hload hzero BitVec.slt_iff_toInt_lt _) trivial
  case BLEZ =>
    simp only [Mips.execute, hop, Machine.effectOf, effect, OpCode.format, extra_immediate]
    exact iff_of_true (prescribed_branch hload hzero BitVec.sle_iff_toInt_le _) trivial
  case JR =>
    simp only [Mips.execute, hop]
    exact iff_of_true ((prescribed_goto hload hzero _ _).mpr rfl) trivial
  case OR =>
    simp only [Mips.execute, hop]
    exact (prescribed_value_iff hload hzero hrd_lt _ _).trans
      (or_congr_right (by rw [BitVec.or_self]; exact eq_comm))
  case SRL =>
    simp only [Mips.execute, hop, ← extra_shamt]
    exact (prescribed_value_iff hload hzero hrd_lt _ _).trans (or_congr_right sshiftRight_eq_iff)
  case SRLV =>
    simp only [Mips.execute, hop, ← toNat_and_low, Conforms]
    exact (prescribed_value_iff hload hzero hrd_lt _ _).trans (or_congr_right sshiftRight_eq_iff)
  case J =>
    simp only [Mips.execute, hop, Machine.effectOf, effect, OpCode.format, extra_target]
    exact (prescribed_goto hload hzero _ _).trans (region_eq_iff _ _ _)
  case JAL =>
    simp only [Mips.execute, hop, Machine.effectOf, effect, OpCode.format, extra_target]
    exact (prescribed_link hload hzero _ _ (by decide)).trans (region_eq_iff _ _ _)
  case JALR =>
    simp only [Mips.execute, hop, Machine.effectOf, effect]
    exact (prescribed_link hload hzero _ _ hrd_lt).trans (link_target_iff _ _ _ _)
  case BGEZAL =>
    simp only [Mips.execute, hop, Machine.effectOf, effect, OpCode.format, extra_immediate]
    exact (prescribed_branch_link hload hzero _).trans
      ((or_congr_left (not_sign_link_iff _ _ _)).trans or_assoc)
  case BLTZAL =>
    simp only [Mips.execute, hop, Machine.effectOf, effect, OpCode.format, extra_immediate]
    exact (prescribed_branch_link hload hzero _).trans
      ((or_congr_left (sign_link_iff _ _ _)).trans or_assoc)

theorem oneInstruction_iff {vm : VM} {raw : BitVec 32}
    (hfetch : readMem s.vm (s.registers PCReg) 4 = .ok (vm, raw))
    (hcomputes : (decode raw).opCode.Computes = true)
    (hdiv : Divides (decode raw).opCode (s.registers (decode raw).rs) (s.registers (decode raw).rt)) :
  Prescribed s.registers (Mips.execute raw (stateOf s.registers)) s.oneInstruction ↔
    Conforms (decode raw) (s.registers (decode raw).rs) (s.registers (decode raw).rt)
      (s.registers NextPCReg)
  := by
  rw [Machine.oneInstruction, hfetch]
  exact perform_iff (s := { s with vm := vm }) hload hzero hcomputes hdiv

end

/-- An instruction is in memory at address 0. The registers hold their own numbers. -/
def executing (raw : BitVec 32) : Machine where
  registers i := if i < 32 then BitVec.ofNat 32 i else 0#32
  vm :=
    let mapped : Memory.TranslationEntry := ⟨0, 0, true, false, false, false⟩
    { VM.initial (fun _ => mapped) (fun _ => mapped) with
      mainMemory := fun _ o => (Words.bytes 4 raw.toNat).getD o 0
      tlb := fun _ => mapped }

/-- `or $3, $1, $2` -/
def orInstruction : BitVec 32 := 0x00221825#32

/-- `add $3, $1, $2` -/
def addInstruction : BitVec 32 := 0x00221820#32

/-- The machine leaves 1 where the architecture has `1 | 2`. -/
theorem not_oneInstruction :
  ¬ ∀ (s : Machine) (vm : VM) (raw : BitVec 32), s.registers LoadReg = 0#32 →
    s.registers 0 = 0#32 → readMem s.vm (s.registers PCReg) 4 = .ok (vm, raw) →
    (decode raw).opCode.Computes = true →
    Divides (decode raw).opCode (s.registers (decode raw).rs) (s.registers (decode raw).rt) →
    Prescribed s.registers (Mips.execute raw (stateOf s.registers)) s.oneInstruction
  := by
  intro h
  have hholds := h (executing orInstruction) _ orInstruction rfl rfl rfl rfl trivial
  have hresult : 1#32 = 3#32 := Holds.gpr hholds 3 (by decide)
  exact absurd hresult (by decide)

theorem oneInstruction_iff_add :
  Prescribed (executing addInstruction).registers
    (Mips.execute addInstruction (stateOf (executing addInstruction).registers))
    (executing addInstruction).oneInstruction
  := (oneInstruction_iff (s := executing addInstruction) rfl rfl rfl rfl trivial).mpr trivial

end Nachos.Machine
