import Mathlib.Data.Int.Notation
import Nachos.Machine.Decode

/-!
# The architecture

What the MIPS-I architecture prescribes for arithmetic and logical operations, shifts, comparisons,
branches and jumps, over the fields of the instruction word and the numbers in the registers. It is
stated independently of how the machine decodes and executes an instruction; only the names of the
operations are shared.
-/

namespace Nachos.Machine.Mips

/-! ### Encoding -/

def opcode (raw : BitVec 32) : ℕ := (raw.extractLsb' 26 6).toNat

def rs (raw : BitVec 32) : ℕ := (raw.extractLsb' 21 5).toNat

def rt (raw : BitVec 32) : ℕ := (raw.extractLsb' 16 5).toNat

def rd (raw : BitVec 32) : ℕ := (raw.extractLsb' 11 5).toNat

def shamt (raw : BitVec 32) : ℕ := (raw.extractLsb' 6 5).toNat

def funct (raw : BitVec 32) : ℕ := (raw.extractLsb' 0 6).toNat

def immediate (raw : BitVec 32) : BitVec 16 := raw.extractLsb' 0 16

def target (raw : BitVec 32) : BitVec 26 := raw.extractLsb' 0 26

open OpCode

def special : ℕ → Option OpCode
  | 0 => SLL | 2 => SRL | 3 => SRA | 4 => SLLV | 6 => SRLV | 7 => SRAV
  | 8 => JR | 9 => JALR
  | 16 => MFHI | 17 => MTHI | 18 => MFLO | 19 => MTLO
  | 24 => MULT | 25 => MULTU | 26 => DIV | 27 => DIVU
  | 32 => ADD | 33 => ADDU | 34 => SUB | 35 => SUBU | 36 => AND | 37 => OR | 38 => XOR | 39 => NOR
  | 42 => SLT | 43 => SLTU
  | _ => none

def regimm : ℕ → Option OpCode
  | 0 => BLTZ | 1 => BGEZ | 16 => BLTZAL | 17 => BGEZAL
  | _ => none

def primary : ℕ → Option OpCode
  | 2 => J | 3 => JAL | 4 => BEQ | 5 => BNE | 6 => BLEZ | 7 => BGTZ
  | 8 => ADDI | 9 => ADDIU | 10 => SLTI | 11 => SLTIU
  | 12 => ANDI | 13 => ORI | 14 => XORI | 15 => LUI
  | _ => none

/-- The operation of an instruction word. -/
def operation (raw : BitVec 32) : Option OpCode :=
  if opcode raw = 0 then special (funct raw)
  else if opcode raw = 1 then regimm (rt raw)
  else primary (opcode raw)

/-! ### Results -/

structure State where
  /-- The general registers. -/
  gpr : ℕ → BitVec 32
  hi : BitVec 32
  lo : BitVec 32
  /-- The address of the next instruction. -/
  pc : BitVec 32
  /-- The address of the instruction after the next one, which is in the delay slot of a branch. -/
  next : BitVec 32

inductive Result where
  | computes (t : State)
  | overflows

namespace State

/-- A general register is written, but for register 0. -/
def write (s : State) (reg : ℕ) (value : BitVec 32) : State :=
  { s with gpr := if reg = 0 then s.gpr else Function.update s.gpr reg value }

def setHiLo (s : State) (hi lo : BitVec 32) : State := { s with hi := hi, lo := lo }

/-- The instruction in the delay slot is executed before the one at the target. -/
def goto (s : State) (target : BitVec 32) : State := { s with pc := s.next, next := target }

def advance (s : State) : State := s.goto (s.next + 4#32)

/-- The offset counts instructions from the delay slot. -/
def branch (s : State) (taken : Prop) [Decidable taken] (offset : BitVec 16) : State :=
  if taken then s.goto (s.next + BitVec.ofInt 32 (4 * offset.toInt)) else s.advance

/-- The address of the instruction after the delay slot. -/
def link (s : State) : BitVec 32 := s.next + 4#32

/-- A target in the region of the delay slot. -/
def region (s : State) (target : BitVec 26) : BitVec 32 := s.next.extractLsb' 28 4 ++ target ++ 0#2

/-- The exact result, if it fits in a word. -/
def exact (s : State) (reg : ℕ) (n : ℤ) : Result :=
  if -2 ^ 31 ≤ n ∧ n < 2 ^ 31 then .computes (s.write reg (BitVec.ofInt 32 n)).advance
  else .overflows

/-- The result modulo the size of a word. -/
def wrap (s : State) (reg : ℕ) (n : ℤ) : Result :=
  .computes (s.write reg (BitVec.ofInt 32 n)).advance

def logical (s : State) (reg : ℕ) (value : BitVec 32) : Result :=
  .computes (s.write reg value).advance

def compare (s : State) (reg : ℕ) (less : Prop) [Decidable less] : Result :=
  .computes (s.write reg (if less then 1#32 else 0#32)).advance

/-- A result of two words. -/
def double (s : State) (value : BitVec 64) : Result :=
  .computes (s.setHiLo (value.extractLsb' 32 32) (value.extractLsb' 0 32)).advance

end State

/-- The result of an operation. The operands are those before the instruction. -/
def execute (raw : BitVec 32) (s : State) : Option Result :=
  let a := s.gpr (rs raw)
  let b := s.gpr (rt raw)
  let signed : BitVec 32 := (immediate raw).signExtend 32
  let unsigned : BitVec 32 := (immediate raw).zeroExtend 32
  let amount := a.toNat % 32
  match operation raw with
  | some ADD => s.exact (rd raw) (a.toInt + b.toInt)
  | some ADDI => s.exact (rt raw) (a.toInt + (immediate raw).toInt)
  | some SUB => s.exact (rd raw) (a.toInt - b.toInt)
  | some ADDU => s.wrap (rd raw) (a.toInt + b.toInt)
  | some ADDIU => s.wrap (rt raw) (a.toInt + (immediate raw).toInt)
  | some SUBU => s.wrap (rd raw) (a.toInt - b.toInt)
  | some AND => s.logical (rd raw) (a &&& b)
  | some ANDI => s.logical (rt raw) (a &&& unsigned)
  | some OR => s.logical (rd raw) (a ||| b)
  | some ORI => s.logical (rt raw) (a ||| unsigned)
  | some XOR => s.logical (rd raw) (a ^^^ b)
  | some XORI => s.logical (rt raw) (a ^^^ unsigned)
  | some NOR => s.logical (rd raw) (~~~(a ||| b))
  | some LUI => s.logical (rt raw) (immediate raw ++ 0#16)
  | some SLL => s.wrap (rd raw) (b.toNat * 2 ^ shamt raw)
  | some SLLV => s.wrap (rd raw) (b.toNat * 2 ^ amount)
  | some SRL => s.wrap (rd raw) (b.toNat / 2 ^ shamt raw)
  | some SRLV => s.wrap (rd raw) (b.toNat / 2 ^ amount)
  | some SRA => s.wrap (rd raw) (b.toInt / 2 ^ shamt raw)
  | some SRAV => s.wrap (rd raw) (b.toInt / 2 ^ amount)
  | some SLT => s.compare (rd raw) (a.toInt < b.toInt)
  | some SLTI => s.compare (rt raw) (a.toInt < (immediate raw).toInt)
  | some SLTU => s.compare (rd raw) (a.toNat < b.toNat)
  | some SLTIU => s.compare (rt raw) (a.toNat < signed.toNat)
  | some MULT => s.double (BitVec.ofInt 64 (a.toInt * b.toInt))
  | some MULTU => s.double (BitVec.ofNat 64 (a.toNat * b.toNat))
  | some DIV => some (.computes (s.setHiLo (BitVec.ofInt 32 (a.toInt.tmod b.toInt))
      (BitVec.ofInt 32 (a.toInt.tdiv b.toInt))).advance)
  | some DIVU => some (.computes (s.setHiLo (BitVec.ofNat 32 (a.toNat % b.toNat))
      (BitVec.ofNat 32 (a.toNat / b.toNat))).advance)
  | some MFHI => s.logical (rd raw) s.hi
  | some MFLO => s.logical (rd raw) s.lo
  | some MTHI => some (.computes (s.setHiLo a s.lo).advance)
  | some MTLO => some (.computes (s.setHiLo s.hi a).advance)
  | some BEQ => some (.computes (s.branch (a = b) (immediate raw)))
  | some BNE => some (.computes (s.branch (a ≠ b) (immediate raw)))
  | some BGEZ => some (.computes (s.branch (0 ≤ a.toInt) (immediate raw)))
  | some BGTZ => some (.computes (s.branch (0 < a.toInt) (immediate raw)))
  | some BLEZ => some (.computes (s.branch (a.toInt ≤ 0) (immediate raw)))
  | some BLTZ => some (.computes (s.branch (a.toInt < 0) (immediate raw)))
  | some BGEZAL => some (.computes ((s.write 31 s.link).branch (0 ≤ a.toInt) (immediate raw)))
  | some BLTZAL => some (.computes ((s.write 31 s.link).branch (a.toInt < 0) (immediate raw)))
  | some J => some (.computes (s.goto (s.region (target raw))))
  | some JAL => some (.computes ((s.write 31 s.link).goto (s.region (target raw))))
  | some JR => some (.computes (s.goto a))
  | some JALR => some (.computes ((s.write (rd raw) s.link).goto a))
  | _ => none

end Nachos.Machine.Mips
