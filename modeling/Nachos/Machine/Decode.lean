import Mathlib.Algebra.Order.Ring.Nat

/-!
# Decoding instructions

The instructions of the simulated machine and their format (`machine/mipssim.h`).
-/

namespace Nachos.Machine

/-- The operations, named as in `mipssim.h`. -/
inductive OpCode where
  | ADD | ADDI | ADDIU | ADDU | AND | ANDI | BEQ | BGEZ | BGEZAL | BGTZ | BLEZ | BLTZ | BLTZAL | BNE
  | DIV | DIVU | J | JAL | JALR | JR | LB | LBU | LH | LHU | LUI | LW | LWL | LWR
  | MFHI | MFLO | MTHI | MTLO | MULT | MULTU | NOR | OR | ORI | RFE | SB | SH | SLL | SLLV
  | SLT | SLTI | SLTIU | SLTU | SRA | SRAV | SRL | SRLV | SUB | SUBU | SW | SWL | SWR
  | XOR | XORI | SYSCALL | UNIMP | RES
deriving DecidableEq

inductive Format where
  | IFMT
  | JFMT
  | RFMT
deriving DecidableEq

/-- An operation, or what says where to look for it. -/
inductive Op where
  | op (opCode : OpCode)
  | SPECIAL
  | BCOND

open OpCode Format in
/-- The operations by the bits 31 to 26 of an instruction. -/
def opTable : List (Op × Format) :=
  [(.SPECIAL, RFMT), (.BCOND, IFMT), (.op J, JFMT), (.op JAL, JFMT),
    (.op BEQ, IFMT), (.op BNE, IFMT), (.op BLEZ, IFMT), (.op BGTZ, IFMT),
    (.op ADDI, IFMT), (.op ADDIU, IFMT), (.op SLTI, IFMT), (.op SLTIU, IFMT),
    (.op ANDI, IFMT), (.op ORI, IFMT), (.op XORI, IFMT), (.op LUI, IFMT),
    (.op UNIMP, IFMT), (.op UNIMP, IFMT), (.op UNIMP, IFMT), (.op UNIMP, IFMT),
    (.op RES, IFMT), (.op RES, IFMT), (.op RES, IFMT), (.op RES, IFMT),
    (.op RES, IFMT), (.op RES, IFMT), (.op RES, IFMT), (.op RES, IFMT),
    (.op RES, IFMT), (.op RES, IFMT), (.op RES, IFMT), (.op RES, IFMT),
    (.op LB, IFMT), (.op LH, IFMT), (.op LWL, IFMT), (.op LW, IFMT),
    (.op LBU, IFMT), (.op LHU, IFMT), (.op LWR, IFMT), (.op RES, IFMT),
    (.op SB, IFMT), (.op SH, IFMT), (.op SWL, IFMT), (.op SW, IFMT),
    (.op RES, IFMT), (.op RES, IFMT), (.op SWR, IFMT), (.op RES, IFMT),
    (.op UNIMP, IFMT), (.op UNIMP, IFMT), (.op UNIMP, IFMT), (.op UNIMP, IFMT),
    (.op RES, IFMT), (.op RES, IFMT), (.op RES, IFMT), (.op RES, IFMT),
    (.op UNIMP, IFMT), (.op UNIMP, IFMT), (.op UNIMP, IFMT), (.op UNIMP, IFMT),
    (.op RES, IFMT), (.op RES, IFMT), (.op RES, IFMT), (.op RES, IFMT)]

open OpCode in
/-- The operations of `SPECIAL` instructions by the bits 5 to 0. -/
def specialTable : List OpCode :=
  [SLL, RES, SRL, SRA, SLLV, RES, SRLV, SRAV,
    JR, JALR, RES, RES, SYSCALL, UNIMP, RES, RES,
    MFHI, MTHI, MFLO, MTLO, RES, RES, RES, RES,
    MULT, MULTU, DIV, DIVU, RES, RES, RES, RES,
    ADD, ADDU, SUB, SUBU, AND, OR, XOR, NOR,
    RES, RES, SLT, SLTU, RES, RES, RES, RES,
    RES, RES, RES, RES, RES, RES, RES, RES,
    RES, RES, RES, RES, RES, RES, RES, RES]

/-- A decoded instruction. -/
structure Instruction where
  opCode : OpCode
  rs : ℕ
  rt : ℕ
  rd : ℕ
  extra : BitVec 32

/-- `width` bits of a word from bit `shift` on. -/
def field (value : BitVec 32) (shift width : ℕ) : ℕ := value.toNat / 2 ^ shift % 2 ^ width

theorem field_lt (value : BitVec 32) (shift width : ℕ) :
  field value shift width < 2 ^ width
  := Nat.mod_lt _ (Nat.two_pow_pos width)

/-- `Decode`: the immediate operand of a format. -/
def decodeExtra (value : BitVec 32) : Format → BitVec 32
  | .IFMT => (value.setWidth 16).signExtend 32
  | .RFMT => BitVec.ofNat 32 (field value 6 5)
  | .JFMT => value &&& 0x3ffffff#32

/-- `Decode`: the operation. -/
def decodeOp (value : BitVec 32) : Op → OpCode
  | .op opCode => opCode
  | .SPECIAL => specialTable.getD (field value 0 6) .RES
  | .BCOND =>
      let i := value &&& 0x1f0000#32
      if i = 0#32 then .BLTZ
      else if i = 0x10000#32 then .BGEZ
      else if i = 0x100000#32 then .BLTZAL
      else if i = 0x110000#32 then .BGEZAL
      else .UNIMP

/-- `Instruction::Decode`. -/
def decode (value : BitVec 32) : Instruction :=
  let opPtr := opTable.getD (field value 26 6) (.op .RES, .IFMT)
  { opCode := decodeOp value opPtr.1
    rs := field value 21 5
    rt := field value 16 5
    rd := field value 11 5
    extra := decodeExtra value opPtr.2 }

namespace Instruction

/-- Whether an operation reads the register `rs`. -/
def readsRs : OpCode → Bool
  | .ADD | .ADDI | .ADDIU | .ADDU | .AND | .ANDI | .BEQ | .BGEZ | .BGEZAL | .BGTZ | .BLEZ | .BLTZ
  | .BLTZAL | .BNE | .DIV | .DIVU | .JALR | .JR | .LB | .LBU | .LH | .LHU | .LW | .LWL | .LWR
  | .MTHI | .MTLO | .MULT | .MULTU | .NOR | .OR | .ORI | .SB | .SH | .SLLV | .SLT | .SLTI | .SLTIU
  | .SLTU | .SRAV | .SRLV | .SUB | .SUBU | .SW | .SWL | .SWR | .XOR | .XORI => true
  | .J | .JAL | .LUI | .MFHI | .MFLO | .RFE | .SLL | .SRA | .SRL | .SYSCALL | .UNIMP | .RES => false

/-- Whether an operation reads the register `rt`, apart from one that it loads to. -/
def readsRt : OpCode → Bool
  | .ADD | .ADDU | .AND | .BEQ | .BNE | .DIV | .DIVU | .MULT | .MULTU | .NOR | .SB | .SH | .SLL
  | .SLLV | .SLT | .SLTU | .SRA | .SRAV | .SRL | .SRLV | .SUB | .SUBU | .SW | .SWL | .SWR | .XOR =>
      true
  | .ADDI | .ADDIU | .ANDI | .BGEZ | .BGEZAL | .BGTZ | .BLEZ | .BLTZ | .BLTZAL | .J | .JAL | .JALR
  | .JR | .LB | .LBU | .LH | .LHU | .LUI | .LW | .LWL | .LWR | .MFHI | .MFLO | .MTHI | .MTLO | .OR
  | .ORI | .RFE | .SLTI | .SLTIU | .XORI | .SYSCALL | .UNIMP | .RES => false

/-- The register that an instruction writes or loads to. -/
def target (instr : Instruction) : Option ℕ :=
  match instr.opCode with
  | .ADD | .ADDU | .AND | .JALR | .MFHI | .MFLO | .NOR | .OR | .SLL | .SLLV | .SLT | .SLTU | .SRA
  | .SRAV | .SRL | .SRLV | .SUB | .SUBU | .XOR => some instr.rd
  | .ADDI | .ADDIU | .ANDI | .LB | .LBU | .LH | .LHU | .LUI | .LW | .LWL | .LWR | .ORI | .SLTI
  | .SLTIU | .XORI => some instr.rt
  | .BGEZAL | .BLTZAL | .JAL => some 31
  | .BEQ | .BGEZ | .BGTZ | .BLEZ | .BLTZ | .BNE | .DIV | .DIVU | .J | .JR | .MTHI | .MTLO | .MULT
  | .MULTU | .RFE | .SB | .SH | .SW | .SWL | .SWR | .SYSCALL | .UNIMP | .RES => none

/-- The instruction reads or writes the register `r`. -/
def Uses (instr : Instruction) (r : ℕ) : Prop :=
  readsRs instr.opCode = true ∧ instr.rs = r ∨ readsRt instr.opCode = true ∧ instr.rt = r ∨
    instr.target = some r

instance (instr : Instruction) (r : ℕ) : Decidable (instr.Uses r) := by
  unfold Uses
  infer_instance

end Instruction

end Nachos.Machine
