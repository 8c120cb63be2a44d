import Nachos.Library.Words
import Nachos.Machine.Decode
import Nachos.Memory.Basic

/-!
# The machine

How the machine executes an instruction (`machine/mipssim.cc`), and how it reads and writes memory on
the way (`machine/translate.cc`).

The switch of `OneInstruction` is split in two. `effect` says what each operation computes from its
operands, and `perform` what then happens to the registers and to memory. The simulation's host has
the byte order of the machine, and a `char` has a sign.
-/

namespace Nachos.Machine

open Nachos.Memory (VM PageSize NumPhysPages)

/-! ### Registers -/

def HiReg : ℕ := 32

def LoReg : ℕ := 33

def PCReg : ℕ := 34

def NextPCReg : ℕ := 35

def PrevPCReg : ℕ := 36

def LoadReg : ℕ := 37

def LoadValueReg : ℕ := 38

def BadVAddrReg : ℕ := 39

abbrev Registers := ℕ → BitVec 32

/-- Registers are written, one after the other. -/
def writeRegisters (registers : Registers) (writes : List (ℕ × BitVec 32)) : Registers :=
  writes.foldl (fun registers w => Function.update registers w.1 w.2) registers

/-- The register that a pending load is to be done to. -/
def pending (registers : Registers) : ℕ := (registers LoadReg).toNat

def delayedLoad (registers : Registers) (nextReg nextValue : BitVec 32) : Registers :=
  writeRegisters registers [(pending registers, registers LoadValueReg), (LoadReg, nextReg),
    (LoadValueReg, nextValue), (0, 0)]

/-! ### Operations -/

inductive ExceptionType where
  | SyscallException
  | PageFaultException
  | ReadOnlyException
  | BusErrorException
  | AddressErrorException
  | OverflowException
  | IllegalInstrException
deriving DecidableEq

/-- What an instruction does. -/
inductive Effect where
  /-- Registers are written, and the instruction at `pcAfter` is the one after the next. -/
  | write (writes : List (ℕ × BitVec 32)) (pcAfter : BitVec 32)
  /-- What is read is loaded to `reg`. The value may depend on the one that is there. -/
  | load (addr : BitVec 32) (size reg : ℕ) (nextLoadValue : BitVec 32 → BitVec 32 → BitVec 32)
  | store (addr : BitVec 32) (size : ℕ) (value : BitVec 32)
  /-- A word is read, and what is made of it is written back. -/
  | merge (addr : BitVec 32) (value : BitVec 32 → BitVec 32)
  | raise (which : ExceptionType) (badVAddr : BitVec 32)
  /-- An assertion fails. -/
  | fail

def IndexToAddr (x : BitVec 32) : BitVec 32 := x <<< 2

/-- The sign bit is set. -/
def sign (x : BitVec 32) : Bool := x &&& 0x80000000#32 != 0#32

/-- The loop of `Mult`, for the remaining iterations: the higher and the lower word. -/
def multLoop : ℕ → BitVec 32 → BitVec 32 → BitVec 32 → BitVec 32 → BitVec 32 → BitVec 32 × BitVec 32
  | 0, _, _, _, hi, lo => (hi, lo)
  | i + 1, a, bHi, bLo, hi, lo =>
      let odd := a &&& 1#32 != 0#32
      let lo' := if odd then lo + bLo else lo
      let hi' := if odd then hi + (if lo' < bLo then 1#32 else 0#32) + bHi else hi
      if odd && a &&& 0xfffffffe#32 == 0#32 then (hi', lo')
      else multLoop i (a.sshiftRight 1) (bHi <<< 1 ||| (if sign bLo then 1#32 else 0#32)) (bLo <<< 1)
        hi' lo'

/-- `Mult`: the higher and the lower word of the product. -/
def mult (a b : BitVec 32) (signedArith : Bool) : BitVec 32 × BitVec 32 :=
  if a = 0#32 ∨ b = 0#32 then (0#32, 0#32)
  else
    let negative := signedArith && (sign a != sign b)
    let a := if signedArith && sign a then -a else a
    let b := if signedArith && sign b then -b else b
    let (hi, lo) := multLoop 32 a 0#32 b 0#32 0#32
    if negative then
      let lo := ~~~lo + 1#32
      (if lo = 0#32 then ~~~hi + 1#32 else ~~~hi, lo)
    else (hi, lo)

/-- The switch of `OneInstruction`. The operands `a` and `b` are the registers `rs` and `rt`, and
`next` is the register `NextPCReg`. -/
def effect (instr : Instruction) (a b hi lo next : BitVec 32) : Effect :=
  let rs := instr.rs
  let rt := instr.rt
  let rd := instr.rd
  let extra := instr.extra
  let pcAfter := next + 4#32
  let branch := next + IndexToAddr extra
  let tmp := a + extra
  match instr.opCode with
  | .ADD =>
      let sum := a + b
      if !sign (a ^^^ b) && sign (a ^^^ sum) then .raise .OverflowException 0#32
      else .write [(rd, sum)] pcAfter
  | .ADDI =>
      let sum := a + extra
      if !sign (a ^^^ extra) && sign (extra ^^^ sum) then .raise .OverflowException 0#32
      else .write [(rt, sum)] pcAfter
  | .ADDIU => .write [(rt, a + extra)] pcAfter
  | .ADDU => .write [(rd, a + b)] pcAfter
  | .AND => .write [(rd, a &&& b)] pcAfter
  | .ANDI => .write [(rt, a &&& (extra &&& 0xffff#32))] pcAfter
  | .BEQ => .write [] (if a = b then branch else pcAfter)
  | .BGEZAL =>
      -- The register is compared after the return address has been written.
      .write [(31, pcAfter)] (if !sign (if rs = 31 then pcAfter else a) then branch else pcAfter)
  | .BGEZ => .write [] (if !sign a then branch else pcAfter)
  | .BGTZ => .write [] (if BitVec.slt 0#32 a then branch else pcAfter)
  | .BLEZ => .write [] (if BitVec.sle a 0#32 then branch else pcAfter)
  | .BLTZAL =>
      .write [(31, pcAfter)] (if sign (if rs = 31 then pcAfter else a) then branch else pcAfter)
  | .BLTZ => .write [] (if sign a then branch else pcAfter)
  | .BNE => .write [] (if a ≠ b then branch else pcAfter)
  | .DIV =>
      if b = 0#32 then .write [(LoReg, 0#32), (HiReg, 0#32)] pcAfter
      -- The division of the host overflows.
      else if a = 0x80000000#32 ∧ b = 0xffffffff#32 then .fail
      else .write [(LoReg, a.sdiv b), (HiReg, a.srem b)] pcAfter
  | .DIVU =>
      if b = 0#32 then .write [(LoReg, 0#32), (HiReg, 0#32)] pcAfter
      else .write [(LoReg, a / b), (HiReg, a % b)] pcAfter
  | .JAL => .write [(31, pcAfter)] (pcAfter &&& 0xf0000000#32 ||| IndexToAddr extra)
  | .J => .write [] (pcAfter &&& 0xf0000000#32 ||| IndexToAddr extra)
  | .JALR => .write [(rd, pcAfter)] (if rs = rd then pcAfter else a)
  | .JR => .write [] a
  | .LB => .load tmp 1 rt (fun _ value =>
      if value &&& 0x80#32 != 0#32 then value ||| 0xffffff00#32 else value &&& 0xff#32)
  | .LBU => .load tmp 1 rt (fun _ value => value &&& 0xff#32)
  | .LH =>
      if tmp &&& 1#32 != 0#32 then .raise .AddressErrorException tmp
      else .load tmp 2 rt (fun _ value =>
        if value &&& 0x8000#32 != 0#32 then value ||| 0xffff0000#32 else value &&& 0xffff#32)
  | .LHU =>
      if tmp &&& 1#32 != 0#32 then .raise .AddressErrorException tmp
      else .load tmp 2 rt (fun _ value => value &&& 0xffff#32)
  | .LUI => .write [(rt, extra <<< 16)] pcAfter
  | .LW =>
      if tmp &&& 3#32 != 0#32 then .raise .AddressErrorException tmp
      else .load tmp 4 rt (fun _ value => value)
  | .LWL =>
      if tmp &&& 3#32 != 0#32 then .fail
      else .load tmp 4 rt (fun nextLoadValue value =>
        match (tmp &&& 3#32).toNat with
        | 0 => value
        | 1 => nextLoadValue &&& 0xff#32 ||| value <<< 8
        | 2 => nextLoadValue &&& 0xffff#32 ||| value <<< 16
        | _ => nextLoadValue &&& 0xffffff#32 ||| value <<< 24)
  | .LWR =>
      if tmp &&& 3#32 != 0#32 then .fail
      else .load tmp 4 rt (fun nextLoadValue value =>
        match (tmp &&& 3#32).toNat with
        | 0 => nextLoadValue &&& 0xffffff00#32 ||| value.sshiftRight 24 &&& 0xff#32
        | 1 => nextLoadValue &&& 0xffff0000#32 ||| value.sshiftRight 16 &&& 0xffff#32
        | 2 => nextLoadValue &&& 0xff000000#32 ||| value.sshiftRight 8 &&& 0xffffff#32
        | _ => value)
  | .MFHI => .write [(rd, hi)] pcAfter
  | .MFLO => .write [(rd, lo)] pcAfter
  | .MTHI => .write [(HiReg, a)] pcAfter
  | .MTLO => .write [(LoReg, a)] pcAfter
  | .MULT => .write [(HiReg, (mult a b true).1), (LoReg, (mult a b true).2)] pcAfter
  | .MULTU => .write [(HiReg, (mult a b false).1), (LoReg, (mult a b false).2)] pcAfter
  | .NOR => .write [(rd, ~~~(a ||| b))] pcAfter
  | .OR => .write [(rd, a ||| a)] pcAfter
  | .ORI => .write [(rt, a ||| (extra &&& 0xffff#32))] pcAfter
  | .SB => .store tmp 1 b
  | .SH => .store tmp 2 b
  | .SLL => .write [(rd, b <<< extra.toNat)] pcAfter
  | .SLLV => .write [(rd, b <<< (a &&& 0x1f#32).toNat)] pcAfter
  | .SLT => .write [(rd, if BitVec.slt a b then 1#32 else 0#32)] pcAfter
  | .SLTI => .write [(rt, if BitVec.slt a extra then 1#32 else 0#32)] pcAfter
  | .SLTIU => .write [(rt, if a < extra then 1#32 else 0#32)] pcAfter
  | .SLTU => .write [(rd, if a < b then 1#32 else 0#32)] pcAfter
  | .SRA => .write [(rd, b.sshiftRight extra.toNat)] pcAfter
  | .SRAV => .write [(rd, b.sshiftRight (a &&& 0x1f#32).toNat)] pcAfter
  -- `tmp` has a sign, so that this is the same as `SRA`.
  | .SRL => .write [(rd, b.sshiftRight extra.toNat)] pcAfter
  | .SRLV => .write [(rd, b.sshiftRight (a &&& 0x1f#32).toNat)] pcAfter
  | .SUB =>
      let diff := a - b
      if sign (a ^^^ b) && sign (a ^^^ diff) then .raise .OverflowException 0#32
      else .write [(rd, diff)] pcAfter
  | .SUBU => .write [(rd, a - b)] pcAfter
  | .SW => .store tmp 4 b
  | .SWL =>
      if tmp &&& 3#32 != 0#32 then .fail
      else .merge (tmp &&& ~~~3#32) (fun value =>
        match (tmp &&& 3#32).toNat with
        | 0 => b
        | 1 => value &&& 0xff000000#32 ||| b.sshiftRight 8 &&& 0xffffff#32
        | 2 => value &&& 0xffff0000#32 ||| b.sshiftRight 16 &&& 0xffff#32
        | _ => value &&& 0xffffff00#32 ||| b.sshiftRight 24 &&& 0xff#32)
  | .SWR =>
      if tmp &&& 3#32 != 0#32 then .fail
      else .merge (tmp &&& ~~~3#32) (fun value =>
        match (tmp &&& 3#32).toNat with
        | 0 => value &&& 0xffffff#32 ||| b <<< 24
        | 1 => value &&& 0xffff#32 ||| b <<< 16
        | 2 => value &&& 0xff#32 ||| b <<< 8
        | _ => b)
  | .SYSCALL => .raise .SyscallException 0#32
  | .XOR => .write [(rd, a ^^^ b)] pcAfter
  | .XORI => .write [(rt, a ^^^ (extra &&& 0xffff#32))] pcAfter
  | .RES | .UNIMP => .raise .IllegalInstrException 0#32
  | .RFE => .fail

/-! ### Memory -/

/-- An address has the wrong alignment for an access. -/
def Misaligned (virtAddr : BitVec 32) (size : ℕ) : Prop :=
  size = 4 ∧ virtAddr &&& 3#32 ≠ 0#32 ∨ size = 2 ∧ virtAddr &&& 1#32 ≠ 0#32

instance (virtAddr : BitVec 32) (size : ℕ) : Decidable (Misaligned virtAddr size) := by
  unfold Misaligned
  infer_instance

/-- `Translate`: the slot of the translation buffer that is used, or an exception. -/
def translate (vm : VM) (virtAddr : BitVec 32) (size : ℕ) (writing : Bool) :
    Except ExceptionType ℕ :=
  if Misaligned virtAddr size then .error .AddressErrorException
  else
    match vm.slotOf (virtAddr.toNat / PageSize) with
    | none => .error .PageFaultException
    | some i =>
        if (vm.tlb i).readOnly && writing then .error .ReadOnlyException
        else if NumPhysPages ≤ (vm.tlb i).physicalPage then .error .BusErrorException
        else .ok i

/-- The number in `size` bytes. -/
def valueOf (size : ℕ) (bytes : List UInt8) : BitVec 32 :=
  if size = 1 then (BitVec.ofNat 8 (Words.value bytes)).signExtend 32
  else BitVec.ofNat 32 (Words.value bytes)

/-- `ReadMem`, up to the exception that it raises. -/
def readMem (vm : VM) (addr : BitVec 32) (size : ℕ) : Except ExceptionType (VM × BitVec 32) :=
  match translate vm addr size false with
  | .error exception => .error exception
  | .ok i => .ok (vm.touch i false,
      valueOf size (VM.readBytes (vm.mainMemory (vm.tlb i).physicalPage) (addr.toNat % PageSize) size))

/-- `WriteMem`, up to the exception that it raises. -/
def writeMem (vm : VM) (addr : BitVec 32) (size : ℕ) (value : BitVec 32) : Except ExceptionType VM :=
  match translate vm addr size true with
  | .error exception => .error exception
  | .ok i => .ok { vm.touch i true with
      mainMemory := Function.update vm.mainMemory (vm.tlb i).physicalPage
        (VM.writeBytes (vm.mainMemory (vm.tlb i).physicalPage) (addr.toNat % PageSize)
          (Words.bytes size value.toNat)) }

/-! ### Instructions -/

structure Machine where
  registers : Registers
  vm : VM

/-- How an instruction ends. -/
inductive Outcome where
  | completed (s : Machine)
  /-- An exception, with the state that the kernel finds. -/
  | raised (which : ExceptionType) (s : Machine)
  /-- An assertion fails. -/
  | failed

namespace Machine

/-- `RaiseException`, up to the kernel. -/
def raiseException (s : Machine) (which : ExceptionType) (badVAddr : BitVec 32) : Outcome :=
  .raised which { s with
    registers := delayedLoad (Function.update s.registers BadVAddrReg badVAddr) 0#32 0#32 }

/-- The end of `OneInstruction`: the delayed load is done, and the program counters advance. -/
def finish (registers : Registers) (nextLoadReg nextLoadValue pcAfter : BitVec 32) : Registers :=
  let registers := delayedLoad registers nextLoadReg nextLoadValue
  writeRegisters registers
    [(PrevPCReg, registers PCReg), (PCReg, registers NextPCReg), (NextPCReg, pcAfter)]

/-- The value that a partial load replaces. -/
def loadedValue (registers : Registers) (reg : ℕ) : BitVec 32 :=
  if pending registers = reg then registers LoadValueReg else registers reg

/-- What an operation does to the machine. -/
def perform (s : Machine) : Effect → Outcome
  | .write writes pcAfter =>
      .completed { s with registers := finish (writeRegisters s.registers writes) 0#32 0#32 pcAfter }
  | .load addr size reg nextLoadValue =>
      match readMem s.vm addr size with
      | .error exception => s.raiseException exception addr
      | .ok (vm, value) => .completed
          { registers := finish s.registers (BitVec.ofNat 32 reg)
              (nextLoadValue (loadedValue s.registers reg) value) (s.registers NextPCReg + 4#32)
            vm := vm }
  | .store addr size value =>
      match writeMem s.vm addr size value with
      | .error exception => s.raiseException exception addr
      | .ok vm => .completed
          { registers := finish s.registers 0#32 0#32 (s.registers NextPCReg + 4#32)
            vm := vm }
  | .merge addr value =>
      match readMem s.vm addr 4 with
      | .error exception => s.raiseException exception addr
      | .ok (vm, old) =>
          match writeMem vm addr 4 (value old) with
          | .error exception => { s with vm := vm }.raiseException exception addr
          | .ok vm => .completed
              { registers := finish s.registers 0#32 0#32 (s.registers NextPCReg + 4#32)
                vm := vm }
  | .raise which badVAddr => s.raiseException which badVAddr
  | .fail => .failed

/-- The effect of an instruction on the operands in the registers. -/
def effectOf (registers : Registers) (instr : Instruction) : Effect :=
  effect instr (registers instr.rs) (registers instr.rt) (registers HiReg) (registers LoReg)
    (registers NextPCReg)

def oneInstruction (s : Machine) : Outcome :=
  match readMem s.vm (s.registers PCReg) 4 with
  | .error exception => s.raiseException exception (s.registers PCReg)
  | .ok (vm, raw) => { s with vm := vm }.perform (effectOf s.registers (decode raw))

end Machine

end Nachos.Machine
