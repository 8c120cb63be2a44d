import Nachos.Machine.Basic
import Nachos.Memory.Coherence

/-!
# Executing an instruction again

An instruction that meets a page fault is executed again from its beginning, after the pending load has
been done. When it does not use the register of that load, it then does what it would have done before,
unless there is another page fault (`Restarted.oneInstruction`).
-/

namespace Nachos.Machine

open Nachos.Memory (VM PageSize NumPhysPages TLBSize)

/-! ### What the program sees -/

/-- No page is read only. -/
structure Writable (vm : VM) : Prop where
  tlb : ∀ i, (vm.tlb i).valid = true → (vm.tlb i).readOnly = false
  ipt : ∀ f, (vm.IPT f).entry.valid = true → (vm.IPT f).entry.readOnly = false
  pages : ∀ S sp, vm.spaces S = some sp → ∀ v, (sp.pageTable v).entry.readOnly = false

/-- The program that runs in the address space `S` sees `memory`. -/
structure Shows (vm : VM) (S : ℕ) (memory : ℕ → UInt8) : Prop where
  ok : vm.Ok
  coherent : ∃ memories, vm.Coherent memories (fun _ => False) ∧ memories S = memory
  space : vm.space = some S
  writable : Writable vm

/-- The lowest `k` bits of a word are clear when it is a multiple of `2 ^ k`. -/
theorem and_eq_zero_iff_dvd (x : BitVec 32) (k : ℕ) (hk : k < 32) :
  x &&& BitVec.ofNat 32 (2 ^ k - 1) = 0#32 ↔ 2 ^ k ∣ x.toNat
  := by
  rw [← BitVec.toNat_inj, BitVec.toNat_and, BitVec.toNat_ofNat, Nat.mod_eq_of_lt,
    Nat.and_two_pow_sub_one_eq_mod, Nat.dvd_iff_mod_eq_zero]
  · rfl
  · have hlt : 2 ^ k < 2 ^ 32 := Nat.pow_lt_pow_right (by decide) hk
    omega

theorem dvd_of_not_misaligned {addr : BitVec 32} {size : ℕ} (hsize : VM.IsSize size)
    (h : ¬ Misaligned addr size) :
  size ∣ addr.toNat
  := by
  rw [Misaligned, not_or, not_and, not_and, not_not, not_not] at h
  obtain rfl | rfl | rfl := hsize
  · apply one_dvd
  · exact (and_eq_zero_iff_dvd addr 1 (by decide)).mp (h.2 rfl)
  · exact (and_eq_zero_iff_dvd addr 2 (by decide)).mp (h.1 rfl)

/-- How a translation can end. -/
inductive Translated (vm : VM) (S : ℕ) (addr : BitVec 32) (size : ℕ) : Except ExceptionType ℕ → Prop
  | fault (haligned : ¬ Misaligned addr size) (hslot : vm.slotOf (addr.toNat / PageSize) = none) :
      Translated vm S addr size (.error .PageFaultException)
  | misaligned (h : Misaligned addr size) :
      Translated vm S addr size (.error .AddressErrorException)
  | slot {i : ℕ} (haligned : ¬ Misaligned addr size) (hi : i < TLBSize)
      (hholds : vm.Holds (vm.tlb i).physicalPage S (addr.toNat / PageSize)) :
      Translated vm S addr size (.ok i)

/-- How reading memory can end. -/
inductive Reads (vm : VM) (S : ℕ) (memory : ℕ → UInt8) (addr : BitVec 32) (size : ℕ) :
    Except ExceptionType (VM × BitVec 32) → Prop
  | fault (haligned : ¬ Misaligned addr size) (hslot : vm.slotOf (addr.toNat / PageSize) = none) :
      Reads vm S memory addr size (.error .PageFaultException)
  | misaligned (h : Misaligned addr size) :
      Reads vm S memory addr size (.error .AddressErrorException)
  | value {vm' : VM} (haligned : ¬ Misaligned addr size) (hshows : Shows vm' S memory) :
      Reads vm S memory addr size (.ok (vm', valueOf size (VM.readBytes memory addr.toNat size)))

/-- How writing memory can end. -/
inductive Writes (vm : VM) (S : ℕ) (memory : ℕ → UInt8) (addr : BitVec 32) (size : ℕ)
    (value : BitVec 32) : Except ExceptionType VM → Prop
  | fault (haligned : ¬ Misaligned addr size) (hslot : vm.slotOf (addr.toNat / PageSize) = none) :
      Writes vm S memory addr size value (.error .PageFaultException)
  | misaligned (h : Misaligned addr size) :
      Writes vm S memory addr size value (.error .AddressErrorException)
  | written {vm' : VM} (haligned : ¬ Misaligned addr size)
      (hshows : Shows vm' S (VM.writeBytes memory addr.toNat (Words.bytes size value.toNat))) :
      Writes vm S memory addr size value (.ok vm')

section Memory

variable {vm : VM} {memory : ℕ → UInt8} {S : ℕ}

theorem Shows.translate (h : Shows vm S memory) (addr : BitVec 32) (size : ℕ) (writing : Bool) :
  Translated vm S addr size (translate vm addr size writing)
  := by
  rw [Machine.translate]
  split
  · rename_i hmisaligned
    exact .misaligned hmisaligned
  · rename_i haligned
    cases hslot : vm.slotOf (addr.toNat / PageSize) with
    | none => exact .fault haligned hslot
    | some i =>
        have hi := List.mem_range.mp (List.mem_of_find?_eq_some hslot)
        have hfound := List.find?_some hslot
        simp only [Bool.and_eq_true, beq_iff_eq] at hfound
        obtain ⟨T, hT, hholds⟩ := h.ok.buffered.slot i hi hfound.1
        obtain rfl := Option.some.inj (h.space.symm.trans hT)
        rw [hfound.2] at hholds
        simp only [h.writable.tlb i hfound.1, Bool.false_and, Bool.false_eq_true, if_false,
          Nat.not_le.mpr hholds.lt]
        exact .slot haligned hi hholds

theorem Writable.setTLB (h : Writable vm) (i : ℕ) (e : Memory.TranslationEntry)
    (he : e.valid = true → e.readOnly = false) :
  Writable (vm.setTLB i e)
  := by
  refine ⟨?_, h.ipt, h.pages⟩
  intro j hvalid
  simp only [VM.setTLB, Function.update_apply] at hvalid ⊢
  split
  · rename_i hj
    rw [if_pos hj] at hvalid
    exact he hvalid
  · rename_i hj
    rw [if_neg hj] at hvalid
    exact h.tlb j hvalid

theorem Shows.touch (h : Shows vm S memory) (i : ℕ) (writing : Bool) :
  Shows (vm.touch i writing) S memory
  := by
  obtain ⟨memories, hcoherent, hmemory⟩ := h.coherent
  constructor
  · exact h.ok.touch i writing vm.mainMemory
  · exact ⟨memories, hcoherent.touch i writing, hmemory⟩
  · exact h.space
  · exact h.writable.setTLB i _ (h.writable.tlb i)

theorem Shows.readMem (h : Shows vm S memory) (addr : BitVec 32) {size : ℕ}
    (hsize : VM.IsSize size) :
  Reads vm S memory addr size (readMem vm addr size)
  := by
  have htranslated := h.translate addr size false
  rw [Machine.readMem]
  generalize Machine.translate vm addr size false = t at htranslated
  cases htranslated with
  | fault haligned hslot => exact .fault haligned hslot
  | misaligned hmisaligned => exact .misaligned hmisaligned
  | @slot i haligned hi hholds =>
      obtain ⟨memories, hcoherent, rfl⟩ := h.coherent
      have hle := VM.offset_add_le hsize (dvd_of_not_misaligned hsize haligned)
      have hbytes := VM.SamePage.readBytes (hcoherent.resident _ _ _ id hholds) hle
      simp only [hbytes]
      exact .value haligned (h.touch i false)

theorem length_bytes_eq (size : ℕ) (value : BitVec 32) :
  (Words.bytes size value.toNat).length = size
  := Words.length_bytes size value.toNat

theorem Shows.writeMem (h : Shows vm S memory) (addr : BitVec 32) {size : ℕ}
    (hsize : VM.IsSize size) (value : BitVec 32) :
  Writes vm S memory addr size value (writeMem vm addr size value)
  := by
  have htranslated := h.translate addr size true
  rw [Machine.writeMem]
  generalize Machine.translate vm addr size true = t at htranslated
  cases htranslated with
  | fault haligned hslot => exact .fault haligned hslot
  | misaligned hmisaligned => exact .misaligned hmisaligned
  | @slot i haligned hi hholds =>
      obtain ⟨memories, hcoherent, rfl⟩ := h.coherent
      have hle := VM.offset_add_le hsize (dvd_of_not_misaligned hsize haligned)
      rw [← length_bytes_eq size value] at hle
      refine .written haligned ?_
      constructor
      · exact h.ok.touch i true _
      · exact ⟨_, hcoherent.write h.ok.mapping hi hholds hle, Function.update_self _ _ _⟩
      · exact h.space
      · exact ⟨(h.touch i true).writable.tlb, h.writable.ipt, h.writable.pages⟩

end Memory

/-! ### Operations -/

/-- An operation depends on the operands that it reads. -/
theorem effect_congr {instr : Instruction} {a a' b b' : BitVec 32} (hi lo next : BitVec 32)
    (ha : Instruction.readsRs instr.opCode = true → a' = a)
    (hb : Instruction.readsRt instr.opCode = true → b' = b) :
  effect instr a' b' hi lo next = effect instr a b hi lo next
  := by
  obtain ⟨opCode, rs, rt, rd, extra⟩ := instr
  cases opCode
  all_goals
    first
    | rw [ha rfl, hb rfl]
    | rw [ha rfl]
      rfl
    | rw [hb rfl]
      rfl
    | rfl

/-- What an operation writes and loads to is its target, but for the result of a multiplication or
division, and it accesses one, two or four bytes. -/
def Effect.Fits (instr : Instruction) : Effect → Prop
  | .write writes _ => ∀ w ∈ writes, instr.target = some w.1 ∨ w.1 = HiReg ∨ w.1 = LoReg
  | .load _ size reg _ => VM.IsSize size ∧ instr.target = some reg
  | .store _ size _ => VM.IsSize size
  | .merge _ _ | .raise _ _ | .fail => True

theorem effect_fits (instr : Instruction) (a b hi lo next : BitVec 32) :
  (effect instr a b hi lo next).Fits instr
  := by
  obtain ⟨opCode, rs, rt, rd, extra⟩ := instr
  cases opCode
  all_goals
    simp only [effect]
    repeat' split
  all_goals simp [Effect.Fits, Instruction.target, VM.IsSize]

theorem Instruction.target_lt {value : BitVec 32} {r : ℕ} (h : (decode value).target = some r) :
  r < 32
  := by
  have hrt : (decode value).rt < 32 := field_lt value 16 5
  have hrd : (decode value).rd < 32 := field_lt value 11 5
  rw [target] at h
  split at h
  all_goals cases h
  all_goals
    first
    | exact hrd
    | exact hrt
    | decide

/-! ### Registers after a page fault -/

/-- What holds of the registers between two instructions. -/
structure Sound (r : Registers) : Prop where
  zero : r 0 = 0#32
  pending_lt : pending r < 32

/-- The pending load has been done. -/
structure Flushed (r r' : Registers) : Prop where
  same : ∀ i < PrevPCReg, pending r = 0 ∨ i ≠ pending r → r' i = r i
  loaded : pending r ≠ 0 → r' (pending r) = r LoadValueReg
  done : r' LoadReg = 0#32

/-- The registers of an instruction that is executed for the first time, or again. -/
def Restarted (r r' : Registers) : Prop := r' = r ∨ Flushed r r'

theorem pending_eq_zero {r : Registers} (h : r LoadReg = 0#32) :
  pending r = 0
  := by
  rw [pending, h]
  rfl

theorem Restarted.same {r r' : Registers} (h : Restarted r r') {i : ℕ} (hi : i < PrevPCReg)
    (hpending : pending r = 0 ∨ i ≠ pending r) :
  r' i = r i
  := by
  obtain rfl | hflushed := h
  · rfl
  · exact hflushed.same i hi hpending

/-- Reading a register that has been written after a delayed load. -/
theorem delayedLoad_apply (r : Registers) (nextReg nextValue : BitVec 32) {i : ℕ}
    (hi : i < PrevPCReg) :
  delayedLoad r nextReg nextValue i =
    if i = 0 then 0#32 else if i = pending r then r LoadValueReg else r i
  := by
  have hload : i ≠ LoadReg := by
    rintro rfl
    revert hi
    decide
  have hvalue : i ≠ LoadValueReg := by
    rintro rfl
    revert hi
    decide
  simp only [delayedLoad, writeRegisters, List.foldl_cons, List.foldl_nil, Function.update_apply,
    if_neg hload, if_neg hvalue]
  rfl

theorem delayedLoad_badVAddrReg {r : Registers} (h : pending r < 32) (nextReg nextValue : BitVec 32) :
  delayedLoad r nextReg nextValue BadVAddrReg = r BadVAddrReg
  := by
  have hne : BadVAddrReg ≠ pending r := by
    rw [BadVAddrReg]
    omega
  simp only [delayedLoad, writeRegisters, List.foldl_cons, List.foldl_nil]
  rw [Function.update_of_ne (by decide), Function.update_of_ne (by decide),
    Function.update_of_ne (by decide), Function.update_of_ne hne]

theorem pending_update {r : Registers} {i : ℕ} (hi : i ≠ LoadReg) (value : BitVec 32) :
  pending (Function.update r i value) = pending r
  := by
  rw [pending, Function.update_of_ne (Ne.symm hi)]
  rfl

/-- A page fault leaves the registers as if the pending load had been done. -/
theorem Sound.flushed {r r' : Registers} (h : Sound r) (hr : Restarted r r') (badVAddr : BitVec 32) :
  Flushed r (delayedLoad (Function.update r' BadVAddrReg badVAddr) 0#32 0#32)
  := by
  have hbad : ∀ i < PrevPCReg, Function.update r' BadVAddrReg badVAddr i = r' i := by
    rintro i hi
    apply Function.update_of_ne
    rintro rfl
    revert hi
    decide
  have hpending : pending (Function.update r' BadVAddrReg badVAddr) = pending r' :=
    pending_update (by decide) badVAddr
  have hvalue : Function.update r' BadVAddrReg badVAddr LoadValueReg = r' LoadValueReg :=
    Function.update_of_ne (by decide) _ _
  have hlt : pending r < PrevPCReg := lt_trans h.pending_lt (by decide)
  constructor
  · intro i hi hout
    rw [delayedLoad_apply _ _ _ hi, hbad i hi, hpending, hvalue]
    split
    · rename_i hzero
      rw [hzero, h.zero]
    · rename_i hzero
      split
      · rename_i hi'
        obtain rfl | hflushed := hr
        · obtain hnone | hne := hout
          · exact absurd (hi'.trans hnone) hzero
          · exact absurd hi' hne
        · exact absurd (hi'.trans (pending_eq_zero hflushed.done)) hzero
      · exact hr.same hi hout
  · intro hne
    rw [delayedLoad_apply _ _ _ hlt, if_neg hne, hbad _ hlt, hpending, hvalue]
    obtain rfl | hflushed := hr
    · exact if_pos rfl
    · rw [pending_eq_zero hflushed.done, if_neg hne]
      exact hflushed.loaded hne
  · rfl

/-- The same write to another register than that of the pending load. -/
theorem Restarted.update {r r' : Registers} (h : Restarted r r') {i : ℕ} (hi : i < PrevPCReg)
    (hpending : pending r = 0 ∨ i ≠ pending r) (value : BitVec 32) :
  Restarted (Function.update r i value) (Function.update r' i value)
  := by
  have hload : i ≠ LoadReg := by
    rintro rfl
    revert hi
    decide
  have hvalue : i ≠ LoadValueReg := by
    rintro rfl
    revert hi
    decide
  obtain rfl | hflushed := h
  · exact .inl rfl
  · right
    constructor
    · intro j hj hout
      rw [pending_update hload] at hout
      rw [Function.update_apply, Function.update_apply]
      split
      · rfl
      · exact hflushed.same j hj hout
    · intro hne
      rw [pending_update hload] at hne ⊢
      rw [Function.update_of_ne (Ne.symm hvalue)]
      obtain hnone | hout := hpending
      · exact absurd hnone hne
      · rw [Function.update_of_ne (Ne.symm hout)]
        exact hflushed.loaded hne
    · rw [Function.update_of_ne (Ne.symm hload)]
      exact hflushed.done

theorem Restarted.writeRegisters {r r' : Registers} (h : Restarted r r')
    (writes : List (ℕ × BitVec 32))
    (hwrites : ∀ w ∈ writes, w.1 < PrevPCReg ∧ (pending r = 0 ∨ w.1 ≠ pending r)) :
  Restarted (writeRegisters r writes) (writeRegisters r' writes)
  := by
  induction writes generalizing r r' with
  | nil => exact h
  | cons w writes ih =>
      obtain ⟨hlt, hout⟩ := hwrites w (List.mem_cons_self ..)
      apply ih (h.update hlt hout w.2)
      intro v hv
      have hload : w.1 ≠ LoadReg := by
        intro heq
        rw [heq] at hlt
        revert hlt
        decide
      rw [pending_update hload]
      exact hwrites v (List.mem_cons_of_mem _ hv)

/-- What the program sees of the registers, with the effect of the pending load. -/
structure SameResult (r r' : Registers) : Prop where
  same : ∀ i < PrevPCReg, r' i = r i
  loadReg : r' LoadReg = r LoadReg
  loadValue : r LoadReg ≠ 0#32 → r' LoadValueReg = r LoadValueReg

/-- A delayed load makes up for one that has been done before. -/
theorem Restarted.delayedLoad {r r' : Registers} (h : Restarted r r')
    (nextReg nextValue nextValue' : BitVec 32) {i : ℕ} (hi : i < PrevPCReg) :
  delayedLoad r' nextReg nextValue' i = delayedLoad r nextReg nextValue i
  := by
  rw [delayedLoad_apply _ _ _ hi, delayedLoad_apply _ _ _ hi]
  split
  · rfl
  · rename_i hzero
    obtain rfl | hflushed := h
    · rfl
    · rw [pending_eq_zero hflushed.done, if_neg hzero]
      split
      · rename_i hi'
        rw [hi'] at hzero ⊢
        exact hflushed.loaded hzero
      · rename_i hout
        exact hflushed.same i hi (.inr hout)

theorem finish_apply (r : Registers) (nextReg nextValue pcAfter : BitVec 32) {i : ℕ}
    (hi : i ≠ PrevPCReg) :
  Machine.finish r nextReg nextValue pcAfter i =
    if i = NextPCReg then pcAfter
    else delayedLoad r nextReg nextValue (if i = PCReg then NextPCReg else i)
  := by
  simp only [Machine.finish, writeRegisters, List.foldl_cons, List.foldl_nil, Function.update_apply,
    if_neg hi]
  split
  · rfl
  · split
    · rfl
    · rfl

theorem Restarted.finish {r r' : Registers} (h : Restarted r r')
    {nextReg nextValue nextValue' : BitVec 32} (pcAfter : BitVec 32)
    (hvalue : nextReg ≠ 0#32 → nextValue' = nextValue) :
  SameResult (Machine.finish r nextReg nextValue pcAfter)
    (Machine.finish r' nextReg nextValue' pcAfter)
  := by
  constructor
  · intro i hi
    rw [finish_apply _ _ _ _ (ne_of_lt hi), finish_apply _ _ _ _ (ne_of_lt hi)]
    split
    · rfl
    · apply h.delayedLoad
      split
      · decide
      · exact hi
  · rfl
  · exact hvalue

/-- The value that a partial load replaces does not depend on when the pending load is done. -/
theorem Restarted.loadedValue {r r' : Registers} (h : Restarted r r') {reg : ℕ} (hreg : reg ≠ 0)
    (hlt : reg < PrevPCReg) :
  Machine.loadedValue r' reg = Machine.loadedValue r reg
  := by
  obtain rfl | hflushed := h
  · rfl
  · rw [Machine.loadedValue, Machine.loadedValue, pending_eq_zero hflushed.done,
      if_neg (Ne.symm hreg)]
    split
    · rename_i heq
      rw [← heq] at hreg ⊢
      exact hflushed.loaded hreg
    · rename_i hne
      exact hflushed.same reg hlt (.inr (Ne.symm hne))

/-! ### Instructions -/

/-- The instruction at `pc`. -/
def instructionAt (memory : ℕ → UInt8) (pc : BitVec 32) : Instruction :=
  decode (valueOf 4 (VM.readBytes memory pc.toNat 4))

/-- Another attempt to execute an instruction meets a page fault, or does what the instruction does
without page faults. -/
inductive Attempt (r : Registers) (S : ℕ) (memory : ℕ → UInt8) (t₀ : Machine) : Outcome → Prop
  | fault {v : Machine} (hflushed : Flushed r v.registers) (hshows : Shows v.vm S memory)
      (hslot : v.vm.slotOf ((v.registers BadVAddrReg).toNat / PageSize) = none) :
      Attempt r S memory t₀ (.raised .PageFaultException v)
  | completed {t : Machine} {memory' : ℕ → UInt8} (hregisters : SameResult t₀.registers t.registers)
      (hshows₀ : Shows t₀.vm S memory') (hshows : Shows t.vm S memory') :
      Attempt r S memory t₀ (.completed t)

section Attempts

variable {r r' : Registers} {vm vm₀ : VM} {S : ℕ} {memory : ℕ → UInt8} {t₀ : Machine}

theorem Sound.pageFault (hr : Sound r) (h : Restarted r r') (hshows : Shows vm S memory)
    {addr : BitVec 32} (hslot : vm.slotOf (addr.toNat / PageSize) = none) :
  Attempt r S memory t₀ (Machine.raiseException ⟨r', vm⟩ .PageFaultException addr)
  := by
  refine .fault (hr.flushed h addr) hshows ?_
  have hlt : pending r' < 32 := by
    obtain rfl | hflushed := h
    · exact hr.pending_lt
    · rw [pending_eq_zero hflushed.done]
      decide
  have haddr : delayedLoad (Function.update r' BadVAddrReg addr) 0#32 0#32 BadVAddrReg = addr := by
    rw [delayedLoad_badVAddrReg]
    · exact Function.update_self _ _ _
    · rw [pending_update (by decide)]
      exact hlt
  simp only [haddr]
  exact hslot

/-- The operands of an instruction that does not use the register of the pending load. -/
theorem Restarted.effectOf (h : Restarted r r') (hr : Sound r) {value : BitVec 32}
    (huses : pending r ≠ 0 → ¬ (decode value).Uses (pending r)) :
  Machine.effectOf r' (decode value) = Machine.effectOf r (decode value)
  := by
  have hout {i : ℕ} (hi : 32 ≤ i) : pending r = 0 ∨ i ≠ pending r :=
    .inr (ne_of_gt (lt_of_lt_of_le hr.pending_lt hi))
  have hrs : (decode value).rs < PrevPCReg := lt_trans (field_lt value 21 5) (by decide)
  have hrt : (decode value).rt < PrevPCReg := lt_trans (field_lt value 16 5) (by decide)
  rw [Machine.effectOf, Machine.effectOf, h.same (i := HiReg) (by decide) (hout (by decide)),
    h.same (i := LoReg) (by decide) (hout (by decide)),
    h.same (i := NextPCReg) (by decide) (hout (by decide))]
  apply effect_congr
  · intro hreads
    apply h.same hrs
    by_contra hnot
    rw [not_or, not_not] at hnot
    exact huses hnot.1 (.inl ⟨hreads, hnot.2⟩)
  · intro hreads
    apply h.same hrt
    by_contra hnot
    rw [not_or, not_not] at hnot
    exact huses hnot.1 (.inr (.inl ⟨hreads, hnot.2⟩))

theorem Restarted.next (h : Restarted r r') (hr : Sound r) :
  r' NextPCReg = r NextPCReg
  := h.same (by decide) (.inr (ne_of_gt (lt_trans hr.pending_lt (by decide))))

theorem Restarted.store (h : Restarted r r') (hr : Sound r) (hshows : Shows vm S memory)
    (hshows₀ : Shows vm₀ S memory) {addr value : BitVec 32} {size : ℕ} (hsize : VM.IsSize size)
    (hfree : Machine.perform ⟨r, vm₀⟩ (.store addr size value) = .completed t₀) :
  Attempt r S memory t₀ (Machine.perform ⟨r', vm⟩ (.store addr size value))
  := by
  have hwrites₀ := hshows₀.writeMem addr hsize value
  have hwrites := hshows.writeMem addr hsize value
  rw [Machine.perform] at hfree ⊢
  simp only at hfree ⊢
  generalize writeMem vm₀ addr size value = x₀ at hwrites₀ hfree
  generalize writeMem vm addr size value = x at hwrites
  cases hwrites₀ with
  | fault _ _ => contradiction
  | misaligned _ => contradiction
  | written haligned hafter₀ =>
      obtain rfl := Outcome.completed.inj hfree
      cases hwrites with
      | fault _ hslot => exact hr.pageFault h hshows hslot
      | misaligned hmisaligned => exact absurd hmisaligned haligned
      | written _ hafter =>
          refine .completed ?_ hafter₀ hafter
          simp only [h.next hr]
          exact h.finish _ (fun _ => rfl)

/-- An operation is done as without page faults. -/
theorem Restarted.perform (h : Restarted r r') (hr : Sound r) {value : BitVec 32}
    (huses : pending r ≠ 0 → ¬ (decode value).Uses (pending r)) (hshows : Shows vm S memory)
    (hshows₀ : Shows vm₀ S memory) {e : Effect} (he : e.Fits (decode value))
    (hfree : Machine.perform ⟨r, vm₀⟩ e = .completed t₀) :
  Attempt r S memory t₀ (Machine.perform ⟨r', vm⟩ e)
  := by
  have htarget {i : ℕ} (hi : (decode value).target = some i) : pending r = 0 ∨ i ≠ pending r := by
    by_contra hnot
    rw [not_or, not_not] at hnot
    exact huses hnot.1 (.inr (.inr (hnot.2 ▸ hi)))
  cases e with
  | write writes pcAfter =>
      obtain rfl := Outcome.completed.inj hfree
      refine .completed (Restarted.finish ?_ pcAfter fun _ => rfl) hshows₀ hshows
      apply h.writeRegisters
      intro w hw
      obtain hw | hw := he w hw
      · exact ⟨lt_trans (Instruction.target_lt hw) (by decide), htarget hw⟩
      · have hge : 32 ≤ w.1 ∧ w.1 < PrevPCReg := by
          obtain hw | hw := hw
          · rw [hw]
            decide
          · rw [hw]
            decide
        exact ⟨hge.2, .inr (ne_of_gt (lt_of_lt_of_le hr.pending_lt hge.1))⟩
  | load addr size reg nextLoadValue =>
      have hreads₀ := hshows₀.readMem addr he.1
      have hreads := hshows.readMem addr he.1
      rw [Machine.perform] at hfree ⊢
      simp only at hfree ⊢
      generalize readMem vm₀ addr size = x₀ at hreads₀ hfree
      generalize readMem vm addr size = x at hreads
      cases hreads₀ with
      | fault _ _ => contradiction
      | misaligned _ => contradiction
      | value haligned hafter₀ =>
          obtain rfl := Outcome.completed.inj hfree
          cases hreads with
          | fault _ hslot => exact hr.pageFault h hshows hslot
          | misaligned hmisaligned => exact absurd hmisaligned haligned
          | value _ hafter =>
              refine .completed ?_ hafter₀ hafter
              simp only [h.next hr]
              apply h.finish
              intro hreg
              rw [h.loadedValue]
              · rintro rfl
                exact hreg rfl
              · exact lt_trans (Instruction.target_lt he.2) (by decide)
  | store addr size value => exact h.store hr hshows hshows₀ he hfree
  | merge addr value =>
      have hsize : VM.IsSize 4 := by decide
      have hreads₀ := hshows₀.readMem addr hsize
      have hreads := hshows.readMem addr hsize
      rw [Machine.perform] at hfree ⊢
      simp only at hfree ⊢
      generalize readMem vm₀ addr 4 = x₀ at hreads₀ hfree
      generalize readMem vm addr 4 = x at hreads
      cases hreads₀ with
      | fault _ _ => contradiction
      | misaligned _ => contradiction
      | value haligned hread₀ =>
          cases hreads with
          | fault _ hslot => exact hr.pageFault h hshows hslot
          | misaligned hmisaligned => exact absurd hmisaligned haligned
          | value _ hread => exact h.store hr hread hread₀ hsize hfree
  | raise which badVAddr => cases hfree
  | fail => cases hfree

theorem Restarted.oneInstruction (h : Restarted r r') (hr : Sound r)
    (huses : pending r ≠ 0 → ¬ (instructionAt memory (r PCReg)).Uses (pending r))
    (hshows : Shows vm S memory) (hshows₀ : Shows vm₀ S memory)
    (hfree : Machine.oneInstruction ⟨r, vm₀⟩ = .completed t₀) :
  Attempt r S memory t₀ (Machine.oneInstruction ⟨r', vm⟩)
  := by
  have hsize : VM.IsSize 4 := by decide
  have hpc : r' PCReg = r PCReg :=
    h.same (by decide) (.inr (ne_of_gt (lt_trans hr.pending_lt (by decide))))
  have hreads₀ := hshows₀.readMem (r PCReg) hsize
  have hreads := hshows.readMem (r PCReg) hsize
  rw [Machine.oneInstruction] at hfree ⊢
  simp only [hpc] at hfree ⊢
  generalize readMem vm₀ (r PCReg) 4 = x₀ at hreads₀ hfree
  generalize readMem vm (r PCReg) 4 = x at hreads
  cases hreads₀ with
  | fault _ _ => contradiction
  | misaligned _ => contradiction
  | value haligned hread₀ =>
      cases hreads with
      | fault _ hslot => exact hr.pageFault h hshows hslot
      | misaligned hmisaligned => exact absurd hmisaligned haligned
      | value _ hread =>
          simp only at hfree ⊢
          rw [h.effectOf hr huses]
          exact h.perform hr huses hread hread₀ (effect_fits ..) hfree

end Attempts

end Nachos.Machine
