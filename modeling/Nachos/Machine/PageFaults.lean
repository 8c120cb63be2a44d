import Nachos.Machine.Restart
import Nachos.Memory.Stored

/-!
# Page faults in instructions

The kernel brings a page without changing what the program sees (`transparent_pageFault`). Therefore
page faults do not matter to an instruction that does not use the register of a pending load
(`oneInstruction_transparent`).
-/

namespace Nachos.Machine

open Nachos.Memory (VM AddrSpace TranslationEntry PageSize NumPhysPages TLBSize)

/-! ### Pages that can be written -/

section Writable

variable {vm vm' : VM}

theorem writable_initial (tlb ipt : ℕ → TranslationEntry) :
  Writable (VM.initial tlb ipt)
  := by
  constructor
  · intro i hvalid
    cases hvalid
  · intro f hvalid
    cases hvalid
  · intro S sp hS
    cases hS

theorem Writable.setIPT (h : Writable vm) (f : ℕ) (e : Memory.IPTEntry)
    (he : e.entry.valid = true → e.entry.readOnly = false) :
  Writable (vm.setIPT f e)
  := by
  refine ⟨h.tlb, ?_, h.pages⟩
  intro g hvalid
  simp only [VM.setIPT, Function.update_apply] at hvalid ⊢
  split
  · rename_i hg
    rw [if_pos hg] at hvalid
    exact he hvalid
  · rename_i hg
    rw [if_neg hg] at hvalid
    exact h.ipt g hvalid

theorem Writable.setDirty (h : Writable vm) (f : ℕ) (dirty : Bool) :
  Writable (vm.setDirty f dirty)
  := h.setIPT f _ (h.ipt f)

theorem Writable.setSpace (h : Writable vm) (S : ℕ) (sp : AddrSpace)
    (hsp : ∀ v, (sp.pageTable v).entry.readOnly = false) :
  Writable (vm.setSpace S sp)
  := by
  refine ⟨h.tlb, h.ipt, ?_⟩
  intro T tp hT
  simp only [VM.setSpace, Function.update_apply] at hT
  split at hT
  · obtain rfl := Option.some.inj hT
    exact hsp
  · exact h.pages T tp hT

theorem readOnly_setPage {sp : AddrSpace} (hsp : ∀ v, (sp.pageTable v).entry.readOnly = false)
    (i : ℕ) {e : Memory.PageTableEntry} (he : e.entry.readOnly = false) (v : ℕ) :
  ((sp.setPage i e).pageTable v).entry.readOnly = false
  := by
  simp only [AddrSpace.setPage, Function.update_apply]
  split
  · exact he
  · exact hsp v

theorem readOnly_invalidate {sp : AddrSpace} (hsp : ∀ v, (sp.pageTable v).entry.readOnly = false)
    (i v : ℕ) :
  ((sp.invalidate i).pageTable v).entry.readOnly = false
  := readOnly_setPage hsp i (e := { sp.pageTable i with
      entry := { (sp.pageTable i).entry with valid := false } }) (hsp i) v

theorem Writable.iptMiss (h : Writable vm) {S : ℕ} {sp : AddrSpace} (hS : vm.spaces S = some sp)
    (v f : ℕ) :
  Writable (vm.iptMiss S sp v f)
  := by
  have hsp := h.pages S sp hS
  constructor
  · exact h.tlb
  · intro g hvalid
    rw [VM.IPT_iptMiss] at hvalid ⊢
    split
    · exact hsp v
    · rename_i hg
      rw [if_neg hg] at hvalid
      exact h.ipt g hvalid
  · exact (h.setSpace S (sp.setPage v { sp.pageTable v with
      entry := { (sp.pageTable v).entry with valid := true, physicalPage := f } })
        (readOnly_setPage hsp v (hsp v))).pages

theorem Writable.updateTLB (h : Writable vm) {ppn : ℕ} (hstep : vm.updateTLB ppn = some vm') :
  Writable vm'
  := by
  obtain rfl := VM.updateTLB_eq hstep
  have hipt : ∀ f, (vm.propagated f).entry.valid = true →
      (vm.propagated f).entry.readOnly = false := by
    rw [VM.propagated]
    split
    · exact (h.setDirty _ true).ipt
    · exact h.ipt
  exact ⟨(h.setTLB vm.currentTLB _ (hipt ppn)).tlb, hipt, h.pages⟩

theorem Writable.invalidateTLB (h : Writable vm) (ppn : ℕ) :
  Writable (vm.invalidateTLB ppn)
  := by
  rw [VM.invalidateTLB]
  generalize List.range TLBSize = slots
  induction slots generalizing vm with
  | nil => exact h
  | cons i slots ih =>
      apply ih
      rw [VM.invalidateSlot]
      split
      · exact (h.setTLB i _ (by simp)).setDirty ppn _
      · exact h

theorem Writable.evicted (h : Writable vm) {f S v : ℕ} {sp : AddrSpace}
    (hS : vm.spaces S = some sp) (hevicted : vm.evicted f S v sp = some vm') :
  Writable vm'
  := by
  have hsp := h.pages S sp hS
  have hinvalidated := h.invalidateTLB f
  rw [VM.evicted] at hevicted
  split at hevicted
  · obtain ⟨l, -, rfl⟩ := Option.map_eq_some_iff.mp hevicted
    refine ⟨hinvalidated.tlb, hinvalidated.ipt, (h.setSpace S _ ?_).pages⟩
    exact readOnly_setPage (readOnly_invalidate hsp v) v (readOnly_invalidate hsp v v)
  · obtain rfl := Option.some.inj hevicted
    exact ⟨hinvalidated.tlb, hinvalidated.ipt,
      (h.setSpace S _ (readOnly_invalidate hsp v)).pages⟩

theorem Writable.freed (h : Writable vm) {PRand : Bool} {rand f : ℕ}
    (hfreed : VM.Freed PRand rand vm vm' f) :
  Writable vm'
  := by
  cases hfreed with
  | free _ => exact ⟨h.tlb, h.ipt, h.pages⟩
  | full _ _ hS hevicted =>
      have hnext : Writable { vm with
          currentIPT := if PRand then vm.currentIPT else (vm.currentIPT + 1) % NumPhysPages } :=
        ⟨h.tlb, h.ipt, h.pages⟩
      exact hnext.evicted hS hevicted

/-- The kernel makes no page read only. -/
theorem Writable.pageFault (h : Writable vm) (hok : vm.Ok) {PRand : Bool} {rand virtAddr : ℕ}
    (hstep : vm.pageFault PRand rand virtAddr = some vm') :
  Writable vm'
  := by
  simp only [VM.pageFault, Option.bind_eq_bind] at hstep
  obtain ⟨S, -, hstep⟩ := Option.bind_eq_some_iff.mp hstep
  obtain ⟨sp, -, hstep⟩ := Option.bind_eq_some_iff.mp hstep
  split at hstep
  · rw [VM.handlePageFault] at hstep
    split at hstep
    · exact h.updateTLB hstep
    · obtain ⟨⟨vm₂, ppn⟩, hmiss, hstep⟩ := Option.bind_eq_some_iff.mp hstep
      obtain ⟨vm₁, sp₁, hfreed, hS₁, rfl⟩ := hok.handleIPTMiss_cases hmiss
      exact ((h.freed hfreed).iptMiss hS₁ _ ppn).updateTLB hstep
  · contradiction

theorem space_pageFault (hok : vm.Ok) {PRand : Bool} {rand virtAddr : ℕ}
    (hstep : vm.pageFault PRand rand virtAddr = some vm') :
  vm'.space = vm.space
  := by
  simp only [VM.pageFault, Option.bind_eq_bind] at hstep
  obtain ⟨S, -, hstep⟩ := Option.bind_eq_some_iff.mp hstep
  obtain ⟨sp, -, hstep⟩ := Option.bind_eq_some_iff.mp hstep
  split at hstep
  · rw [VM.handlePageFault] at hstep
    split at hstep
    · obtain rfl := VM.updateTLB_eq hstep
      rfl
    · obtain ⟨⟨vm₂, ppn⟩, hmiss, hstep⟩ := Option.bind_eq_some_iff.mp hstep
      obtain ⟨vm₁, sp₁, hfreed, hS₁, rfl⟩ := hok.handleIPTMiss_cases hmiss
      obtain rfl := VM.updateTLB_eq hstep
      exact (hok.freed hfreed).space
  · contradiction

end Writable

/-! ### Registers between instructions -/

theorem sound_zero :
  Sound (fun _ => 0#32)
  := ⟨rfl, by decide⟩

/-- The kernel may write the registers of the program. -/
theorem Sound.update {r : Registers} (h : Sound r) {i : ℕ} (hzero : i ≠ 0) (hload : i ≠ LoadReg)
    (value : BitVec 32) :
  Sound (Function.update r i value)
  := by
  constructor
  · rw [Function.update_of_ne (Ne.symm hzero)]
    exact h.zero
  · rw [pending_update hload]
    exact h.pending_lt

theorem sound_delayedLoad (r : Registers) {nextReg : BitVec 32} (hlt : nextReg.toNat < 32)
    (nextValue : BitVec 32) :
  Sound (delayedLoad r nextReg nextValue)
  := by
  constructor
  · rw [delayedLoad_apply _ _ _ (by decide), if_pos rfl]
  · exact hlt

theorem sound_finish (r : Registers) {nextReg : BitVec 32} (hlt : nextReg.toNat < 32)
    (nextValue pcAfter : BitVec 32) :
  Sound (Machine.finish r nextReg nextValue pcAfter)
  := by
  constructor
  · rw [finish_apply _ _ _ _ (by decide), if_neg (by decide), if_neg (by decide)]
    exact (sound_delayedLoad r hlt nextValue).zero
  · exact hlt

/-- The registers after an instruction, or when the kernel is entered. -/
def Outcome.Sound : Outcome → Prop
  | .completed s => Machine.Sound s.registers
  | .raised _ s => Machine.Sound s.registers
  | .failed => True

theorem sound_raiseException (s : Machine) (which : ExceptionType) (badVAddr : BitVec 32) :
  (s.raiseException which badVAddr).Sound
  := sound_delayedLoad _ (by decide) _

theorem sound_perform (s : Machine) {value : BitVec 32} {e : Effect} (he : e.Fits (decode value)) :
  (s.perform e).Sound
  := by
  cases e with
  | write writes pcAfter => exact sound_finish _ (by decide) _ _
  | load addr size reg nextLoadValue =>
      rw [Machine.perform]
      split
      · exact sound_raiseException ..
      · have hlt := Instruction.target_lt he.2
        refine sound_finish _ ?_ _ _
        rw [BitVec.toNat_ofNat]
        omega
  | store addr size value =>
      rw [Machine.perform]
      split
      · exact sound_raiseException ..
      · exact sound_finish _ (by decide) _ _
  | merge addr value =>
      rw [Machine.perform]
      split
      · exact sound_raiseException ..
      · split
        · exact sound_raiseException ..
        · exact sound_finish _ (by decide) _ _
  | raise which badVAddr => exact sound_raiseException ..
  | fail => trivial

/-- Register 0 is zero and a pending load is to a register of the program, whatever the instruction. -/
theorem sound_oneInstruction (s : Machine) :
  s.oneInstruction.Sound
  := by
  rw [Machine.oneInstruction]
  split
  · exact sound_raiseException ..
  · exact sound_perform _ (effect_fits ..)

/-! ### Page faults -/

/-- Whenever the handler returns, the program sees what it saw. -/
def Transparent (handler : VM → BitVec 32 → VM → Prop) : Prop :=
  ∀ vm S memory addr vm', Shows vm S memory → vm.slotOf (addr.toNat / PageSize) = none →
    handler vm addr vm' → Shows vm' S memory

/-- The kernel handles the page fault, and evicts no frame that is wrongly thought to be clean. -/
def KernelHandles (PRand : Bool) (vm : VM) (addr : BitVec 32) (vm' : VM) : Prop :=
  ∃ rand, vm.KeepsEvicted PRand rand addr.toNat ∧ vm.pageFault PRand rand addr.toNat = some vm'

theorem transparent_pageFault (PRand : Bool) :
  Transparent (KernelHandles PRand)
  := by
  rintro vm S memory addr vm' h hslot ⟨rand, hkeeps, hstep⟩
  obtain ⟨memories, hcoherent, hmemory⟩ := h.coherent
  constructor
  · exact h.ok.pageFault hslot hstep
  · exact ⟨memories, hcoherent.pageFault h.ok hslot hkeeps hstep, hmemory⟩
  · rw [space_pageFault h.ok hstep]
    exact h.space
  · exact h.writable.pageFault h.ok hstep

/-- The states in which an instruction is executed, for the first time or after page faults. -/
inductive Faults (handler : VM → BitVec 32 → VM → Prop) (s : Machine) : Machine → Prop
  | first : Faults handler s s
  | again {u v : Machine} {vm' : VM} (h : Faults handler s u)
      (hraised : u.oneInstruction = .raised .PageFaultException v)
      (hhandler : handler v.vm (v.registers BadVAddrReg) vm') :
      Faults handler s { v with vm := vm' }

/-- After any number of page faults an instruction that does not use the register of the pending load
meets another one, or does what it does without them: it leaves the same registers, the same pending
load and the same memory. -/
theorem oneInstruction_transparent {handler : VM → BitVec 32 → VM → Prop}
    (hhandler : Transparent handler) {s u t₀ : Machine} {vm₀ : VM} {S : ℕ} {memory : ℕ → UInt8}
    (hsound : Sound s.registers) (hshows : Shows s.vm S memory) (hshows₀ : Shows vm₀ S memory)
    (huses : pending s.registers ≠ 0 →
      ¬ (instructionAt memory (s.registers PCReg)).Uses (pending s.registers))
    (hfree : Machine.oneInstruction { s with vm := vm₀ } = .completed t₀)
    (hfaults : Faults handler s u) :
  (∃ v, u.oneInstruction = .raised .PageFaultException v) ∨
    ∃ t memory', u.oneInstruction = .completed t ∧ SameResult t₀.registers t.registers ∧
      Shows t₀.vm S memory' ∧ Shows t.vm S memory'
  := by
  have hattempt {u : Machine} (hr : Restarted s.registers u.registers)
      (hu : Shows u.vm S memory) : Attempt s.registers S memory t₀ u.oneInstruction :=
    hr.oneInstruction hsound huses hu hshows₀ hfree
  have hrun : Restarted s.registers u.registers ∧ Shows u.vm S memory := by
    induction hfaults with
    | first => exact ⟨.inl rfl, hshows⟩
    | again _ hraised hhandled ih =>
        have hagain := hattempt ih.1 ih.2
        rw [hraised] at hagain
        cases hagain with
        | fault hflushed hv hslot => exact ⟨.inr hflushed, hhandler _ _ _ _ _ hv hslot hhandled⟩
  have hlast := hattempt hrun.1 hrun.2
  cases hu : u.oneInstruction with
  | raised which v =>
      rw [hu] at hlast
      cases hlast with
      | fault _ _ _ => exact .inl ⟨v, rfl⟩
  | completed t =>
      rw [hu] at hlast
      cases hlast with
      | completed hregisters ht₀ ht => exact .inr ⟨t, _, rfl, hregisters, ht₀, ht⟩
  | failed =>
      rw [hu] at hlast
      cases hlast

/-! ### A process that starts -/

open Nachos.Memory.Traced (filled unused inFrame)

theorem writable_filled (n : ℕ) :
  Writable (filled n)
  := by
  constructor
  · intro i _
    obtain hslot | ⟨v, -, hslot⟩ := Memory.Traced.tlb_filled n i
    · rw [hslot]
      rfl
    · rw [hslot]
      rfl
  · intro f _
    simp only [filled]
    split
    · rfl
    · rfl
  · intro S sp hS v
    simp only [filled] at hS
    split at hS
    · obtain rfl := Option.some.inj hS
      simp only [Memory.Traced.filledSpace]
      split
      · rfl
      · rfl
    · contradiction

theorem shows_filled :
  Shows (filled 0) 0 (Memory.Traced.zeros 0)
  := by
  have hok : Memory.Traced.Ok ⟨filled 0, Memory.Traced.zeros⟩ := by
    refine Transition.run_invariant (I := Memory.Traced.Ok)
      (P := fun t a => Memory.Traced.IsAccess a ∧ t.Keeps false a) ?_
      (Memory.Traced.ok_initial _ _) ?_ Memory.Traced.run_creation
    · rintro t a t' h ⟨haccess, hkeeps⟩ hstep
      exact h.step haccess hkeeps hstep
    · exact ⟨⟨trivial, trivial⟩, fun _ _ => ⟨⟨trivial, trivial⟩, fun _ _ => trivial⟩⟩
  exact ⟨hok.tables, ⟨_, hok.coherent, rfl⟩, rfl, writable_filled 0⟩

theorem kernelHandles_filled :
  KernelHandles false (filled 0) 0#32 (filled 1)
  := by
  have hfree : Memory.find NumPhysPages (filled 0).mainMemoryBitMap = some 0 :=
    Memory.Traced.find_filled (by decide)
  exact ⟨0, VM.keepsEvicted_of_free hfree, Memory.Traced.pageFault_filled (n := 0) (by decide)⟩

/-- The process has not yet read its first page. -/
def starting : Machine := ⟨fun _ => 0#32, filled 0⟩

/-- The instruction is fetched again after its page has been brought. -/
theorem faults_starting :
  ∃ v, Faults (KernelHandles false) starting ⟨v, filled 1⟩
  := by
  have hraised : starting.oneInstruction =
      starting.raiseException .PageFaultException 0#32 := by
    have htranslate : translate (filled 0) 0#32 4 false = .error .PageFaultException := by
      rw [translate, if_neg (by decide)]
      have hslot : (filled 0).slotOf ((0#32 : BitVec 32).toNat / PageSize) = none :=
        Memory.Traced.slotOf_filled 0
      rw [hslot]
    have hread : readMem (filled 0) 0#32 4 = .error .PageFaultException := by
      rw [readMem, htranslate]
    have hpc : starting.registers PCReg = 0#32 := rfl
    have hvm : starting.vm = filled 0 := rfl
    rw [Machine.oneInstruction, hpc, hvm, hread]
  exact ⟨_, .again .first hraised kernelHandles_filled⟩

theorem oneInstruction_transparent_starting :
  ∃ u t₀, Machine.oneInstruction ⟨fun _ => 0#32, filled 1⟩ = .completed t₀ ∧
    ((∃ v, Machine.oneInstruction ⟨u, filled 1⟩ = .raised .PageFaultException v) ∨
      ∃ t memory', Machine.oneInstruction ⟨u, filled 1⟩ = .completed t ∧
        SameResult t₀.registers t.registers ∧ Shows t₀.vm 0 memory' ∧ Shows t.vm 0 memory')
  := by
  obtain ⟨u, hfaults⟩ := faults_starting
  have hshows₀ : Shows (filled 1) 0 (Memory.Traced.zeros 0) :=
    transparent_pageFault false _ _ _ _ _ shows_filled (Memory.Traced.slotOf_filled 0)
      kernelHandles_filled
  refine ⟨u, _, rfl, ?_⟩
  exact oneInstruction_transparent (transparent_pageFault false) (s := starting) sound_zero
    shows_filled hshows₀ (fun h => absurd rfl h) rfl hfaults

end Nachos.Machine
