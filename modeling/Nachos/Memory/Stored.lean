import Nachos.Memory.Coherence

/-!
# Loads return what has been stored

`Traced.memory` is what has been stored at the virtual addresses of each address space. Loads return
it in every run that evicts no frame whose dirty bit is lost (`Traced.memory_coherent`). A run loses
one when a page is modified, and after a switch is read through another slot of the translation
buffer, which is the one that decides (`Traced.losing`).
-/

namespace Nachos.Memory

/-- The memory of the machine, and what has been stored: by the address space and the virtual
address, the last byte that was written there, or else the byte of the executable. -/
structure Traced where
  vm : VM
  memory : ℕ → ℕ → UInt8

namespace Traced

open VM

/-- What has been stored after an action. -/
def stored (PRand : Bool) (t : Traced) : Action → ℕ → ℕ → UInt8
  | .create S _ executable _ => Function.update t.memory S (image executable)
  | .store rand virtAddr bytes =>
      match t.vm.space, t.vm.writeMem PRand rand virtAddr bytes with
      | some S, some (_, true) =>
          Function.update t.memory S (writeBytes (t.memory S) virtAddr bytes)
      | _, _ => t.memory
  | _ => t.memory

/-- One action. -/
def step (PRand : Bool) (t : Traced) (a : Action) : Option Traced := do
  let vm ← VM.step PRand t.vm a
  return ⟨vm, t.stored PRand a⟩

/-- A machine that has just been started. -/
def initial (tlb ipt : ℕ → TranslationEntry) : Traced := ⟨VM.initial tlb ipt, fun _ _ => 0⟩

/-- The actions of processes that neither fork threads nor exit. -/
def IsAccess : Action → Prop
  | .allocateStack _ => False
  | .exit _ => False
  | _ => True

instance : DecidablePred IsAccess := by
  intro a
  cases a <;> unfold IsAccess <;> infer_instance

/-- A frame that an action evicts is not thought to be clean when it has been modified. -/
def Keeps (PRand : Bool) (t : Traced) : Action → Prop
  | .load rand virtAddr _ => t.vm.KeepsEvicted PRand rand virtAddr
  | .store rand virtAddr _ => t.vm.KeepsEvicted PRand rand virtAddr
  | _ => True

instance (PRand : Bool) (t : Traced) (a : Action) : Decidable (t.Keeps PRand a) := by
  cases a <;> unfold Keeps <;> infer_instance

/-- A load returns what has been stored. -/
def LoadsStored (PRand : Bool) (t : Traced) : Prop :=
  ∀ rand virtAddr size m' bytes,
    t.vm.readMem PRand rand virtAddr size = some (m', some bytes) →
    ∃ S, t.vm.space = some S ∧ bytes = readBytes (t.memory S) virtAddr size

/-! ### A process that fills memory -/

/-- An entry of a table that has never been used. -/
def unused : TranslationEntry := ⟨0, 0, false, false, false, false⟩

/-- Page `v` in frame `v`, not modified. -/
def inFrame (v : ℕ) : TranslationEntry := ⟨v, v, true, false, false, false⟩

/-- The address space of a process that has read the first `n` of its pages. -/
def filledSpace (n : ℕ) : AddrSpace where
  pageTable i :=
    { AddrSpace.newEntry (fun _ => (0, 0)) .executable i with
      entry := if i < n then inFrame i else ⟨i, 0, false, false, false, false⟩ }
  numPages := NumPhysPages + 1
  executable := []

/-- The memory when a process has read the first `n` of its pages, which are all zero. -/
def filled (n : ℕ) : VM where
  mainMemory _ _ := 0
  mainMemoryBitMap f := decide (f < n)
  IPT f :=
    if f < n then ⟨inFrame f, some 0⟩ else ⟨{ unused with physicalPage := f }, none⟩
  currentIPT := 0
  tlb i :=
    if i < TLBSize ∧ i < n then inFrame (i + (n - 1 - i) / TLBSize * TLBSize) else unused
  currentTLB := n % TLBSize
  swapFile _ _ := 0
  swapFileBitMap _ := false
  spaces S := if S = 0 then some (filledSpace n) else none
  space := some 0

theorem find_filled {n : ℕ} (hn : n < NumPhysPages) :
  find NumPhysPages (filled n).mainMemoryBitMap = some n
  := by
  rw [find, List.find?_range_eq_some]
  simp [filled, hn]

theorem tlb_filled (n i : ℕ) :
  (filled n).tlb i = unused ∨ ∃ v < n, (filled n).tlb i = inFrame v
  := by
  by_cases hslot : i < TLBSize ∧ i < n
  · right
    use i + (n - 1 - i) / TLBSize * TLBSize
    constructor
    · have hle := Nat.div_mul_le_self (n - 1 - i) TLBSize
      omega
    · apply if_pos hslot
  · left
    apply if_neg hslot

theorem slotOf_filled (n : ℕ) :
  (filled n).slotOf n = none
  := by
  rw [slotOf, List.find?_eq_none]
  intro i _
  obtain hslot | ⟨v, hv, hslot⟩ := tlb_filled n i
  · simp [hslot, unused]
  · simp only [hslot, inFrame, Bool.true_and, beq_iff_eq]
    omega

theorem lookup_filled (n : ℕ) :
  (filled n).lookup 0 n = none
  := by
  rw [lookup, Option.map_eq_none_iff, List.find?_eq_none]
  intro f _
  simp only [filled]
  by_cases hf : f < n
  · simp [hf, inFrame, Nat.ne_of_lt hf]
  · simp [hf]

theorem updateTLB_of_clean {m : VM} (hclean : (m.tlb m.currentTLB).dirty = false) (ppn : ℕ) :
  m.updateTLB ppn = some { m with
    tlb := Function.update m.tlb m.currentTLB (m.IPT ppn).entry
    currentTLB := (m.currentTLB + 1) % TLBSize }
  := by
  rw [updateTLB, hclean]
  rfl

theorem slot_filled (n i : ℕ) :
  (if i = n % TLBSize then inFrame n
    else if i < TLBSize ∧ i < n then inFrame (i + (n - 1 - i) / TLBSize * TLBSize) else unused) =
    if i < TLBSize ∧ i < n + 1 then inFrame (i + (n + 1 - 1 - i) / TLBSize * TLBSize) else unused
  := by
  rw [TLBSize]
  by_cases hi : i = n % 4
  · have hslot : i < 4 ∧ i < n + 1 := by omega
    have hn : i + (n + 1 - 1 - i) / 4 * 4 = n := by omega
    rw [if_pos hi, if_pos hslot, hn]
  · rw [if_neg hi]
    by_cases hslot : i < 4 ∧ i < n
    · have hslot' : i < 4 ∧ i < n + 1 := by omega
      have hn : i + (n + 1 - 1 - i) / 4 * 4 = i + (n - 1 - i) / 4 * 4 := by omega
      rw [if_pos hslot, if_pos hslot', hn]
    · have hslot' : ¬ (i < 4 ∧ i < n + 1) := by omega
      rw [if_neg hslot, if_neg hslot']

theorem entry_filledSpace (n : ℕ) :
  ((filledSpace n).pageTable n).entry = ⟨n, 0, false, false, false, false⟩
  := if_neg (Nat.lt_irrefl n)

theorem setPage_filledSpace (n : ℕ) :
  (filledSpace n).setPage n { (filledSpace n).pageTable n with
    entry := { ((filledSpace n).pageTable n).entry with valid := true, physicalPage := n } } =
    filledSpace (n + 1)
  := by
  rw [AddrSpace.setPage, filledSpace, filledSpace]
  congr 1
  funext i
  rw [Function.update_apply]
  split
  · rename_i hi
    simp [hi, inFrame, AddrSpace.newEntry]
  · rename_i hi
    have hiff : i < n + 1 ↔ i < n := by omega
    simp [hiff]

/-- The next page is read into the next frame and its translation into the next slot. -/
theorem updateTLB_filled (n : ℕ) :
  (VM.iptMiss { filled n with
      mainMemoryBitMap := Function.update (filled n).mainMemoryBitMap n true }
    0 (filledSpace n) n n).updateTLB n = some (filled (n + 1))
  := by
  rw [updateTLB_of_clean]
  · congr 1
    apply VM.ext
    · apply Function.update_eq_self
    · funext f
      simp only [iptMiss, setIPT, setSpace, filled, Function.update_apply]
      split
      · rename_i hf
        simp [hf]
      · rename_i hf
        have hiff : f < n + 1 ↔ f < n := by omega
        simp [hiff]
    · funext f
      simp only [iptMiss, setIPT, setSpace, filled, Function.update_apply]
      split
      · rename_i hf
        simp [hf, filledSpace, inFrame]
      · rename_i hf
        have hiff : f < n + 1 ↔ f < n := by omega
        simp [hiff]
    · rfl
    · funext i
      simp only [iptMiss, setIPT, setSpace, filled, Function.update_apply, if_true,
        entry_filledSpace]
      apply slot_filled
    · simp [iptMiss, setIPT, setSpace, filled]
    · rfl
    · rfl
    · funext S
      simp only [iptMiss, setIPT, setSpace, filled, Function.update_apply]
      split
      · rw [setPage_filledSpace]
      · rfl
    · rfl
  · obtain hslot | ⟨v, -, hslot⟩ := tlb_filled n (n % TLBSize)
    · exact congrArg TranslationEntry.dirty hslot
    · exact congrArg TranslationEntry.dirty hslot

theorem pageFault_filled {n : ℕ} (hn : n < NumPhysPages) :
  (filled n).pageFault false 0 (n * PageSize) = some (filled (n + 1))
  := by
  have hpage : n * PageSize / PageSize = n := Nat.mul_div_cancel n (by decide)
  have hlt : n * PageSize < 2 ^ 31 ∧ n < NumPhysPages + 1 := by
    rw [NumPhysPages] at *
    rw [PageSize]
    omega
  have hmiss : (filled n).handleIPTMiss false 0 0 n = some (VM.iptMiss { filled n with
      mainMemoryBitMap := Function.update (filled n).mainMemoryBitMap n true } 0 (filledSpace n)
        n n, n) := by
    rw [handleIPTMiss, find_filled hn]
    rfl
  have hS : (filled n).pageFault false 0 (n * PageSize) =
      if n * PageSize < 2 ^ 31 ∧ n * PageSize / PageSize < NumPhysPages + 1 then
        (filled n).handlePageFault false 0 0 (n * PageSize / PageSize) else none := rfl
  rw [hS, hpage, if_pos hlt, handlePageFault, lookup_filled]
  simp only [hmiss, Option.bind_eq_bind, Option.bind_some, updateTLB_filled]

/-- The process reads the next page. -/
theorem step_filled {n : ℕ} (hn : n < NumPhysPages) :
  VM.step false (filled n) (.load 0 (n * PageSize) 1) = some (filled (n + 1))
  := by
  have hpage : n * PageSize / PageSize = n := Nat.mul_div_cancel n (by decide)
  have hsize : IsSize 1 ∧ 1 ∣ n * PageSize := ⟨.inl rfl, Nat.one_dvd _⟩
  have htranslate : (filled n).translate (n * PageSize) false = some .fault := by
    rw [VM.translate, hpage, slotOf_filled]
  rw [VM.step, readMem, if_pos hsize, htranslate]
  simp only [pageFault_filled hn, Option.map_some]

/-- The first `n` pages are read one after another. -/
def loads (n : ℕ) : List Action := (List.range n).map (fun i => .load 0 (i * PageSize) 1)

theorem run_loads (memory : ℕ → ℕ → UInt8) {n : ℕ} (hn : n ≤ NumPhysPages) :
  Transition.run (step false) ⟨filled 0, memory⟩ (loads n) = some ⟨filled n, memory⟩
  := by
  induction n with
  | zero => rfl
  | succ n ih =>
      rw [loads, List.range_succ, List.map_append]
      apply Transition.run_append.mpr
      use ⟨filled n, memory⟩, ih (by omega)
      rw [List.map_cons, List.map_nil, Transition.run_singleton, step, step_filled (by omega)]
      rfl

/-- What has been stored when the process has been created. -/
def zeros : ℕ → ℕ → UInt8 := Function.update (fun _ _ => 0) 0 (image [])

/-- The process is created and switched to. -/
def creation : List Action :=
  [.create 0 (fun _ => (0, 0)) [] (NumPhysPages + 1), .switch 0]

theorem run_creation :
  Transition.run (step false) (initial (fun _ => unused) (fun _ => unused)) creation =
    some ⟨filled 0, zeros⟩
  := by
  refine congrArg some ?_
  refine congrArg₂ Traced.mk ?_ rfl
  apply VM.ext
  · rfl
  · rfl
  · rfl
  · rfl
  · funext i
    have hslot : (filled 0).tlb i = unused := if_neg (by omega)
    rw [hslot]
    rfl
  · rfl
  · rfl
  · rfl
  · funext S
    exact Function.update_apply _ _ _ _
  · rfl

/-- The process is created and reads pages until memory is full. -/
def filling : List Action := creation ++ loads NumPhysPages

theorem run_filling :
  Transition.run (step false) (initial (fun _ => unused) (fun _ => unused)) filling =
    some ⟨filled NumPhysPages, zeros⟩
  := by
  apply Transition.run_append.mpr
  exact ⟨_, run_creation, run_loads zeros (Nat.le_refl _)⟩

theorem isAccess_filling :
  ∀ a ∈ filling, IsAccess a
  := by
  rw [filling, List.forall_mem_append]
  use (by decide)
  intro a ha
  obtain ⟨i, -, rfl⟩ := List.mem_map.mp ha
  trivial

/-- No frame is evicted before memory is full. -/
theorem along_loads {n : ℕ} (hn : n ≤ NumPhysPages) :
  Transition.Along (step false) (fun t a => IsAccess a ∧ t.Keeps false a) ⟨filled 0, zeros⟩
    (loads n)
  := by
  induction n with
  | zero => trivial
  | succ n ih =>
      rw [loads, List.range_succ, List.map_append]
      apply Transition.along_append.mpr
      use ih (by omega)
      intro t ht
      obtain rfl := Option.some.inj ((run_loads zeros (by omega)).symm.trans ht)
      exact ⟨⟨trivial, keepsEvicted_of_free (find_filled (by omega))⟩, fun _ _ => trivial⟩

theorem along_filling :
  Transition.Along (step false) (fun t a => IsAccess a ∧ t.Keeps false a)
    (initial (fun _ => unused) (fun _ => unused)) filling
  := by
  apply Transition.along_append.mpr
  constructor
  · decide
  · intro t ht
    obtain rfl := Option.some.inj (run_creation.symm.trans ht)
    apply along_loads (Nat.le_refl _)

/-! ### Coherence -/

/-- The invariant of runs. -/
structure Ok (t : Traced) : Prop where
  tables : t.vm.Ok
  coherent : t.vm.Coherent t.memory (fun _ => False)

theorem Ok.loadsStored {t : Traced} (h : t.Ok) (PRand : Bool) :
  t.LoadsStored PRand
  := by
  intro rand virtAddr size m' bytes hread
  rw [readMem] at hread
  split at hread
  · rename_i hsize
    split at hread
    · contradiction
    · obtain ⟨m'', -, heq⟩ := Option.map_eq_some_iff.mp hread
      cases heq
    · rename_i i hhit
      obtain ⟨S, hspace, hholds⟩ := h.tables.translate_hit hhit
      have hbytes := Option.some.inj (Prod.mk.inj (Option.some.inj hread)).2
      use S, hspace
      rw [← hbytes]
      apply SamePage.readBytes _ (offset_add_le hsize.1 hsize.2)
      apply h.coherent.resident _ _ _ id hholds
  · contradiction

theorem ok_initial (tlb ipt : ℕ → TranslationEntry) :
  (initial tlb ipt).Ok
  := by
  constructor
  · apply VM.ok_initial
  · constructor
    · constructor
      · rintro S v l ⟨sp, hsp, -⟩
        contradiction
      · rintro S v T u l ⟨sp, hsp, -⟩
        contradiction
    · rintro f S v - ⟨-, hvalid, -, -⟩
      contradiction
    · intro S sp v hS
      contradiction

/-- A load keeps memory coherent. -/
theorem Ok.load {PRand : Bool} {rand virtAddr size : ℕ} {t : Traced} {m' : VM}
    {value : Option (List UInt8)} (h : t.Ok) (hkeeps : t.vm.KeepsEvicted PRand rand virtAddr)
    (hstep : t.vm.readMem PRand rand virtAddr size = some (m', value)) :
  m'.Coherent t.memory (fun _ => False)
  := by
  rw [readMem] at hstep
  split at hstep
  · split at hstep
    · contradiction
    · rename_i hfault
      obtain ⟨m'', hpf, heq⟩ := Option.map_eq_some_iff.mp hstep
      obtain ⟨rfl, -⟩ := Prod.mk.inj heq
      apply h.coherent.pageFault h.tables (slotOf_of_fault hfault) hkeeps hpf
    · obtain ⟨rfl, -⟩ := Prod.mk.inj (Option.some.inj hstep)
      apply h.coherent.touch
  · contradiction

theorem stored_store {PRand : Bool} {rand virtAddr S : ℕ} {bytes : List UInt8} {t : Traced}
    {m' : VM} (hspace : t.vm.space = some S)
    (hwrite : t.vm.writeMem PRand rand virtAddr bytes = some (m', true)) :
  t.stored PRand (.store rand virtAddr bytes) =
    Function.update t.memory S (writeBytes (t.memory S) virtAddr bytes)
  := by
  rw [stored, hspace, hwrite]

/-- A store that faults stores nothing. -/
theorem stored_fault {PRand : Bool} {rand virtAddr : ℕ} {bytes : List UInt8} {t : Traced}
    {m' : VM} (hwrite : t.vm.writeMem PRand rand virtAddr bytes = some (m', false)) :
  t.stored PRand (.store rand virtAddr bytes) = t.memory
  := by
  rw [stored, hwrite]
  cases t.vm.space with
  | none => rfl
  | some S => rfl

/-- A store keeps memory coherent. -/
theorem Ok.store {PRand : Bool} {rand virtAddr : ℕ} {bytes : List UInt8} {t : Traced} {m' : VM}
    {written : Bool} (h : t.Ok) (hkeeps : t.vm.KeepsEvicted PRand rand virtAddr)
    (hstep : t.vm.writeMem PRand rand virtAddr bytes = some (m', written)) :
  m'.Coherent (t.stored PRand (.store rand virtAddr bytes)) (fun _ => False)
  := by
  have hwrite := hstep
  rw [writeMem] at hstep
  split at hstep
  · rename_i hsize
    split at hstep
    · contradiction
    · rename_i hfault
      obtain ⟨m'', hpf, heq⟩ := Option.map_eq_some_iff.mp hstep
      obtain ⟨rfl, rfl⟩ := Prod.mk.inj heq
      rw [stored_fault hwrite]
      apply h.coherent.pageFault h.tables (slotOf_of_fault hfault) hkeeps hpf
    · rename_i i hhit
      obtain ⟨S, hspace, hholds⟩ := h.tables.translate_hit hhit
      obtain ⟨rfl, rfl⟩ := Prod.mk.inj (Option.some.inj hstep)
      rw [stored_store hspace hwrite]
      exact h.coherent.write h.tables.mapping (translate_hit hhit).1 hholds
        (offset_add_le hsize.1 hsize.2)
  · contradiction

theorem Ok.step {PRand : Bool} {t t' : Traced} (h : t.Ok) {a : Action} (haccess : IsAccess a)
    (hkeeps : t.Keeps PRand a) (hstep : t.step PRand a = some t') :
  t'.Ok
  := by
  obtain ⟨m', hm', heq⟩ := Option.bind_eq_some_iff.mp hstep
  obtain rfl := Option.some.inj heq
  use h.tables.step hm'
  cases a with
  | create S g executable numPages =>
      simp only [VM.step] at hm'
      split at hm'
      · rename_i hS
        obtain rfl := Option.some.inj hm'
        apply h.coherent.create h.tables.mapping hS
      · contradiction
  | switch S =>
      simp only [VM.step, Option.bind_eq_bind, Option.pure_def] at hm'
      obtain ⟨sp, -, heq⟩ := Option.bind_eq_some_iff.mp hm'
      obtain rfl := Option.some.inj heq
      apply h.coherent.leave
  | load rand virtAddr size =>
      obtain ⟨⟨m₁, value⟩, hread, rfl⟩ := Option.map_eq_some_iff.mp hm'
      apply h.load hkeeps hread
  | store rand virtAddr bytes =>
      obtain ⟨⟨m₁, written⟩, hwrite, rfl⟩ := Option.map_eq_some_iff.mp hm'
      apply h.store hkeeps hwrite
  | allocateStack g => contradiction
  | exit next => contradiction

/-- Loads return what has been stored in every run that evicts no frame which the last slot of the
translation buffer that names it wrongly says is clean. -/
theorem memory_coherent {PRand : Bool} {tlb ipt : ℕ → TranslationEntry} {as : List Action}
    {t : Traced}
    (halong : Transition.Along (step PRand) (fun t a => IsAccess a ∧ t.Keeps PRand a)
      (initial tlb ipt) as)
    (hrun : Transition.run (step PRand) (initial tlb ipt) as = some t) :
  t.LoadsStored PRand
  := by
  have hok : t.Ok := by
    refine Transition.run_invariant (I := Ok) ?_ (ok_initial tlb ipt) halong hrun
    rintro s a s' h ⟨haccess, hkeeps⟩ hstep
    apply h.step haccess hkeeps hstep
  apply hok.loadsStored

/-- The process that has filled memory modifies its first page, and reads another page and the first
page again. The first page is written to the swap file. -/
def keeping : List Action :=
  [.store 0 0 [1], .store 0 0 [1], .load 0 (NumPhysPages * PageSize) 1, .load 0 0 1]

/-- What was stored is still there after the page has been evicted. -/
theorem memory_coherent_evicted :
  ∃ t, Transition.run (step false) (initial (fun _ => unused) (fun _ => unused))
      (filling ++ keeping) = some t ∧
    (t.vm.readMem false 0 0 1).map (·.2) = some (some [1]) ∧ t.LoadsStored false
  := by
  have hsome : ((Transition.run (step false) ⟨filled NumPhysPages, zeros⟩ keeping).bind (fun t =>
      (t.vm.readMem false 0 0 1).map (·.2))) = some (some [1]) := by
    decide +kernel
  obtain ⟨t, hkeeping, hread⟩ := Option.bind_eq_some_iff.mp hsome
  have hrun := Transition.run_append.mpr ⟨_, run_filling, hkeeping⟩
  use t, hrun, hread
  apply memory_coherent _ hrun
  apply Transition.along_append.mpr
  use along_filling
  intro t' ht'
  obtain rfl := Option.some.inj (run_filling.symm.trans ht')
  decide +kernel

/-- The process that has filled memory modifies its first page, is switched from and switched to, and reads the first page,
another page, and the first page again. -/
def losing : List Action :=
  [.store 0 0 [1], .store 0 0 [1], .switch 0, .load 0 0 1, .load 0 (NumPhysPages * PageSize) 1,
    .load 0 0 1]

/-- The next load of the first page does not return the `1` that was stored. -/
theorem run_losing :
  ((Transition.run (step false) ⟨filled NumPhysPages, zeros⟩ losing).bind (fun t =>
    (t.vm.readMem false 0 0 1).map (fun r => (r.2, t.vm.space, t.memory 0 0)))) =
    some (some [0], some 0, 1)
  := by
  decide +kernel

/-- Not every load returns what has been stored. -/
theorem not_memory_coherent :
  ¬ ∀ (PRand : Bool) (tlb ipt : ℕ → TranslationEntry) (as : List Action) (t : Traced),
    (∀ a ∈ as, IsAccess a) → Transition.run (step PRand) (initial tlb ipt) as = some t →
      t.LoadsStored PRand
  := by
  intro h
  obtain ⟨t, hlosing, hread⟩ := Option.bind_eq_some_iff.mp run_losing
  obtain ⟨⟨m', value⟩, hvalue, heq⟩ := Option.map_eq_some_iff.mp hread
  simp only [Prod.mk.injEq] at heq
  obtain ⟨rfl, hspace, hmemory⟩ := heq
  have hrun := Transition.run_append.mpr ⟨_, run_filling, hlosing⟩
  have haccess : ∀ a ∈ filling ++ losing, IsAccess a := by
    rw [List.forall_mem_append]
    exact ⟨isAccess_filling, by decide⟩
  obtain ⟨S, hS, hbytes⟩ := h false _ _ _ t haccess hrun 0 0 1 m' [0] hvalue
  obtain rfl := Option.some.inj (hspace.symm.trans hS)
  simp [readBytes, hmemory] at hbytes

end Traced

end Nachos.Memory
