import Nachos.Memory.Frames

/-!
# Isolation of address spaces

Every action keeps the bit map, the inverted page table, the page tables and the translation buffer
in agreement (`VM.Ok.step`), so they agree in every run (`VM.frames_consistent`).
-/

namespace Nachos.Memory

namespace VM

/-! ### Reading and writing -/

/-- Only the tables matter. -/
theorem Ok.congr {m m' : VM} (h : m.Ok) (hframes : SameFrames m m')
    (hbits : m'.mainMemoryBitMap = m.mainMemoryBitMap) (hspaces : m'.spaces = m.spaces)
    (htlb : ∀ i < TLBSize, (m'.tlb i).valid = true → (m.tlb i).valid = true ∧
      (m'.tlb i).virtualPage = (m.tlb i).virtualPage ∧
      (m'.tlb i).physicalPage = (m.tlb i).physicalPage)
    (hspace : m'.space = m.space) (hcurrentTLB : m'.currentTLB = m.currentTLB)
    (hcurrentIPT : m'.currentIPT = m.currentIPT) :
  m'.Ok
  := by
  constructor
  · apply h.mapping.congr hframes hbits hspaces
  · apply h.buffered.mono htlb _ hspace
    intro i hi hvalid S hholds
    apply hframes.holds_iff.mpr hholds
  · rw [hcurrentTLB]
    apply h.currentTLB
  · rw [hcurrentIPT]
    apply h.currentIPT
  · rw [hspace, hspaces]
    apply h.live

/-- Using a slot does not change what it maps. -/
theorem tlb_touch (m : VM) (i : ℕ) (writing : Bool) (j : ℕ) :
  ((m.touch i writing).tlb j).valid = (m.tlb j).valid ∧
    ((m.touch i writing).tlb j).virtualPage = (m.tlb j).virtualPage ∧
    ((m.touch i writing).tlb j).physicalPage = (m.tlb j).physicalPage
  := by
  simp only [touch, setTLB, Function.update_apply]
  split
  · rename_i hj
    rw [hj]
    exact ⟨rfl, rfl, rfl⟩
  · exact ⟨rfl, rfl, rfl⟩

theorem Ok.touch {m : VM} (h : m.Ok) (i : ℕ) (writing : Bool) (mainMemory : ℕ → Page) :
  Ok { m.touch i writing with mainMemory := mainMemory }
  := by
  refine h.congr (sameFrames_of_eq rfl) rfl rfl ?_ rfl rfl rfl
  intro j _ hvalid
  obtain ⟨hv, hrest⟩ := m.tlb_touch i writing j
  exact ⟨hv.symm.trans hvalid, hrest⟩

/-- A page that has no slot is not mapped by the translation buffer. -/
theorem slotOf_none {m : VM} {v : ℕ} (h : m.slotOf v = none) {i : ℕ} (hi : i < TLBSize)
    (hvalid : (m.tlb i).valid = true) :
  (m.tlb i).virtualPage ≠ v
  := by
  have hnot := List.find?_eq_none.mp h i (List.mem_range.mpr hi)
  simpa [hvalid] using hnot

/-- The page fault of the running thread keeps the tables in agreement. -/
theorem Ok.pageFault {PRand : Bool} {rand virtAddr : ℕ} {m m' : VM} (h : m.Ok)
    (hslot : m.slotOf (virtAddr / PageSize) = none)
    (hstep : m.pageFault PRand rand virtAddr = some m') :
  m'.Ok
  := by
  simp only [VM.pageFault, Option.bind_eq_bind] at hstep
  obtain ⟨S, hspace, hstep⟩ := Option.bind_eq_some_iff.mp hstep
  obtain ⟨sp, hS, hstep⟩ := Option.bind_eq_some_iff.mp hstep
  split at hstep
  · rename_i hv
    apply h.handlePageFault hspace hS hv.2 (fun i hi => slotOf_none hslot hi) hstep
  · contradiction

/-- An access faults when its page has no slot. -/
theorem slotOf_of_fault {m : VM} {virtAddr : ℕ} {writing : Bool}
    (h : m.translate virtAddr writing = some .fault) :
  m.slotOf (virtAddr / PageSize) = none
  := by
  rw [translate] at h
  split at h
  · assumption
  · split at h
    · contradiction
    · split at h
      · contradiction
      · cases h

theorem Ok.readMem {PRand : Bool} {rand virtAddr size : ℕ} {m m' : VM}
    {value : Option (List UInt8)} (h : m.Ok)
    (hstep : m.readMem PRand rand virtAddr size = some (m', value)) :
  m'.Ok
  := by
  rw [VM.readMem] at hstep
  split at hstep
  · split at hstep
    · contradiction
    · rename_i hfault
      obtain ⟨m'', hpf, heq⟩ := Option.map_eq_some_iff.mp hstep
      obtain ⟨rfl, -⟩ := Prod.mk.inj heq
      apply h.pageFault (slotOf_of_fault hfault) hpf
    · obtain ⟨rfl, -⟩ := Prod.mk.inj (Option.some.inj hstep)
      apply h.touch
  · contradiction

theorem Ok.writeMem {PRand : Bool} {rand virtAddr : ℕ} {bytes : List UInt8} {m m' : VM}
    {written : Bool} (h : m.Ok)
    (hstep : m.writeMem PRand rand virtAddr bytes = some (m', written)) :
  m'.Ok
  := by
  rw [VM.writeMem] at hstep
  split at hstep
  · split at hstep
    · contradiction
    · rename_i hfault
      obtain ⟨m'', hpf, heq⟩ := Option.map_eq_some_iff.mp hstep
      obtain ⟨rfl, -⟩ := Prod.mk.inj heq
      apply h.pageFault (slotOf_of_fault hfault) hpf
    · obtain ⟨rfl, -⟩ := Prod.mk.inj (Option.some.inj hstep)
      apply h.touch
  · contradiction

/-! ### Threads and processes -/

/-- No slot is valid when the running thread has been switched from. -/
theorem Buffered.leave {m : VM} (h : m.Buffered) {i : ℕ} (hi : i < TLBSize) :
  (m.leave.tlb i).valid = false
  := by
  rw [VM.leave]
  split
  · simp [saveState, hi]
  · rename_i hspace
    rw [← Bool.not_eq_true]
    intro hvalid
    obtain ⟨S, hS, -⟩ := h.slot i hi hvalid
    rw [hspace] at hS
    contradiction

theorem leave_eq (m : VM) :
  m.leave = { m with tlb := m.leave.tlb }
  := by
  rw [leave]
  split <;> rfl

/-- A thread can be switched to when no slot is valid. -/
theorem Mapping.switch {m : VM} (h : m.Mapping)
    (hinvalid : ∀ i < TLBSize, (m.leave.tlb i).valid = false) (hTLB : m.currentTLB < TLBSize)
    (hIPT : m.currentIPT < NumPhysPages) {next : Option ℕ}
    (hlive : ∀ S, next = some S → ∃ sp, m.spaces S = some sp) :
  Ok { m.leave with space := next }
  := by
  rw [leave_eq]
  constructor
  · exact h.congr (sameFrames_of_eq rfl) rfl rfl
  · constructor
    · intro i hi hvalid
      simp [hinvalid i hi] at hvalid
    · intro i hi j hj hvalid
      simp [hinvalid i hi] at hvalid
  · apply hTLB
  · apply hIPT
  · apply hlive

/-- A frame whose page is taken out of memory can be freed. -/
theorem Mapping.free {m m' : VM} (h : m.Mapping) {f S v : ℕ} {sp sp' : AddrSpace}
    (hholds : m.Holds f S v) (hS : m.spaces S = some sp)
    (hIPT : m'.IPT = Function.update m.IPT f { m.IPT f with
      entry := { (m.IPT f).entry with valid := false } })
    (hbits : m'.mainMemoryBitMap = Function.update m.mainMemoryBitMap f false)
    (hspaces : m'.spaces = Function.update m.spaces S (some sp')) (hpage : WithoutPage sp sp' v) :
  m'.Mapping
  := by
  have hf : (m'.IPT f).entry.valid = false := by
    rw [hIPT, Function.update_self]
  have hg : ∀ g, g ≠ f → m'.IPT g = m.IPT g := by
    intro g hne
    rw [hIPT, Function.update_of_ne hne]
  have hiff : ∀ g T u, m'.Holds g T u ↔ g ≠ f ∧ m.Holds g T u := by
    intro g T u
    constructor
    · rintro ⟨hlt, hvalid, howner, hvirtual⟩
      have hne : g ≠ f := by
        rintro rfl
        rw [hf] at hvalid
        contradiction
      rw [hg g hne] at hvalid howner hvirtual
      exact ⟨hne, hlt, hvalid, howner, hvirtual⟩
    · rintro ⟨hne, hlt, hvalid, howner, hvirtual⟩
      rw [← hg g hne] at hvalid howner hvirtual
      exact ⟨hlt, hvalid, howner, hvirtual⟩
  constructor
  · intro g hlt
    by_cases hne : g = f
    · subst hne
      rw [hbits, Function.update_self, hf]
    · rw [hbits, Function.update_of_ne hne, hg g hne]
      apply h.bitMap g hlt
  · intro g hlt
    by_cases hne : g = f
    · subst hne
      rw [hIPT, Function.update_self]
      apply h.physicalPage g hlt
    · rw [hg g hne]
      apply h.physicalPage g hlt
  · intro g hlt hvalid
    have hne : g ≠ f := by
      rintro rfl
      rw [hf] at hvalid
      contradiction
    rw [hg g hne] at hvalid
    obtain ⟨T, u, hT⟩ := h.owned g hlt hvalid
    exact ⟨T, u, (hiff g T u).mpr ⟨hne, hT⟩⟩
  · intro g T u
    rw [hiff, resident_withoutPage hS hspaces hpage, h.holds_iff]
    constructor
    · rintro ⟨hne, hresident⟩
      use hresident
      rintro ⟨rfl, rfl⟩
      obtain ⟨sp₁, hsp₁, -, -, hg⟩ := hresident
      obtain ⟨sp₂, hsp₂, -, -, hf⟩ := (h.holds_iff f T u).mp hholds
      obtain rfl := Option.some.inj (hsp₁.symm.trans hsp₂)
      apply hne
      rw [← hg, hf]
    · rintro ⟨hresident, hne⟩
      use (by
        rintro rfl
        have hholds' := (h.holds_iff g T u).mpr hresident
        apply hne
        constructor
        · apply Option.some.inj (hholds'.owner.symm.trans hholds.owner)
        · rw [← hholds'.virtualPage, hholds.virtualPage])

/-- What the first `k` iterations of the loop of `clearMem` have done. -/
structure Cleared (S : ℕ) (sp : AddrSpace) (m : VM) (k : ℕ) (m' : VM) : Prop where
  mapping : m'.Mapping
  space : ∃ sp', m'.spaces S = some sp' ∧ sp'.numPages = sp.numPages ∧
    ∀ v < k, (sp'.pageTable v).entry.valid = false
  spaces : ∀ T, T ≠ S → m'.spaces T = m.spaces T
  tlb : m'.tlb = m.tlb
  running : m'.space = m.space
  currentTLB : m'.currentTLB = m.currentTLB
  currentIPT : m'.currentIPT = m.currentIPT

theorem Cleared.step {S : ℕ} {sp : AddrSpace} {m m' : VM} {k : ℕ} (h : Cleared S sp m k m')
    (hk : k < sp.numPages) :
  Cleared S sp m (k + 1) (m'.clearPage S k)
  := by
  obtain ⟨sp', hS, hnum, hinvalid⟩ := h.space
  rw [clearPage, hS]
  dsimp only
  split
  · rename_i hvalid
    have hpage := withoutPage_evictedPage sp' k
    constructor
    · have hholds : m'.Holds (sp'.pageTable k).entry.physicalPage S k :=
        (h.mapping.holds_iff _ _ _).mpr ⟨sp', hS, by omega, hvalid, rfl⟩
      exact h.mapping.free hholds hS rfl rfl rfl hpage
    · use sp'.invalidate k
      constructor
      · apply Function.update_self
      · use hnum
        intro v hv
        by_cases hvk : v = k
        · rw [hvk]
          apply hpage.invalid
        · have hother : (sp'.invalidate k).pageTable v = sp'.pageTable v := hpage.other v hvk
          rw [hother]
          apply hinvalid v
          omega
    · intro T hT
      rw [← h.spaces T hT]
      apply Function.update_of_ne hT
    · apply h.tlb
    · apply h.running
    · apply h.currentTLB
    · apply h.currentIPT
  · rename_i hvalid
    constructor
    · apply h.mapping
    · use sp', hS, hnum
      intro v hv
      by_cases hvk : v = k
      · rw [hvk]
        simpa using hvalid
      · apply hinvalid v
        omega
    · apply h.spaces
    · apply h.tlb
    · apply h.running
    · apply h.currentTLB
    · apply h.currentIPT

theorem Mapping.cleared {m : VM} (h : m.Mapping) {S : ℕ} {sp : AddrSpace}
    (hS : m.spaces S = some sp) {k : ℕ} (hk : k ≤ sp.numPages) :
  Cleared S sp m k ((List.range k).foldl (clearPage S) m)
  := by
  induction k with
  | zero =>
      constructor
      · apply h
      · use sp, hS, rfl
        intro v hv
        contradiction
      · intro T _
        rfl
      all_goals rfl
  | succ k ih =>
      rw [List.range_succ, List.foldl_append, List.foldl_cons, List.foldl_nil]
      apply (ih (by omega)).step
      omega

/-- An address space none of whose pages is in memory can be deleted. -/
theorem Mapping.delete {m m' : VM} (h : m.Mapping) {S : ℕ}
    (hout : ∀ v f, ¬ m.Resident S v f) (hframes : SameFrames m m')
    (hbits : m'.mainMemoryBitMap = m.mainMemoryBitMap)
    (hspaces : m'.spaces = Function.update m.spaces S none) :
  m'.Mapping
  := by
  constructor
  · intro f hf
    rw [hbits, (hframes f).2.1]
    apply h.bitMap f hf
  · intro f hf
    rw [(hframes f).2.2.2]
    apply h.physicalPage f hf
  · intro f hf hvalid
    rw [(hframes f).2.1] at hvalid
    obtain ⟨T, v, hholds⟩ := h.owned f hf hvalid
    exact ⟨T, v, hframes.holds_iff.mpr hholds⟩
  · intro f T v
    rw [hframes.holds_iff, h.holds_iff]
    by_cases hT : T = S
    · subst hT
      constructor
      · intro hresident
        apply absurd hresident (hout v f)
      · rintro ⟨sp, hsp, -⟩
        rw [hspaces, Function.update_self] at hsp
        contradiction
    · rw [Resident, Resident, hspaces, Function.update_of_ne hT]

/-- New pages are not in memory. -/
theorem Mapping.setSpace {m : VM} (h : m.Mapping) {S : ℕ} {sp : AddrSpace}
    (hresident : ∀ v f, (v < sp.numPages ∧ (sp.pageTable v).entry.valid = true ∧
      (sp.pageTable v).entry.physicalPage = f) ↔ m.Resident S v f) :
  (m.setSpace S sp).Mapping
  := by
  have hframes : SameFrames m (m.setSpace S sp) := sameFrames_of_eq rfl
  constructor
  · apply h.bitMap
  · apply h.physicalPage
  · intro f hf hvalid
    obtain ⟨T, v, hholds⟩ := h.owned f hf hvalid
    exact ⟨T, v, hframes.holds_iff.mpr hholds⟩
  · intro f T v
    rw [hframes.holds_iff, h.holds_iff]
    by_cases hT : T = S
    · subst hT
      rw [← hresident]
      simp [Resident, VM.setSpace]
    · simp [Resident, VM.setSpace, hT]

theorem Ok.setSpace {m : VM} (h : m.Ok) {S : ℕ} {sp : AddrSpace}
    (hmapping : (m.setSpace S sp).Mapping) :
  (m.setSpace S sp).Ok
  := by
  have hframes : SameFrames m (m.setSpace S sp) := sameFrames_of_eq rfl
  constructor
  · apply hmapping
  · apply h.buffered.mono
    · intro i _ hvalid
      exact ⟨hvalid, rfl, rfl⟩
    · intro i _ _ T hholds
      apply hframes.holds_iff.mpr hholds
    · rfl
  · apply h.currentTLB
  · apply h.currentIPT
  · intro T hT
    by_cases hTS : T = S
    · subst hTS
      exact ⟨sp, Function.update_self _ _ _⟩
    · obtain ⟨sp', hsp'⟩ := h.live T hT
      use sp'
      rw [← hsp']
      apply Function.update_of_ne hTS

/-- Every action keeps the tables in agreement. -/
theorem Ok.step {PRand : Bool} {m m' : VM} (h : m.Ok) {a : Action}
    (hstep : step PRand m a = some m') :
  m'.Ok
  := by
  cases a with
  | create S g executable numPages =>
      simp only [VM.step] at hstep
      split at hstep
      · rename_i hS
        obtain rfl := Option.some.inj hstep
        apply h.setSpace
        apply h.mapping.setSpace
        intro v f
        simp [Resident, hS, AddrSpace.new, AddrSpace.newEntry]
      · contradiction
  | switch S =>
      simp only [VM.step, Option.bind_eq_bind, Option.pure_def] at hstep
      obtain ⟨sp, hS, heq⟩ := Option.bind_eq_some_iff.mp hstep
      obtain rfl := Option.some.inj heq
      apply h.mapping.switch (fun i hi => h.buffered.leave hi) h.currentTLB h.currentIPT
      intro T hT
      obtain rfl := Option.some.inj hT
      exact ⟨sp, hS⟩
  | load rand virtAddr size =>
      obtain ⟨⟨m₁, value⟩, hread, rfl⟩ := Option.map_eq_some_iff.mp hstep
      apply h.readMem hread
  | store rand virtAddr bytes =>
      obtain ⟨⟨m₁, written⟩, hwrite, rfl⟩ := Option.map_eq_some_iff.mp hstep
      apply h.writeMem hwrite
  | allocateStack g =>
      simp only [VM.step, Option.bind_eq_bind, Option.pure_def] at hstep
      obtain ⟨S, hspace, hstep⟩ := Option.bind_eq_some_iff.mp hstep
      obtain ⟨sp, hS, heq⟩ := Option.bind_eq_some_iff.mp hstep
      obtain rfl := Option.some.inj heq
      apply h.setSpace
      apply h.mapping.setSpace
      intro v f
      simp only [Resident, hS, Option.some.injEq, exists_eq_left', AddrSpace.allocateStack]
      by_cases hv : v < sp.numPages
      · have hlt : v < sp.numPages + 8 := by omega
        simp [hv, hlt]
      · simp [hv, AddrSpace.newEntry]
  | exit next =>
      simp only [VM.step, Option.bind_eq_bind, Option.pure_def] at hstep
      obtain ⟨S, hspace, hstep⟩ := Option.bind_eq_some_iff.mp hstep
      obtain ⟨sp, hS, hstep⟩ := Option.bind_eq_some_iff.mp hstep
      split at hstep
      · contradiction
      · rename_i hnext
        obtain rfl := Option.some.inj hstep
        simp only [not_or] at hnext
        have hcleared : Cleared S sp m sp.numPages (m.clearMem S sp) :=
          h.mapping.cleared hS (Nat.le_refl _)
        apply Mapping.switch
        · refine hcleared.mapping.delete ?_ (sameFrames_of_eq rfl) rfl rfl
          rintro v f ⟨sp', hsp', hv, hvalid, -⟩
          obtain ⟨sp'', hsp'', hnum, hinvalid⟩ := hcleared.space
          obtain rfl := Option.some.inj (hsp'.symm.trans hsp'')
          rw [hinvalid v (by omega)] at hvalid
          contradiction
        · intro i hi
          have hrunning := hcleared.running.trans hspace
          simp [leave, hrunning, saveState, hi]
        · simp only [hcleared.currentTLB]
          apply h.currentTLB
        · simp only [hcleared.currentIPT]
          apply h.currentIPT
        · rintro T rfl
          have hTS : T ≠ S := fun hTS => hnext.1 (congrArg some hTS)
          simp only [Function.update_of_ne hTS, hcleared.spaces T hTS]
          apply Option.ne_none_iff_exists'.mp
          simpa using hnext.2

theorem ok_initial (tlb ipt : ℕ → TranslationEntry) :
  (initial tlb ipt).Ok
  := by
  constructor
  · constructor
    · simp [initial]
    · simp [initial]
    · simp [initial]
    · intro f S v
      constructor
      · rintro ⟨-, hvalid, -, -⟩
        simp [initial] at hvalid
      · rintro ⟨sp, hsp, -⟩
        simp [initial] at hsp
  · constructor
    · simp [initial]
    · simp [initial]
  · exact Nat.zero_lt_succ _
  · exact Nat.zero_lt_succ _
  · simp [initial]

/-- In every run the bit map marks the frames that are valid in the inverted page table, a frame
holds a page of an address space exactly when the page table of that address space says so, and the
valid slots of the translation buffer map different pages of the running thread to the frames that
hold them. -/
theorem frames_consistent {PRand : Bool} {tlb ipt : ℕ → TranslationEntry} {as : List Action}
    {m : VM} (hrun : Transition.run (step PRand) (initial tlb ipt) as = some m) :
  m.Mapping ∧ m.Buffered
  := by
  have hok : m.Ok := by
    apply Transition.run_invariant (I := Ok) _ (ok_initial tlb ipt)
      (Transition.along_of_forall (P := fun _ _ => True) _ _ _) hrun
    · intro s a s' h _ hstep
      apply h.step hstep
    · intro _ _
      trivial
  exact ⟨hok.mapping, hok.buffered⟩

/-- Two processes that use memory; the first one forks a thread, and the second one exits. -/
def processActions : List Action :=
  [.create 7 (fun _ => (0, 0)) [1, 2, 3] 9, .switch 7, .store 0 4 [1, 2, 3, 4],
    .store 0 4 [1, 2, 3, 4], .create 8 (fun _ => (0, 0)) [] 9, .switch 8, .load 0 0 1, .switch 7,
    .allocateStack (fun _ => (0, 0)), .load 0 1152 2, .switch 8, .exit (some 7), .load 0 4 4]

theorem frames_consistent_processes :
  ∃ m, Transition.run (step false) (initial (fun _ => ⟨0, 0, false, false, false, false⟩)
      (fun _ => ⟨0, 0, false, false, false, false⟩)) processActions = some m ∧
    m.Mapping ∧ m.Buffered
  := by
  obtain ⟨m, hm⟩ : ∃ m, Transition.run (step false)
      (initial (fun _ => ⟨0, 0, false, false, false, false⟩)
        (fun _ => ⟨0, 0, false, false, false, false⟩)) processActions = some m := by
    apply Option.isSome_iff_exists.mp
    decide
  exact ⟨m, hm, frames_consistent hm⟩

end VM

end Nachos.Memory
