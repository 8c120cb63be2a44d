import Nachos.Memory.Swap

/-!
# Releasing the stack of a thread

A thread that exits while other threads of its process go on calls `clearStack`
(`Exit_Syscall` in `userprog/exception.cc`). It should free the frames that hold the pages of its
stack, and nothing else. The loop follows the page table for each of the eight pages, also for those
that are not in memory. The frame named there, which has never been set or is where the page was
before it was evicted, is freed as well.

In a run in which every exit so far has released the right frames, so does the next one exactly when
no page of the stack that is not in memory names a frame with another page in it
(`Release.stack_released_iff`).
-/

namespace Nachos.Memory

namespace VM

/-! ### Stacks -/

/-- The pages of a stack, in the order of the loop of `clearStack`. -/
def stackPages (stack : ℕ) : List ℕ := (List.range 8).map (fun j => stack / PageSize - 7 + j)

theorem mem_stackPages {stack v : ℕ} (hlow : 7 ≤ stack / PageSize) :
  v ∈ stackPages stack ↔ v ≤ stack / PageSize ∧ stack / PageSize ≤ v + 7
  := by
  simp only [stackPages, List.mem_map, List.mem_range]
  constructor
  · rintro ⟨j, hj, rfl⟩
    omega
  · rintro ⟨hle, hge⟩
    exact ⟨v + 7 - stack / PageSize, by omega, by omega⟩

/-- `clearStack`, whose parameter is an `int`. A negative one leads to pages that are not in the page
table. -/
def exitThread (S stack : ℕ) (m : VM) : Option VM :=
  if stack < 2 ^ 31 then m.clearStack S stack else none

/-- Exactly the frames with pages of the stack have been freed. -/
structure Releases (S stack : ℕ) (m m' : VM) : Prop where
  freed : ∀ f v, m.Holds f S v → v ∈ stackPages stack →
    m'.mainMemoryBitMap f = false ∧ (m'.IPT f).entry.valid = false
  other : ∀ f T u, m.Holds f T u → ¬ (T = S ∧ u ∈ stackPages stack) →
    m'.mainMemory f = m.mainMemory f ∧ m'.IPT f = m.IPT f ∧
      m'.mainMemoryBitMap f = m.mainMemoryBitMap f
  nothing : ∀ f < NumPhysPages, m'.mainMemoryBitMap f ≠ m.mainMemoryBitMap f →
    ∃ v, m.Holds f S v ∧ v ∈ stackPages stack

/-- A page that is not in memory names no frame with a page outside the stack in it. -/
def OwnFrame (S stack : ℕ) (m : VM) (e : TranslationEntry) : Prop :=
  e.physicalPage < NumPhysPages ∧
    (e.valid = false → (m.IPT e.physicalPage).entry.valid = true →
      (m.IPT e.physicalPage).owner = some S ∧
        (m.IPT e.physicalPage).entry.virtualPage ∈ stackPages stack)

instance (S stack : ℕ) (m : VM) (e : TranslationEntry) : Decidable (m.OwnFrame S stack e) :=
  inferInstanceAs (Decidable (_ ∧ (_ → _ → _ ∧ _)))

/-- The stack is in the page table of the address space `S`, and its pages that are not in memory
name no frames of other pages. -/
def OwnStack (S stack : ℕ) (m : VM) : Prop :=
  stack < 2 ^ 31 ∧ 7 ≤ stack / PageSize ∧
    ∃ sp ∈ m.spaces S, stack / PageSize < sp.numPages ∧
      ∀ v ∈ stackPages stack, m.OwnFrame S stack (sp.pageTable v).entry

instance (S stack : ℕ) (m : VM) : Decidable (m.OwnStack S stack) :=
  inferInstanceAs (Decidable (_ ∧ _ ∧ ∃ sp ∈ m.spaces S, _ ∧ ∀ v ∈ stackPages stack, _))

/-! ### The loop of `clearStack` -/

/-- What the iterations of the loop for the pages `vs` of the address space `S` have done. -/
structure ClearedPages (S : ℕ) (sp : AddrSpace) (vs : List ℕ) (m m' : VM) : Prop where
  named : ∀ v ∈ vs, (sp.pageTable v).entry.physicalPage < NumPhysPages
  freed : ∀ v ∈ vs, m'.mainMemoryBitMap (sp.pageTable v).entry.physicalPage = false ∧
    (m'.IPT (sp.pageTable v).entry.physicalPage).entry.valid = false
  kept : ∀ f, (∀ v ∈ vs, (sp.pageTable v).entry.physicalPage ≠ f) →
    m'.mainMemoryBitMap f = m.mainMemoryBitMap f ∧ m'.IPT f = m.IPT f ∧
      m'.mainMemory f = m.mainMemory f
  physicalPage : ∀ f, (m'.IPT f).entry.physicalPage = (m.IPT f).entry.physicalPage
  space : ∃ sp', m'.spaces S = some sp' ∧ sp'.numPages = sp.numPages ∧
    (∀ v, (sp'.pageTable v).entry.physicalPage = (sp.pageTable v).entry.physicalPage) ∧
    (∀ v ∈ vs, (sp'.pageTable v).entry.valid = false) ∧
    ∀ v ∉ vs, sp'.pageTable v = sp.pageTable v
  spaces : ∀ T, T ≠ S → m'.spaces T = m.spaces T
  tlb : m'.tlb = m.tlb
  running : m'.space = m.space
  currentTLB : m'.currentTLB = m.currentTLB
  currentIPT : m'.currentIPT = m.currentIPT

variable {m m' m'' : VM} {S stack : ℕ} {sp : AddrSpace} {vs : List ℕ}

theorem clearedPages_nil (hS : m.spaces S = some sp) :
  ClearedPages S sp [] m m
  := by
  constructor
  · simp
  · simp
  · exact fun _ _ => ⟨rfl, rfl, rfl⟩
  · exact fun _ => rfl
  · exact ⟨sp, hS, rfl, fun _ => rfl, by simp, fun _ _ => rfl⟩
  · exact fun _ _ => rfl
  all_goals rfl

/-- One more iteration. -/
theorem ClearedPages.concat (h : ClearedPages S sp vs m m') {v : ℕ}
    (hstep : m'.clearStackPage S v = some m'') :
  ClearedPages S sp (vs ++ [v]) m m''
  := by
  obtain ⟨sp', hS, hnum, hphysical, hinvalid, hother⟩ := h.space
  simp only [clearStackPage, hS, Option.bind_eq_bind, Option.bind_some] at hstep
  split at hstep
  · rename_i hlt
    obtain rfl := Option.some.inj hstep
    rw [hphysical] at hlt
    constructor
    · intro u hu
      obtain hu | rfl := List.mem_append.mp hu |>.imp_right List.mem_singleton.mp
      · exact h.named u hu
      · exact hlt
    · intro u hu
      simp only [freePage, setIPT, setSpace, hphysical, Function.update_apply]
      split
      · exact ⟨rfl, rfl⟩
      · rename_i hne
        obtain hu | rfl := List.mem_append.mp hu |>.imp_right List.mem_singleton.mp
        · exact h.freed u hu
        · exact absurd rfl hne
    · intro f hf
      have hne : f ≠ (sp.pageTable v).entry.physicalPage := (hf v (by simp)).symm
      simp only [freePage, setIPT, setSpace, hphysical, Function.update_of_ne hne]
      exact h.kept f (fun u hu => hf u (List.mem_append_left _ hu))
    · intro f
      rw [← h.physicalPage f]
      simp only [freePage, setIPT, setSpace, Function.update_apply]
      split
      · rename_i hf
        rw [hf]
      · rfl
    · refine ⟨sp'.invalidate v, Function.update_self _ _ _, hnum, ?_, ?_, ?_⟩
      · intro u
        rw [← hphysical u]
        simp only [AddrSpace.invalidate, AddrSpace.setPage, Function.update_apply]
        split
        · rename_i hu
          rw [hu]
        · rfl
      · intro u hu
        by_cases huv : u = v
        · rw [huv]
          exact (withoutPage_evictedPage sp' v).invalid
        · have hvs : u ∈ vs := by simpa [huv] using hu
          rw [← hinvalid u hvs]
          exact congrArg (fun e => e.entry.valid) ((withoutPage_evictedPage sp' v).other u huv)
      · intro u hu
        have hu' : u ∉ vs ∧ u ≠ v := by simpa using hu
        rw [← hother u hu'.1]
        exact (withoutPage_evictedPage sp' v).other u hu'.2
    · intro T hT
      rw [← h.spaces T hT]
      exact Function.update_of_ne hT _ _
    · exact h.tlb
    · exact h.running
    · exact h.currentTLB
    · exact h.currentIPT
  · cases hstep

/-- The loop. -/
theorem ClearedPages.foldlM (js : List ℕ) (first : ℕ) (h : ClearedPages S sp vs m m')
    (hstep : js.foldlM (fun m j => m.clearStackPage S (first + j)) m' = some m'') :
  ClearedPages S sp (vs ++ js.map (first + ·)) m m''
  := by
  induction js generalizing vs m' with
  | nil =>
      obtain rfl := Option.some.inj hstep
      simpa using h
  | cons j js ih =>
      obtain ⟨m₁, hm₁, hstep⟩ := Option.bind_eq_some_iff.mp hstep
      have hcleared := ih (h.concat hm₁) hstep
      simpa using hcleared

/-- The loop is run to its end when the pages name frames. -/
theorem exists_foldlM (js : List ℕ) (first : ℕ) (hS : m.spaces S = some sp)
    (hnamed : ∀ j ∈ js, (sp.pageTable (first + j)).entry.physicalPage < NumPhysPages) :
  ∃ m', js.foldlM (fun m j => m.clearStackPage S (first + j)) m = some m'
  := by
  induction js generalizing m sp with
  | nil => exact ⟨m, rfl⟩
  | cons j js ih =>
      have hj := hnamed j List.mem_cons_self
      have hpage : m.clearStackPage S (first + j) = some (m.freePage S sp (first + j)) := by
        simp [clearStackPage, hS, hj]
      obtain ⟨m', hm'⟩ := @ih (m.freePage S sp (first + j)) (sp.invalidate (first + j))
        (Function.update_self _ _ _) (by
          intro k hk
          have hk' := hnamed k (List.mem_cons_of_mem _ hk)
          simp only [AddrSpace.invalidate, AddrSpace.setPage, Function.update_apply]
          split
          · exact hj
          · exact hk')
      exact ⟨m', by rw [List.foldlM_cons, hpage]; exact hm'⟩

/-- What `clearStack` does. -/
theorem clearedPages_of_exitThread (hstep : m.exitThread S stack = some m') :
  stack < 2 ^ 31 ∧ 7 ≤ stack / PageSize ∧ ∃ sp, m.spaces S = some sp ∧
    stack / PageSize < sp.numPages ∧ ClearedPages S sp (stackPages stack) m m'
  := by
  rw [exitThread] at hstep
  split at hstep
  · rename_i hint
    obtain ⟨sp, hS, hstep⟩ := Option.bind_eq_some_iff.mp hstep
    dsimp only at hstep
    split at hstep
    · rename_i hrange
      exact ⟨hint, hrange.1, sp, hS, hrange.2,
        (clearedPages_nil hS).foldlM (List.range 8) _ hstep⟩
    · cases hstep
  · cases hstep

/-! ### The frames after `clearStack` -/

/-- The frames that are named by pages of the stack hold no other pages. -/
theorem named_of_ownFrame (hmapping : m.Mapping) (hS : m.spaces S = some sp)
    (hhigh : ∀ v ∈ stackPages stack, v < sp.numPages)
    (hown : ∀ v ∈ stackPages stack, m.OwnFrame S stack (sp.pageTable v).entry) {v T u : ℕ}
    (hv : v ∈ stackPages stack) (hholds : m.Holds (sp.pageTable v).entry.physicalPage T u) :
  T = S ∧ u ∈ stackPages stack
  := by
  cases hvalid : (sp.pageTable v).entry.valid with
  | true =>
      have hself : m.Holds (sp.pageTable v).entry.physicalPage S v :=
        (hmapping.holds_iff _ S v).mpr ⟨sp, hS, hhigh v hv, hvalid, rfl⟩
      obtain ⟨rfl, rfl⟩ := hholds.eq_of_holds hself
      exact ⟨rfl, hv⟩
  | false =>
      obtain ⟨howner, hpage⟩ := (hown v hv).2 hvalid hholds.valid
      refine ⟨Option.some.inj (hholds.owner.symm.trans howner), ?_⟩
      rw [← hholds.virtualPage]
      exact hpage

/-- A frame that holds a page of the stack is named by it. -/
theorem Mapping.named (h : m.Mapping) (hS : m.spaces S = some sp) {f v : ℕ}
    (hholds : m.Holds f S v) :
  v < sp.numPages ∧ (sp.pageTable v).entry.valid = true ∧
    (sp.pageTable v).entry.physicalPage = f
  := by
  obtain ⟨sp', hsp', hv, hvalid, hf⟩ := (h.holds_iff f S v).mp hholds
  obtain rfl := Option.some.inj (hS.symm.trans hsp')
  exact ⟨hv, hvalid, hf⟩

/-- A page that is still in a frame. -/
theorem ClearedPages.holds_iff (h : ClearedPages S sp vs m m') (f T u : ℕ) :
  m'.Holds f T u ↔ m.Holds f T u ∧ ∀ v ∈ vs, (sp.pageTable v).entry.physicalPage ≠ f
  := by
  constructor
  · rintro ⟨hlt, hvalid, howner, hpage⟩
    have hne : ∀ v ∈ vs, (sp.pageTable v).entry.physicalPage ≠ f := by
      rintro v hv rfl
      rw [(h.freed v hv).2] at hvalid
      cases hvalid
    rw [(h.kept f hne).2.1] at hvalid howner hpage
    exact ⟨⟨hlt, hvalid, howner, hpage⟩, hne⟩
  · rintro ⟨⟨hlt, hvalid, howner, hpage⟩, hne⟩
    rw [← (h.kept f hne).2.1] at hvalid howner hpage
    exact ⟨hlt, hvalid, howner, hpage⟩

/-- The pages of the stack are not in memory any more, and the other pages are where they were. -/
theorem ClearedPages.resident_iff (h : ClearedPages S sp vs m m') (hS : m.spaces S = some sp)
    (f T u : ℕ) :
  m'.Resident T u f ↔ m.Resident T u f ∧ ¬ (T = S ∧ u ∈ vs)
  := by
  by_cases hT : T = S
  · subst hT
    obtain ⟨sp', hsp', hnum, -, hinvalid, hother⟩ := h.space
    simp only [Resident, hS, hsp', Option.some.injEq, exists_eq_left', hnum, true_and]
    by_cases hu : u ∈ vs
    · simp [hinvalid u hu, hu]
    · simp [hother u hu, hu]
  · simp only [Resident, h.spaces T hT, hT, false_and, not_false_eq_true, and_true]

/-- The tables agree after a stack has been released whose pages name no frames of other pages. -/
theorem ClearedPages.mapping (h : ClearedPages S sp (stackPages stack) m m') (hmapping : m.Mapping)
    (hS : m.spaces S = some sp) (hhigh : ∀ v ∈ stackPages stack, v < sp.numPages)
    (hown : ∀ v ∈ stackPages stack, m.OwnFrame S stack (sp.pageTable v).entry) :
  m'.Mapping
  := by
  constructor
  · intro f hf
    by_cases hnamed : ∃ v ∈ stackPages stack, (sp.pageTable v).entry.physicalPage = f
    · obtain ⟨v, hv, rfl⟩ := hnamed
      rw [(h.freed v hv).1, (h.freed v hv).2]
    · obtain ⟨hbit, hIPT, -⟩ := h.kept f (fun v hv heq => hnamed ⟨v, hv, heq⟩)
      rw [hbit, hIPT]
      exact hmapping.bitMap f hf
  · intro f hf
    rw [h.physicalPage]
    exact hmapping.physicalPage f hf
  · intro f hf hvalid
    have hne : ∀ v ∈ stackPages stack, (sp.pageTable v).entry.physicalPage ≠ f := by
      rintro v hv rfl
      rw [(h.freed v hv).2] at hvalid
      cases hvalid
    rw [(h.kept f hne).2.1] at hvalid
    obtain ⟨T, u, hholds⟩ := hmapping.owned f hf hvalid
    exact ⟨T, u, (h.holds_iff f T u).mpr ⟨hholds, hne⟩⟩
  · intro f T u
    rw [h.holds_iff, h.resident_iff hS, ← hmapping.holds_iff]
    constructor
    · rintro ⟨hholds, hne⟩
      use hholds
      rintro ⟨rfl, hu⟩
      exact hne u hu (hmapping.named hS hholds).2.2
    · rintro ⟨hholds, hout⟩
      use hholds
      rintro v hv rfl
      exact hout (named_of_ownFrame hmapping hS hhigh hown hv hholds)

/-- Exactly the frames with pages of the stack are freed when no page of the stack that is not in
memory names a frame with another page in it. -/
theorem ClearedPages.releases_iff (h : ClearedPages S sp (stackPages stack) m m')
    (hmapping : m.Mapping) (hS : m.spaces S = some sp)
    (hhigh : ∀ v ∈ stackPages stack, v < sp.numPages) :
  Releases S stack m m' ↔ ∀ v ∈ stackPages stack, m.OwnFrame S stack (sp.pageTable v).entry
  := by
  constructor
  · intro hreleases v hv
    refine ⟨h.named v hv, ?_⟩
    intro hout hvalid
    obtain ⟨T, u, hholds⟩ := hmapping.owned _ (h.named v hv) hvalid
    by_cases hu : T = S ∧ u ∈ stackPages stack
    · rw [hholds.owner, hholds.virtualPage, hu.1]
      exact ⟨rfl, hu.2⟩
    · have hkept := (hreleases.other _ T u hholds hu).2.1
      have hfreed := (h.freed v hv).2
      rw [hkept, hvalid] at hfreed
      cases hfreed
  · intro hown
    constructor
    · intro f v hholds hv
      obtain ⟨-, -, rfl⟩ := hmapping.named hS hholds
      exact h.freed v hv
    · intro f T u hholds hu
      have hne : ∀ v ∈ stackPages stack, (sp.pageTable v).entry.physicalPage ≠ f := by
        rintro v hv rfl
        exact hu (named_of_ownFrame hmapping hS hhigh hown hv hholds)
      obtain ⟨hbit, hIPT, hmemory⟩ := h.kept f hne
      exact ⟨hmemory, hIPT, hbit⟩
    · intro f hf hbit
      by_cases hnamed : ∃ v ∈ stackPages stack, (sp.pageTable v).entry.physicalPage = f
      · obtain ⟨v, hv, rfl⟩ := hnamed
        rw [(h.freed v hv).1] at hbit
        have hvalid := (hmapping.bitMap _ hf).mp (by simpa using hbit.symm)
        obtain ⟨T, u, hholds⟩ := hmapping.owned _ hf hvalid
        obtain ⟨rfl, hu⟩ := named_of_ownFrame hmapping hS hhigh hown hv hholds
        exact ⟨u, hholds, hu⟩
      · exact absurd (h.kept f (fun v hv heq => hnamed ⟨v, hv, heq⟩)).1 hbit

/-- A thread exits as it should exactly when its stack is in the page table and names no frames of
other pages. -/
theorem Mapping.exits_iff (h : m.Mapping) :
  (∃ m', m.exitThread S stack = some m' ∧ Releases S stack m m') ↔ m.OwnStack S stack
  := by
  constructor
  · rintro ⟨m', hstep, hreleases⟩
    obtain ⟨hint, hlow, sp, hS, hhigh, hcleared⟩ := clearedPages_of_exitThread hstep
    have hpages : ∀ v ∈ stackPages stack, v < sp.numPages := by
      intro v hv
      have hle := ((mem_stackPages hlow).mp hv).1
      omega
    exact ⟨hint, hlow, sp, hS, hhigh, (hcleared.releases_iff h hS hpages).mp hreleases⟩
  · rintro ⟨hint, hlow, sp, hS, hhigh, hown⟩
    have hpages : ∀ v ∈ stackPages stack, v < sp.numPages := by
      intro v hv
      have hle := ((mem_stackPages hlow).mp hv).1
      omega
    obtain ⟨m', hm'⟩ := exists_foldlM (List.range 8) (stack / PageSize - 7) hS
      (fun j hj => (hown _ (List.mem_map.mpr ⟨j, hj, rfl⟩)).1)
    have hstep : m.exitThread S stack = some m' := by
      have hS' : m.spaces S = some sp := hS
      rw [exitThread, if_pos hint]
      simp only [clearStack, hS', Option.bind_eq_bind, Option.bind_some]
      rw [if_pos ⟨hlow, hhigh⟩]
      exact hm'
    refine ⟨m', hstep, ?_⟩
    obtain ⟨-, -, sp', hS', -, hcleared⟩ := clearedPages_of_exitThread hstep
    obtain rfl := Option.some.inj (hS'.symm.trans hS)
    exact (hcleared.releases_iff h hS' hpages).mpr hown

end VM

/-! ### Runs -/

namespace Release

open VM

inductive Action where
  | memory (a : VM.Action)
  /-- The running thread exits, which is not the last one of its process, and a thread of the
  address space `next` is switched to. -/
  | exitThread (stack : ℕ) (next : Option ℕ)

/-- One action. -/
def step (PRand : Bool) (m : VM) : Action → Option VM
  | .memory a => VM.step PRand m a
  | .exitThread stack next => do
      let S ← m.space
      let m ← m.exitThread S stack
      if next.any (fun T => (m.spaces T).isNone) then none
      else return { m.leave with space := next }

/-- No page of the stack that is released names a frame with another page in it. -/
def Careful (m : VM) : Action → Prop
  | .memory _ => True
  | .exitThread stack _ => ∀ S ∈ m.space, m.OwnStack S stack

instance (m : VM) : ∀ a, Decidable (Careful m a)
  | .memory _ => inferInstanceAs (Decidable True)
  | .exitThread stack _ => inferInstanceAs (Decidable (∀ S ∈ m.space, m.OwnStack S stack))

variable {PRand : Bool} {m m' : VM}

/-- A thread exits whose stack names no frames of other pages. -/
theorem ok_exitThread (h : m.Ok) {S stack : ℕ} {next : Option ℕ} (hspace : m.space = some S)
    (hown : m.OwnStack S stack) (hexit : m.exitThread S stack = some m')
    (hnext : ¬ next.any (fun T => (m'.spaces T).isNone)) :
  Ok { m'.leave with space := next }
  := by
  obtain ⟨-, hlow, sp, hS, hhigh, hcleared⟩ := clearedPages_of_exitThread hexit
  obtain ⟨-, -, sp', hS', -, hframes⟩ := hown
  obtain rfl := Option.some.inj (hS.symm.trans hS')
  have hpages : ∀ v ∈ stackPages stack, v < sp.numPages := by
    intro v hv
    have hle := ((mem_stackPages hlow).mp hv).1
    omega
  apply (hcleared.mapping h.mapping hS hpages hframes).switch
  · intro i hi
    have hrunning := hcleared.running.trans hspace
    simp [leave, hrunning, saveState, hi]
  · rw [hcleared.currentTLB]
    exact h.currentTLB
  · rw [hcleared.currentIPT]
    exact h.currentIPT
  · rintro T rfl
    apply Option.ne_none_iff_exists'.mp
    simpa using hnext

/-- Every careful action keeps the tables in agreement. -/
theorem ok_step (h : m.Ok) {a : Action} (hcareful : Careful m a) (hstep : step PRand m a = some m') :
  m'.Ok
  := by
  cases a with
  | memory a => exact h.step hstep
  | exitThread stack next =>
      obtain ⟨S, hspace, hstep⟩ := Option.bind_eq_some_iff.mp hstep
      obtain ⟨m₁, hm₁, hstep⟩ := Option.bind_eq_some_iff.mp hstep
      split at hstep
      · cases hstep
      · rename_i hnext
        obtain rfl := Option.some.inj hstep
        exact ok_exitThread h hspace (hcareful S hspace) hm₁ hnext

/-- In a run in which every thread that exited was careful, the next one releases exactly the frames
of its stack when it is careful as well, and not otherwise. -/
theorem stack_released_iff {tlb ipt : ℕ → TranslationEntry} {as : List Action}
    (halong : Transition.Along (step PRand) Careful (initial tlb ipt) as)
    (hrun : Transition.run (step PRand) (initial tlb ipt) as = some m) (S stack : ℕ) :
  (∃ m', m.exitThread S stack = some m' ∧ Releases S stack m m') ↔ m.OwnStack S stack
  := by
  have hok := @Transition.run_invariant _ _ _ Ok Careful
    (fun m a m' hm ha hstep => ok_step hm ha hstep) _ _ _ (ok_initial tlb ipt) halong hrun
  exact hok.mapping.exits_iff

/-- A process forks a thread, which touches the last page of its stack. The other pages of the stack
name frame 200, which is free. -/
def forking : List Action :=
  [.memory (.create 7 (fun _ => (200, 0)) [1, 2, 3] 9), .memory (.switch 7),
    .memory (.allocateStack (fun _ => (200, 0))), .memory (.load 0 2160 4)]

theorem stack_released_forking :
  ∃ m, Transition.run (step false) (initial (fun _ => ⟨0, 0, false, false, false, false⟩)
      (fun _ => ⟨0, 0, false, false, false, false⟩)) forking = some m ∧
    ∃ m', m.exitThread 7 2160 = some m' ∧ Releases 7 2160 m m'
  := by
  obtain ⟨m, hm, hown⟩ : ∃ m ∈ Transition.run (step false)
      (initial (fun _ => ⟨0, 0, false, false, false, false⟩)
        (fun _ => ⟨0, 0, false, false, false, false⟩)) forking, m.OwnStack 7 2160 := by
    decide
  exact ⟨m, hm, (stack_released_iff (by decide) hm 7 2160).mpr hown⟩

/-- Another process has a page in frame 0. The first process forks a thread, which touches the last
page of its stack. The other pages of the stack name frame 0, which is not where they are. -/
def freeing : List Action :=
  [.memory (.create 7 (fun _ => (0, 0)) [1, 2, 3] 9), .memory (.create 8 (fun _ => (0, 0)) [4] 9),
    .memory (.switch 8), .memory (.load 0 0 4), .memory (.switch 7),
    .memory (.allocateStack (fun _ => (0, 0))), .memory (.load 0 2160 4)]

/-- The frame of the other process is freed. -/
theorem run_freeing :
  ∃ m ∈ Transition.run (step false) (initial (fun _ => ⟨0, 0, false, false, false, false⟩)
      (fun _ => ⟨0, 0, false, false, false, false⟩)) freeing,
    m.space = some 7 ∧ m.mainMemoryBitMap 0 = true ∧ (m.IPT 0).owner = some 8 ∧
      ∃ m' ∈ m.exitThread 7 2160, m'.mainMemoryBitMap 0 = false
  := by
  decide

theorem not_stack_released :
  ¬ ∀ (PRand : Bool) (tlb ipt : ℕ → TranslationEntry) (as : List Action) (m m' : VM) (S stack : ℕ),
    Transition.run (step PRand) (initial tlb ipt) as = some m → m.space = some S →
    m.exitThread S stack = some m' → Releases S stack m m'
  := by
  intro hall
  obtain ⟨m, hm, hspace, hbit, howner, m', hm', hbit'⟩ := run_freeing
  have hreleases := hall false _ _ freeing m m' 7 2160 hm hspace hm'
  have hne : m'.mainMemoryBitMap 0 ≠ m.mainMemoryBitMap 0 := by
    rw [hbit, hbit']
    decide
  obtain ⟨v, hholds, -⟩ := hreleases.nothing 0 (by decide) hne
  have hsame := hholds.owner.symm.trans howner
  simp at hsame

end Release

end Nachos.Memory
