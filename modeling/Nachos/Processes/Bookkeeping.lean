import Nachos.Processes.Statements

/-!
# Process and stack bookkeeping

In every run the process table says which processes there are, how many threads they have and where
the stacks of the threads are, and no two stacks overlap (`bookkeeping`). The steps of a thread keep
this because a thread that may change the process table, or take a page count out of a queue, holds
the lock (`Ok.before`).

The parameter of `clearStack` is an `int`. When a stack ends after page `2 ^ 24`, its address is
negative there, and `clearStack` visits other pages (`not_bookkeeping`).
-/

namespace Nachos.Processes

open Memory Monitor

/-- The thread that calls `clearStack` has a stack that ends with page `2 ^ 24` or before. -/
def small (x : Exec Data Pos) : Move Choice → Bool
  | .run _ =>
      match x.kernel.currentThread with
      | some t =>
          match x.pos t, x.data.stage t with
          | .exitThread _ _ _, .recorded n => n ≤ 2 ^ 24
          | _, _ => true
      | none => true
  | _ => true

/-- A thread in `StartProcess` whose process is not in the process table yet. -/
def Pos.starting : Pos → Bool
  | .pages .start _ _ | .front .start _ _ _ | .popped .start _ _ _ | .got .start _ _
  | .recording .start _ _ => true
  | _ => false

/-- A thread of the address space `S` has reached user code, and has not been found by
`Exit_Syscall`. -/
def Pos.inProcess : Pos → Option ℕ
  | .user S | .exec S | .execPushed S _ _ | .execMade S _ _ | .fork S | .forkFound S _ | .forkMade S _
  | .stackPage S _ _ | .stackQueue S _ _ _ | .stackPushed S _ _ _ | .stackCopied S _ _
  | .forkStack S _ | .forkReady S _ | .exit S | .exitFound S _ => some S
  | .pages (.exec S _) _ _ | .front (.exec S _) _ _ _ | .popped (.exec S _) _ _ _
  | .got (.exec S _) _ _ | .recording (.exec S _) _ _ | .found (.exec S _) _ _ _
  | .recorded (.exec S _) _ _ | .running (.exec S _) _ _ => some S
  | _ => none

/-- The process table and the stacks are in order. -/
structure Kept (x : Exec Data Pos) : Prop where
  /-- A process with a thread has one entry. -/
  process : ∀ t ∈ x.data.living, ∀ S, x.data.space t = some S → (x.pos t).starting = false →
    (x.data.processTable.filter (fun p => p.space == S)).length = 1
  numThreads : ∀ p ∈ x.data.processTable, p.numThreads = x.data.threads p.space
  /-- A thread that has reached user code has one stack, whose address it got. -/
  stack : ∀ t S, (x.pos t).inProcess = some S → ∃ p ∈ x.data.processTable, ∃ n,
    p.space = S ∧ x.data.space t = some S ∧ x.data.stage t = .recorded n ∧
      p.threadStacks.filter (fun e => e.1 == t) = [(t, stackOf n)] ∧
      x.data.stackReg t = some (stackOf n) ∧
      ∀ q ∈ x.data.processTable, ∀ e ∈ q.threadStacks, e.1 = t → q = p
  range : ∀ t ∈ x.data.living, ∀ S n, x.data.space t = some S → (x.data.stage t).pages = some n →
    ∃ sp, x.data.spaces S = some sp ∧ ∀ k ∈ stackPages n, 0 ≤ k ∧ k < sp.numPages
  disjoint : ∀ t ∈ x.data.living, ∀ u ∈ x.data.living, t ≠ u → ∀ S, x.data.space t = some S →
    x.data.space u = some S → ∀ n m, (x.data.stage t).pages = some n →
      (x.data.stage u).pages = some m → (stackPages n).Disjoint (stackPages m)
  /-- No queue is empty when it is read, and every search succeeds. -/
  safe : ∀ t, x.pos t ≠ .failed
  found : ∀ t S i, x.pos t = .exitFound S i → x.data.space t = some S ∧ x.data.HasIndex S i
  entry : ∀ t S i j, x.pos t = .exitThread S i j → ∃ n, x.data.stage t = .recorded n ∧
    x.data.HasEntry t i j n
  /-- `clearStack` visits the pages of the stack. -/
  cleared : ∀ t S i j pages, x.pos t = .exitCleared S i j pages →
    ∃ n, x.data.stage t = .recorded n ∧ pages = stackPages n

/-- What holds in every state. -/
structure Ok (x : Exec Data Pos) : Prop where
  exec : x.Ok Pos.holds
  settled : ∀ t, (x.pos t).settled → x.kernel.Settled t
  data : x.data.Ok
  locked : x.data.Locked
  fits : ∀ t, Fits x.data t (x.pos t)
  threads : ∀ t ∈ x.threads, t ∈ x.data.allocated
  outside : ∀ t, t ∉ x.threads → x.pos t = .kernel
  child : ∀ t u, (x.pos t).child = some u → u ∈ x.data.allocated ∧ u ∉ x.threads
  apart : ∀ t t' u, (x.pos t).child = some u → (x.pos t').child = some u → t = t'

variable {x x' : Exec Data Pos} {m : Move Choice} {t u S n : ℕ} {p p' : Pos} {d : Data} {e : Effect}

/-! ### Steps -/

theorem Ok.mem_threads (h : Ok x) (hrun : x.kernel.currentThread = some t) :
  t ∈ x.threads
  := (h.exec.kernel.places.mem_iff t).mpr ⟨.running, by simp [Kernel.queue, hrun]⟩

/-- A thread that waits for no lock owns a lock only if the running thread does not. -/
theorem Ok.apart_locks (h : Ok x) (hpc : x.kernel.pc t = .outside) {L : ℕ} (hL : (x.pos t).holds L)
    (hsettled : (x.pos u).settled) (hL' : (x.pos u).holds L) :
  u = t
  := by
  have howner := h.exec.owner hpc hL
  have howner' := h.exec.owner_of_settled (h.settled u hsettled) hL'
  exact Option.some.inj (howner'.symm.trans howner)

theorem Pos.leaving.settled (h : p.leaving) :
  p.settled ∧ p.holds processLock
  := by
  cases p with
  | exitCounted | exitThread | exitCleared => exact ⟨trivial, rfl⟩
  | _ => cases h

/-- What a step of the running thread needs. -/
theorem Ok.before (h : Ok x) (hrun : x.kernel.currentThread = some t) (hpc : x.kernel.pc t = .outside)
    {i : Choice} (hsmall : small x (.run i) = true) :
  Before x.data t (x.pos t)
  := by
  have ht := h.mem_threads hrun
  refine ⟨h.data, h.fits t, h.locked, h.threads t ht, ?_, ?_, ?_⟩
  · intro S i j n hpos hstage
    simpa [small, hrun, hpos, hstage] using hsmall
  · intro u hu
    obtain ⟨hmem, hout⟩ := h.child t u hu
    refine ⟨?_, hmem, ?_⟩
    · rintro rfl
      exact hout ht
    · exact h.outside u hout ▸ h.fits u
  · intro _ hholds r n hrt hn
    obtain hmem | hleaving := (h.fits r).living hn
    · exact hmem
    · obtain ⟨hsettled, hholds'⟩ := hleaving.settled
      exact absurd (h.apart_locks hpc hholds hsettled hholds') hrt

theorem Flow.wake (h : Flow p (.wake u) p') :
  p.child = some u ∧ p'.child = none
  := by
  cases h with
  | runningExec | forkReady => exact ⟨rfl, rfl⟩

theorem Flow.park (h : Flow p .park p') :
  p' = .kernel
  := by
  cases h with
  | finishing => rfl

/-- The threads after a step. -/
theorem mem_threads_apply {kernel : Kernel} {threads : List ℕ} (hnodup : x.threads.Nodup)
    (happly : x.apply t e = some (kernel, threads)) (r : ℕ) :
  r ∈ threads ↔ e = .wake r ∨ r ∈ x.threads ∧ (e = .park → r ≠ t)
  := by
  cases e with
  | compute =>
      obtain ⟨-, rfl⟩ := Prod.mk.inj (Option.some.inj happly)
      simp
  | call a =>
      obtain ⟨k, -, heq⟩ := Option.map_eq_some_iff.mp happly
      obtain ⟨-, rfl⟩ := Prod.mk.inj heq
      simp
  | park =>
      obtain ⟨-, rfl⟩ := Prod.mk.inj (Option.some.inj happly)
      rw [hnodup.mem_erase_iff]
      simp [and_comm]
  | wake u =>
      obtain ⟨-, rfl⟩ := Prod.mk.inj (Option.some.inj happly)
      simp [eq_comm]

/-- A step of the thread `t` concerns no other thread, but for those that it has created. -/
theorem Ok.not_own (h : Ok x) (hnew : ∀ u, p'.child = some u →
      (x.pos t).child = some u ∨ u ∉ x.data.allocated) (hut : u ≠ t)
    (hu : Own t (x.pos t) p' u) :
  x.pos u = .kernel ∧ ((x.pos t).child = some u ∨ p'.child = some u)
  := by
  have hout : (x.pos t).child = some u ∨ p'.child = some u := by
    obtain heq | hu := hu
    · exact absurd heq hut
    · exact hu
  refine ⟨h.outside u ?_, hout⟩
  intro hmem
  obtain hold | hold := hout
  · exact (h.child t u hold).2 hmem
  · obtain hold | hold := hnew u hold
    · exact (h.child t u hold).2 hmem
    · exact hold (h.threads u hmem)

/-- The running thread makes a step. -/
theorem Ok.run (h : Ok x) (hrun : x.kernel.currentThread = some t) (hpc : x.kernel.pc t = .outside)
    {i : Choice} (hsmall : small x (.run i) = true)
    (hnext : next t (x.pos t) x.data i = some (d, e, p')) {kernel : Kernel} {threads : List ℕ}
    (happly : x.apply t e = some (kernel, threads))
    (hexec : (⟨kernel, threads, d, Function.update x.pos t p'⟩ : Exec Data Pos).Ok Pos.holds)
    (hsettled : ∀ u, (Function.update x.pos t p' u).settled → kernel.Settled u) :
  Ok ⟨kernel, threads, d, Function.update x.pos t p'⟩
  := by
  have ht := h.mem_threads hrun
  have hmoved := (h.before hrun hpc hsmall).next hnext
  have hpos : ∀ u, u ≠ t → Function.update x.pos t p' u = x.pos u :=
    fun u hut => Function.update_of_ne hut _ _
  have hself : Function.update x.pos t p' t = p' := Function.update_self _ _ _
  have hthreads : ∀ r, r ∈ threads ↔ e = .wake r ∨ r ∈ x.threads ∧ (e = .park → r ≠ t) :=
    mem_threads_apply h.exec.nodup happly
  have hnew : ∀ u, p'.child = some u → (x.pos t).child = some u ∨ u ∉ x.data.allocated :=
    fun u hu => (hmoved.new u hu).imp_right And.left
  have halloc : ∀ r ∈ x.data.allocated, r ≠ t → r ∈ d.allocated := by
    intro r hr hrt
    obtain hr | ⟨-, rfl⟩ := hmoved.allocated r hr
    · exact hr
    · exact absurd rfl hrt
  have hwake : ∀ u, e = .wake u → (x.pos t).child = some u ∧ p'.child = none := by
    rintro u rfl
    exact hmoved.flow.wake
  -- the threads that the step creates
  have hchild : ∀ u, p'.child = some u → u ∈ d.allocated ∧ u ∉ threads := by
    intro u hu
    have hnot : u ∉ x.threads ∧ u ∈ d.allocated := by
      obtain hold | ⟨hfresh, hmem⟩ := hmoved.new u hu
      · obtain ⟨hmem, hout⟩ := h.child t u hold
        exact ⟨hout, halloc u hmem (by rintro rfl; exact hout ht)⟩
      · exact ⟨fun hmem' => hfresh (h.threads u hmem'), hmem⟩
    refine ⟨hnot.2, ?_⟩
    intro hmem
    obtain hw | ⟨hmem, -⟩ := (hthreads u).mp hmem
    · cases (hwake u hw).2.symm.trans hu
    · exact hnot.1 hmem
  -- those that other threads have created
  have hother : ∀ r u, r ≠ t → (x.pos r).child = some u →
      u ≠ t ∧ (x.pos t).child ≠ some u ∧ p'.child ≠ some u := by
    intro r u hrt hu
    obtain ⟨hmem, hout⟩ := h.child r u hu
    have hold : (x.pos t).child ≠ some u := fun htu => hrt (h.apart r t u hu htu)
    refine ⟨?_, hold, ?_⟩
    · rintro rfl
      exact hout ht
    · intro hu'
      obtain hu' | hu' := hnew u hu'
      · exact hold hu'
      · exact hu' hmem
  refine ⟨hexec, hsettled, hmoved.ok, hmoved.locked, ?_, ?_, ?_, ?_, ?_⟩
  · intro r
    by_cases hrt : r = t
    · subst hrt
      simp only [hself]
      exact hmoved.fits
    · simp only [hpos r hrt]
      by_cases hown : Own t (x.pos t) p' r
      · obtain ⟨hkernel, hr⟩ := h.not_own hnew hrt hown
        rw [hkernel]
        exact hmoved.child r hr
      · apply (h.fits r).frame h.data hmoved.frame hown
        · intro u hu
          obtain ⟨hut, hold, hnew'⟩ := hother r u hrt hu
          rintro (heq | heq | heq)
          · exact hut heq
          · exact hold heq
          · exact hnew' heq
        · intro hsettled L hL hL'
          exact hrt (h.apart_locks hpc hL' hsettled hL)
  · intro r hr
    obtain hw | ⟨hr, hpark⟩ := (hthreads r).mp hr
    · obtain ⟨hmem, hout⟩ := h.child t r (hwake r hw).1
      exact halloc r hmem (by rintro rfl; exact hout ht)
    · obtain hmem | ⟨heq, hrt⟩ := hmoved.allocated r (h.threads r hr)
      · exact hmem
      · exact absurd hrt (hpark heq)
  · intro r hr
    by_cases hrt : r = t
    · subst hrt
      simp only [hself]
      by_cases hpark : e = .park
      · subst hpark
        exact hmoved.flow.park
      · exact absurd ((hthreads r).mpr (.inr ⟨ht, fun heq => absurd heq hpark⟩)) hr
    · simp only [hpos r hrt]
      apply h.outside
      intro hmem
      exact hr ((hthreads r).mpr (.inr ⟨hmem, fun _ => hrt⟩))
  · intro r u hu
    by_cases hrt : r = t
    · subst hrt
      simp only [hself] at hu
      exact hchild u hu
    · simp only [hpos r hrt] at hu
      obtain ⟨hmem, hout⟩ := h.child r u hu
      obtain ⟨hut, hold, -⟩ := hother r u hrt hu
      refine ⟨halloc u hmem hut, ?_⟩
      intro hmem'
      obtain hw | ⟨hmem', -⟩ := (hthreads u).mp hmem'
      · exact hold (hwake u hw).1
      · exact hout hmem'
  · intro r r' u hu hu'
    by_cases hrt : r = t
    · subst hrt
      by_cases hrt' : r' = r
      · exact hrt'.symm
      · simp only [hself] at hu
        simp only [hpos r' hrt'] at hu'
        exact absurd hu (hother r' u hrt' hu').2.2
    · simp only [hpos r hrt] at hu
      by_cases hrt' : r' = t
      · subst hrt'
        simp only [hself] at hu'
        exact absurd hu' (hother r u hrt hu).2.2
      · simp only [hpos r' hrt'] at hu'
        exact h.apart r r' u hu hu'

theorem Ok.step (h : Ok x) (hsmall : small x m = true) (hstep : x.step code m = some x') :
  Ok x'
  := by
  have hflow : ∀ t i d e p, m = .run i → x.kernel.currentThread = some t →
      x.kernel.pc t = .outside → next t (x.pos t) x.data i = some (d, e, p) → Flow (x.pos t) e p := by
    rintro t i d e p rfl hrun hpc hnext
    exact ((h.before hrun hpc hsmall).next hnext).flow
  have hwakes : (x.wakes code m ++ x.threads).Nodup := by
    cases m with
    | yield | preempt | proceed | interrupt => exact h.exec.nodup
    | run i =>
        simp only [Exec.wakes]
        split
        · exact h.exec.nodup
        · rename_i t hrun
          split
          · rename_i d u p hnext
            by_cases hpc : x.kernel.pc t = .outside
            · refine List.nodup_cons.mpr ⟨?_, h.exec.nodup⟩
              exact (h.child t u (hflow t i _ _ _ rfl hrun hpc hnext).wake.1).2
            · simp [Exec.step, hrun, hpc] at hstep
          · exact h.exec.nodup
  have hexec := h.exec.step_of (fun t i d e p hm hrun hpc hnext L hL =>
    (hflow t i d e p hm hrun hpc hnext).holds (h.fits t) hL) hwakes hstep
  have hsettled := Exec.settled_step_of (fun t i d e p hm hrun hpc hnext hp =>
    (hflow t i d e p hm hrun hpc hnext).settled hp) h.settled hstep
  cases Exec.step_cases hstep with
  | run hrun hpc hnext happly => exact h.run hrun hpc hsmall hnext happly hexec hsettled
  | kernel => exact ⟨hexec, hsettled, h.data, h.locked, h.fits, h.threads, h.outside, h.child, h.apart⟩
  | interrupt henabled hinterrupt => cases hinterrupt

theorem ok_initial {ts : List ℕ} (hnodup : (t :: ts).Nodup) :
  Ok (initial t ts)
  := by
  refine ⟨Exec.ok_initial hnodup _ (fun _ => id), fun _ => False.elim, ?_, ?_, ?_, fun _ => id,
    fun _ _ => rfl, fun _ _ hu => (by cases hu), fun _ _ _ hu => (by cases hu)⟩
  · refine ⟨List.nodup_nil, ?_, ?_, List.nodup_nil, ?_, ?_, ?_, ?_⟩
    · simp [initial, Exec.initial]
    · simp [initial, Exec.initial]
    · simp [initial, Exec.initial]
    · simp [initial, Exec.initial]
    · intro r S n hS
      cases hS
    · intro S sp hS
      cases hS
  · exact ⟨Nat.zero_lt_one, fun _ _ hS => by cases hS⟩
  · intro r
    exact ⟨fun n hn => (by cases hn), fun S hmem => (by cases hmem)⟩

/-! ### What is kept -/

theorem mem_stackPages {k : ℤ} (n : ℕ) :
  k ∈ stackPages n ↔ (n : ℤ) - 8 ≤ k ∧ k < n
  := by
  simp only [stackPages, List.mem_map, List.mem_range]
  constructor
  · rintro ⟨j, hj, rfl⟩
    omega
  · rintro ⟨hlow, hhigh⟩
    exact ⟨(k - (n - 8)).toNat, by omega, by omega⟩

/-- A thread that has reached user code. -/
theorem Fits.member (h : Fits d t p) (hp : p.inProcess = some S) :
  d.Member t S
  := by
  cases p with
  | user | exec | fork | exit =>
      obtain rfl := Option.some.inj hp
      exact h
  | execPushed S' T u | execMade S' T u =>
      obtain rfl := Option.some.inj hp
      have hby : d.By t T .waiting (.exec S' u) := h
      exact hby.1
  | forkFound | forkMade | stackPage | stackQueue | stackPushed | stackCopied | forkStack
  | forkReady | exitFound =>
      obtain rfl := Option.some.inj hp
      exact h.1
  | pages c | front c | found c =>
      cases c with
      | exec =>
          obtain rfl := Option.some.inj hp
          exact h.1.1
      | start | fork => cases hp
  | popped c | got c | recording c | recorded c | running c =>
      cases c with
      | exec =>
          obtain rfl := Option.some.inj hp
          exact h.1
      | start | fork => cases hp
  | kernel | exitCounted | exitThread | exitCleared | erased | finishing | failed => cases hp

/-- The process of the caller of `getNumPages` is in the process table, unless it is in
`StartProcess`. -/
theorem Data.By.listed {c : Caller} {s : Stage} {T : ℕ} (h : d.By t T s c) (hok : d.Ok)
    (hS : d.space t = some S) (hs : c = .start → ∃ n, s = .recorded n) :
  d.Listed S
  := by
  cases c with
  | start =>
      obtain ⟨hplaced, -, -⟩ := h
      obtain ⟨n, rfl⟩ := hs rfl
      exact hok.listed t S n hS hplaced.stage
  | exec S' u =>
      obtain ⟨⟨n, hplaced, -⟩, -⟩ := h
      exact hok.listed t S n hS hplaced.stage
  | fork =>
      obtain ⟨hplaced, hlisted⟩ := h
      obtain rfl := Option.some.inj (hplaced.space.symm.trans hS)
      exact hlisted

/-- A process with a thread is in the process table, unless it is in `StartProcess`. -/
theorem Fits.listed (h : Fits d t p) (hok : d.Ok) (hmem : t ∈ d.living) (hS : d.space t = some S)
    (hp : p.starting = false) :
  d.Listed S
  := by
  have hmember : ∀ {T}, d.Member t T → d.Listed S := by
    rintro T ⟨n, hplaced, -⟩
    exact hok.listed t S n hS hplaced.stage
  have hstarting : ∀ {c : Caller}, (c = .start → p.starting = true) → c ≠ .start := by
    rintro c hc rfl
    cases hp.symm.trans (hc rfl)
  cases p with
  | kernel =>
      simp only [Fits] at h
      cases hstart : d.start t with
      | none =>
          rw [hstart] at h
          exact h.2 S hmem hS
      | some f =>
          rw [hstart] at h
          cases f with
          | execThread =>
              obtain ⟨T, n, hplaced, -⟩ := h
              exact hok.listed t S n hS hplaced.stage
          | forkThread =>
              obtain ⟨T, hplaced, hlisted⟩ := h
              obtain rfl := Option.some.inj (hplaced.space.symm.trans hS)
              exact hlisted
  | pages c | front c =>
      exact h.1.listed hok hS (fun hc => absurd hc (hstarting (by rintro rfl; rfl)))
  | popped c | got c | recording c =>
      exact Data.By.listed h hok hS (fun hc => absurd hc (hstarting (by rintro rfl; rfl)))
  | found c => exact h.1.listed hok hS (fun hc => absurd hc h.2.1)
  | recorded c S n | running c S n => exact Data.By.listed h hok hS (fun _ => ⟨n, rfl⟩)
  | execPushed S' T u | execMade S' T u =>
      have hby : d.By t T .waiting (.exec S' u) := h
      exact hmember hby.1
  | user | exec | fork | exit => exact hmember h
  | forkFound | forkMade | stackPage | stackQueue | stackPushed | stackCopied | forkStack
  | forkReady | exitFound => exact hmember h.1
  | exitCounted =>
      obtain ⟨n, hleaving⟩ := h
      exact absurd hmem hleaving.unborn
  | exitThread | exitCleared =>
      obtain ⟨n, hleaving, -⟩ := h
      exact absurd hmem hleaving.unborn
  | erased | finishing => exact absurd hmem h.1
  | failed => exact h.elim

/-- The entry of a thread is the only one. -/
theorem filter_eq_singleton {l : List (ℕ × ℕ)} (hl : (l.map Prod.fst).Nodup) {s : ℕ}
    (hmem : (t, s) ∈ l) :
  l.filter (fun e => e.1 == t) = [(t, s)]
  := by
  induction l with
  | nil => cases hmem
  | cons e l ih =>
      obtain ⟨he, hl⟩ := List.nodup_cons.mp hl
      obtain rfl | hmem := List.mem_cons.mp hmem
      · rw [List.filter_cons_of_pos (by simp), List.filter_eq_nil_iff.mpr]
        intro b hb hbt
        exact he (List.mem_map.mpr ⟨b, hb, by simpa using hbt⟩)
      · rw [List.filter_cons_of_neg, ih hl hmem]
        intro het
        have het : e.1 = t := by simpa using het
        exact he (List.mem_map.mpr ⟨(t, s), hmem, het.symm⟩)

/-- The process table and the stacks are in order in every state. -/
theorem Ok.kept (h : Ok x) :
  Kept x
  := by
  refine ⟨?_, fun p hp => (h.data.entries p hp).count, ?_, ?_, ?_, ?_, ?_, ?_, ?_⟩
  · intro t ht S hS hstarting
    obtain ⟨p, hp, hpS⟩ := (h.fits t).listed h.data ht hS hstarting
    rw [← List.countP_eq_length_filter]
    have hcount := List.count_eq_one_of_mem h.data.nodup (List.mem_map_of_mem hp)
    rw [hpS, List.count, List.countP_map] at hcount
    exact hcount
  · intro t S hpos
    obtain ⟨n, hplaced, hstack⟩ := (h.fits t).member hpos
    obtain ⟨p, hp, rfl⟩ := h.data.listed t S n hplaced.space hplaced.stage
    have hentries := h.data.entries p hp
    have hmem := hentries.recorded t n hplaced.space hplaced.stage
    refine ⟨p, hp, n, rfl, hplaced.space, hplaced.stage, filter_eq_singleton hentries.nodup hmem,
      hstack, ?_⟩
    rintro q hq e he rfl
    have hspace := ((h.data.entries q hq).entry e he).2.1
    exact List.inj_on_of_nodup_map h.data.nodup hq hp
      (Option.some.inj (hspace.symm.trans hplaced.space))
  · intro t ht S n hS hn
    obtain ⟨T, hT, hlive⟩ := h.data.home t ht
    obtain rfl := Option.some.inj (hS.symm.trans hT)
    obtain ⟨sp, hsp⟩ := Option.isSome_iff_exists.mp hlive
    obtain ⟨hlow, hhigh, -⟩ := (h.data.stacked S sp hsp).taken t ht hS n hn
    refine ⟨sp, hsp, ?_⟩
    intro k hk
    rw [mem_stackPages] at hk
    omega
  · intro t ht u hu htu S hS hS' n m hn hm k hk hk'
    obtain ⟨T, hT, hlive⟩ := h.data.home t ht
    obtain rfl := Option.some.inj (hS.symm.trans hT)
    obtain ⟨sp, hsp⟩ := Option.isSome_iff_exists.mp hlive
    have hapart := (h.data.stacked S sp hsp).apart t ht u hu htu hS hS' n m hn hm
    rw [mem_stackPages] at hk hk'
    omega
  · intro t hpos
    have hfits := h.fits t
    rw [hpos] at hfits
    exact hfits
  · intro t S i hpos
    have hfits := h.fits t
    rw [hpos] at hfits
    obtain ⟨⟨n, hplaced, -⟩, hindex⟩ := hfits
    exact ⟨hplaced.space, hindex⟩
  · intro t S i j hpos
    have hfits := h.fits t
    rw [hpos] at hfits
    obtain ⟨n, hleaving, hentry⟩ := hfits
    exact ⟨n, hleaving.stage, hentry⟩
  · intro t S i j pages hpos
    have hfits := h.fits t
    rw [hpos] at hfits
    obtain ⟨n, hleaving, -, hpages⟩ := hfits
    exact ⟨n, hleaving.stage, hpages⟩

/-- The process table and the stacks are in order in every run, if `clearStack` is called only for
stacks that end with page `2 ^ 24` or before. -/
theorem bookkeeping {ts : List ℕ} (hnodup : (t :: ts).Nodup) {ms : List (Move Choice)}
    (hsmall : Transition.Along (Exec.step code) (fun x m => small x m = true) (initial t ts) ms)
    (hrun : Transition.run (Exec.step code) (initial t ts) ms = some x) :
  Kept x
  := by
  have hok := @Transition.run_invariant _ _ _ Ok (fun x m => small x m = true)
    (fun x m x' hx hm hstep => hx.step hm hstep) _ _ _ (ok_initial hnodup) hsmall hrun
  exact hok.kept

/-! ### A process whose first thread forks a thread and exits -/

/-- `StartProcess` for an executable with `size` bytes, then `Fork`, and `Exit` up to the end of
`clearStack`. -/
def forkAndExit (size : ℕ) : List (Move Choice) :=
  [.run (.create 0 size 0), .proceed, .run .go, .run .go, .run .go, .proceed, .run .go, .proceed,
    .run .go, .run .go, .proceed, .run .go, .run .fork, .proceed, .run .go, .run (.create 0 0 1),
    .run .go, .proceed, .run .go, .proceed, .run .go, .run .go, .proceed, .run .go, .proceed, .run .go,
    .proceed, .run .go, .run .exit, .proceed, .run .go, .run .go, .run .go, .run .go]

theorem bookkeeping_forkAndExit :
  ∃ x, Transition.run (Exec.step code) (initial 0 []) (forkAndExit 1000) = some x ∧
    x.pos 0 = .exitCleared 0 0 0 [8, 9, 10, 11, 12, 13, 14, 15] ∧ x.pos 1 = .kernel ∧ Kept x
  := by
  have hpos : (Transition.run (Exec.step code) (initial 0 []) (forkAndExit 1000)).map (fun x =>
      (x.pos 0, x.pos 1)) =
      some (.exitCleared 0 0 0 [8, 9, 10, 11, 12, 13, 14, 15], .kernel) := by decide +kernel
  obtain ⟨x, hx, heq⟩ := Option.map_eq_some_iff.mp hpos
  obtain ⟨hfirst, hsecond⟩ := Prod.mk.inj heq
  exact ⟨x, hx, hfirst, hsecond, bookkeeping (by decide) (by decide +kernel) hx⟩

/-- The stack of the first thread ends after page `2 ^ 24`, and `clearStack` visits other pages. -/
theorem not_bookkeeping :
  ¬ ∀ (t : ℕ) (ts : List ℕ) (ms : List (Move Choice)) (x : Exec Data Pos), (t :: ts).Nodup →
    Transition.run (Exec.step code) (initial t ts) ms = some x → Kept x
  := by
  intro hall
  have hpos : (Transition.run (Exec.step code) (initial 0 [])
      (forkAndExit ((2 ^ 24 - 7) * PageSize))).map (fun x => (x.pos 0, x.data.stage 0)) =
      some (.exitCleared 0 0 0 (clearStack (stackOf (2 ^ 24 + 1))), .recorded (2 ^ 24 + 1)) := by
    decide +kernel
  obtain ⟨x, hx, heq⟩ := Option.map_eq_some_iff.mp hpos
  obtain ⟨hpos, hstage⟩ := Prod.mk.inj heq
  obtain ⟨n, hn, hpages⟩ := (hall 0 [] _ x (by decide) hx).cleared 0 0 0 0 _ hpos
  obtain rfl := Stage.recorded.inj (hn.symm.trans hstage)
  exact absurd hpages (by decide +kernel)

end Nachos.Processes
