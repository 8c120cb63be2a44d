import Nachos.Monitor.Mesa

/-!
# Code of the kernel

Threads of the kernel execute code that reads and writes shared data and calls the operations of
`Nachos.Monitor.Basic`. Where a thread is in its code is its position. A step of a thread changes the
data, possibly calls one operation, and leads to the position where the operation returns. A thread
may be taken off the queues, for instance when it sleeps in a semaphore or finishes, and be put on the
ready list, when it is woken or forked, by a thread or by the handler of an interrupt.

Interrupts are disabled at some positions. At all others a thread may be interrupted and lose the
processor.

If the code says which locks a thread holds at a position then the thread does own them, unless it is
still waiting in the operation (`Exec.Ok`).
-/

namespace Nachos.Monitor

/-- What a step does besides changing the data. -/
inductive Effect where
  | compute
  /-- The thread calls an operation. -/
  | call (a : Kernel.Action)
  /-- The thread sleeps, and is in no queue of a lock or condition variable. -/
  | park
  /-- A thread that is in no queue is put on the ready list. -/
  | wake (u : ℕ)

/-- The code of threads whose positions are in `π` and that share data in `σ`. What is not determined
by these is chosen in `ι`. -/
structure Code (σ π ι : Type) where
  next : ℕ → π → σ → ι → Option (σ × Effect × π)
  /-- Interrupts are disabled. -/
  masked : π → Bool
  /-- What the handlers of interrupts do, and the threads that they wake. -/
  interrupt : σ → ι → Option (σ × List ℕ)

/-- The kernel, the threads that are running, ready or in one of its queues, and what they do. -/
structure Exec (σ π : Type) where
  kernel : Kernel
  threads : List ℕ
  data : σ
  pos : ℕ → π

inductive Move (ι : Type) where
  /-- The running thread makes a step. -/
  | run (i : ι)
  /-- There is an interrupt, and the running thread yields. -/
  | yield
  /-- The same in an operation of the kernel. -/
  | preempt
  /-- The running thread goes on in an operation of the kernel. -/
  | proceed
  /-- The handler of an interrupt is executed. -/
  | interrupt (i : ι)

namespace Exec

variable {σ π ι : Type}

/-- The kernel and its threads after a step of the thread `t`. -/
def apply (x : Exec σ π) (t : ℕ) : Effect → Option (Kernel × List ℕ)
  | .compute => some (x.kernel, x.threads)
  | .call a => (x.kernel.call t a).map (fun k => (k, x.threads))
  | .park => some (x.kernel.sleep, x.threads.erase t)
  | .wake u => some (x.kernel.readyToRun u, u :: x.threads)

/-- Interrupts are enabled, or no thread is running. -/
def enabled (code : Code σ π ι) (x : Exec σ π) : Bool :=
  match x.kernel.currentThread with
  | none => true
  | some t => !code.masked (x.pos t) &&
      match x.kernel.pc t with
      | .outside | .leaving _ | .inBroadcast _ _ => true
      | _ => false

/-- The threads `us` become ready. If no thread is running, the first of them runs. -/
def wakeAll (k : Kernel) (us : List ℕ) : Kernel :=
  match k.currentThread with
  | none => (us.foldl (fun k u => k.readyToRun u) k).sleep
  | some _ => us.foldl (fun k u => k.readyToRun u) k

def step (code : Code σ π ι) (x : Exec σ π) : Move ι → Option (Exec σ π)
  | .run i => do
      let t ← x.kernel.currentThread
      if x.kernel.pc t = .outside then
        let (data, effect, p) ← code.next t (x.pos t) x.data i
        let (kernel, threads) ← x.apply t effect
        some ⟨kernel, threads, data, Function.update x.pos t p⟩
      else none
  | .yield =>
      if x.enabled code then (x.kernel.step .yield).map (fun k => { x with kernel := k }) else none
  | .preempt =>
      if x.enabled code then (x.kernel.step .preempt).map (fun k => { x with kernel := k }) else none
  | .proceed => (x.kernel.step .proceed).map (fun k => { x with kernel := k })
  | .interrupt i =>
      if x.enabled code then
        (code.interrupt x.data i).map (fun (data, us) =>
          { x with kernel := wakeAll x.kernel us, threads := us ++ x.threads, data := data })
      else none

/-- The thread `t` is running and the threads `ts` are ready, all of them at `p`. -/
def initial (t : ℕ) (ts : List ℕ) (data : σ) (p : π) : Exec σ π :=
  ⟨Kernel.initial t ts, t :: ts, data, fun _ => p⟩

end Exec

/-! ### Threads that come and go -/

namespace Kernel

open Places

variable {ts : List ℕ} {k k' : Kernel} {t u L : ℕ}

/-- The running thread leaves. -/
theorem Ok.park (h : k.Ok ts) (hnodup : ts.Nodup) (hrun : k.currentThread = some t) :
  k.sleep.Ok (ts.erase t)
  := by
  have hleft : Ok (ts.erase t) { k with currentThread := none } := by
    refine h.withThreads ?_ rfl rfl rfl rfl
    have hqueue : ∀ p, ({ k with currentThread := none } : Kernel).queue p =
        if p = .running then [] else k.queue p := by
      intro p
      cases p <;> simp [queue]
    constructor
    · intro p
      rw [hqueue]
      split
      · apply List.nodup_nil
      · apply h.places.nodup
    · intro u p p' hp hp'
      rw [hqueue] at hp hp'
      split at hp
      · cases hp
      · split at hp'
        · cases hp'
        · apply h.places.eq_of_mem u p p' hp hp'
    · intro u
      rw [hnodup.mem_erase_iff, h.places.mem_iff]
      constructor
      · rintro ⟨hne, p, hp⟩
        use p
        rw [hqueue, if_neg]
        · apply hp
        · rintro rfl
          apply hne
          simpa [queue, hrun, eq_comm] using hp
      · rintro ⟨p, hp⟩
        rw [hqueue] at hp
        split at hp
        · cases hp
        · rename_i hne
          refine ⟨?_, p, hp⟩
          rintro rfl
          exact h.not_mem hrun hne hp
  rw [sleep_eq]
  exact hleft.sleep rfl

/-- A thread that was in no queue becomes ready. -/
theorem Ok.readyToRun (h : k.Ok ts) (hu : u ∉ ts) :
  (k.readyToRun u).Ok (u :: ts)
  := by
  refine h.withThreads ?_ rfl rfl rfl rfl
  have hnot : ∀ p, u ∉ k.queue p := by
    intro p hp
    exact hu ((h.places.mem_iff u).mpr ⟨p, hp⟩)
  have hqueue : ∀ p, (k.readyToRun u).queue p =
      if p = .ready then k.queue p ++ [u] else k.queue p := by
    intro p
    cases p <;> simp [queue, Kernel.readyToRun]
  constructor
  · intro p
    rw [hqueue]
    split
    · rw [List.nodup_append]
      refine ⟨h.places.nodup p, List.nodup_singleton u, ?_⟩
      rintro a ha b hb rfl
      obtain rfl := List.mem_singleton.mp hb
      exact hnot p ha
    · apply h.places.nodup
  · intro v p p' hp hp'
    have hmem : ∀ p, v ∈ (k.readyToRun u).queue p → v ∈ k.queue p ∨ v = u ∧ p = .ready := by
      intro p hp
      rw [hqueue] at hp
      split at hp
      · rename_i hready
        obtain hp | hp := List.mem_append.mp hp
        · exact .inl hp
        · exact .inr ⟨List.mem_singleton.mp hp, hready⟩
      · exact .inl hp
    obtain hold | ⟨rfl, rfl⟩ := hmem p hp
    · obtain hold' | ⟨rfl, rfl⟩ := hmem p' hp'
      · apply h.places.eq_of_mem v p p' hold hold'
      · exact absurd hold (hnot p)
    · obtain hold' | ⟨-, rfl⟩ := hmem p' hp'
      · exact absurd hold' (hnot p')
      · rfl
  · intro v
    rw [List.mem_cons, h.places.mem_iff]
    constructor
    · rintro (rfl | ⟨p, hp⟩)
      · use .ready
        rw [hqueue, if_pos rfl]
        simp
      · use p
        rw [hqueue]
        split
        · exact List.mem_append_left _ hp
        · exact hp
    · rintro ⟨p, hp⟩
      rw [hqueue] at hp
      split at hp
      · obtain hp | hp := List.mem_append.mp hp
        · exact .inr ⟨p, hp⟩
        · exact .inl (List.mem_singleton.mp hp)
      · exact .inr ⟨p, hp⟩

/-! ### Where a thread is -/

/-- A call does not change where the other threads are. -/
theorem pc_call_of_ne {a : Action} (hcall : k.call t a = some k') (hut : u ≠ t) :
  k'.pc u = k.pc u
  := by
  have hset : ∀ (k : Kernel) (pc : Pc), (k.setPc t pc).pc u = k.pc u :=
    fun _ _ => Function.update_of_ne hut _ _
  cases a with
  | acquire M =>
      obtain rfl := Option.some.inj hcall
      exact (k.acquire_frame t M).2 u hut
  | release M =>
      obtain rfl := Option.some.inj hcall
      rw [hset, (release_frame t M _).2]
      rfl
  | wait c M =>
      obtain rfl := Option.some.inj hcall
      rw [Kernel.wait.eq_def]
      split
      · exact hset _ _
      · split
        · rw [pc_sleep, (release_frame t _ _).2]
          exact hset _ _
        · exact hset _ _
  | signal c M =>
      obtain rfl := Option.some.inj hcall
      rw [hset, (k.signal_frame c M).2.1]
  | broadcast c M =>
      obtain rfl := Option.some.inj hcall
      rw [Kernel.broadcast.eq_def]
      split
      · exact hset _ _
      · split
        · exact hset _ _
        · exact hset _ _
  | yield =>
      obtain rfl := Option.some.inj hcall
      rw [(yield_frame t _).2.2.1]
      exact hset _ _
  | preempt => contradiction
  | proceed => contradiction

/-- Where a thread is when it has called an operation. -/
theorem pc_call_self {a : Action} (hcall : k.call t a = some k') :
  (∃ lock, k'.pc t = .leaving lock) ∨ (∃ M, a = .acquire M ∧ k'.pc t = .inAcquire M) ∨
    (∃ c M, a = .wait c (some M) ∧ k'.pc t = .inWait c M) ∨
    ∃ c M, a = .broadcast c (some M) ∧ k'.pc t = .inBroadcast c M
  := by
  have hset : ∀ (k : Kernel) (pc : Pc), (k.setPc t pc).pc t = pc :=
    fun _ _ => Function.update_self _ _ _
  cases a with
  | acquire M =>
      obtain rfl := Option.some.inj hcall
      rw [Kernel.acquire]
      split
      · exact .inl ⟨_, hset _ _⟩
      · split
        · exact .inl ⟨_, hset _ _⟩
        · rw [pc_sleep]
          exact .inr (.inl ⟨M, rfl, hset _ _⟩)
  | release M =>
      obtain rfl := Option.some.inj hcall
      exact .inl ⟨_, hset _ _⟩
  | wait c M =>
      obtain rfl := Option.some.inj hcall
      rw [Kernel.wait.eq_def]
      split
      · exact .inl ⟨_, hset _ _⟩
      · rename_i N
        split
        · rw [pc_sleep, (release_frame t _ _).2]
          exact .inr (.inr (.inl ⟨c, N, rfl, hset _ _⟩))
        · exact .inl ⟨_, hset _ _⟩
  | signal c M =>
      obtain rfl := Option.some.inj hcall
      exact .inl ⟨_, hset _ _⟩
  | broadcast c M =>
      obtain rfl := Option.some.inj hcall
      rw [Kernel.broadcast.eq_def]
      split
      · exact .inl ⟨_, hset _ _⟩
      · rename_i N
        split
        · exact .inr (.inr (.inr ⟨c, N, rfl, hset _ _⟩))
        · exact .inl ⟨_, hset _ _⟩
  | yield =>
      obtain rfl := Option.some.inj hcall
      rw [(yield_frame t _).2.2.1]
      exact .inl ⟨_, hset _ _⟩
  | preempt => contradiction
  | proceed => contradiction

/-- A thread comes to wait for a condition variable only by calling `Wait`. -/
theorem inWait_call {a : Action} {c M : ℕ} (hcall : k.call t a = some k')
    (hu : k'.pc u = .inWait c M) :
  k.pc u = .inWait c M ∨ u = t ∧ a = .wait c (some M)
  := by
  by_cases hut : u = t
  · subst hut
    obtain ⟨lock, h⟩ | ⟨N, -, h⟩ | ⟨d, N, ha, h⟩ | ⟨d, N, -, h⟩ := pc_call_self hcall
    · cases h.symm.trans hu
    · cases h.symm.trans hu
    · obtain ⟨rfl, rfl⟩ := Pc.inWait.inj (h.symm.trans hu)
      exact .inr ⟨rfl, ha⟩
    · cases h.symm.trans hu
  · left
    exact (pc_call_of_ne hcall hut).symm.trans hu

/-- The running thread yields, or goes on in an operation. -/
theorem inWait_step {a : Action} {c M : ℕ} (ha : a = .yield ∨ a = .preempt ∨ a = .proceed)
    (hstep : k.step a = some k') (hu : k'.pc u = .inWait c M) :
  k.pc u = .inWait c M
  := by
  obtain ⟨t, hrun, hsteps⟩ := step_cases hstep
  have hset : ∀ {k : Kernel} {pc : Pc}, (∀ c M, pc ≠ .inWait c M) →
      (k.setPc t pc).pc u = .inWait c M → k.pc u = .inWait c M := by
    intro k pc hpc hu
    by_cases hut : u = t
    · subst hut
      have hself : (k.setPc u pc).pc u = pc := Function.update_self _ _ _
      exact absurd (hself.symm.trans hu) (hpc c M)
    · have hother : (k.setPc t pc).pc u = k.pc u := Function.update_of_ne hut _ _
      exact hother.symm.trans hu
  cases hsteps with
  | call hpc hcall =>
      obtain hu | ⟨-, rfl⟩ := inWait_call hcall hu
      · exact hu
      · simp at ha
  | preempt hpc => exact (congrFun (k.yield_frame t).2.2.1 u).symm.trans hu
  | @leave lock hpc => cases lock <;> exact hset (by simp) hu
  | acquired hpc => exact hset (by simp) hu
  | @woken d N hpc =>
      have hcall : k.call t (.acquire N) = some (k.acquire t N) := rfl
      obtain hu | ⟨-, hacquire⟩ := inWait_call hcall hu
      · exact hu
      · cases hacquire
  | @loop d N hpc =>
      rw [broadcastLoop] at hu
      split at hu
      · exact hset (by simp) hu
      · rw [(k.signal_frame d (some N)).2.1] at hu
        exact hu

/-! ### Locks that a thread holds -/

/-- The thread `t` owns the lock `L`, or is waiting for it. -/
def Claims (k : Kernel) (t L : ℕ) : Prop :=
  (k.locks L).owner = some t ∨ k.pc t = .inAcquire L ∨ ∃ c, k.pc t = .inWait c L

/-- A thread that calls `Acquire` claims the lock. -/
theorem claims_acquire (k : Kernel) (t L : ℕ) :
  (k.acquire t L).Claims t L
  := by
  rw [Kernel.acquire]
  split
  · rename_i howner
    exact .inl howner
  · split
    · left
      exact congrArg Lock.owner (k.setLock_self L _)
    · right
      left
      rw [pc_sleep]
      exact Function.update_self _ _ _

/-- A thread that does not wait in an operation owns the locks that it claims. -/
theorem Claims.owner (h : k.Claims t L) (hacquire : k.pc t ≠ .inAcquire L)
    (hwait : ∀ c, k.pc t ≠ .inWait c L) :
  (k.locks L).owner = some t
  := by
  obtain howner | hpc | ⟨c, hpc⟩ := h
  · exact howner
  · contradiction
  · exact absurd hpc (hwait c)

/-- The lock is not owned by another thread after `Release`. -/
theorem owner_release_of_ne {M : ℕ} (hL : L ≠ M) (howner : (k.locks L).owner = some u) (t : ℕ) :
  ((k.release t M).locks L).owner = some u
  := by
  rw [release]
  split
  · split
    · exact owner_setLock howner (fun heq => absurd heq hL)
    · exact owner_setLock howner (fun heq => absurd heq hL)
  · exact howner

/-- The locks that a thread claims do not change when the kernel changes neither their owners nor
where the thread is. -/
theorem Claims.congr (h : k.Claims t L) (hpc : k'.pc t = k.pc t)
    (howner : (k.locks L).owner = some t → (k'.locks L).owner = some t) :
  k'.Claims t L
  := by
  obtain ho | hpc' | ⟨c, hpc'⟩ := h
  · exact .inl (howner ho)
  · exact .inr (.inl (hpc.trans hpc'))
  · exact .inr (.inr ⟨c, hpc.trans hpc'⟩)

/-- The thread `u` calls an operation. -/
theorem Claims.call (h : k.Claims t L) (hok : k.Ok ts) (hpc : k.pc u = .outside) {a : Action}
    (ha : t = u → a ≠ .release L) (hcall : k.call u a = some k') :
  k'.Claims t L
  := by
  have hother : t ≠ u → ∀ (k : Kernel) (pc : Pc), (k.setPc u pc).pc t = k.pc t :=
    fun htu k pc => Function.update_of_ne htu _ _
  have hself : t = u → (k.locks L).owner = some t := by
    rintro rfl
    exact h.owner (by simp [hpc]) (by simp [hpc])
  cases a with
  | acquire M =>
      obtain rfl := Option.some.inj hcall
      by_cases htu : t = u
      · exact .inl (hok.owner_acquire (hself htu) u M)
      · exact h.congr ((k.acquire_frame u M).2 t htu) (fun ho => hok.owner_acquire ho u M)
  | release M =>
      obtain rfl := Option.some.inj hcall
      by_cases htu : t = u
      · have hLM : L ≠ M := by
          rintro rfl
          exact ha htu rfl
        exact .inl (@owner_release_of_ne (k.record (.gaveUp u M)) t L M hLM (hself htu) u)
      · refine h.congr ?_ ?_
        · rw [hother htu, (release_frame u M _).2]
          rfl
        · exact fun ho => @owner_release (k.record (.gaveUp u M)) L t ho u htu M
  | wait c M =>
      obtain rfl := Option.some.inj hcall
      rw [Kernel.wait.eq_def]
      split
      · by_cases htu : t = u
        · exact .inl (hself htu)
        · exact h.congr (hother htu _ _) id
      · rename_i N
        split
        · by_cases htu : t = u
          · by_cases hLN : L = N
            · right
              right
              use c
              rw [pc_sleep, (release_frame u N _).2, htu, hLN]
              exact Function.update_self _ _ _
            · left
              rw [locks_sleep]
              apply owner_release_of_ne hLN
              exact hself htu
          · refine h.congr ?_ ?_
            · rw [pc_sleep, (release_frame u N _).2]
              exact hother htu _ _
            · intro ho
              rw [locks_sleep]
              apply owner_release _ htu
              exact ho
        · by_cases htu : t = u
          · exact .inl (hself htu)
          · exact h.congr (hother htu _ _) id
  | signal c M =>
      obtain rfl := Option.some.inj hcall
      obtain ⟨hlocks, hpc', -⟩ := k.signal_frame c M
      by_cases htu : t = u
      · left
        exact (congrArg (fun l => (l L).owner) hlocks).trans (hself htu)
      · refine h.congr ?_ ?_
        · rw [hother htu, hpc']
        · intro ho
          exact (congrArg (fun l => (l L).owner) hlocks).trans ho
  | broadcast c M =>
      obtain rfl := Option.some.inj hcall
      have hset : ∃ pc, k.broadcast u c M = k.setPc u pc := by
        rw [Kernel.broadcast.eq_def]
        split
        · exact ⟨_, rfl⟩
        · split
          · exact ⟨_, rfl⟩
          · exact ⟨_, rfl⟩
      obtain ⟨pc, hset⟩ := hset
      rw [hset]
      by_cases htu : t = u
      · exact .inl (hself htu)
      · exact h.congr (hother htu _ _) id
  | yield =>
      obtain rfl := Option.some.inj hcall
      obtain ⟨hlocks, -, hpc', -⟩ := (k.setPc u (.leaving none)).yield_frame u
      by_cases htu : t = u
      · left
        exact (congrArg (fun l => (l L).owner) hlocks).trans (hself htu)
      · refine h.congr ?_ ?_
        · rw [hpc', hother htu]
        · intro ho
          exact (congrArg (fun l => (l L).owner) hlocks).trans ho
  | preempt => contradiction
  | proceed => contradiction

/-- An action of the kernel. -/
theorem Claims.step (h : k.Claims t L) (hok : k.Ok ts) {a : Action}
    (ha : k.currentThread = some t → a ≠ .release L) (hstep : k.step a = some k') :
  k'.Claims t L
  := by
  obtain ⟨u, hrun, hsteps⟩ := step_cases hstep
  have hother : t ≠ u → ∀ (k : Kernel) (pc : Pc), (k.setPc u pc).pc t = k.pc t :=
    fun htu k pc => Function.update_of_ne htu _ _
  cases hsteps with
  | call hpc hcall =>
      apply h.call hok hpc _ hcall
      rintro rfl
      exact ha hrun
  | preempt hpc =>
      obtain ⟨hlocks, -, hpc', -⟩ := k.yield_frame u
      refine h.congr (congrFun hpc' t) ?_
      intro ho
      exact (congrArg (fun l => (l L).owner) hlocks).trans ho
  | @leave lock hpc =>
      have hself : t = u → (k.locks L).owner = some t := by
        rintro rfl
        exact h.owner (by simp [hpc]) (by simp [hpc])
      cases lock with
      | none | some =>
          by_cases htu : t = u
          · exact .inl (hself htu)
          · exact h.congr (hother htu _ _) id
  | @acquired M hpc =>
      by_cases htu : t = u
      · subst htu
        left
        obtain ho | hpc' | ⟨c, hpc'⟩ := h
        · exact ho
        · exact hok.acquired t L hpc' (hok.not_mem hrun (p := .lock L) (by simp))
        · rw [hpc] at hpc'
          cases hpc'
      · exact h.congr (hother htu _ _) id
  | @woken c M hpc =>
      by_cases htu : t = u
      · subst htu
        obtain ho | hpc' | ⟨d, hpc'⟩ := h
        · exact .inl (hok.owner_acquire ho t M)
        · rw [hpc] at hpc'
          cases hpc'
        · rw [hpc] at hpc'
          obtain ⟨-, rfl⟩ := Pc.inWait.inj hpc'
          exact k.claims_acquire t M
      · exact h.congr ((k.acquire_frame u M).2 t htu) (fun ho => hok.owner_acquire ho u M)
  | @loop c M hpc =>
      have hself : t = u → (k.locks L).owner = some t := by
        rintro rfl
        exact h.owner (by simp [hpc]) (by simp [hpc])
      rw [broadcastLoop]
      split
      · by_cases htu : t = u
        · exact .inl (hself htu)
        · exact h.congr (hother htu _ _) id
      · obtain ⟨hlocks, hpc', -⟩ := k.signal_frame c (some M)
        refine h.congr (congrFun hpc' t) ?_
        intro ho
        exact (congrArg (fun l => (l L).owner) hlocks).trans ho

/-! ### How a lock changes -/

/-- What `Acquire` of the thread `t` does to a lock. -/
inductive Gains (l : Lock) (t : ℕ) : Lock → Prop where
  | held (howner : l.owner = some t) : Gains l t l
  | taken (hfree : l.state = .free) : Gains l t { l with state := .busy, owner := some t }
  | blocked (hother : l.owner ≠ some t) (hbusy : l.state ≠ .free) :
      Gains l t { l with waitQueue := l.waitQueue ++ [t] }

/-- What `Release` of the thread `t` does to a lock. -/
inductive Loses (l : Lock) (t : ℕ) : Lock → Prop where
  | refused (hother : l.owner ≠ some t) : Loses l t l
  | freed (howner : l.owner = some t) (hqueue : l.waitQueue = []) :
      Loses l t { l with state := .free, owner := none }
  | handedOver {u : ℕ} {us : List ℕ} (howner : l.owner = some t) (hqueue : l.waitQueue = u :: us) :
      Loses l t { l with owner := some u, waitQueue := us }

theorem gains_acquire (k : Kernel) (t L : ℕ) :
  Gains (k.locks L) t ((k.acquire t L).locks L)
  := by
  rw [Kernel.acquire]
  split
  · rename_i howner
    exact .held howner
  · rename_i hother
    split
    · rename_i hfree
      have hself : ∀ l pc, ((k.setLock L l).setPc t pc).locks L = l := fun l _ => k.setLock_self L l
      rw [hself]
      exact .taken hfree
    · rename_i hbusy
      have hself : ∀ l e pc, (((k.setLock L l).record e).setPc t pc).locks L = l :=
        fun l _ _ => k.setLock_self L l
      rw [locks_sleep, hself]
      exact .blocked hother hbusy

theorem acquire_of_ne {M : ℕ} (k : Kernel) (t : ℕ) (hLM : L ≠ M) :
  (k.acquire t M).locks L = k.locks L
  := by
  rw [Kernel.acquire]
  split
  · rfl
  · split
    · exact k.setLock_of_ne _ hLM
    · rw [locks_sleep]
      exact k.setLock_of_ne _ hLM

theorem loses_release (k : Kernel) (t L : ℕ) :
  Loses (k.locks L) t ((k.release t L).locks L)
  := by
  rw [Kernel.release]
  split
  · rename_i howner
    split
    · rename_i u us hqueue
      have hself : ∀ l e, (((k.setLock L l).record e).readyToRun u).locks L = l :=
        fun l _ => k.setLock_self L l
      rw [hself]
      exact .handedOver howner hqueue
    · rename_i hqueue
      rw [k.setLock_self]
      exact .freed howner hqueue
  · rename_i hother
    exact .refused hother

theorem release_of_ne {M : ℕ} (k : Kernel) (t : ℕ) (hLM : L ≠ M) :
  (k.release t M).locks L = k.locks L
  := by
  rw [Kernel.release]
  split
  · split
    · exact k.setLock_of_ne _ hLM
    · exact k.setLock_of_ne _ hLM
  · rfl

/-- The thread `t` calls an operation. -/
theorem locks_call {a : Action} (hcall : k.call t a = some k') (L : ℕ) :
  a = .acquire L ∧ Gains (k.locks L) t (k'.locks L) ∨
    (a = .release L ∨ ∃ c, a = .wait c (some L)) ∧ Loses (k.locks L) t (k'.locks L) ∨
    a ≠ .acquire L ∧ a ≠ .release L ∧ k'.locks L = k.locks L
  := by
  cases a with
  | acquire M =>
      obtain rfl := Option.some.inj hcall
      by_cases hLM : L = M
      · subst hLM
        exact .inl ⟨rfl, k.gains_acquire t L⟩
      · right
        right
        exact ⟨by simp [Ne.symm hLM], by simp, k.acquire_of_ne t hLM⟩
  | release M =>
      obtain rfl := Option.some.inj hcall
      by_cases hLM : L = M
      · subst hLM
        exact .inr (.inl ⟨.inl rfl, (k.record (.gaveUp t L)).loses_release t L⟩)
      · right
        right
        exact ⟨by simp, by simp [Ne.symm hLM], (k.record (.gaveUp t M)).release_of_ne t hLM⟩
  | wait c M =>
      obtain rfl := Option.some.inj hcall
      rw [Kernel.wait.eq_def]
      split
      · exact .inr (.inr ⟨by simp, by simp, rfl⟩)
      · rename_i N
        split
        · rw [locks_sleep]
          by_cases hLN : L = N
          · subst hLN
            have hloses : ∀ k₀ : Kernel, k₀.locks = k.locks →
                Loses (k.locks L) t ((k₀.release t L).locks L) := by
              intro k₀ hlocks
              rw [← hlocks]
              exact k₀.loses_release t L
            exact .inr (.inl ⟨.inr ⟨c, rfl⟩, hloses _ rfl⟩)
          · right
            right
            exact ⟨by simp, by simp, release_of_ne _ t hLN⟩
        · exact .inr (.inr ⟨by simp, by simp, rfl⟩)
  | signal c M =>
      obtain rfl := Option.some.inj hcall
      exact .inr (.inr ⟨by simp, by simp, congrFun (k.signal_frame c M).1 L⟩)
  | broadcast c M =>
      obtain rfl := Option.some.inj hcall
      refine .inr (.inr ⟨by simp, by simp, ?_⟩)
      rw [Kernel.broadcast.eq_def]
      split
      · rfl
      · split <;> rfl
  | yield =>
      obtain rfl := Option.some.inj hcall
      exact .inr (.inr ⟨by simp, by simp, congrFun (yield_frame t _).1 L⟩)
  | preempt => contradiction
  | proceed => contradiction

/-- The running thread yields, or goes on in an operation. -/
theorem locks_step {a : Action} (ha : a = .yield ∨ a = .preempt ∨ a = .proceed)
    (hstep : k.step a = some k') (L : ℕ) :
  k'.locks L = k.locks L ∨
    ∃ t c, k.currentThread = some t ∧ k.pc t = .inWait c L ∧ Gains (k.locks L) t (k'.locks L)
  := by
  obtain ⟨u, hrun, hsteps⟩ := step_cases hstep
  cases hsteps with
  | call hpc hcall =>
      obtain ⟨rfl, -⟩ | ⟨hlose, -⟩ | ⟨-, -, hsame⟩ := locks_call hcall L
      · simp at ha
      · obtain rfl | ⟨c, rfl⟩ := hlose <;> simp at ha
      · exact .inl hsame
  | preempt hpc => exact .inl (congrFun (k.yield_frame u).1 L)
  | @leave lock hpc => cases lock <;> exact .inl rfl
  | acquired hpc => exact .inl rfl
  | @woken c M hpc =>
      by_cases hLM : L = M
      · subst hLM
        exact .inr ⟨u, c, hrun, hpc, k.gains_acquire u L⟩
      · exact .inl (k.acquire_of_ne u hLM)
  | @loop c M hpc =>
      left
      rw [broadcastLoop]
      split
      · rfl
      · exact congrFun (k.signal_frame c (some M)).1 L

/-! ### Threads that do not wait -/

/-- The thread `t` is not waiting in an operation. -/
def Settled (k : Kernel) (t : ℕ) : Prop := (∀ L, k.pc t ≠ .inAcquire L) ∧ ∀ c L, k.pc t ≠ .inWait c L

theorem Settled.congr (h : k.Settled t) (hpc : k'.pc t = k.pc t) :
  k'.Settled t
  := by
  rw [Settled, hpc]
  exact h

theorem settled_setPc (h : t ≠ u → k.Settled t) {pc : Pc} (hacquire : ∀ L, pc ≠ .inAcquire L)
    (hwait : ∀ c L, pc ≠ .inWait c L) :
  (k.setPc u pc).Settled t
  := by
  by_cases htu : t = u
  · subst htu
    have hself : (k.setPc t pc).pc t = pc := Function.update_self _ _ _
    rw [Settled, hself]
    exact ⟨hacquire, hwait⟩
  · exact (h htu).congr (Function.update_of_ne htu _ _)

/-- The thread `u` calls an operation. -/
theorem Settled.call (h : k.Settled t) {a : Action}
    (ha : t = u → (∀ L, a ≠ .acquire L) ∧ ∀ c M, a ≠ .wait c M) (hcall : k.call u a = some k') :
  k'.Settled t
  := by
  by_cases htu : t = u
  · subst htu
    obtain ⟨hacquire, hwait⟩ := ha rfl
    obtain ⟨lock, h⟩ | ⟨M, rfl, -⟩ | ⟨c, M, rfl, -⟩ | ⟨c, M, -, h⟩ := pc_call_self hcall
    · simp [Settled, h]
    · exact absurd rfl (hacquire M)
    · exact absurd rfl (hwait c (some M))
    · simp [Settled, h]
  · exact h.congr (pc_call_of_ne hcall htu)

/-- An action of the kernel. -/
theorem Settled.step (h : k.Settled t) {a : Action}
    (ha : k.currentThread = some t → (∀ L, a ≠ .acquire L) ∧ ∀ c M, a ≠ .wait c M)
    (hstep : k.step a = some k') :
  k'.Settled t
  := by
  obtain ⟨u, hrun, hsteps⟩ := step_cases hstep
  cases hsteps with
  | call hpc hcall =>
      apply h.call _ hcall
      rintro rfl
      exact ha hrun
  | preempt hpc => exact h.congr (congrFun (k.yield_frame u).2.2.1 t)
  | @leave lock hpc =>
      cases lock with
      | none | some => exact settled_setPc (fun _ => h) (by simp) (by simp)
  | acquired hpc => exact settled_setPc (fun _ => h) (by simp) (by simp)
  | @woken c M hpc =>
      have htu : t ≠ u := by
        rintro rfl
        exact h.2 c M hpc
      exact h.congr ((k.acquire_frame u M).2 t htu)
  | @loop c M hpc =>
      rw [broadcastLoop]
      split
      · exact settled_setPc (fun _ => h) (by simp) (by simp)
      · exact h.congr (congrFun (k.signal_frame c (some M)).2.1 t)

end Kernel

/-! ### Runs of code -/

/-- A thread holds at a position only the locks that it held before and has not released, and the
lock that it has acquired. -/
def Code.Respects {σ π ι : Type} (code : Code σ π ι) (holds : π → ℕ → Prop) : Prop :=
  ∀ t p s i s' e p', code.next t p s i = some (s', e, p') → ∀ L, holds p' L →
    e = .call (.acquire L) ∨ holds p L ∧ e ≠ .call (.release L)

/-- A thread comes to a position that is settled without calling `Acquire` or `Wait`. -/
def Code.Settles {σ π ι : Type} (code : Code σ π ι) (settled : π → Prop) : Prop :=
  ∀ t p s i s' e p', code.next t p s i = some (s', e, p') → settled p' →
    (∀ L, e ≠ .call (.acquire L)) ∧ ∀ c M, e ≠ .call (.wait c M)

/-- The code neither wakes threads nor handles interrupts. -/
def Code.Plain {σ π ι : Type} (code : Code σ π ι) : Prop :=
  (∀ t p s i s' e p', code.next t p s i = some (s', e, p') → ∀ u, e ≠ .wake u) ∧
    ∀ s i, code.interrupt s i = none

namespace Exec

variable {σ π ι : Type} {code : Code σ π ι} {settled : π → Prop} {holds : π → ℕ → Prop} {x x' : Exec σ π} {m : Move ι}

/-- The threads that become ready. -/
def wakes (code : Code σ π ι) (x : Exec σ π) : Move ι → List ℕ
  | .run i =>
      match x.kernel.currentThread with
      | none => []
      | some t =>
          match code.next t (x.pos t) x.data i with
          | some (_, .wake u, _) => [u]
          | _ => []
  | .interrupt i =>
      match code.interrupt x.data i with
      | some (_, us) => us
      | none => []
  | _ => []

theorem wakes_of_plain (hcode : code.Plain) (x : Exec σ π) (m : Move ι) :
  x.wakes code m = []
  := by
  cases m with
  | run i =>
      simp only [wakes]
      split
      · rfl
      · split
        · rename_i hnext
          exact absurd rfl (hcode.1 _ _ _ _ _ _ _ hnext _)
        · rfl
  | interrupt i => simp [wakes, hcode.2]
  | yield | preempt | proceed => rfl

/-- What a move does. -/
inductive Steps (code : Code σ π ι) (x : Exec σ π) : Move ι → Exec σ π → Prop where
  | run {t : ℕ} {i : ι} {data : σ} {effect : Effect} {p : π} {kernel : Kernel} {threads : List ℕ}
      (hrun : x.kernel.currentThread = some t) (hpc : x.kernel.pc t = .outside)
      (hnext : code.next t (x.pos t) x.data i = some (data, effect, p))
      (happly : x.apply t effect = some (kernel, threads)) :
      Steps code x (.run i) ⟨kernel, threads, data, Function.update x.pos t p⟩
  /-- The running thread yields, or goes on in an operation. -/
  | kernel {m : Move ι} {a : Kernel.Action} {k : Kernel}
      (ha : a = .yield ∨ a = .preempt ∨ a = .proceed)
      (henabled : a = .proceed ∨ x.enabled code = true) (hstep : x.kernel.step a = some k) :
      Steps code x m { x with kernel := k }
  | interrupt {i : ι} {data : σ} {us : List ℕ} (henabled : x.enabled code = true)
      (hinterrupt : code.interrupt x.data i = some (data, us)) :
      Steps code x (.interrupt i)
        { x with kernel := wakeAll x.kernel us, threads := us ++ x.threads, data := data }

theorem step_cases (hstep : x.step code m = some x') :
  Steps code x m x'
  := by
  cases m with
  | run i =>
      obtain ⟨t, hrun, hstep⟩ := Option.bind_eq_some_iff.mp hstep
      split at hstep
      · rename_i hpc
        obtain ⟨⟨data, effect, p⟩, hnext, hstep⟩ := Option.bind_eq_some_iff.mp hstep
        obtain ⟨⟨kernel, threads⟩, happly, hstep⟩ := Option.bind_eq_some_iff.mp hstep
        obtain rfl := Option.some.inj hstep
        exact .run hrun hpc hnext happly
      · cases hstep
  | yield =>
      simp only [step, Option.ite_none_right_eq_some] at hstep
      obtain ⟨k, hk, rfl⟩ := Option.map_eq_some_iff.mp hstep.2
      exact .kernel (.inl rfl) (.inr hstep.1) hk
  | preempt =>
      simp only [step, Option.ite_none_right_eq_some] at hstep
      obtain ⟨k, hk, rfl⟩ := Option.map_eq_some_iff.mp hstep.2
      exact .kernel (.inr (.inl rfl)) (.inr hstep.1) hk
  | proceed =>
      obtain ⟨k, hk, rfl⟩ := Option.map_eq_some_iff.mp hstep
      exact .kernel (.inr (.inr rfl)) (.inl rfl) hk
  | interrupt i =>
      simp only [step, Option.ite_none_right_eq_some] at hstep
      obtain ⟨henabled, hstep⟩ := hstep
      obtain ⟨⟨data, us⟩, hinterrupt, rfl⟩ := Option.map_eq_some_iff.mp hstep
      exact .interrupt henabled hinterrupt

theorem step_run {i : ι} {t : ℕ} (hrun : x.kernel.currentThread = some t)
    (hpc : x.kernel.pc t = .outside) {data : σ} {effect : Effect} {p : π}
    (hnext : code.next t (x.pos t) x.data i = some (data, effect, p)) {kernel : Kernel}
    {threads : List ℕ} (happly : x.apply t effect = some (kernel, threads)) :
  x.step code (.run i) = some ⟨kernel, threads, data, Function.update x.pos t p⟩
  := by
  simp [step, hrun, hpc, hnext, happly]

/-- The threads are where the kernel says, and own the locks that they hold. -/
structure Ok (holds : π → ℕ → Prop) (x : Exec σ π) : Prop where
  nodup : x.threads.Nodup
  kernel : x.kernel.Ok x.threads
  held : ∀ t L, holds (x.pos t) L → x.kernel.Claims t L

/-- Threads become ready one after the other. -/
theorem ok_readyToRun {k : Kernel} {ts us : List ℕ} (h : k.Ok ts) (hnodup : (us ++ ts).Nodup) :
  (us.foldl (fun k u => k.readyToRun u) k).Ok (us ++ ts)
  := by
  induction us generalizing k ts with
  | nil => exact h
  | cons u us ih =>
      rw [List.cons_append, List.nodup_cons, List.mem_append, not_or] at hnodup
      have hready := h.readyToRun hnodup.1.2
      have hnodup' : (us ++ u :: ts).Nodup := by
        rw [List.nodup_middle, List.nodup_cons, List.mem_append, not_or]
        exact hnodup
      have hnext := ih hready hnodup'
      refine hnext.withThreads ⟨hnext.places.nodup, hnext.places.eq_of_mem, ?_⟩ rfl rfl rfl rfl
      intro a
      rw [List.foldl_cons, ← hnext.places.mem_iff a]
      simp only [List.cons_append, List.mem_cons, List.mem_append]
      tauto

theorem ok_wakeAll {k : Kernel} {ts us : List ℕ} (h : k.Ok ts) (hnodup : (us ++ ts).Nodup) :
  (wakeAll k us).Ok (us ++ ts)
  := by
  have hready := ok_readyToRun h hnodup
  have hcurrent : (us.foldl (fun k u => k.readyToRun u) k).currentThread = k.currentThread := by
    apply List.foldlRecOn (motive := fun k' : Kernel => k'.currentThread = k.currentThread) us _ rfl
    intro k' hk' u _
    exact hk'
  rw [wakeAll]
  split
  · rename_i hnone
    exact hready.sleep (hcurrent.trans hnone)
  · exact hready

/-- Waking threads changes neither the locks nor where the threads are. -/
theorem wakeAll_frame (k : Kernel) (us : List ℕ) :
  (wakeAll k us).locks = k.locks ∧ (wakeAll k us).conditions = k.conditions ∧
    (wakeAll k us).pc = k.pc
  := by
  have hready : ∀ us : List ℕ, (us.foldl (fun k u => k.readyToRun u) k).locks = k.locks ∧
      (us.foldl (fun k u => k.readyToRun u) k).conditions = k.conditions ∧
      (us.foldl (fun k u => k.readyToRun u) k).pc = k.pc := by
    intro us
    apply List.foldlRecOn
      (motive := fun k' : Kernel => k'.locks = k.locks ∧ k'.conditions = k.conditions ∧ k'.pc = k.pc)
      us _ ⟨rfl, rfl, rfl⟩
    intro k' hk' u _
    exact hk'
  rw [wakeAll]
  split
  · rw [Kernel.locks_sleep, Kernel.conditions_sleep, Kernel.pc_sleep]
    exact hready us
  · exact hready us

/-- The kernel stays well formed when a thread makes a step. -/
theorem Ok.apply (h : x.Ok holds) {t : ℕ} (hrun : x.kernel.currentThread = some t)
    (hpc : x.kernel.pc t = .outside) {effect : Effect} {kernel : Kernel} {threads : List ℕ}
    (happly : x.apply t effect = some (kernel, threads))
    (hwake : ∀ u, effect = .wake u → u ∉ x.threads) :
  threads.Nodup ∧ kernel.Ok threads
  := by
  cases effect with
  | compute =>
      obtain ⟨rfl, rfl⟩ := Prod.mk.inj (Option.some.inj happly)
      exact ⟨h.nodup, h.kernel⟩
  | call a =>
      obtain ⟨k, hcall, heq⟩ := Option.map_eq_some_iff.mp happly
      obtain ⟨rfl, rfl⟩ := Prod.mk.inj heq
      exact ⟨h.nodup, h.kernel.call hrun hpc hcall⟩
  | park =>
      obtain ⟨rfl, rfl⟩ := Prod.mk.inj (Option.some.inj happly)
      exact ⟨h.nodup.erase t, h.kernel.park h.nodup hrun⟩
  | wake u =>
      obtain ⟨rfl, rfl⟩ := Prod.mk.inj (Option.some.inj happly)
      have hu := hwake u rfl
      exact ⟨List.nodup_cons.mpr ⟨hu, h.nodup⟩, h.kernel.readyToRun hu⟩

/-- A thread keeps the locks that it claims when a thread makes a step and does not release them. -/
theorem Ok.claims_apply (h : x.Ok holds) {t u L : ℕ} (hpc : x.kernel.pc t = .outside)
    {effect : Effect} {kernel : Kernel} {threads : List ℕ}
    (happly : x.apply t effect = some (kernel, threads)) (hclaims : x.kernel.Claims u L)
    (hrelease : u = t → effect ≠ .call (.release L)) :
  kernel.Claims u L
  := by
  cases effect with
  | compute =>
      obtain ⟨rfl, rfl⟩ := Prod.mk.inj (Option.some.inj happly)
      exact hclaims
  | call a =>
      obtain ⟨k, hcall, heq⟩ := Option.map_eq_some_iff.mp happly
      obtain ⟨rfl, rfl⟩ := Prod.mk.inj heq
      apply hclaims.call h.kernel hpc _ hcall
      rintro rfl rfl
      exact hrelease rfl rfl
  | park =>
      obtain ⟨rfl, rfl⟩ := Prod.mk.inj (Option.some.inj happly)
      exact hclaims.congr (congrFun (Kernel.pc_sleep _) u) (fun ho => by rw [Kernel.locks_sleep]; exact ho)
  | wake v =>
      obtain ⟨rfl, rfl⟩ := Prod.mk.inj (Option.some.inj happly)
      exact hclaims.congr rfl id

/-- A move keeps the threads where the kernel says and the locks with their holders, when the running
thread does. -/
theorem Ok.step_of (hcode : ∀ t i s e p, m = .run i → x.kernel.currentThread = some t →
      x.kernel.pc t = .outside → code.next t (x.pos t) x.data i = some (s, e, p) → ∀ L, holds p L →
        e = .call (.acquire L) ∨ holds (x.pos t) L ∧ e ≠ .call (.release L))
    (h : x.Ok holds)
    (hwakes : (x.wakes code m ++ x.threads).Nodup) (hstep : x.step code m = some x') :
  x'.Ok holds
  := by
  cases step_cases hstep with
  | @run t i data effect p kernel threads hrun hpc hnext happly =>
      have hwake : ∀ u, effect = .wake u → u ∉ x.threads := by
        rintro u rfl
        simp only [wakes, hrun, hnext, List.singleton_append, List.nodup_cons] at hwakes
        exact hwakes.1
      obtain ⟨hnodup, hkernel⟩ := h.apply hrun hpc happly hwake
      refine ⟨hnodup, hkernel, ?_⟩
      intro u L hu
      by_cases hut : u = t
      · subst hut
        simp only [Function.update_self] at hu
        obtain rfl | ⟨hold, hne⟩ := hcode u i data effect p rfl hrun hpc hnext L hu
        · obtain ⟨rfl, rfl⟩ := Prod.mk.inj (Option.some.inj happly)
          exact x.kernel.claims_acquire u L
        · exact h.claims_apply hpc happly (h.held u L hold) (fun _ => hne)
      · simp only [Function.update_of_ne hut] at hu
        exact h.claims_apply hpc happly (h.held u L hu) (fun heq => absurd heq hut)
  | @kernel _ a k ha _ hk =>
      refine ⟨h.nodup, h.kernel.step hk, ?_⟩
      intro u L hu
      apply (h.held u L hu).step h.kernel _ hk
      rintro - rfl
      obtain ha | ha | ha := ha <;> cases ha
  | @interrupt i data us henabled hinterrupt =>
      simp only [wakes, hinterrupt] at hwakes
      refine ⟨hwakes, ok_wakeAll h.kernel hwakes, ?_⟩
      obtain ⟨hlocks, -, hpc⟩ := wakeAll_frame x.kernel us
      intro u L hu
      exact (h.held u L hu).congr (congrFun hpc u) (fun ho => by rw [hlocks]; exact ho)

/-- Every move keeps the threads where the kernel says and the locks with their holders. -/
theorem Ok.step (hcode : code.Respects holds) (h : x.Ok holds)
    (hwakes : (x.wakes code m ++ x.threads).Nodup) (hstep : x.step code m = some x') :
  x'.Ok holds
  := h.step_of (fun t i s e p _ _ _ hnext => hcode t (x.pos t) x.data i s e p hnext) hwakes hstep

/-- A thread that is at a settled position does not wait in an operation, as long as the running
thread, if its position becomes settled, does not. -/
theorem settled_step_of (hcode : ∀ t i s e p, m = .run i → x.kernel.currentThread = some t →
      x.kernel.pc t = .outside → code.next t (x.pos t) x.data i = some (s, e, p) → settled p →
        (∀ L, e ≠ .call (.acquire L)) ∧ ∀ c M, e ≠ .call (.wait c M))
    (h : ∀ t, settled (x.pos t) → x.kernel.Settled t) (hstep : x.step code m = some x') :
  ∀ t, settled (x'.pos t) → x'.kernel.Settled t
  := by
  cases step_cases hstep with
  | @run t i data effect p kernel threads hrun hpc hnext happly =>
      intro u hu
      have hself : x.kernel.Settled t := by
        rw [Kernel.Settled, hpc]
        simp
      have hbefore : x.kernel.Settled u := by
        by_cases hut : u = t
        · rw [hut]
          exact hself
        · simp only [Function.update_of_ne hut] at hu
          exact h u hu
      cases effect with
      | compute | wake =>
          obtain ⟨rfl, rfl⟩ := Prod.mk.inj (Option.some.inj happly)
          exact hbefore
      | park =>
          obtain ⟨rfl, rfl⟩ := Prod.mk.inj (Option.some.inj happly)
          exact hbefore.congr (congrFun (Kernel.pc_sleep _) u)
      | call a =>
          obtain ⟨k, hcall, heq⟩ := Option.map_eq_some_iff.mp happly
          obtain ⟨rfl, rfl⟩ := Prod.mk.inj heq
          apply hbefore.call _ hcall
          rintro rfl
          simp only [Function.update_self] at hu
          simpa using hcode u i data _ p rfl hrun hpc hnext hu
  | @kernel _ a k ha _ hk =>
      intro u hu
      apply (h u hu).step _ hk
      obtain rfl | rfl | rfl := ha <;> simp
  | @interrupt i data us henabled hinterrupt =>
      intro u hu
      exact (h u hu).congr (congrFun (wakeAll_frame x.kernel us).2.2 u)

/-- The same for code all of whose steps do so. -/
theorem settled_step (hcode : code.Settles settled)
    (h : ∀ t, settled (x.pos t) → x.kernel.Settled t) (hstep : x.step code m = some x') :
  ∀ t, settled (x'.pos t) → x'.kernel.Settled t
  := settled_step_of (fun t i s e p _ _ _ hnext => hcode t (x.pos t) x.data i s e p hnext) h hstep

/-- A thread that does not wait owns the locks that it holds. -/
theorem Ok.owner_of_settled (h : x.Ok holds) {t L : ℕ} (ht : x.kernel.Settled t)
    (hholds : holds (x.pos t) L) :
  (x.kernel.locks L).owner = some t
  := (h.held t L hholds).owner (ht.1 L) (fun c => ht.2 c L)

/-- A thread that can make a step owns the locks that it holds. -/
theorem Ok.owner (h : x.Ok holds) {t L : ℕ} (hpc : x.kernel.pc t = .outside)
    (hholds : holds (x.pos t) L) :
  (x.kernel.locks L).owner = some t
  := (h.held t L hholds).owner (by simp [hpc]) (by simp [hpc])

theorem ok_initial {t : ℕ} {ts : List ℕ} (hnodup : (t :: ts).Nodup) (data : σ) {p : π}
    (hp : ∀ L, ¬ holds p L) :
  (initial t ts data p).Ok holds
  := ⟨hnodup, Kernel.ok_initial hnodup, fun _ L hL => absurd hL (hp L)⟩

end Exec

end Nachos.Monitor
