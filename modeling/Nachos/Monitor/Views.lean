import Nachos.Monitor.Conditions

/-!
# Threads that use monitors

Code whose threads wait for a condition variable, and signal it, only while they hold the lock that
belongs to it. What such threads do to one another can be seen in their positions, in the data and in
the queues of the condition variables, which are a `View`.

A position is at the end of an operation, or in it. A move either leaves the view as it is, or is a
step of a thread that is in no queue and owns the locks that it holds (`Exec.Sound.view_step`).
-/

namespace Nachos.Monitor

/-- What can be seen of threads. -/
structure View (σ π : Type) where
  pos : ℕ → π
  data : σ
  queue : ℕ → List ℕ
  threads : List ℕ

variable {σ π ι : Type}

/-- The queues of the condition variables when the thread `t` has made a step. -/
def Effect.queue (t : ℕ) (q : ℕ → List ℕ) : Effect → ℕ → List ℕ
  | .call (.wait c _) => Function.update q c (q c ++ [t])
  | .call (.signal c _) => Function.update q c (q c).tail
  | _ => q

/-- The threads when the thread `t` has made a step. -/
def Effect.threads (t : ℕ) (ts : List ℕ) : Effect → List ℕ
  | .park => ts.erase t
  | .wake u => u :: ts
  | _ => ts

/-- The action acquires the lock, perhaps in the end. -/
def Kernel.Action.Acquires (L : ℕ) : Kernel.Action → Prop
  | .acquire M => M = L
  | .wait _ M => M = some L
  | _ => False

/-- The code of threads that hold the locks `holds p` when they are at `p`, have come there by the
operation `last p` if it acquires a lock, and use a condition variable `c` with the lock `guard c`. -/
structure Code.Monitored (code : Code σ π ι) (holds : π → ℕ → Prop)
    (last : π → Option Kernel.Action) (guard : ℕ → ℕ) : Prop where
  respects : code.Respects holds
  calls : ∀ t p s i s' a p', code.next t p s i = some (s', .call a, p') →
    (∃ L, a.Acquires L) → last p' = some a
  waits : ∀ t p s i s' c M p', code.next t p s i = some (s', .call (.wait c M), p') →
    M = some (guard c) ∧ holds p (guard c)
  signals : ∀ t p s i s' c M p', code.next t p s i = some (s', .call (.signal c M), p') →
    M = some (guard c) ∧ holds p (guard c)
  broadcasts : ∀ t p s i s' c M p', code.next t p s i ≠ some (s', .call (.broadcast c M), p')
  interrupts : ∀ s i, code.interrupt s i = none

namespace View

/-- A thread that can make a step is in no queue, and no other thread has the locks that it holds. -/
structure Free (holds : π → ℕ → Prop) (last : π → Option Kernel.Action) (v : View σ π) (t : ℕ) :
    Prop where
  mem : t ∈ v.threads
  awake : ∀ c, t ∉ v.queue c
  alone : ∀ u L, holds (v.pos t) L → holds (v.pos u) L →
    (∀ a, last (v.pos u) = some a → ¬ a.Acquires L) → u = t

/-- What a move does, in which a thread may make a step. -/
inductive Steps (code : Code σ π ι) (holds : π → ℕ → Prop) (last : π → Option Kernel.Action)
    (v : View σ π) : Option ℕ → View σ π → Prop where
  | same {a : Option ℕ} : Steps code holds last v a v
  | run {t : ℕ} {i : ι} {data : σ} {effect : Effect} {p : π} (hfree : v.Free holds last t)
      (hnext : code.next t (v.pos t) v.data i = some (data, effect, p)) :
      Steps code holds last v (some t)
        ⟨Function.update v.pos t p, data, effect.queue t v.queue, effect.threads t v.threads⟩

end View

/-! ### Where a thread waits -/

namespace Kernel

variable {k k' : Kernel} {t u L : ℕ} {a : Action}

/-- A thread comes to wait for a lock only by calling `Acquire`. -/
theorem inAcquire_call (hcall : k.call t a = some k') (hu : k'.pc u = .inAcquire L) :
  k.pc u = .inAcquire L ∨ u = t ∧ a = .acquire L
  := by
  by_cases hut : u = t
  · subst hut
    obtain ⟨lock, h⟩ | ⟨M, ha, h⟩ | ⟨c, M, -, h⟩ | ⟨c, M, -, h⟩ := pc_call_self hcall
    · cases h.symm.trans hu
    · obtain rfl := Pc.inAcquire.inj (h.symm.trans hu)
      exact .inr ⟨rfl, ha⟩
    · cases h.symm.trans hu
    · cases h.symm.trans hu
  · left
    exact (pc_call_of_ne hcall hut).symm.trans hu

/-- The running thread yields, or goes on in an operation. -/
theorem inAcquire_step (ha : a = .yield ∨ a = .preempt ∨ a = .proceed)
    (hstep : k.step a = some k') (hu : k'.pc u = .inAcquire L) :
  k.pc u = .inAcquire L ∨ ∃ c, k.pc u = .inWait c L
  := by
  obtain ⟨t, hrun, hsteps⟩ := step_cases hstep
  have hset : ∀ {k : Kernel} {pc : Pc}, (∀ L, pc ≠ .inAcquire L) →
      (k.setPc t pc).pc u = .inAcquire L → k.pc u = .inAcquire L := by
    intro k pc hpc hu
    by_cases hut : u = t
    · subst hut
      have hself : (k.setPc u pc).pc u = pc := Function.update_self _ _ _
      exact absurd (hself.symm.trans hu) (hpc L)
    · have hother : (k.setPc t pc).pc u = k.pc u := Function.update_of_ne hut _ _
      exact hother.symm.trans hu
  cases hsteps with
  | call hpc hcall =>
      obtain hu | ⟨-, rfl⟩ := inAcquire_call hcall hu
      · exact .inl hu
      · simp at ha
  | preempt hpc => exact .inl ((congrFun (k.yield_frame t).2.2.1 u).symm.trans hu)
  | @leave lock hpc => cases lock <;> exact .inl (hset (by simp) hu)
  | acquired hpc => exact .inl (hset (by simp) hu)
  | @woken d M hpc =>
      have hcall : k.call t (.acquire M) = some (k.acquire t M) := rfl
      obtain hu | ⟨rfl, hacquire⟩ := inAcquire_call hcall hu
      · exact .inl hu
      · obtain rfl := Action.acquire.inj hacquire
        exact .inr ⟨d, hpc⟩
  | @loop d M hpc =>
      rw [broadcastLoop] at hu
      split at hu
      · exact .inl (hset (by simp) hu)
      · rw [(k.signal_frame d (some M)).2.1] at hu
        exact .inl hu

end Kernel

/-! ### The queues -/

namespace Exec

variable {code : Code σ π ι} {holds : π → ℕ → Prop} {last : π → Option Kernel.Action}
  {guard : ℕ → ℕ} {x x' : Exec σ π} {m : Move ι} {t u L : ℕ}

def view (x : Exec σ π) : View σ π :=
  ⟨x.pos, x.data, fun c => (x.kernel.conditions c).waitQueue, x.threads⟩

/-- The thread that makes a step of its code. -/
def mover (x : Exec σ π) : Move ι → Option ℕ
  | .run _ => x.kernel.currentThread
  | _ => none

theorem threads_apply {effect : Effect} {kernel : Kernel} {threads : List ℕ}
    (happly : x.apply t effect = some (kernel, threads)) :
  threads = effect.threads t x.threads
  := by
  cases effect with
  | compute | park | wake => exact (Prod.mk.inj (Option.some.inj happly)).2.symm
  | call a =>
      obtain ⟨k, -, heq⟩ := Option.map_eq_some_iff.mp happly
      exact (Prod.mk.inj heq).2.symm

/-- The invariant of threads that use monitors. -/
structure Sound (holds : π → ℕ → Prop) (last : π → Option Kernel.Action) (guard : ℕ → ℕ)
    (x : Exec σ π) : Prop where
  ok : x.Ok holds
  acquiring : ∀ t L, x.kernel.pc t = .inAcquire L → ∃ a, last (x.pos t) = some a ∧ a.Acquires L
  waiting : ∀ t c L, x.kernel.pc t = .inWait c L → last (x.pos t) = some (.wait c (some L))
  bound : ∀ c, x.kernel.Bound c (guard c)
  quiet : ∀ c t M, x.kernel.pc t ≠ .inBroadcast c M

/-- A thread in a queue has called `Wait` for it. -/
theorem Sound.last_of_mem (h : x.Sound holds last guard) {c : ℕ} (ht : t ∈ x.view.queue c) :
  ∃ M, last (x.pos t) = some (.wait c M)
  := by
  obtain ⟨L, hpc⟩ := h.ok.kernel.conditionQueue t c ht
  exact ⟨some L, h.waiting t c L hpc⟩

theorem Sound.nodup (h : x.Sound holds last guard) (c : ℕ) :
  (x.view.queue c).Nodup
  := h.ok.kernel.places.nodup (.condition c)

/-- A thread that does not acquire a lock owns it if it holds it. -/
theorem Sound.owner_of_not_acquires (h : x.Sound holds last guard) (hholds : holds (x.pos t) L)
    (hlast : ∀ a, last (x.pos t) = some a → ¬ a.Acquires L) :
  (x.kernel.locks L).owner = some t
  := by
  apply (h.ok.held t L hholds).owner
  · intro hpc
    obtain ⟨a, ha, hacquires⟩ := h.acquiring t L hpc
    exact hlast a ha hacquires
  · intro c hpc
    exact hlast _ (h.waiting t c L hpc) rfl

/-- What an operation does to the queues. -/
theorem Sound.queue_apply (h : x.Sound holds last guard) {effect : Effect} {kernel : Kernel} {threads : List ℕ}
    (hwaits : ∀ c M, effect = .call (.wait c M) → M = some (guard c))
    (hsignals : ∀ c M, effect = .call (.signal c M) → M = some (guard c))
    (hbroadcasts : ∀ c M, effect ≠ .call (.broadcast c M))
    (happly : x.apply t effect = some (kernel, threads)) (c : ℕ) :
  (kernel.conditions c).waitQueue = effect.queue t x.view.queue c
  := by
  have hlock := (h.bound c).waitingLock
  cases effect with
  | compute | wake u =>
      obtain ⟨rfl, rfl⟩ := Prod.mk.inj (Option.some.inj happly)
      rfl
  | park =>
      obtain ⟨rfl, rfl⟩ := Prod.mk.inj (Option.some.inj happly)
      rw [Kernel.conditions_sleep]
      rfl
  | call a =>
      obtain ⟨k, hcall, heq⟩ := Option.map_eq_some_iff.mp happly
      obtain ⟨rfl, rfl⟩ := Prod.mk.inj heq
      by_cases hc : a.condition = some c
      · cases a with
        | wait d M =>
            obtain rfl := Option.some.inj hc
            obtain rfl := hwaits d M rfl
            obtain rfl := Option.some.inj hcall
            have haccepts : (x.kernel.conditions d).Accepts (guard d) := by
              rw [Condition.Accepts, hlock]
              split
              · exact .inl rfl
              · exact .inr rfl
            rw [Kernel.conditions_wait]
            simp [Effect.queue, view, Condition.wait, if_pos haccepts]
        | signal d M =>
            obtain rfl := Option.some.inj hc
            obtain rfl := hsignals d M rfl
            obtain rfl := Option.some.inj hcall
            have hconditions : ((x.kernel.signal d (some (guard d))).setPc t
                (.leaving none)).conditions = (x.kernel.signal d (some (guard d))).conditions := rfl
            have hqueue : ((x.kernel.conditions d).signal (guard d)).waitQueue =
                (x.kernel.conditions d).waitQueue.drop 1 := by
              apply (Condition.waitQueue_signal _).1
              intro hne
              rw [hlock, if_neg hne]
            rw [hconditions, Kernel.conditions_signal]
            simp [Effect.queue, view, hqueue]
        | broadcast d M => exact absurd rfl (hbroadcasts d M)
        | acquire | release | yield | preempt | proceed => cases hc
      · rw [Kernel.conditions_call hc hcall]
        cases a with
        | wait d M | signal d M =>
            have hcd : c ≠ d := fun heq => hc (congrArg some heq.symm)
            rw [Effect.queue, Function.update_of_ne hcd]
            rfl
        | broadcast | acquire | release | yield | preempt | proceed => rfl

/-- A thread makes a step. -/
theorem Sound.run (hcode : code.Monitored holds last guard) (h : x.Sound holds last guard) {i : ι}
    (hrun : x.kernel.currentThread = some t) (hpc : x.kernel.pc t = .outside) {data : σ}
    {effect : Effect} {p : π} (hnext : code.next t (x.pos t) x.data i = some (data, effect, p))
    {kernel : Kernel} {threads : List ℕ} (happly : x.apply t effect = some (kernel, threads))
    (hok : Exec.Ok holds ⟨kernel, threads, data, Function.update x.pos t p⟩) :
  Sound holds last guard ⟨kernel, threads, data, Function.update x.pos t p⟩
  := by
  -- an operation other than the one that is called changes nothing here
  have hsame : kernel.pc = x.kernel.pc → (∀ c, kernel.conditions c = x.kernel.conditions c) →
      (∀ L, (kernel.locks L) = x.kernel.locks L) →
      Sound holds last guard ⟨kernel, threads, data, Function.update x.pos t p⟩ := by
    intro hpcs hconditions hlocks
    have hother : ∀ {u pc}, kernel.pc u = pc → pc ≠ .outside → u ≠ t ∧ x.kernel.pc u = pc := by
      intro u pc hu hne
      rw [hpcs] at hu
      refine ⟨?_, hu⟩
      rintro rfl
      exact hne (hu.symm.trans hpc)
    refine ⟨hok, ?_, ?_, ?_, ?_⟩
    · intro u L hu
      obtain ⟨hut, hu⟩ := hother hu (by simp)
      simp only [Function.update_of_ne hut]
      exact h.acquiring u L hu
    · intro u c L hu
      obtain ⟨hut, hu⟩ := hother hu (by simp)
      simp only [Function.update_of_ne hut]
      exact h.waiting u c L hu
    · intro c
      apply (h.bound c).congr (hconditions c)
      · intro u M hu
        rw [hpcs] at hu
        exact hu
      · intro u M _ howner
        rw [hlocks]
        exact howner
    · intro c u M
      simp only [hpcs]
      exact h.quiet c u M
  cases effect with
  | compute | wake =>
      obtain ⟨rfl, rfl⟩ := Prod.mk.inj (Option.some.inj happly)
      exact hsame rfl (fun _ => rfl) (fun _ => rfl)
  | park =>
      obtain ⟨rfl, rfl⟩ := Prod.mk.inj (Option.some.inj happly)
      exact hsame (Kernel.pc_sleep _) (fun c => by rw [Kernel.conditions_sleep])
        (fun L => by rw [Kernel.locks_sleep])
  | call a =>
      obtain ⟨k, hcall, heq⟩ := Option.map_eq_some_iff.mp happly
      obtain ⟨rfl, rfl⟩ := Prod.mk.inj heq
      have hlast := hcode.calls _ _ _ _ _ _ _ hnext
      have hguarded : ∀ {c M}, M = some (guard c) ∧ holds (x.pos t) (guard c) →
          x.kernel.Guarded (guard c) M := by
        rintro c M ⟨rfl, hholds⟩
        refine ⟨rfl, by rw [hrun]; rfl, ?_⟩
        rw [hrun]
        exact h.ok.owner hpc hholds
      refine ⟨hok, ?_, ?_, ?_, ?_⟩
      · intro u L hu
        by_cases hut : u = t
        · subst hut
          obtain hu | ⟨-, rfl⟩ := Kernel.inAcquire_call hcall hu
          · cases hpc.symm.trans hu
          · simp only [Function.update_self]
            exact ⟨_, hlast ⟨L, rfl⟩, rfl⟩
        · simp only [Function.update_of_ne hut]
          exact h.acquiring u L ((Kernel.pc_call_of_ne hcall hut).symm.trans hu)
      · intro u c L hu
        by_cases hut : u = t
        · subst hut
          obtain hu | ⟨-, rfl⟩ := Kernel.inWait_call hcall hu
          · cases hpc.symm.trans hu
          · simp only [Function.update_self]
            exact hlast ⟨L, rfl⟩
        · simp only [Function.update_of_ne hut]
          exact h.waiting u c L ((Kernel.pc_call_of_ne hcall hut).symm.trans hu)
      · intro c
        apply (h.bound c).call h.ok.kernel hrun hpc _ hcall
        cases a with
        | wait d M =>
            rintro rfl
            exact hguarded (hcode.waits _ _ _ _ _ _ _ _ hnext)
        | signal d M =>
            rintro rfl
            exact hguarded (hcode.signals _ _ _ _ _ _ _ _ hnext)
        | broadcast d M => exact absurd hnext (hcode.broadcasts _ _ _ _ _ _ _ _)
        | acquire | release | yield | preempt | proceed => trivial
      · intro c u M hu
        by_cases hut : u = t
        · subst hut
          obtain ⟨lock, hpc'⟩ | ⟨N, -, hpc'⟩ | ⟨d, N, -, hpc'⟩ | ⟨d, N, rfl, -⟩ :=
            Kernel.pc_call_self hcall
          · cases hpc'.symm.trans hu
          · cases hpc'.symm.trans hu
          · cases hpc'.symm.trans hu
          · exact absurd hnext (hcode.broadcasts _ _ _ _ _ _ _ _)
        · exact h.quiet c u M ((Kernel.pc_call_of_ne hcall hut).symm.trans hu)

/-- The running thread yields, or goes on in an operation. -/
theorem Sound.kernel (h : x.Sound holds last guard) {a : Kernel.Action} {k : Kernel}
    (ha : a = .yield ∨ a = .preempt ∨ a = .proceed) (hstep : x.kernel.step a = some k)
    (hok : Exec.Ok holds { x with kernel := k }) :
  Sound holds last guard { x with kernel := k } ∧ ({ x with kernel := k } : Exec σ π).view = x.view
  := by
  have hcondition : a.condition = none := by
    obtain rfl | rfl | rfl := ha <;> rfl
  have hconditions := fun c => Kernel.conditions_step (h.quiet c) hcondition hstep
  constructor
  · refine ⟨hok, ?_, ?_, ?_, fun c => (hconditions c).2⟩
    · intro u L hu
      obtain hu | ⟨c, hu⟩ := Kernel.inAcquire_step ha hstep hu
      · exact h.acquiring u L hu
      · exact ⟨_, h.waiting u c L hu, rfl⟩
    · intro u c L hu
      exact h.waiting u c L (Kernel.inWait_step ha hstep hu)
    · intro c
      apply (h.bound c).step h.ok.kernel _ hstep
      obtain rfl | rfl | rfl := ha <;> trivial
  · simp only [view, (hconditions _).1]

/-- A thread that can make a step is free to do so. -/
theorem Sound.free (h : x.Sound holds last guard) (hrun : x.kernel.currentThread = some t)
    (hpc : x.kernel.pc t = .outside) :
  x.view.Free holds last t
  := by
  constructor
  · apply (h.ok.kernel.places.mem_iff t).mpr
    use .running
    simp [Kernel.queue, hrun]
  · intro c
    exact h.ok.kernel.not_mem hrun (p := .condition c) (by simp)
  · intro u L ht hu hlast
    have howner := h.ok.owner hpc ht
    have howner' := h.owner_of_not_acquires hu hlast
    exact Option.some.inj (howner'.symm.trans howner)

/-- Every move keeps the invariant, if it wakes only threads that are not there, and is one of the
view. -/
theorem Sound.step (hcode : code.Monitored holds last guard) (h : x.Sound holds last guard)
    (hwakes : (x.wakes code m ++ x.threads).Nodup) (hstep : x.step code m = some x') :
  x'.Sound holds last guard ∧ x.view.Steps code holds last (x.mover m) x'.view
  := by
  have hok := h.ok.step hcode.respects hwakes hstep
  cases step_cases hstep with
  | @run t i data effect p kernel threads hrun hpc hnext happly =>
      refine ⟨h.run hcode hrun hpc hnext happly hok, ?_⟩
      have hqueue : (fun c => (kernel.conditions c).waitQueue) = effect.queue t x.view.queue := by
        funext c
        apply h.queue_apply _ _ _ happly
        · rintro c M rfl
          exact (hcode.waits _ _ _ _ _ _ _ _ hnext).1
        · rintro c M rfl
          exact (hcode.signals _ _ _ _ _ _ _ _ hnext).1
        · rintro c M rfl
          exact hcode.broadcasts _ _ _ _ _ _ _ _ hnext
      have hthreads := threads_apply happly
      have hview : (⟨kernel, threads, data, Function.update x.pos t p⟩ : Exec σ π).view =
          ⟨Function.update x.pos t p, data, effect.queue t x.view.queue,
            effect.threads t x.threads⟩ := by
        rw [← hqueue, ← hthreads]
        rfl
      rw [hview, mover, hrun]
      exact .run (h.free hrun hpc) hnext
  | @kernel _ a k ha _ hk =>
      obtain ⟨hsound, hview⟩ := h.kernel ha hk hok
      rw [hview]
      exact ⟨hsound, .same⟩
  | @interrupt i data us _ hinterrupt =>
      rw [hcode.interrupts] at hinterrupt
      cases hinterrupt

/-- A thread is running, and the others are ready. -/
theorem sound_initial {t : ℕ} {ts : List ℕ} (hnodup : (t :: ts).Nodup) (data : σ) (pos : ℕ → π)
    (hpos : ∀ u L, ¬ holds (pos u) L) :
  (⟨Kernel.initial t ts, t :: ts, data, pos⟩ : Exec σ π).Sound holds last guard
  := by
  refine ⟨⟨hnodup, Kernel.ok_initial hnodup, ?_⟩, ?_, ?_, ?_, ?_⟩
  · intro u L hu
    exact absurd hu (hpos u L)
  · intro u L hu
    cases hu
  · intro u c L hu
    cases hu
  · exact fun c => Kernel.bound_initial t ts c (guard c)
  · intro c u M hu
    cases hu

end Exec

end Nachos.Monitor
