import Mathlib.Logic.Relation
import Nachos.Monitor.Conditions

/-!
# Broadcast with several locks

The threads that use a condition variable `c` own the locks that they pass, but they do not all pass
the same lock. The loop of `Broadcast` ends when the queue of `c` is empty, and its iterations do
nothing when the threads in the queue wait with another lock than the one that is passed.

In every run in which no `Wait` is accepted with another lock while `Broadcast` is in its loop, each
iteration wakes a thread or is the last one. After any other `Wait` the loop does not end by itself
(`Kernel.broadcasts_end_iff`).
-/

namespace Nachos.Monitor

/-- A thread that is left in the queue waits with the same lock as before. -/
theorem Condition.waitingLock_signal {v : Condition} {L : ℕ} (h : (v.signal L).waitQueue ≠ []) :
  v.waitQueue ≠ [] ∧ (v.signal L).waitingLock = v.waitingLock
  := by
  by_cases hlock : v.waitingLock = some L
  · cases hqueue : v.waitQueue with
    | nil =>
        rw [signal_nil hqueue] at h
        exact absurd hqueue h
    | cons t waitQueue =>
        simp only [signal, hqueue, hlock, if_true] at h ⊢
        exact ⟨List.cons_ne_nil t waitQueue, if_neg h⟩
  · rw [signal_of_ne hlock] at h ⊢
    exact ⟨h, rfl⟩

namespace Kernel

variable {ts : List ℕ} {k k' : Kernel} {t u c L M : ℕ} {a : Action}

/-- The running thread owns the lock that it passes when it uses the condition variable `c`. -/
def Held (c : ℕ) (k : Kernel) : Action → Prop
  | .wait d M | .signal d M | .broadcast d M => d = c → ∃ L ∈ M, k.Guarded L M
  | _ => True

instance (c : ℕ) (k : Kernel) : (a : Action) → Decidable (k.Held c a)
  | .wait d M | .signal d M | .broadcast d M =>
      inferInstanceAs (Decidable (d = c → ∃ L ∈ M, k.Guarded L M))
  | .acquire _ | .release _ | .yield | .preempt | .proceed => .isTrue trivial

/-- If `Wait` is accepted while `Broadcast` is in its loop then both have been passed the same
lock. -/
def Undisturbed (c : ℕ) (k : Kernel) : Action → Prop
  | .wait d (some L) =>
      d = c → (k.conditions c).Accepts L → ∀ u M, k.pc u = .inBroadcast c M → M = L
  | _ => True

/-- How many iterations of the loop of `Broadcast` the thread `u` executes before it wakes a thread
or leaves the loop. -/
def idleLoops (u : ℕ) : Kernel → List Action → ℕ
  | _, [] => 0
  | k, a :: as =>
      match k.step a with
      | none => 0
      | some k' =>
          if k.currentThread = some u ∧ a = .proceed then
            if k'.pc u = k.pc u ∧ k'.history = k.history then idleLoops u k' as + 1 else 0
          else idleLoops u k' as

/-- No call of `Broadcast` executes unboundedly many iterations of its loop without waking a thread,
whatever is done from now on that satisfies `P`. -/
def BroadcastsEnd (P : Kernel → Action → Prop) (c : ℕ) (k : Kernel) : Prop :=
  ∀ u L, k.pc u = .inBroadcast c L → ∃ n, ∀ bs k', Transition.run step k bs = some k' →
    Transition.Along step P k bs → idleLoops u k bs ≤ n

/-! ### Runs in which every iteration wakes a thread -/

/-- The threads that wait on `c` do so with the lock of every `Broadcast` that is in its loop. -/
def Agreed (c : ℕ) (k : Kernel) : Prop :=
  ∀ u M, k.pc u = .inBroadcast c M → (k.conditions c).waitQueue ≠ [] →
    (k.conditions c).waitingLock = some M

theorem Agreed.congr (h : k.Agreed c) (hcondition : k'.conditions c = k.conditions c)
    (hpc : ∀ u M, k'.pc u = .inBroadcast c M → k.pc u = .inBroadcast c M) :
  k'.Agreed c
  := by
  intro u M hu
  rw [hcondition]
  apply h u M (hpc u M hu)

/-- A thread comes into the loop of `Broadcast` by calling it with the lock of those who wait. -/
theorem inBroadcast_of_call (hcall : k.call t a = some k') (hu : k'.pc u = .inBroadcast c M) :
  k.pc u = .inBroadcast c M ∨
    a = .broadcast c (some M) ∧ (k.conditions c).waitingLock = some M
  := by
  by_cases ha : a.condition = some c
  · by_cases hut : u = t
    · subst hut
      right
      obtain ⟨lock, h⟩ | ⟨N, -, h⟩ | ⟨d, N, -, h⟩ | ⟨d, N, rfl, h⟩ := pc_call_self hcall
      · cases h.symm.trans hu
      · cases h.symm.trans hu
      · cases h.symm.trans hu
      · obtain ⟨rfl, rfl⟩ := Pc.inBroadcast.inj (h.symm.trans hu)
        refine ⟨rfl, ?_⟩
        by_contra hlock
        obtain rfl := Option.some.inj hcall
        rw [broadcast, if_neg hlock] at hu
        cases (Function.update_self u _ k.pc).symm.trans hu
    · exact .inl ((pc_call_of_ne hcall hut).symm.trans hu)
  · exact .inl (inBroadcast_call ha hcall hu)

/-- After `Signal` or an iteration of the loop of `Broadcast`. -/
theorem Agreed.signal (h : k.Agreed c)
    (hcondition : k'.conditions c = (k.conditions c).signal L)
    (hpc : ∀ u M, k'.pc u = .inBroadcast c M → k.pc u = .inBroadcast c M) :
  k'.Agreed c
  := by
  intro u M hu hqueue
  rw [hcondition] at hqueue ⊢
  obtain ⟨hqueue, hlock⟩ := Condition.waitingLock_signal hqueue
  rw [hlock]
  apply h u M (hpc u M hu) hqueue

theorem Agreed.wait (h : k.Agreed c) (hundisturbed : k.Undisturbed c (.wait c (some L)))
    (hcondition : k'.conditions c = (k.conditions c).wait t L)
    (hpc : ∀ u M, k'.pc u = .inBroadcast c M → k.pc u = .inBroadcast c M) :
  k'.Agreed c
  := by
  intro u M hu hqueue
  rw [hcondition, Condition.wait] at hqueue ⊢
  split at hqueue
  · rename_i haccepts
    rw [if_pos haccepts, hundisturbed rfl haccepts u M (hpc u M hu)]
  · rename_i haccepts
    rw [if_neg haccepts]
    exact h u M (hpc u M hu) hqueue

theorem Agreed.call (h : k.Agreed c) (hundisturbed : k.Undisturbed c a)
    (hcall : k.call t a = some k') :
  k'.Agreed c
  := by
  by_cases ha : a.condition = some c
  · have hpc : (∀ M, a ≠ .broadcast c (some M)) →
        ∀ u M, k'.pc u = .inBroadcast c M → k.pc u = .inBroadcast c M := by
      intro ha u M hu
      obtain hu | ⟨rfl, -⟩ := inBroadcast_of_call hcall hu
      · exact hu
      · exact absurd rfl (ha M)
    cases a with
    | wait d lock =>
        obtain rfl := Option.some.inj ha
        obtain rfl := Option.some.inj hcall
        cases lock with
        | none => exact h.congr rfl (hpc (by simp))
        | some L =>
            apply h.wait (t := t) hundisturbed _ (hpc (by simp))
            rw [conditions_wait, Function.update_self]
    | signal d lock =>
        obtain rfl := Option.some.inj ha
        obtain rfl := Option.some.inj hcall
        cases lock with
        | none => exact h.congr rfl (hpc (by simp))
        | some L =>
            apply h.signal (L := L) _ (hpc (by simp))
            exact (congrFun (conditions_signal d L k) d).trans (Function.update_self _ _ _)
    | broadcast d lock =>
        obtain rfl := Option.some.inj ha
        have hconditions : k'.conditions = k.conditions := by
          obtain rfl := Option.some.inj hcall
          cases lock with
          | none => rfl
          | some L => apply conditions_broadcast
        intro u M hu hqueue
        rw [hconditions] at hqueue ⊢
        obtain hu | ⟨-, hlock⟩ := inBroadcast_of_call hcall hu
        · exact h u M hu hqueue
        · exact hlock
    | acquire | release | yield | preempt | proceed => cases ha
  · exact h.congr (conditions_call ha hcall) (fun _ _ hu => inBroadcast_call ha hcall hu)

theorem Agreed.step (h : k.Agreed c) (hundisturbed : k.Undisturbed c a)
    (hstep : k.step a = some k') :
  k'.Agreed c
  := by
  obtain ⟨t, hrun, hsteps⟩ := step_cases hstep
  cases hsteps with
  | call hpc hcall => exact h.call hundisturbed hcall
  | preempt hpc =>
      obtain ⟨-, hconditions, hsame, -⟩ := k.yield_frame t
      apply h.congr (congrFun hconditions c)
      rw [hsame]
      exact fun _ _ hu => hu
  | @leave lock hpc =>
      cases lock with
      | none | some => exact h.congr rfl (fun _ _ => setPc_inBroadcast (by simp))
  | acquired hpc => exact h.congr rfl (fun _ _ => setPc_inBroadcast (by simp))
  | @woken d M hpc =>
      have hcall : k.call t (.acquire M) = some (k.acquire t M) := rfl
      apply h.congr (congrFun (k.acquire_frame t M).1 c)
      exact fun _ _ => inBroadcast_call (by simp [Action.condition]) hcall
  | @loop d M hpc =>
      have hpc : ∀ u N, (k.broadcastLoop t d M).pc u = .inBroadcast c N →
          k.pc u = .inBroadcast c N := by
        intro u N
        rw [broadcastLoop]
        split
        · exact setPc_inBroadcast (by simp)
        · rw [(k.signal_frame d (some M)).2.1]
          exact fun hu => hu
      have hconditions := conditions_broadcastLoop t d M k
      by_cases hd : c = d
      · subst hd
        apply h.signal (L := M) _ hpc
        rw [hconditions, Function.update_self]
      · apply h.congr _ hpc
        rw [hconditions, Function.update_of_ne hd]

theorem agreed_initial (t : ℕ) (ts : List ℕ) (c : ℕ) :
  (initial t ts).Agreed c
  := by
  intro u M hu
  contradiction

/-- An action of the running thread does not move the others. -/
theorem pc_step_of_ne (hne : k.currentThread ≠ some u) (hstep : k.step a = some k') :
  k'.pc u = k.pc u
  := by
  obtain ⟨t, hrun, hsteps⟩ := step_cases hstep
  have hut : u ≠ t := by
    rintro rfl
    exact hne hrun
  have hset : ∀ (k : Kernel) (pc : Pc), (k.setPc t pc).pc u = k.pc u :=
    fun _ _ => Function.update_of_ne hut _ _
  cases hsteps with
  | call _ hcall => exact pc_call_of_ne hcall hut
  | preempt _ => rw [(k.yield_frame t).2.2.1]
  | @leave lock _ => cases lock <;> exact hset _ _
  | acquired _ => exact hset _ _
  | @woken _ M _ => exact (k.acquire_frame t M).2 u hut
  | @loop d M _ =>
      rw [broadcastLoop]
      split
      · exact hset _ _
      · rw [(k.signal_frame d (some M)).2.1]

/-- A thread in the loop of `Broadcast` stays there until it executes an iteration. -/
theorem pc_step_of_inBroadcast (hu : k.pc u = .inBroadcast c L)
    (hne : ¬ (k.currentThread = some u ∧ a = .proceed)) (hstep : k.step a = some k') :
  k'.pc u = .inBroadcast c L
  := by
  by_cases hut : k.currentThread = some u
  · obtain ⟨t, hrun, hsteps⟩ := step_cases hstep
    obtain rfl := Option.some.inj (hut.symm.trans hrun)
    cases hsteps with
    | call hpc _ => cases hpc.symm.trans hu
    | preempt _ => rw [(k.yield_frame u).2.2.1, hu]
    | leave _ | acquired _ | woken _ | loop _ => exact absurd ⟨hrun, rfl⟩ hne
  · rw [pc_step_of_ne hut hstep, hu]

/-- An iteration wakes a thread or is the last one. -/
theorem Agreed.loop (h : k.Agreed c) (hu : k.pc u = .inBroadcast c L) :
  (k.broadcastLoop u c L).pc u = .outside ∨ (k.broadcastLoop u c L).history ≠ k.history
  := by
  rw [broadcastLoop]
  split
  · left
    exact Function.update_self u _ k.pc
  · right
    rename_i hqueue
    have hlock := h u L hu hqueue
    obtain ⟨v, vs, hcons⟩ := List.exists_cons_of_ne_nil hqueue
    rw [Kernel.signal.eq_def]
    simp only [hcons, hlock, if_true]
    have hmore : ∀ e, k.history ++ [e] ≠ k.history := by simp
    exact hmore (.woken v c)

/-- As long as no other lock comes in, no iteration is idle. -/
theorem Agreed.idleLoops_eq_zero (h : k.Agreed c) (hu : k.pc u = .inBroadcast c L)
    {bs : List Action} (halong : Transition.Along Kernel.step (Undisturbed c) k bs) :
  idleLoops u k bs = 0
  := by
  induction bs generalizing k with
  | nil => rfl
  | cons a bs ih =>
      rw [idleLoops]
      split
      · rfl
      · rename_i k' hstep
        by_cases hiteration : k.currentThread = some u ∧ a = .proceed
        · obtain ⟨hrun, rfl⟩ := hiteration
          have hloop : k.broadcastLoop u c L = k' :=
            Option.some.inj ((step_loop hrun hu).symm.trans hstep)
          rw [if_pos ⟨hrun, rfl⟩, if_neg]
          rintro ⟨hpc, hhistory⟩
          rw [← hloop] at hpc hhistory
          obtain hout | hwoken := h.loop hu
          · cases hout.symm.trans (hpc.trans hu)
          · exact hwoken hhistory
        · rw [if_neg hiteration]
          apply ih (h.step halong.1 hstep) _ (halong.2 k' hstep)
          exact pc_step_of_inBroadcast hu hiteration hstep

/-! ### Runs in which the loop does not end -/

/-- A thread other than `u` goes on, but calls nothing except `Yield`. -/
structure Passes (u : ℕ) (k k' : Kernel) : Prop where
  other : k.currentThread ≠ some u
  step : ∃ a, (a = .yield ∨ a = .preempt ∨ a = .proceed) ∧ k.step a = some k'
  conditions : k'.conditions = k.conditions
  pc : k'.pc u = k.pc u

/-- Another thread gives way to the first one that is ready. -/
theorem passes_preempt {v : ℕ} {vs : List ℕ} (hrun : k.currentThread = some t) (htu : t ≠ u)
    (hready : k.readyList = v :: vs)
    (hpc : (∃ lock, k.pc t = .leaving lock) ∨ ∃ d M, k.pc t = .inBroadcast d M) :
  ∃ k', Passes u k k' ∧ k'.currentThread = some v ∧ k'.readyList = vs ++ [t]
  := by
  obtain ⟨-, hconditions, hsame, -⟩ := k.yield_frame t
  refine ⟨k.yield t, ⟨?_, ?_, hconditions, congrFun hsame u⟩, ?_⟩
  · rw [hrun]
    exact fun h => htu (Option.some.inj h)
  · refine ⟨.preempt, .inr (.inl rfl), ?_⟩
    obtain ⟨lock, hpc⟩ | ⟨d, M, hpc⟩ := hpc <;>
      simp only [Kernel.step, hrun, Option.bind_eq_bind, Option.bind_some, hpc]
  · rw [yield, hready]
    exact ⟨rfl, rfl⟩

theorem sleep_queue (k : Kernel) :
  k.sleep.currentThread = k.readyList.head? ∧ k.sleep.readyList = k.readyList.tail
  := by
  rw [sleep]
  split <;> simp_all

/-- A thread that has been woken in `Wait` obtains the lock or sleeps. -/
theorem acquire_cases (t L : ℕ) (k : Kernel) :
  ((∃ lock, (k.acquire t L).pc t = .leaving lock) ∧
      (k.acquire t L).currentThread = k.currentThread ∧
      (k.acquire t L).readyList = k.readyList) ∨
    (k.acquire t L).currentThread = k.readyList.head? ∧
      (k.acquire t L).readyList = k.readyList.tail
  := by
  rw [acquire]
  split
  · exact .inl ⟨⟨_, Function.update_self _ _ _⟩, rfl, rfl⟩
  · split
    · exact .inl ⟨⟨_, Function.update_self _ _ _⟩, rfl, rfl⟩
    · exact .inr (sleep_queue _)

/-- A running thread can be made to give way to the first one that is ready. -/
theorem exists_passes {v : ℕ} {vs : List ℕ} (hrun : k.currentThread = some t) (htu : t ≠ u)
    (hready : k.readyList = v :: vs) :
  ∃ k', Relation.ReflTransGen (Passes u) k k' ∧ k'.currentThread = some v ∧
    ∃ ws, k'.readyList = vs ++ ws
  := by
  have hother : k.currentThread ≠ some u := by
    rw [hrun]
    exact fun h => htu (Option.some.inj h)
  have hset : ∀ (k : Kernel) (pc : Pc), (k.setPc t pc).pc u = k.pc u :=
    fun _ _ => Function.update_of_ne htu.symm _ _
  have hthen : ∀ k₁, Passes u k k₁ → k₁.currentThread = k.currentThread →
      k₁.readyList = k.readyList → (∃ lock, k₁.pc t = .leaving lock) →
      ∃ k', Relation.ReflTransGen (Passes u) k k' ∧ k'.currentThread = some v ∧
        ∃ ws, k'.readyList = vs ++ ws := by
    intro k₁ hpasses hcurrent hsame hleaving
    obtain ⟨k', hpasses', hv, hvs⟩ :=
      passes_preempt (hcurrent.trans hrun) htu (hsame.trans hready) (.inl hleaving)
    exact ⟨k', .head hpasses (.single hpasses'), hv, [t], hvs⟩
  cases hpc : k.pc t with
  | outside =>
      have hstep : k.step .yield = some ((k.setPc t (.leaving none)).yield t) := by
        simp only [Kernel.step, hrun, Option.bind_eq_bind, Option.bind_some, hpc]
        rfl
      obtain ⟨-, hconditions, hsame, -⟩ := (k.setPc t (.leaving none)).yield_frame t
      refine ⟨_, .single ⟨hother, ⟨_, .inl rfl, hstep⟩, hconditions, ?_⟩, ?_⟩
      · rw [hsame, hset]
      · have hready' : (k.setPc t (.leaving none)).readyList = v :: vs := hready
        rw [yield, hready']
        exact ⟨rfl, [t], rfl⟩
  | leaving lock =>
      obtain ⟨k', hpasses, hv, hvs⟩ := passes_preempt hrun htu hready (.inl ⟨lock, hpc⟩)
      exact ⟨k', .single hpasses, hv, [t], hvs⟩
  | inAcquire M =>
      have hstep : k.step .proceed = some (k.setPc t (.leaving (some M))) := by
        simp only [Kernel.step, hrun, Option.bind_eq_bind, Option.bind_some, hpc]
      apply hthen _ ⟨hother, ⟨_, .inr (.inr rfl), hstep⟩, rfl, hset _ _⟩ rfl rfl
      exact ⟨_, Function.update_self _ _ _⟩
  | inWait d M =>
      have hstep : k.step .proceed = some (k.acquire t M) := by
        simp only [Kernel.step, hrun, Option.bind_eq_bind, Option.bind_some, hpc]
      obtain ⟨hconditions, hsame⟩ := k.acquire_frame t M
      have hpasses : Passes u k (k.acquire t M) :=
        ⟨hother, ⟨_, .inr (.inr rfl), hstep⟩, hconditions, hsame u htu.symm⟩
      obtain ⟨hleaving, hcurrent, hready'⟩ | ⟨hcurrent, hready'⟩ := acquire_cases t M k
      · exact hthen _ hpasses hcurrent hready' hleaving
      · rw [hready] at hcurrent hready'
        exact ⟨_, .single hpasses, hcurrent, [], by simp [hready']⟩
  | inBroadcast d M =>
      obtain ⟨k', hpasses, hv, hvs⟩ := passes_preempt hrun htu hready (.inr ⟨d, M, hpc⟩)
      exact ⟨k', .single hpasses, hv, [t], hvs⟩

/-- A thread that is ready can be made to run. -/
theorem exists_running {xs ys : List ℕ} (hrun : k.currentThread = some t) (htu : t ≠ u)
    (hready : k.readyList = xs ++ u :: ys) (hnot : u ∉ xs) :
  ∃ k', Relation.ReflTransGen (Passes u) k k' ∧ k'.currentThread = some u
  := by
  induction xs generalizing k t ys with
  | nil =>
      obtain ⟨k', hpasses, hu, -⟩ := exists_passes hrun htu hready
      exact ⟨k', hpasses, hu⟩
  | cons v vs ih =>
      obtain ⟨k₁, hpasses, hv, ws, hws⟩ := exists_passes hrun htu hready
      obtain ⟨hvu, hvs⟩ := not_or.mp (fun h => hnot (List.mem_cons.mpr h))
      obtain ⟨k', hpasses', hu⟩ := ih hv (Ne.symm hvu) (hws.trans (List.append_assoc _ _ _)) hvs
      exact ⟨k', hpasses.trans hpasses', hu⟩

/-- What a thread does that calls nothing except `Yield` satisfies any condition on the calls. -/
theorem Passes.run {P : Kernel → Action → Prop}
    (hP : ∀ k a, (a = .yield ∨ a = .preempt ∨ a = .proceed) → P k a)
    (h : Relation.ReflTransGen (Passes u) k k') :
  k'.conditions = k.conditions ∧ k'.pc u = k.pc u ∧
    ∃ bs, Transition.run Kernel.step k bs = some k' ∧ Transition.Along Kernel.step P k bs ∧
      ∀ cs, idleLoops u k (bs ++ cs) = idleLoops u k' cs
  := by
  induction h using Relation.ReflTransGen.head_induction_on with
  | refl => exact ⟨rfl, rfl, [], rfl, trivial, fun _ => rfl⟩
  | @head k k₁ hpasses _ ih =>
      obtain ⟨hother, ⟨a, ha, hstep⟩, hconditions, hpc⟩ := hpasses
      obtain ⟨hconditions', hpc', bs, hrun, halong, hidle⟩ := ih
      refine ⟨hconditions'.trans hconditions, hpc'.trans hpc, a :: bs,
        Transition.run_cons.mpr ⟨k₁, hstep, hrun⟩,
        (Transition.along_cons hstep).mpr ⟨hP k a ha, halong⟩, ?_⟩
      intro cs
      rw [List.cons_append, idleLoops, hstep, ← hidle cs]
      exact if_neg (fun h => hother h.1)

/-- The thread `u` is in the loop of `Broadcast`, and the threads in the queue wait with another
lock. -/
structure Stuck (c L u : ℕ) (k : Kernel) : Prop where
  pc : k.pc u = .inBroadcast c L
  queue : (k.conditions c).waitQueue ≠ []
  lock : (k.conditions c).waitingLock ≠ some L

/-- An iteration that wakes no thread changes nothing. -/
theorem Stuck.step (h : k.Stuck c L u) (hrun : k.currentThread = some u) :
  k.step .proceed = some k
  := by
  rw [step_loop hrun h.pc, broadcastLoop, if_neg h.queue]
  obtain ⟨v, vs, hcons⟩ := List.exists_cons_of_ne_nil h.queue
  rw [Kernel.signal.eq_def]
  simp only [hcons, if_neg h.lock]

theorem Stuck.loops {P : Kernel → Action → Prop} (hP : ∀ k, P k .proceed) (h : k.Stuck c L u)
    (hrun : k.currentThread = some u) (n : ℕ) :
  ∃ bs, Transition.run Kernel.step k bs = some k ∧ Transition.Along Kernel.step P k bs ∧
    idleLoops u k bs = n
  := by
  induction n with
  | zero => exact ⟨[], rfl, trivial, rfl⟩
  | succ n ih =>
      obtain ⟨bs, hbs, halong, hidle⟩ := ih
      have hstep := h.step hrun
      refine ⟨.proceed :: bs, Transition.run_cons.mpr ⟨k, hstep, hbs⟩,
        (Transition.along_cons hstep).mpr ⟨hP k, halong⟩, ?_⟩
      rw [idleLoops, hstep]
      simp only [hrun, true_and, if_true, hidle]

/-- The loop does not end, whatever the condition on the calls. -/
theorem Stuck.not_broadcastsEnd {P : Kernel → Action → Prop}
    (hP : ∀ k a, (a = .yield ∨ a = .preempt ∨ a = .proceed) → P k a) (h : k.Stuck c L u)
    (hrun : k.currentThread = some t) (hu : t = u ∨ u ∈ k.readyList) :
  ¬ k.BroadcastsEnd P c
  := by
  intro hends
  obtain ⟨n, hn⟩ := hends u L h.pc
  obtain ⟨k₁, hpasses, hcurrent⟩ :
      ∃ k₁, Relation.ReflTransGen (Passes u) k k₁ ∧ k₁.currentThread = some u := by
    by_cases htu : t = u
    · exact ⟨k, .refl, htu ▸ hrun⟩
    · obtain ⟨xs, ys, hready, hnot⟩ := List.eq_append_cons_of_mem (hu.resolve_left htu)
      exact exists_running hrun htu hready hnot
  obtain ⟨hconditions, hpc, bs, hbs, halong, hidle⟩ := Passes.run hP hpasses
  have hstuck : k₁.Stuck c L u := by
    constructor
    · rw [hpc]
      apply h.pc
    · rw [hconditions]
      apply h.queue
    · rw [hconditions]
      apply h.lock
  obtain ⟨cs, hcs, halong', hidle'⟩ :=
    hstuck.loops (fun k => hP k .proceed (.inr (.inr rfl))) hcurrent (n + 1)
  have hrun' : Transition.run Kernel.step k (bs ++ cs) = some k₁ :=
    Transition.run_append.mpr ⟨k₁, hbs, hcs⟩
  have halong'' : Transition.Along Kernel.step P k (bs ++ cs) := by
    apply Transition.along_append.mpr
    refine ⟨halong, ?_⟩
    intro s hs
    obtain rfl := Option.some.inj (hbs.symm.trans hs)
    exact halong'
  have hle := hn (bs ++ cs) k₁ hrun' halong''
  rw [hidle, hidle'] at hle
  omega

/-- A thread that is ready is still so after `Sleep`, or is running. -/
theorem sleep_of_ready (hu : u ∈ k.readyList) :
  ∃ t, k.sleep.currentThread = some t ∧ (t = u ∨ u ∈ k.sleep.readyList)
  := by
  obtain ⟨hcurrent, hready⟩ := k.sleep_queue
  rw [hcurrent, hready]
  cases hqueue : k.readyList with
  | nil =>
      rw [hqueue] at hu
      cases hu
  | cons v vs =>
      rw [hqueue] at hu
      refine ⟨v, rfl, ?_⟩
      obtain rfl | hu := List.mem_cons.mp hu
      · exact .inl rfl
      · exact .inr hu

theorem mem_readyList_release (hu : u ∈ k.readyList) (t L : ℕ) :
  u ∈ (k.release t L).readyList
  := by
  rw [release]
  split
  · split
    · exact List.mem_append_left _ hu
    · exact hu
  · exact hu

/-- A `Wait` that is accepted while `Broadcast` is in its loop with another lock. -/
theorem stuck_of_wait (hout : k.pc t = .outside) (haccepts : (k.conditions c).Accepts L)
    (hu : k.pc u = .inBroadcast c M) (hne : M ≠ L) (hready : u ∈ k.readyList) :
  (k.wait t c (some L)).Stuck c M u ∧ ∃ v, (k.wait t c (some L)).currentThread = some v ∧
    (v = u ∨ u ∈ (k.wait t c (some L)).readyList)
  := by
  have hcondition : (k.wait t c (some L)).conditions c =
      ⟨some L, (k.conditions c).waitQueue ++ [t]⟩ := by
    rw [conditions_wait, Function.update_self, Condition.wait, if_pos haccepts]
  have hut : u ≠ t := by
    rintro rfl
    cases hout.symm.trans hu
  have hcall : k.call t (.wait c (some L)) = some (k.wait t c (some L)) := rfl
  constructor
  · constructor
    · rw [pc_call_of_ne hcall hut, hu]
    · rw [hcondition]
      exact List.append_ne_nil_of_right_ne_nil _ (List.cons_ne_nil t [])
    · rw [hcondition]
      exact fun heq => hne (Option.some.inj heq).symm
  · rw [Condition.Accepts] at haccepts
    rw [wait, if_pos haccepts]
    apply sleep_of_ready
    apply mem_readyList_release
    exact hready

/-! ### All runs -/

/-- Only threads of the system are ever in an operation. -/
theorem mem_of_pc {t : ℕ} {ts : List ℕ} (hnodup : (t :: ts).Nodup) {as : List Action}
    (hrun : Transition.run step (initial t ts) as = some k) (hu : k.pc u ≠ .outside) :
  u ∈ t :: ts
  := by
  have hinvariant : k.Ok (t :: ts) ∧ ∀ u, k.pc u ≠ .outside → u ∈ t :: ts := by
    apply Transition.run_invariant (P := fun _ _ => True) _ _
      (Transition.along_of_forall (fun _ _ => trivial) _ _) hrun
    · rintro k a k' ⟨hok, hmem⟩ - hstep
      use hok.step hstep
      intro u hu
      by_cases hcurrent : k.currentThread = some u
      · apply (hok.places.mem_iff u).mpr
        use .running
        simp [queue, hcurrent]
      · apply hmem u
        rwa [pc_step_of_ne hcurrent hstep] at hu
    · exact ⟨ok_initial hnodup, fun u hu => absurd rfl hu⟩
  exact hinvariant.2 u hu

/-- In every run, no call of `Broadcast` on `c` ever executes unboundedly many iterations of its loop
without waking a thread, if and only if no `Wait` on `c` is accepted with a lock other than the one
with which some `Broadcast` on `c` is in its loop. -/
theorem broadcasts_end_iff {t : ℕ} {ts : List ℕ} (hnodup : (t :: ts).Nodup) {as : List Action}
    (hrun : Transition.run step (initial t ts) as = some k) (c : ℕ) :
  (∀ as₁ as₂ k₁, as = as₁ ++ as₂ → Transition.run step (initial t ts) as₁ = some k₁ →
      k₁.BroadcastsEnd (fun k a => k.Held c a ∧ k.Undisturbed c a) c) ↔
    Transition.Along step (Undisturbed c) (initial t ts) as
  := by
  constructor
  · intro hends
    apply Transition.along_of_prefixes
    rintro as₁ a as₂ k₁ rfl hrun₁
    obtain ⟨k₁', hrun₁', hrest⟩ := Transition.run_append.mp hrun
    obtain rfl := Option.some.inj (hrun₁.symm.trans hrun₁')
    obtain ⟨k₂, hstep, -⟩ := Transition.run_cons.mp hrest
    cases a with
    | wait d lock =>
        cases lock with
        | none => trivial
        | some L =>
            rintro rfl haccepts u M hu
            by_contra hne
            obtain ⟨v, hcurrent, hsteps⟩ := step_cases hstep
            cases hsteps with
            | call hout hcall =>
                have hok₁ := (ok_initial hnodup).of_run hrun₁
                have hmem : u ∈ t :: ts := mem_of_pc hnodup hrun₁ (by simp [hu])
                have hready : u ∈ k₁.readyList := by
                  obtain hvu | hready := hok₁.running_or_ready hmem hu
                  · obtain rfl := Option.some.inj (hcurrent.symm.trans hvu)
                    cases hout.symm.trans hu
                  · exact hready
                obtain ⟨hstuck, w, hw, hready'⟩ := stuck_of_wait hout haccepts hu hne hready
                obtain rfl := Option.some.inj hcall
                have hrun₂ : Transition.run step (initial t ts) (as₁ ++ [.wait d (some L)]) =
                    some (k₁.wait v d (some L)) :=
                  Transition.run_append.mpr ⟨k₁, hrun₁, by rw [Transition.run_singleton, hstep]⟩
                apply hstuck.not_broadcastsEnd _ hw hready'
                  (hends (as₁ ++ [.wait d (some L)]) as₂ _ (by simp) hrun₂)
                rintro k a (rfl | rfl | rfl) <;> exact ⟨trivial, trivial⟩
    | acquire | release | signal | broadcast | yield | preempt | proceed => trivial
  · rintro halong as₁ as₂ k₁ rfl hrun₁ u L hu
    have hagreed : k₁.Agreed c :=
      Transition.run_invariant (fun _ _ _ h hundisturbed hstep => h.step hundisturbed hstep)
        (agreed_initial t ts c) (Transition.along_append.mp halong).1 hrun₁
    use 0
    intro bs k₂ _ halong'
    exact Nat.le_of_eq (hagreed.idleLoops_eq_zero hu (halong'.mono (fun _ _ h => h.2)))

/-- If one lock is passed to all calls then it is the one that threads wait with. -/
theorem undisturbed_of_disciplined {t : ℕ} {ts : List ℕ} (hnodup : (t :: ts).Nodup)
    {as : List Action} (hrun : Transition.run step (initial t ts) as = some k)
    (hdisc : Transition.Along step (Disciplined c L) (initial t ts) as) :
  Transition.Along step (Undisturbed c) (initial t ts) as
  := by
  apply Transition.along_of_prefixes
  rintro as₁ a as₂ k₁ rfl hrun₁
  obtain ⟨hdisc₁, hdisc₂⟩ := Transition.along_append.mp hdisc
  obtain ⟨-, hbound⟩ := ok_bound_of_run (c := c) (L := L) hnodup hdisc₁ hrun₁
  cases a with
  | wait d lock =>
      cases lock with
      | none => trivial
      | some N =>
          rintro rfl - u M hu
          obtain ⟨hN, -⟩ := (hdisc₂ k₁ hrun₁).1 rfl
          rw [(hbound.broadcasting u M hu).1, Option.some.inj hN]
  | acquire | release | signal | broadcast | yield | preempt | proceed => trivial

/-- Two threads wait with one lock, and a third one broadcasts. -/
def broadcastActions : List Action :=
  [.acquire 0, .proceed, .wait 5 (some 0), .acquire 0, .proceed, .wait 5 (some 0), .acquire 0,
    .proceed, .broadcast 5 (some 0), .proceed, .preempt]

theorem broadcasts_end_waiting :
  ∃ k, Transition.run step (initial 1 [2, 3]) broadcastActions = some k ∧
    (k.conditions 5).waitQueue = [2] ∧ ∀ as₁ as₂ k₁, broadcastActions = as₁ ++ as₂ →
      Transition.run step (initial 1 [2, 3]) as₁ = some k₁ →
      k₁.BroadcastsEnd (fun k a => k.Held 5 a ∧ k.Undisturbed 5 a) 5
  := by
  have hsome : (Transition.run step (initial 1 [2, 3]) broadcastActions).map
      (fun k => (k.conditions 5).waitQueue) = some [2] := by
    decide
  obtain ⟨k, hrun, hqueue⟩ := Option.map_eq_some_iff.mp hsome
  have hdisc : Transition.Along step (Disciplined 5 0) (initial 1 [2, 3]) broadcastActions := by
    decide
  exact ⟨k, hrun, hqueue, (broadcasts_end_iff (by decide) hrun 5).mpr
    (undisturbed_of_disciplined (by decide) hrun hdisc)⟩

/-- Between two iterations of the loop a thread begins to wait with another lock. -/
def disturbedActions : List Action :=
  [.acquire 0, .proceed, .wait 5 (some 0), .acquire 0, .proceed, .broadcast 5 (some 0), .proceed,
    .preempt, .acquire 1, .proceed, .wait 5 (some 1), .proceed]

theorem not_broadcasts_end :
  ¬ ∀ (t : ℕ) (ts : List ℕ) (as : List Action) (k : Kernel) (c : ℕ), (t :: ts).Nodup →
    Transition.run step (initial t ts) as = some k →
    Transition.Along step (Held c) (initial t ts) as → k.BroadcastsEnd (Held c) c
  := by
  intro hall
  have hsome : (Transition.run step (initial 1 [2, 3]) disturbedActions).map
      (fun k => (k.currentThread, k.pc 2, (k.conditions 5).waitQueue,
        (k.conditions 5).waitingLock)) =
      some (some 2, .inBroadcast 5 0, [3], some 1) := by
    decide
  obtain ⟨k, hrun, hk⟩ := Option.map_eq_some_iff.mp hsome
  simp only [Prod.mk.injEq] at hk
  obtain ⟨hcurrent, hpc, hqueue, hlock⟩ := hk
  have hstuck : k.Stuck 5 0 2 := by
    constructor
    · exact hpc
    · simp [hqueue]
    · simp [hlock]
  apply hstuck.not_broadcastsEnd _ hcurrent (.inl rfl)
    (hall 1 [2, 3] disturbedActions k 5 (by decide) hrun (by decide))
  rintro k a (rfl | rfl | rfl) <;> trivial

end Kernel

end Nachos.Monitor
