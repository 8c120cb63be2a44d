import Nachos.Monitor.Exclusion

/-!
# Condition variables

A condition variable `c` that threads use only while they own one lock `L`, which they pass to every
call. A thread in the loop of `Broadcast` owns the lock, so no other thread changes the queue of `c`
although interrupts are enabled (`Kernel.broadcast_run`). A thread that releases the lock in `Wait`
is in the queue until it is woken (`Kernel.mem_waitQueue_or_woken`).

`Kernel.conditions_mesa` says what the operations do in every run.
-/

namespace Nachos.Monitor

open Places Histories

namespace Kernel

variable {ts : List ℕ} {k k' : Kernel} {t c L : ℕ}

/-- The lock `L` is passed, and owned by the running thread. -/
def Guarded (L : ℕ) (k : Kernel) (conditionLock : Option ℕ) : Prop :=
  conditionLock = some L ∧ k.currentThread.isSome ∧ (k.locks L).owner = k.currentThread

/-- The condition variable `c` is used only by threads that own the lock `L`. -/
def Disciplined (c L : ℕ) (k : Kernel) : Action → Prop
  | .wait d M => d = c → k.Guarded L M
  | .signal d M => d = c → k.Guarded L M
  | .broadcast d M => d = c → k.Guarded L M
  | _ => True

instance (L : ℕ) (k : Kernel) (M : Option ℕ) : Decidable (k.Guarded L M) :=
  inferInstanceAs (Decidable (_ ∧ _))

instance (c L : ℕ) (k : Kernel) (a : Action) : Decidable (k.Disciplined c L a) := by
  cases a <;> unfold Disciplined <;> infer_instance

theorem Guarded.owner {M : Option ℕ} (h : k.Guarded L M) (hrun : k.currentThread = some t) :
  M = some L ∧ (k.locks L).owner = some t
  := by
  obtain ⟨hM, -, howner⟩ := h
  exact ⟨hM, howner.trans hrun⟩

/-! ### What the operations leave unchanged -/

@[simp]
theorem locks_sleep (k : Kernel) :
  k.sleep.locks = k.locks
  := by
  rw [sleep]
  split <;> rfl

@[simp]
theorem conditions_sleep (k : Kernel) :
  k.sleep.conditions = k.conditions
  := by
  rw [sleep]
  split <;> rfl

@[simp]
theorem pc_sleep (k : Kernel) :
  k.sleep.pc = k.pc
  := by
  rw [sleep]
  split <;> rfl

@[simp]
theorem history_sleep (k : Kernel) :
  k.sleep.history = k.history
  := by
  rw [sleep]
  split <;> rfl

/-- `Yield` changes only which threads are running and ready. -/
theorem yield_frame (t : ℕ) (k : Kernel) :
  (k.yield t).locks = k.locks ∧ (k.yield t).conditions = k.conditions ∧ (k.yield t).pc = k.pc ∧
    (k.yield t).history = k.history
  := by
  rw [yield]
  split
  · exact ⟨rfl, rfl, rfl, rfl⟩
  · exact ⟨rfl, rfl, rfl, rfl⟩

/-- `Release` changes no condition variable. -/
theorem release_frame (t L : ℕ) (k : Kernel) :
  (k.release t L).conditions = k.conditions ∧ (k.release t L).pc = k.pc
  := by
  rw [release]
  split
  · split
    · exact ⟨rfl, rfl⟩
    · exact ⟨rfl, rfl⟩
  · exact ⟨rfl, rfl⟩

/-- `Acquire` changes no condition variable and no other thread. -/
theorem acquire_frame (t L : ℕ) (k : Kernel) :
  (k.acquire t L).conditions = k.conditions ∧ ∀ u, u ≠ t → (k.acquire t L).pc u = k.pc u
  := by
  rw [acquire]
  split
  · exact ⟨rfl, fun u hu => Function.update_of_ne hu _ _⟩
  · split
    · exact ⟨rfl, fun u hu => Function.update_of_ne hu _ _⟩
    · rw [conditions_sleep, pc_sleep]
      exact ⟨rfl, fun u hu => Function.update_of_ne hu _ _⟩

/-- `Signal` changes no lock and no other condition variable. -/
theorem signal_frame (d : ℕ) (M : Option ℕ) (k : Kernel) :
  (k.signal d M).locks = k.locks ∧ (k.signal d M).pc = k.pc ∧
    ∀ e, e ≠ d → (k.signal d M).conditions e = k.conditions e
  := by
  rw [signal.eq_def]
  split
  · split
    · exact ⟨rfl, rfl, fun e he => Function.update_of_ne he _ _⟩
    · exact ⟨rfl, rfl, fun _ _ => rfl⟩
  · exact ⟨rfl, rfl, fun _ _ => rfl⟩

theorem owner_setLock {u M : ℕ} {l : Lock} (howner : (k.locks L).owner = some u)
    (hl : L = M → l.owner = some u) :
  ((k.setLock M l).locks L).owner = some u
  := by
  by_cases hL : L = M
  · subst hL
    rw [setLock_self]
    apply hl rfl
  · rw [k.setLock_of_ne l hL]
    apply howner

/-- A thread that owns a lock keeps it when a thread calls `Acquire`. -/
theorem Ok.owner_acquire (h : k.Ok ts) {u : ℕ} (howner : (k.locks L).owner = some u) (t M : ℕ) :
  ((k.acquire t M).locks L).owner = some u
  := by
  rw [Kernel.acquire]
  split
  · apply howner
  · split
    · rename_i hfree
      refine owner_setLock howner ?_
      rintro rfl
      rw [(h.free_iff L).mp hfree] at howner
      contradiction
    · rw [locks_sleep]
      refine owner_setLock howner ?_
      rintro rfl
      apply howner

/-- A thread that owns a lock keeps it when another thread calls `Release`. -/
theorem owner_release {u : ℕ} (howner : (k.locks L).owner = some u) {t : ℕ} (hut : u ≠ t) (M : ℕ) :
  ((k.release t M).locks L).owner = some u
  := by
  rw [release]
  split
  · rename_i ht
    have hL : L ≠ M := by
      rintro rfl
      apply hut
      apply Option.some.inj
      rw [← howner, ht]
    split
    · exact owner_setLock howner (fun heq => absurd heq hL)
    · exact owner_setLock howner (fun heq => absurd heq hL)
  · apply howner

/-- A thread that is not waiting for a lock does not own it after `Release`. -/
theorem owner_release_ne (hqueue : t ∉ (k.locks L).waitQueue) :
  ((k.release t L).locks L).owner ≠ some t
  := by
  rw [release]
  split
  · split
    · rename_i u us hcons
      have howner : ((k.setLock L { k.locks L with owner := some u, waitQueue := us }).locks L).owner =
        some u := congrArg Lock.owner (k.setLock_self L _)
      intro heq
      obtain rfl := Option.some.inj (howner.symm.trans heq)
      apply hqueue
      rw [hcons]
      apply List.mem_cons_self
    · have howner : ((k.setLock L { k.locks L with state := .free, owner := none }).locks L).owner =
        none := congrArg Lock.owner (k.setLock_self L _)
      intro heq
      cases howner.symm.trans heq
  · assumption

/-! ### The invariant -/

/-- The condition variable `c` is bound to the lock `L` as long as threads wait on it, and a thread
in the loop of `Broadcast` owns the lock. -/
structure Bound (c L : ℕ) (k : Kernel) : Prop where
  waitingLock : (k.conditions c).waitingLock =
    if (k.conditions c).waitQueue = [] then none else some L
  broadcasting : ∀ t M, k.pc t = .inBroadcast c M → M = L ∧ (k.locks L).owner = some t

/-- The binding is not changed by an action that does not use `c`. -/
theorem Bound.congr (h : k.Bound c L) (hcondition : k'.conditions c = k.conditions c)
    (hpc : ∀ t M, k'.pc t = .inBroadcast c M → k.pc t = .inBroadcast c M)
    (howner : ∀ t M, k.pc t = .inBroadcast c M → (k.locks L).owner = some t →
      (k'.locks L).owner = some t) :
  k'.Bound c L
  := by
  constructor
  · rw [hcondition]
    apply h.waitingLock
  · intro t M ht
    have hold := hpc t M ht
    obtain ⟨hM, ho⟩ := h.broadcasting t M hold
    exact ⟨hM, howner t M hold ho⟩

theorem Bound.setPc (h : k.Bound c L) {pc : Pc} (hpc : ∀ M, pc ≠ .inBroadcast c M) (t : ℕ) :
  (k.setPc t pc).Bound c L
  := by
  refine h.congr rfl ?_ (fun _ _ _ howner => howner)
  intro u M hu
  have hut : u ≠ t := by
    rintro rfl
    have hself : (k.setPc u pc).pc u = pc := Function.update_self _ _ _
    apply hpc M (hself.symm.trans hu)
  have hother : (k.setPc t pc).pc u = k.pc u := Function.update_of_ne hut _ _
  rw [← hother]
  apply hu

theorem Bound.record (h : k.Bound c L) (e : Event) :
  (k.record e).Bound c L
  := h.congr rfl (fun _ _ => id) (fun _ _ _ => id)

theorem Bound.acquire (h : k.Bound c L) (hok : k.Ok ts) (t M : ℕ) :
  (k.acquire t M).Bound c L
  := by
  obtain ⟨hconditions, hpc⟩ := k.acquire_frame t M
  refine h.congr (congrFun hconditions c) ?_ (fun u _ _ howner => hok.owner_acquire howner t M)
  intro u N hu
  have hut : u ≠ t := by
    rintro rfl
    rw [Kernel.acquire] at hu
    split at hu
    · simp [Kernel.setPc] at hu
    · split at hu
      · simp [Kernel.setPc] at hu
      · simp [Kernel.setPc] at hu
  rw [← hpc u hut]
  apply hu

theorem Bound.release (h : k.Bound c L) (hpc : ∀ M, k.pc t ≠ .inBroadcast c M) (M : ℕ) :
  (k.release t M).Bound c L
  := by
  obtain ⟨hconditions, hsame⟩ := k.release_frame t M
  refine h.congr (congrFun hconditions c) ?_ ?_
  · intro u N hu
    rw [← hsame]
    apply hu
  · intro u N hu howner
    apply owner_release howner
    rintro rfl
    apply hpc N hu

theorem Bound.yield (h : k.Bound c L) (t : ℕ) :
  (k.yield t).Bound c L
  := by
  obtain ⟨hlocks, hconditions, hpc, -⟩ := k.yield_frame t
  refine h.congr (congrFun hconditions c) ?_ ?_
  · intro u M hu
    rw [← hpc]
    apply hu
  · intro u M _ howner
    rw [hlocks]
    apply howner

theorem Bound.sleep (h : k.Bound c L) :
  k.sleep.Bound c L
  := by
  apply h.congr
  · rw [conditions_sleep]
  · rw [pc_sleep]
    exact fun _ _ => id
  · rw [locks_sleep]
    exact fun _ _ _ => id

/-- The thread `v` is moved from the front of the queue of `c` to the ready list. -/
def wake (c L v : ℕ) (vs : List ℕ) (k : Kernel) : Kernel :=
  ((k.setCondition c ⟨if vs = [] then none else some L, vs⟩).record (.woken v c)).readyToRun v

/-- `Signal` of a thread that owns the lock wakes the thread that has waited longest. -/
theorem Bound.signal_cons (h : k.Bound c L) {u : ℕ} {us : List ℕ}
    (hqueue : (k.conditions c).waitQueue = u :: us) :
  k.signal c (some L) = k.wake c L u us
  := by
  have hwaiting := h.waitingLock
  rw [hqueue, if_neg (List.cons_ne_nil u us)] at hwaiting
  simp only [Kernel.signal, hqueue, hwaiting, if_true, wake]

/-- `Signal` changes nothing when no thread is waiting. -/
theorem signal_nil (M : Option ℕ) (hqueue : (k.conditions c).waitQueue = []) :
  k.signal c M = k
  := by
  rw [Kernel.signal.eq_def, hqueue]
  cases M with
  | none => rfl
  | some M => rfl

theorem Bound.signal (h : k.Bound c L) :
  (k.signal c (some L)).Bound c L
  := by
  cases hqueue : (k.conditions c).waitQueue with
  | nil =>
      rw [signal_nil _ hqueue]
      apply h
  | cons u us =>
      rw [h.signal_cons hqueue]
      constructor
      · simp [wake, readyToRun, Kernel.record, setCondition]
      · apply h.broadcasting

theorem Bound.signal_of_ne (h : k.Bound c L) {d : ℕ} (hd : d ≠ c) (M : Option ℕ) :
  (k.signal d M).Bound c L
  := by
  obtain ⟨hlocks, hpc, hconditions⟩ := k.signal_frame d M
  refine h.congr (hconditions c (Ne.symm hd)) ?_ ?_
  · intro u N hu
    rw [← hpc]
    apply hu
  · intro u N _ howner
    rw [hlocks]
    apply howner

theorem Bound.enqueue (h : k.Bound c L) {d M : ℕ} (hd : d = c → M = L) (t : ℕ) :
  (((k.setCondition d ⟨some M, (k.conditions d).waitQueue ++ [t]⟩).record
    (.waited t d)).setPc t (.inWait d M)).Bound c L
  := by
  refine Bound.setPc (k := (k.setCondition d ⟨some M, (k.conditions d).waitQueue ++ [t]⟩).record
    (.waited t d)) ?_ (by simp) t
  by_cases hdc : d = c
  · subst hdc
    obtain rfl := hd rfl
    constructor
    · simp [Kernel.record, setCondition]
    · apply h.broadcasting
  · refine h.congr ?_ (fun _ _ => id) (fun _ _ _ => id)
    apply Function.update_of_ne (Ne.symm hdc)

theorem Bound.wait (h : k.Bound c L) {d : ℕ} {M : Option ℕ} (hd : d = c → M = some L) (t : ℕ) :
  (k.wait t d M).Bound c L
  := by
  cases M with
  | none => apply h.setPc (by simp)
  | some M =>
      rw [Kernel.wait]
      split
      · apply Bound.sleep
        have hwait := h.enqueue (d := d) (M := M) (fun hdc => Option.some.inj (hd hdc)) t
        apply (hwait.record (.gaveUp t M)).release
        intro N hN
        have hpc := Function.update_self (f := k.pc) t (Pc.inWait d M)
        exact Pc.noConfusion (hpc.symm.trans hN)
      · apply h.setPc (by simp)

theorem Bound.broadcast (h : k.Bound c L) {d : ℕ} {M : Option ℕ}
    (hd : d = c → M = some L ∧ (k.locks L).owner = some t) :
  (k.broadcast t d M).Bound c L
  := by
  cases M with
  | none => apply h.setPc (by simp)
  | some M =>
      rw [Kernel.broadcast]
      split
      · by_cases hdc : d = c
        · subst hdc
          obtain ⟨hM, howner⟩ := hd rfl
          obtain rfl := Option.some.inj hM
          constructor
          · apply h.waitingLock
          · intro u N hu
            by_cases hut : u = t
            · subst hut
              have hself := Function.update_self (f := k.pc) u (Pc.inBroadcast d M)
              obtain ⟨-, rfl⟩ := Pc.inBroadcast.inj (hself.symm.trans hu)
              exact ⟨rfl, howner⟩
            · have hother := Function.update_of_ne (f := k.pc) hut (Pc.inBroadcast d M)
              apply h.broadcasting u N (hother.symm.trans hu)
        · apply h.setPc
          simp [hdc]
      · apply h.setPc (by simp)

theorem Bound.broadcastLoop (h : k.Bound c L) {d M : ℕ} (hpc : k.pc t = .inBroadcast d M) :
  (k.broadcastLoop t d M).Bound c L
  := by
  rw [Kernel.broadcastLoop]
  split
  · apply h.setPc (by simp)
  · by_cases hd : d = c
    · subst hd
      obtain ⟨rfl, -⟩ := h.broadcasting t M hpc
      apply h.signal
    · apply h.signal_of_ne hd

theorem Bound.call (h : k.Bound c L) (hok : k.Ok ts) (hrun : k.currentThread = some t)
    (hpc : k.pc t = .outside) {a : Action} (hdisc : k.Disciplined c L a)
    (hcall : k.call t a = some k') :
  k'.Bound c L
  := by
  cases a with
  | acquire M =>
      obtain rfl := Option.some.inj hcall
      apply h.acquire hok
  | release M =>
      obtain rfl := Option.some.inj hcall
      apply Bound.setPc _ (by simp)
      apply (h.record (.gaveUp t M)).release
      simp [Kernel.record, hpc]
  | wait d M =>
      obtain rfl := Option.some.inj hcall
      apply h.wait
      intro hd
      apply (hdisc hd).1
  | signal d M =>
      obtain rfl := Option.some.inj hcall
      apply Bound.setPc _ (by simp)
      by_cases hd : d = c
      · subst hd
        obtain ⟨rfl, -⟩ := hdisc rfl
        apply h.signal
      · apply h.signal_of_ne hd
  | broadcast d M =>
      obtain rfl := Option.some.inj hcall
      apply h.broadcast
      intro hd
      apply (hdisc hd).owner hrun
  | yield =>
      obtain rfl := Option.some.inj hcall
      apply Bound.yield
      apply h.setPc (by simp)
  | preempt => contradiction
  | proceed => contradiction

/-- Every action of a disciplined run keeps the binding. -/
theorem Bound.step (h : k.Bound c L) (hok : k.Ok ts) {a : Action} (hdisc : k.Disciplined c L a)
    (hstep : k.step a = some k') :
  k'.Bound c L
  := by
  obtain ⟨t, hrun, hsteps⟩ := step_cases hstep
  cases hsteps with
  | call hpc hcall => apply h.call hok hrun hpc hdisc hcall
  | preempt hpc => apply h.yield
  | @leave lock hpc =>
      cases lock with
      | none => apply h.setPc (by simp)
      | some M =>
          apply (h.record (.returned t M)).setPc (by simp)
  | acquired hpc => apply h.setPc (by simp)
  | woken hpc => apply h.acquire hok
  | loop hpc => apply h.broadcastLoop hpc

theorem bound_initial (t : ℕ) (ts : List ℕ) (c L : ℕ) :
  (initial t ts).Bound c L
  := by
  constructor
  · rfl
  · intro u M hu
    contradiction

/-! ### Waiting -/

/-- Actions only add to the history. -/
theorem history_step {a : Action} (hstep : k.step a = some k') :
  k.history <+: k'.history
  := by
  have hyield : ∀ (t : ℕ) (k : Kernel), k.history <+: (k.yield t).history := by
    intro t k
    use []
    rw [List.append_nil, (k.yield_frame t).2.2.2]
  have hrelease : ∀ (t M : ℕ) (k : Kernel), k.history <+: (k.release t M).history := by
    intro t M k
    rw [release]
    split
    · split
      · apply List.prefix_append
      · apply List.prefix_rfl
    · apply List.prefix_rfl
  have hacquire : ∀ (t M : ℕ) (k : Kernel), k.history <+: (k.acquire t M).history := by
    intro t M k
    rw [acquire]
    split
    · apply List.prefix_rfl
    · split
      · apply List.prefix_rfl
      · rw [history_sleep]
        apply List.prefix_append
  have hsignal : ∀ (d : ℕ) (M : Option ℕ) (k : Kernel),
      k.history <+: (k.signal d M).history := by
    intro d M k
    rw [signal.eq_def]
    split
    · split
      · apply List.prefix_append
      · apply List.prefix_rfl
    · apply List.prefix_rfl
  obtain ⟨t, hrun, hsteps⟩ := step_cases hstep
  cases hsteps with
  | @call a _ hpc hcall =>
      cases a with
      | acquire M =>
          obtain rfl := Option.some.inj hcall
          apply hacquire
      | release M =>
          obtain rfl := Option.some.inj hcall
          exact (List.prefix_append _ _).trans (hrelease t M (k.record (.gaveUp t M)))
      | wait d M =>
          obtain rfl := Option.some.inj hcall
          cases M with
          | none => apply List.prefix_rfl
          | some M =>
              rw [wait]
              split
              · rw [history_sleep]
                refine List.IsPrefix.trans ?_ (hrelease t M _)
                refine List.IsPrefix.trans ?_ (List.prefix_append _ _)
                apply List.prefix_append
              · apply List.prefix_rfl
      | signal d M =>
          obtain rfl := Option.some.inj hcall
          apply hsignal
      | broadcast d M =>
          obtain rfl := Option.some.inj hcall
          cases M with
          | none => apply List.prefix_rfl
          | some M =>
              rw [broadcast]
              split
              · apply List.prefix_rfl
              · apply List.prefix_rfl
      | yield =>
          obtain rfl := Option.some.inj hcall
          apply hyield t (k.setPc t (.leaving none))
      | preempt => contradiction
      | proceed => contradiction
  | preempt hpc =>
      apply hyield
  | @leave lock hpc =>
      cases lock with
      | none => apply List.prefix_rfl
      | some M => apply List.prefix_append
  | acquired hpc => apply List.prefix_rfl
  | woken hpc => apply hacquire
  | @loop d M hpc =>
      rw [broadcastLoop]
      split
      · apply List.prefix_rfl
      · apply hsignal

theorem history_run {as : List Action} (hrun : Transition.run step k as = some k') :
  k.history <+: k'.history
  := by
  induction as generalizing k with
  | nil =>
      obtain rfl := Option.some.inj hrun
      apply List.prefix_rfl
  | cons a as ih =>
      obtain ⟨k₁, hstep, hrun⟩ := Transition.run_cons.mp hrun
      apply (history_step hstep).trans (ih hrun)

/-- A thread that is waiting on `c` is waiting until it is woken. -/
theorem mem_waitQueue_or_woken (hok : k.Ok ts) (hok' : k'.Ok ts)
    (hhistory : k.history <+: k'.history) {u : ℕ} (hu : u ∈ (k.conditions c).waitQueue) :
  u ∈ (k'.conditions c).waitQueue ∨
    ∃ h, k'.history = k.history ++ h ∧ .woken u c ∈ h
  := by
  obtain ⟨h, hh⟩ := hhistory
  by_cases hu' : u ∈ (k'.conditions c).waitQueue
  · left
    apply hu'
  · right
    use h, hh.symm
    have horder := congrArg (List.count u) (hok.conditionOrder c)
    have horder' := congrArg (List.count u) (hok'.conditionOrder c)
    have hpos := List.count_pos_iff.mpr hu
    rw [← hh] at horder'
    simp only [List.filterMap_append, List.count_append, List.count_eq_zero.mpr hu'] at horder horder'
    have hwoken : 0 < List.count u (h.filterMap (Event.wokenFor c)) := by omega
    obtain ⟨e, he, hfor⟩ := List.mem_filterMap.mp (List.count_pos_iff.mp hwoken)
    cases e with
    | woken v d =>
        simp only [Event.wokenFor, Option.ite_none_right_eq_some, Option.some.injEq] at hfor
        obtain ⟨rfl, rfl⟩ := hfor
        apply he
    | _ => contradiction

/-! ### Broadcasting -/

/-- The thread `t` has done nothing to `c` and to the other threads. -/
structure Elsewhere (c t : ℕ) (k k' : Kernel) : Prop where
  condition : k'.conditions c = k.conditions c
  woken : k'.history.filterMap (Event.wokenFor c) = k.history.filterMap (Event.wokenFor c)
  pc : ∀ u, u ≠ t → k'.pc u = k.pc u

theorem Elsewhere.trans {k'' : Kernel} (h : Elsewhere c t k k') (h' : Elsewhere c t k' k'') :
  Elsewhere c t k k''
  := by
  constructor
  · rw [h'.condition, h.condition]
  · rw [h'.woken, h.woken]
  · intro u hu
    rw [h'.pc u hu, h.pc u hu]

theorem elsewhere_setPc (c t : ℕ) (pc : Pc) (k : Kernel) :
  Elsewhere c t k (k.setPc t pc)
  := ⟨rfl, rfl, fun _ hu => Function.update_of_ne hu _ _⟩

theorem elsewhere_record (t : ℕ) {e : Event} (he : e.wokenFor c = none) (k : Kernel) :
  Elsewhere c t k (k.record e)
  := ⟨rfl, k.filterMap_record he, fun _ _ => rfl⟩

theorem elsewhere_sleep (c t : ℕ) (k : Kernel) :
  Elsewhere c t k k.sleep
  := ⟨by rw [conditions_sleep], by rw [history_sleep], fun _ _ => by rw [pc_sleep]⟩

theorem elsewhere_yield (c t : ℕ) (k : Kernel) :
  Elsewhere c t k (k.yield t)
  := by
  obtain ⟨-, hconditions, hpc, hhistory⟩ := k.yield_frame t
  exact ⟨congrFun hconditions c, by rw [hhistory], fun u _ => congrFun hpc u⟩

theorem elsewhere_release (c t M : ℕ) (k : Kernel) :
  Elsewhere c t k (k.release t M)
  := by
  rw [release]
  split
  · split
    · exact ⟨rfl, filterMap_record _ rfl, fun _ _ => rfl⟩
    · exact ⟨rfl, rfl, fun _ _ => rfl⟩
  · exact ⟨rfl, rfl, fun _ _ => rfl⟩

theorem elsewhere_acquire (c t M : ℕ) (k : Kernel) :
  Elsewhere c t k (k.acquire t M)
  := by
  obtain ⟨hconditions, hpc⟩ := k.acquire_frame t M
  constructor
  · rw [hconditions]
  · rw [acquire]
    split
    · rfl
    · split
      · rfl
      · rw [history_sleep]
        exact filterMap_record _ rfl
  · apply hpc

theorem elsewhere_signal {d : ℕ} (hd : d ≠ c) (t : ℕ) (M : Option ℕ) (k : Kernel) :
  Elsewhere c t k (k.signal d M)
  := by
  obtain ⟨-, hpc, hconditions⟩ := k.signal_frame d M
  constructor
  · apply hconditions c (Ne.symm hd)
  · rw [signal.eq_def]
    split
    · split
      · exact filterMap_record _ (if_neg hd)
      · rfl
    · rfl
  · intro u _
    rw [hpc]

theorem elsewhere_wait {d : ℕ} (hd : d ≠ c) (t : ℕ) (M : Option ℕ) (k : Kernel) :
  Elsewhere c t k (k.wait t d M)
  := by
  cases M with
  | none => apply elsewhere_setPc
  | some M =>
      rw [wait]
      split
      · refine Elsewhere.trans ?_ (elsewhere_sleep c t _)
        refine Elsewhere.trans ?_ (elsewhere_release c t M _)
        refine Elsewhere.trans ?_ (elsewhere_record t rfl _)
        refine Elsewhere.trans ?_ (elsewhere_setPc c t _ _)
        refine Elsewhere.trans ?_ (elsewhere_record t rfl _)
        exact ⟨Function.update_of_ne (Ne.symm hd) _ _, rfl, fun _ _ => rfl⟩
      · apply elsewhere_setPc

theorem elsewhere_broadcast (c t d : ℕ) (M : Option ℕ) (k : Kernel) :
  Elsewhere c t k (k.broadcast t d M)
  := by
  cases M with
  | none => apply elsewhere_setPc
  | some M =>
      rw [broadcast]
      split
      · apply elsewhere_setPc
      · apply elsewhere_setPc

/-- A thread that does not own the lock does nothing to `c`. -/
theorem elsewhere_call (hrun : k.currentThread = some t) (howner : (k.locks L).owner ≠ some t)
    {a : Action} (hdisc : k.Disciplined c L a) (hcall : k.call t a = some k') :
  Elsewhere c t k k'
  := by
  have hne : ∀ {d : ℕ} {M : Option ℕ}, (d = c → k.Guarded L M) → d ≠ c := by
    intro d M hguarded hd
    apply howner ((hguarded hd).owner hrun).2
  cases a with
  | acquire M =>
      obtain rfl := Option.some.inj hcall
      apply elsewhere_acquire
  | release M =>
      obtain rfl := Option.some.inj hcall
      refine Elsewhere.trans ?_ (elsewhere_setPc c t _ _)
      refine Elsewhere.trans ?_ (elsewhere_release c t M _)
      exact elsewhere_record t rfl k
  | wait d M =>
      obtain rfl := Option.some.inj hcall
      apply elsewhere_wait (hne hdisc)
  | signal d M =>
      obtain rfl := Option.some.inj hcall
      refine Elsewhere.trans ?_ (elsewhere_setPc c t _ _)
      apply elsewhere_signal (hne hdisc)
  | broadcast d M =>
      obtain rfl := Option.some.inj hcall
      apply elsewhere_broadcast
  | yield =>
      obtain rfl := Option.some.inj hcall
      refine Elsewhere.trans ?_ (elsewhere_yield c t _)
      apply elsewhere_setPc
  | preempt => contradiction
  | proceed => contradiction

theorem Bound.elsewhere (h : k.Bound c L) (hrun : k.currentThread = some t)
    (howner : (k.locks L).owner ≠ some t) {a : Action} (hdisc : k.Disciplined c L a)
    (hstep : k.step a = some k') :
  Elsewhere c t k k'
  := by
  obtain ⟨u, hrun', hsteps⟩ := step_cases hstep
  obtain rfl := Option.some.inj (hrun.symm.trans hrun')
  cases hsteps with
  | call hpc hcall => apply elsewhere_call hrun howner hdisc hcall
  | preempt hpc => apply elsewhere_yield
  | @leave lock hpc =>
      cases lock with
      | none => apply elsewhere_setPc
      | some M =>
          refine Elsewhere.trans ?_ (elsewhere_setPc c t _ _)
          exact elsewhere_record t rfl k
  | acquired hpc => apply elsewhere_setPc
  | woken hpc => apply elsewhere_acquire
  | @loop d M hpc =>
      have hd : d ≠ c := by
        rintro rfl
        apply howner (h.broadcasting t M hpc).2
      rw [Kernel.broadcastLoop]
      split
      · apply elsewhere_setPc
      · apply elsewhere_signal hd

/-- How often the thread `u` goes on in an operation. -/
def loops (u : ℕ) : Kernel → List Action → ℕ
  | _, [] => 0
  | k, a :: as => (if k.currentThread = some u ∧ a = .proceed then 1 else 0) +
      ((k.step a).map (fun k' => loops u k' as)).getD 0

theorem loops_cons {u : ℕ} {a : Action} (hstep : k.step a = some k') (as : List Action) :
  loops u k (a :: as) = (if k.currentThread = some u ∧ a = .proceed then 1 else 0) + loops u k' as
  := by
  rw [loops, hstep]
  rfl

/-- An iteration of the loop of `Broadcast` wakes the thread that has waited longest. -/
theorem Bound.broadcastLoop_cons (h : k.Bound c L) {v : ℕ} {vs : List ℕ}
    (hqueue : (k.conditions c).waitQueue = v :: vs) (t : ℕ) :
  k.broadcastLoop t c L = k.wake c L v vs
  := by
  rw [Kernel.broadcastLoop, hqueue, if_neg (List.cons_ne_nil v vs), h.signal_cons hqueue]

/-- What `Broadcast` has done when it has not returned, and when it has. -/
structure Broadcasts (c L u : ℕ) (k k' : Kernel) (n : ℕ) (ws : List ℕ) : Prop where
  queue : (k.conditions c).waitQueue = ws ++ (k'.conditions c).waitQueue
  woken : k'.history.filterMap (Event.wokenFor c) = k.history.filterMap (Event.wokenFor c) ++ ws
  loops : k'.pc u = .inBroadcast c L ∧ n = ws.length ∨
    k'.pc u ≠ .inBroadcast c L ∧ (k'.conditions c).waitQueue = [] ∧ n ≤ ws.length + 1

/-- A step of another thread, or a switch, before the rest of the `Broadcast`. -/
theorem Broadcasts.of_elsewhere {u n : ℕ} {ws : List ℕ} {k₁ : Kernel}
    (h : Broadcasts c L u k₁ k' n ws) (hcondition : k₁.conditions c = k.conditions c)
    (hwoken : k₁.history.filterMap (Event.wokenFor c) =
      k.history.filterMap (Event.wokenFor c)) :
  Broadcasts c L u k k' n ws
  := by
  constructor
  · rw [← hcondition]
    apply h.queue
  · rw [← hwoken]
    apply h.woken
  · apply h.loops

/-- An iteration before the rest of the `Broadcast`. -/
theorem Broadcasts.of_wake {u v n : ℕ} {vs ws : List ℕ}
    (hqueue : (k.conditions c).waitQueue = v :: vs)
    (h : Broadcasts c L u (k.wake c L v vs) k' n ws) :
  Broadcasts c L u k k' (1 + n) (v :: ws)
  := by
  have hself : ((k.wake c L v vs).conditions c).waitQueue = vs := by
    simp [wake, readyToRun, record, setCondition]
  have hwoken : (k.wake c L v vs).history.filterMap (Event.wokenFor c) =
      k.history.filterMap (Event.wokenFor c) ++ [v] :=
    filterMap_record_some _ (if_pos rfl)
  constructor
  · rw [hqueue, ← hself, h.queue, List.cons_append]
  · rw [h.woken, hwoken, List.append_assoc, List.singleton_append]
  · rw [List.length_cons]
    obtain ⟨hpc, rfl⟩ | ⟨hpc, hempty, hn⟩ := h.loops
    · left
      exact ⟨hpc, Nat.add_comm _ _⟩
    · right
      exact ⟨hpc, hempty, by omega⟩

/-- `Broadcast` wakes the threads that are waiting when it is called, and no other threads, in the
order in which they came. -/
theorem broadcast_run {u : ℕ} {bs : List Action} (hok : k.Ok ts) (hbound : k.Bound c L)
    (hpc : k.pc u = .inBroadcast c L)
    (halong : Transition.Along step
      (fun k a => k.Disciplined c L a ∧ k.pc u = .inBroadcast c L) k bs)
    (hrun : Transition.run step k bs = some k') :
  k'.Bound c L ∧ ∃ ws, Broadcasts c L u k k' (loops u k bs) ws
  := by
  induction bs generalizing k with
  | nil =>
      obtain rfl := Option.some.inj hrun
      use hbound, []
      constructor
      · rfl
      · rw [List.append_nil]
      · left
        exact ⟨hpc, rfl⟩
  | cons a bs ih =>
      obtain ⟨k₁, hstep, hrun⟩ := Transition.run_cons.mp hrun
      obtain ⟨⟨hdisc, -⟩, hrest⟩ := halong
      have hok₁ := hok.step hstep
      have hbound₁ := hbound.step hok hdisc hstep
      rw [loops_cons hstep]
      obtain ⟨t, hcurrent, hsteps⟩ := step_cases hstep
      by_cases htu : t = u
      · subst htu
        cases hsteps with
        | call hout _ =>
            rw [hpc] at hout
            contradiction
        | preempt _ =>
            obtain ⟨-, hconditions, hsame, hhistory⟩ := k.yield_frame t
            obtain ⟨hbound', ws, hws⟩ := ih hok₁ hbound₁ (by rw [hsame, hpc]) (hrest _ hstep) hrun
            use hbound', ws
            simp only [reduceCtorEq, and_false, if_false, Nat.zero_add]
            exact hws.of_elsewhere (congrFun hconditions c) (by rw [hhistory])
        | leave hout =>
            rw [hpc] at hout
            contradiction
        | acquired hout =>
            rw [hpc] at hout
            contradiction
        | woken hout =>
            rw [hpc] at hout
            contradiction
        | loop hloop =>
            rw [hpc] at hloop
            obtain ⟨rfl, rfl⟩ := Pc.inBroadcast.inj hloop
            simp only [hcurrent, and_self, if_true]
            cases hqueue : (k.conditions c).waitQueue with
            | nil =>
                have hdone : k.broadcastLoop t c L = k.setPc t .outside := if_pos hqueue
                have hpc₁ : (k.setPc t .outside).pc t = .outside := Function.update_self _ _ _
                rw [hdone] at hstep hrun hbound₁
                cases bs with
                | nil =>
                    obtain rfl := Option.some.inj hrun
                    use hbound₁, []
                    constructor
                    · rfl
                    · rw [List.append_nil]
                      rfl
                    · right
                      rw [hpc₁]
                      exact ⟨Pc.noConfusion, hqueue, Nat.le_refl _⟩
                | cons b bs =>
                    have hagain := (hrest _ hstep).1.2
                    rw [hpc₁] at hagain
                    contradiction
            | cons v vs =>
                rw [hbound.broadcastLoop_cons hqueue] at *
                obtain ⟨hbound', ws, hws⟩ := ih hok₁ hbound₁ hpc (hrest _ hstep) hrun
                exact ⟨hbound', v :: ws, hws.of_wake hqueue⟩
      · have howner : (k.locks L).owner ≠ some t := by
          rw [(hbound.broadcasting u L hpc).2]
          intro heq
          apply htu (Option.some.inj heq).symm
        have helse := hbound.elsewhere hcurrent howner hdisc hstep
        have hpc₁ := helse.pc u (Ne.symm htu)
        obtain ⟨hbound', ws, hws⟩ := ih hok₁ hbound₁ (by rw [hpc₁, hpc]) (hrest _ hstep) hrun
        use hbound', ws
        have hne : ¬ (k.currentThread = some u ∧ a = .proceed) := by
          rintro ⟨hu, -⟩
          apply htu
          apply Option.some.inj
          rw [← hcurrent, hu]
        rw [if_neg hne, Nat.zero_add]
        exact hws.of_elsewhere helse.condition helse.woken

/-! ### Runs -/

/-- A thread in the loop of `Broadcast` is not blocked. -/
theorem Ok.running_or_ready (h : k.Ok ts) {u : ℕ} (hu : u ∈ ts)
    (hpc : k.pc u = .inBroadcast c L) :
  k.currentThread = some u ∨ u ∈ k.readyList
  := by
  obtain ⟨p, hp⟩ := (h.places.mem_iff u).mp hu
  cases p with
  | running =>
      left
      simpa [queue] using hp
  | ready =>
      right
      apply hp
  | lock M =>
      have hlock := h.lockQueue u M hp
      rw [hpc] at hlock
      contradiction
  | condition d =>
      obtain ⟨M, hwait⟩ := h.conditionQueue u d hp
      rw [hpc] at hwait
      contradiction

/-- The running thread `u` is in none of the operations and owns the lock `L`. -/
structure Entered (L u : ℕ) (k : Kernel) : Prop where
  running : k.currentThread = some u
  pc : k.pc u = .outside
  owner : (k.locks L).owner = some u

theorem step_call {u : ℕ} (hu : k.Entered L u) (a : Action) :
  k.step a = k.call u a
  := by
  simp only [Kernel.step, hu.running, Option.bind_eq_bind, Option.bind_some, hu.pc]

/-- An action of a thread in the loop of `Broadcast`. -/
theorem step_loop {u : ℕ} (hrun : k.currentThread = some u) (hpc : k.pc u = .inBroadcast c L) :
  k.step .proceed = some (k.broadcastLoop u c L)
  := by
  simp only [Kernel.step, hrun, Option.bind_eq_bind, Option.bind_some, hpc]

/-- The `Wait` of a thread that owns the lock puts it into the queue and releases the lock in one
step. -/
theorem Bound.wait_entered (h : k.Bound c L) (hok : k.Ok ts) {u : ℕ} (hu : k.Entered L u) :
  u ∈ ((k.wait u c (some L)).conditions c).waitQueue ∧
    ((k.wait u c (some L)).locks L).owner ≠ some u
  := by
  have haccepted : (k.conditions c).waitingLock = none ∨
      (k.conditions c).waitingLock = some L := by
    rw [h.waitingLock]
    split
    · left
      rfl
    · right
      rfl
  rw [Kernel.wait, if_pos haccepted, conditions_sleep, locks_sleep, (release_frame _ _ _).1]
  constructor
  · simp [Kernel.record, Kernel.setPc, setCondition]
  · apply owner_release_ne
    exact hok.not_mem hu.running (p := .lock L) Place.noConfusion

/-- A thread in the loop of `Broadcast` is not blocked. When it runs, it leaves the loop if no
thread is waiting, and otherwise moves the one that has waited longest to the ready list. -/
structure Looping (c L u : ℕ) (k : Kernel) : Prop where
  notBlocked : k.currentThread = some u ∨ u ∈ k.readyList
  last : k.currentThread = some u → (k.conditions c).waitQueue = [] →
    k.step .proceed = some (k.setPc u .outside)
  next : k.currentThread = some u → ∀ v vs, (k.conditions c).waitQueue = v :: vs →
    k.step .proceed = some (k.wake c L v vs)

theorem Bound.looping (h : k.Bound c L) (hok : k.Ok ts) {u : ℕ} (hu : u ∈ ts)
    (hpc : k.pc u = .inBroadcast c L) :
  Looping c L u k
  := by
  constructor
  · apply hok.running_or_ready hu hpc
  · intro hcurrent hqueue
    rw [step_loop hcurrent hpc, Kernel.broadcastLoop, if_pos hqueue]
  · intro hcurrent v vs hqueue
    rw [step_loop hcurrent hpc, h.broadcastLoop_cons hqueue]

/-- The `Broadcast` of a thread that owns the lock, as long as it has not returned. -/
theorem Bound.broadcast_entered (h : k.Bound c L) (hok : k.Ok ts) {u : ℕ} (hu : u ∈ ts)
    (hentered : k.Entered L u) {bs : List Action} {k₂ : Kernel}
    (halong : Transition.Along Kernel.step
      (fun k a => k.Disciplined c L a ∧ k.pc u = .inBroadcast c L) (k.broadcast u c (some L)) bs)
    (hrun : Transition.run Kernel.step (k.broadcast u c (some L)) bs = some k₂) :
  (∃ ws, Broadcasts c L u k k₂ (loops u (k.broadcast u c (some L)) bs) ws) ∧
    (k₂.pc u = .inBroadcast c L → Looping c L u k₂)
  := by
  have hok₁ : (k.broadcast u c (some L)).Ok ts := hok.broadcast hentered.running c (some L)
  have hbound₁ : (k.broadcast u c (some L)).Bound c L :=
    h.broadcast (fun _ => ⟨rfl, hentered.owner⟩)
  have hwaiting := h.waitingLock
  by_cases hqueue : (k.conditions c).waitQueue = []
  · rw [if_pos hqueue] at hwaiting
    have hnone : k.broadcast u c (some L) = k.setPc u (.leaving none) := by
      rw [Kernel.broadcast, hwaiting]
      rfl
    have hpc₁ : (k.setPc u (.leaving none)).pc u = .leaving none := Function.update_self _ _ _
    rw [hnone] at halong hrun ⊢
    cases bs with
    | nil =>
        obtain rfl := Option.some.inj hrun
        rw [hpc₁]
        refine ⟨⟨[], rfl, ?_, ?_⟩, Pc.noConfusion⟩
        · rw [List.append_nil]
          rfl
        · right
          rw [hpc₁]
          exact ⟨Pc.noConfusion, hqueue, Nat.zero_le _⟩
    | cons b bs =>
        have hagain := halong.1.2
        rw [hpc₁] at hagain
        contradiction
  · rw [if_neg hqueue] at hwaiting
    have hloop : k.broadcast u c (some L) = k.setPc u (.inBroadcast c L) := if_pos hwaiting
    have hpc₁ : (k.setPc u (.inBroadcast c L)).pc u = .inBroadcast c L := Function.update_self _ _ _
    rw [hloop] at halong hrun hok₁ hbound₁ ⊢
    obtain ⟨hbound₂, ws, hws⟩ := broadcast_run hok₁ hbound₁ hpc₁ halong hrun
    constructor
    · use ws
      exact hws.of_elsewhere rfl rfl
    · apply hbound₂.looping (hok₁.of_run hrun) hu

theorem ok_bound_of_run {t : ℕ} {ts : List ℕ} (hnodup : (t :: ts).Nodup) {as : List Action}
    (halong : Transition.Along step (fun k a => k.Disciplined c L a) (initial t ts) as)
    (hrun : Transition.run step (initial t ts) as = some k) :
  k.Ok (t :: ts) ∧ k.Bound c L
  := by
  refine Transition.run_invariant (I := fun k => k.Ok (t :: ts) ∧ k.Bound c L) ?_
    ⟨ok_initial hnodup, bound_initial t ts c L⟩ halong hrun
  rintro s a s' ⟨hok, hbound⟩ hdisc hstep
  exact ⟨hok.step hstep, hbound.step hok hdisc hstep⟩

/-- The threads wait on `c` in the order in which they came. In a run in which `c` is used only by
threads that own the lock `L`, the `Signal` of such a thread changes nothing if no thread is waiting,
and otherwise moves the one that has waited longest to the ready list. Its `Broadcast` moves the
threads that are waiting when it is called, and no others: it is never blocked, and goes through its
loop once for each of them. Its `Wait` puts it into the queue and releases the lock in one step, and
from then on it is in the queue until it is woken. -/
theorem conditions_mesa {t : ℕ} {ts : List ℕ} (hnodup : (t :: ts).Nodup) {as : List Action}
    (halong : Transition.Along step (fun k a => k.Disciplined c L a) (initial t ts) as)
    (hrun : Transition.run step (initial t ts) as = some k) :
  k.history.filterMap (Event.waitedFor c) =
      k.history.filterMap (Event.wokenFor c) ++ (k.conditions c).waitQueue ∧
    ∀ u ∈ t :: ts, k.Entered L u →
      ((k.conditions c).waitQueue = [] →
        k.step (.signal c (some L)) = some (k.setPc u (.leaving none))) ∧
      (∀ v vs, (k.conditions c).waitQueue = v :: vs →
        k.step (.signal c (some L)) = some ((k.wake c L v vs).setPc u (.leaving none))) ∧
      (∃ k₁, k.step (.broadcast c (some L)) = some k₁ ∧
        ∀ bs k₂, Transition.Along step
            (fun k a => k.Disciplined c L a ∧ k.pc u = .inBroadcast c L) k₁ bs →
          Transition.run step k₁ bs = some k₂ →
          (∃ ws, Broadcasts c L u k k₂ (loops u k₁ bs) ws) ∧
            (k₂.pc u = .inBroadcast c L → Looping c L u k₂)) ∧
      (∃ k₁, k.step (.wait c (some L)) = some k₁ ∧ u ∈ (k₁.conditions c).waitQueue ∧
        (k₁.locks L).owner ≠ some u ∧
        ∀ bs k₂, Transition.run step k₁ bs = some k₂ →
          u ∈ (k₂.conditions c).waitQueue ∨
            ∃ h, k₂.history = k₁.history ++ h ∧ .woken u c ∈ h)
  := by
  obtain ⟨hok, hbound⟩ := ok_bound_of_run hnodup halong hrun
  use hok.conditionOrder c
  intro u hu hentered
  refine ⟨?_, ?_, ?_, ?_⟩
  · intro hqueue
    rw [step_call hentered, call, signal_nil _ hqueue]
  · intro v vs hqueue
    rw [step_call hentered, call, hbound.signal_cons hqueue]
  · use k.broadcast u c (some L), step_call hentered _
    intro bs k₂ halong' hrun'
    apply hbound.broadcast_entered hok hu hentered halong' hrun'
  · obtain ⟨hmem, howner⟩ := hbound.wait_entered hok hentered
    have hstep : k.step (.wait c (some L)) = some (k.wait u c (some L)) := step_call hentered _
    use k.wait u c (some L), hstep, hmem, howner
    intro bs k₂ hrun'
    have hok₁ := hok.step hstep
    apply mem_waitQueue_or_woken hok₁ (hok₁.of_run hrun') (history_run hrun') hmem

/-- Thread `7` waits on a condition variable, and thread `8` acquires its lock. -/
def waitingActions : List Action :=
  [.acquire 0, .proceed, .wait 3 (some 0), .acquire 0, .preempt, .proceed]

theorem conditions_mesa_waiting :
  ∃ k, Transition.run step (initial 7 [8]) waitingActions = some k ∧
    (k.conditions 3).waitQueue = [7] ∧
    k.step (.signal 3 (some 0)) = some ((k.wake 3 0 7 []).setPc 8 (.leaving none))
  := by
  have hsome : (Transition.run step (initial 7 [8]) waitingActions).map
      (fun k => (k.currentThread, k.pc 8, (k.locks 0).owner, (k.conditions 3).waitQueue)) =
      some (some 8, .outside, some 8, [7]) := by
    decide
  obtain ⟨k, hrun, heq⟩ := Option.map_eq_some_iff.mp hsome
  simp only [Prod.mk.injEq] at heq
  obtain ⟨hcurrent, hpc, howner, hqueue⟩ := heq
  use k, hrun, hqueue
  have hmesa := conditions_mesa (t := 7) (c := 3) (L := 0) (by decide) (by decide) hrun
  exact (hmesa.2 8 (by decide) ⟨hcurrent, hpc, howner⟩).2.1 7 [] hqueue

end Kernel

end Nachos.Monitor
