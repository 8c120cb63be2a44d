import Nachos.Monitor.Code

/-!
# The order in which threads obtain a lock

Code in which a lock is acquired only in order to come to certain positions. The threads that leave
these positions do so in the order in which they have obtained the lock, and all but the last one of
those that have obtained it have left (`Exec.Turns`).
-/

namespace Nachos.Monitor

/-- The thread that returns from `Acquire` of the lock `L`. -/
def Event.returnedFor (L : ℕ) : Event → Option ℕ
  | .returned t M => if M = L then some t else none
  | _ => none

/-- The thread is in `Acquire` of the lock `L`, or in a `Wait` that acquires it. -/
def Pc.entering (L : ℕ) : Pc → Bool
  | .leaving (some M) | .inAcquire M | .inWait _ M => M == L
  | _ => false

namespace Kernel

variable {k k' : Kernel} {t u L : ℕ} {a : Action}

/-- The threads that have obtained the lock `L`, in this order. -/
def turns (k : Kernel) (L : ℕ) : List ℕ := k.history.filterMap (Event.returnedFor L)

theorem turns_congr (h : k'.history = k.history) (L : ℕ) :
  k'.turns L = k.turns L
  := by
  rw [turns, h, turns]

theorem turns_record (k : Kernel) {e : Event} (he : e.returnedFor L = none) :
  (k.record e).turns L = k.turns L
  := k.filterMap_record he

theorem turns_acquire (k : Kernel) (t M L : ℕ) :
  (k.acquire t M).turns L = k.turns L
  := by
  rw [Kernel.acquire]
  split
  · rfl
  · split
    · rfl
    · rw [turns_congr (history_sleep _)]
      exact (k.setLock M _).turns_record rfl

theorem turns_release (k : Kernel) (t M L : ℕ) :
  (k.release t M).turns L = k.turns L
  := by
  rw [Kernel.release]
  split
  · split
    · exact (k.setLock M _).turns_record rfl
    · rfl
  · rfl

theorem turns_signal (k : Kernel) (c : ℕ) (M : Option ℕ) (L : ℕ) :
  (k.signal c M).turns L = k.turns L
  := by
  rw [Kernel.signal.eq_def]
  split
  · split
    · exact (k.setCondition c _).turns_record rfl
    · rfl
  · rfl

/-- No thread returns when an operation is called. -/
theorem turns_call (hcall : k.call t a = some k') (L : ℕ) :
  k'.turns L = k.turns L
  := by
  cases a with
  | acquire M =>
      obtain rfl := Option.some.inj hcall
      exact k.turns_acquire t M L
  | release M =>
      obtain rfl := Option.some.inj hcall
      exact ((k.record (.gaveUp t M)).turns_release t M L).trans (k.turns_record rfl)
  | wait c M =>
      obtain rfl := Option.some.inj hcall
      rw [Kernel.wait.eq_def]
      split
      · rfl
      · rename_i N
        split
        · rw [turns_congr (history_sleep _), turns_release, turns_record _ rfl]
          exact (k.setCondition c _).turns_record rfl
        · rfl
  | signal c M =>
      obtain rfl := Option.some.inj hcall
      exact k.turns_signal c M L
  | broadcast c M =>
      obtain rfl := Option.some.inj hcall
      rw [Kernel.broadcast.eq_def]
      split
      · rfl
      · split
        · rfl
        · rfl
  | yield =>
      obtain rfl := Option.some.inj hcall
      exact turns_congr (yield_frame t _).2.2.2 L
  | preempt => contradiction
  | proceed => contradiction

/-- A thread that calls `Acquire` is in it. -/
theorem entering_acquire (k : Kernel) (t M L : ℕ) :
  ((k.acquire t M).pc t).entering L = (M == L)
  := by
  have hset : ∀ (k : Kernel) (pc : Pc), (k.setPc t pc).pc t = pc :=
    fun _ _ => Function.update_self _ _ _
  rw [Kernel.acquire]
  split
  · rw [hset]
    rfl
  · split
    · rw [hset]
      rfl
    · rw [pc_sleep, hset]
      rfl

/-- A thread that calls another operation is not in `Acquire`. -/
theorem entering_call (hcall : k.call t a = some k') (hacquire : a ≠ .acquire L)
    (hwait : ∀ c, a ≠ .wait c (some L)) :
  (k'.pc t).entering L = false
  := by
  have hset : ∀ (k : Kernel) (pc : Pc), (k.setPc t pc).pc t = pc :=
    fun _ _ => Function.update_self _ _ _
  cases a with
  | acquire M =>
      obtain rfl := Option.some.inj hcall
      rw [entering_acquire, beq_eq_false_iff_ne]
      rintro rfl
      contradiction
  | release M =>
      obtain rfl := Option.some.inj hcall
      rw [hset]
      rfl
  | wait c M =>
      obtain rfl := Option.some.inj hcall
      rw [Kernel.wait.eq_def]
      split
      · rw [hset]
        rfl
      · rename_i N
        split
        · rw [pc_sleep, (release_frame t N _).2]
          simp only [record, hset, Pc.entering, beq_eq_false_iff_ne]
          rintro rfl
          exact hwait c rfl
        · rw [hset]
          rfl
  | signal c M =>
      obtain rfl := Option.some.inj hcall
      rw [hset]
      rfl
  | broadcast c M =>
      obtain rfl := Option.some.inj hcall
      rw [Kernel.broadcast.eq_def]
      split
      · rw [hset]
        rfl
      · split
        · rw [hset]
          rfl
        · rw [hset]
          rfl
  | yield =>
      obtain rfl := Option.some.inj hcall
      rw [(yield_frame t _).2.2.1, hset]
      rfl
  | preempt => contradiction
  | proceed => contradiction

/-- The running thread yields, or goes on in an operation. It may be the next one to have obtained the
lock. -/
theorem turns_step (ha : a = .yield ∨ a = .preempt ∨ a = .proceed) (hstep : k.step a = some k')
    (L : ℕ) :
  (k'.turns L = k.turns L ∧ ∀ u, (k'.pc u).entering L = (k.pc u).entering L) ∨
    ∃ t, k.pc t = .leaving (some L) ∧ k'.turns L = k.turns L ++ [t] ∧
      (k'.pc t).entering L = false ∧ ∀ u, u ≠ t → k'.pc u = k.pc u
  := by
  obtain ⟨t, hrun, hsteps⟩ := step_cases hstep
  have hset : ∀ {pc : Pc}, pc.entering L = (k.pc t).entering L → ∀ u,
      ((k.setPc t pc).pc u).entering L = (k.pc u).entering L := by
    intro pc hpc u
    by_cases hut : u = t
    · have hself : (k.setPc t pc).pc t = pc := Function.update_self _ _ _
      rw [hut, hself, hpc]
    · have hother : (k.setPc t pc).pc u = k.pc u := Function.update_of_ne hut _ _
      rw [hother]
  cases hsteps with
  | call hpc hcall =>
      left
      obtain rfl | rfl | rfl := ha
      · have hturns := turns_call hcall L
        obtain rfl := Option.some.inj hcall
        use hturns
        rw [(yield_frame t _).2.2.1]
        apply hset
        rw [hpc]
        rfl
      · contradiction
      · contradiction
  | preempt hpc => exact .inl ⟨turns_congr (k.yield_frame t).2.2.2 L, by simp [k.yield_frame t]⟩
  | @leave lock hpc =>
      cases lock with
      | none =>
          refine .inl ⟨rfl, hset ?_⟩
          rw [hpc]
          rfl
      | some M =>
          by_cases hML : M = L
          · subst hML
            right
            use t, hpc
            refine ⟨?_, ?_, fun u hu => Function.update_of_ne hu _ _⟩
            · exact k.filterMap_record_some (if_pos rfl)
            · have hself : (k.leave t (some M)).pc t = .outside := Function.update_self _ _ _
              rw [hself]
              rfl
          · refine .inl ⟨k.turns_record (if_neg hML), hset ?_⟩
            rw [hpc]
            exact (beq_eq_false_iff_ne.mpr hML).symm
  | @acquired M hpc =>
      refine .inl ⟨rfl, hset ?_⟩
      rw [hpc]
      rfl
  | @woken c M hpc =>
      refine .inl ⟨k.turns_acquire t M L, ?_⟩
      intro u
      by_cases hut : u = t
      · rw [hut, entering_acquire, hpc]
        rfl
      · rw [(k.acquire_frame t M).2 u hut]
  | @loop c M hpc =>
      left
      rw [broadcastLoop]
      split
      · refine ⟨rfl, hset ?_⟩
        rw [hpc]
        rfl
      · refine ⟨k.turns_signal c (some M) L, ?_⟩
        rw [(k.signal_frame c (some M)).2.1]
        exact fun _ => rfl

end Kernel

/-! ### Code -/

/-- The code acquires the lock `L` exactly in order to come to the positions `acquiring`. Only a thread
that leaves such a position changes `log`. -/
structure Code.Logs {σ π ι : Type} (code : Code σ π ι) (L : ℕ) (acquiring : π → Prop)
    (log : σ → List ℕ) : Prop where
  acquires : ∀ t p s i s' e p', code.next t p s i = some (s', e, p') →
    (acquiring p' ↔ e = .call (.acquire L)) ∧ ∀ c, e ≠ .call (.wait c (some L))
  keeps : ∀ t p s i s' e p', code.next t p s i = some (s', e, p') → ¬ acquiring p → log s' = log s
  interrupts : ∀ s i s' us, code.interrupt s i = some (s', us) → log s' = log s

namespace Exec

variable {σ π ι : Type} {code : Code σ π ι} {holds : π → ℕ → Prop} {acquiring : π → Prop}
  {log : σ → List ℕ} {x x' : Exec σ π} {m : Move ι} {t L : ℕ}

/-- The threads in `log` are those that have obtained the lock, but for the one that is going to be
added. -/
structure Turns (L : ℕ) (acquiring : π → Prop) (log : σ → List ℕ) (x : Exec σ π) : Prop where
  entering : ∀ t, (x.kernel.pc t).entering L = true → acquiring (x.pos t)
  entered : ∀ t, acquiring (x.pos t) → (x.kernel.pc t).entering L = false →
    x.kernel.turns L = log x.data ++ [t]
  rest : (∀ t, acquiring (x.pos t) → (x.kernel.pc t).entering L = true) →
    x.kernel.turns L = log x.data

/-- A thread that has obtained the lock owns it. -/
theorem Ok.owner_of_entered (h : x.Ok holds) (hholds : holds (x.pos t) L)
    (hentered : (x.kernel.pc t).entering L = false) :
  (x.kernel.locks L).owner = some t
  := by
  apply (h.held t L hholds).owner
  · intro hpc
    simp [hpc, Pc.entering] at hentered
  · intro c hpc
    simp [hpc, Pc.entering] at hentered

theorem Turns.order (h : x.Turns L acquiring log) :
  ∃ next : Option ℕ, x.kernel.turns L = log x.data ++ next.toList
  := by
  by_cases hall : ∀ t, acquiring (x.pos t) → (x.kernel.pc t).entering L = true
  · use none
    rw [h.rest hall, Option.toList_none, List.append_nil]
  · push Not at hall
    obtain ⟨t, ht, hentered⟩ := hall
    use some t
    exact h.entered t ht (by simpa using hentered)

/-- A thread makes a step. -/
theorem Turns.run (hcode : code.Logs L acquiring log) (hholds : ∀ p, acquiring p → holds p L)
    (hok : x.Ok holds) (h : x.Turns L acquiring log) {i : ι} (hpc : x.kernel.pc t = .outside)
    {data : σ} {effect : Effect} {p : π}
    (hnext : code.next t (x.pos t) x.data i = some (data, effect, p))
    (hleaves : acquiring (x.pos t) → log data = log x.data ++ [t] ∧ ¬ acquiring p) {kernel : Kernel}
    {threads : List ℕ} (happly : x.apply t effect = some (kernel, threads)) :
  Turns L acquiring log ⟨kernel, threads, data, Function.update x.pos t p⟩
  := by
  obtain ⟨hacquires, hwaits⟩ := hcode.acquires _ _ _ _ _ _ _ hnext
  have houtside : (x.kernel.pc t).entering L = false := by
    rw [hpc]
    rfl
  have hframe : kernel.turns L = x.kernel.turns L ∧ (∀ u, u ≠ t → kernel.pc u = x.kernel.pc u) ∧
      ((kernel.pc t).entering L = true ↔ effect = .call (.acquire L)) := by
    cases effect with
    | compute | wake =>
        obtain ⟨rfl, rfl⟩ := Prod.mk.inj (Option.some.inj happly)
        exact ⟨rfl, fun _ _ => rfl, by simpa [Kernel.readyToRun] using houtside⟩
    | park =>
        obtain ⟨rfl, rfl⟩ := Prod.mk.inj (Option.some.inj happly)
        rw [Kernel.pc_sleep]
        exact ⟨Kernel.turns_congr (Kernel.history_sleep _) L, fun _ _ => rfl, by simpa using houtside⟩
    | call a =>
        obtain ⟨k, hcall, heq⟩ := Option.map_eq_some_iff.mp happly
        obtain ⟨rfl, rfl⟩ := Prod.mk.inj heq
        refine ⟨Kernel.turns_call hcall L, fun u hu => Kernel.pc_call_of_ne hcall hu, ?_⟩
        by_cases ha : a = .acquire L
        · subst ha
          obtain rfl := Option.some.inj hcall
          simp [Kernel.entering_acquire]
        · have hnot := Kernel.entering_call hcall ha (fun c heq => hwaits c (by rw [heq]))
          simp [hnot, ha]
  obtain ⟨hturns, hothers, hself⟩ := hframe
  have hother : ∀ {u}, u ≠ t → Function.update x.pos t p u = x.pos u :=
    fun hut => Function.update_of_ne hut _ _
  have hentering : ∀ u, (kernel.pc u).entering L = true → acquiring (Function.update x.pos t p u) := by
    intro u hu
    by_cases hut : u = t
    · subst hut
      rw [Function.update_self]
      exact hacquires.mpr (hself.mp hu)
    · rw [hother hut]
      rw [hothers u hut] at hu
      exact h.entering u hu
  by_cases hbefore : acquiring (x.pos t)
  · obtain ⟨hlog, hafter⟩ := hleaves hbefore
    have hlogged : kernel.turns L = log data := by
      rw [hturns, h.entered t hbefore houtside, hlog]
    refine ⟨hentering, ?_, fun _ => hlogged⟩
    intro u hu hentered
    by_cases hut : u = t
    · simp only [hut, Function.update_self] at hu
      contradiction
    · simp only [hother hut] at hu
      simp only [hothers u hut] at hentered
      have howner := hok.owner_of_entered (hholds _ hbefore) houtside
      have howner' := hok.owner_of_entered (hholds _ hu) hentered
      exact absurd (Option.some.inj (howner'.symm.trans howner)) hut
  · have hlog := hcode.keeps _ _ _ _ _ _ _ hnext hbefore
    refine ⟨hentering, ?_, ?_⟩
    · intro u hu hentered
      by_cases hut : u = t
      · subst hut
        simp only [Function.update_self] at hu
        simp only [hself.mpr (hacquires.mp hu)] at hentered
        contradiction
      · simp only [hother hut] at hu
        simp only [hothers u hut] at hentered
        simp only [hturns, hlog]
        exact h.entered u hu hentered
    · intro hall
      simp only [hturns, hlog]
      apply h.rest
      intro u hu
      have hut : u ≠ t := fun heq => hbefore (heq ▸ hu)
      have hentering' := hall u (by simpa only [hother hut] using hu)
      simpa only [hothers u hut] using hentering'

/-- The running thread yields, or goes on in an operation. -/
theorem Turns.kernel (hholds : ∀ p, acquiring p → holds p L) (hok : x.Ok holds)
    (h : x.Turns L acquiring log) {a : Kernel.Action} {k : Kernel}
    (ha : a = .yield ∨ a = .preempt ∨ a = .proceed) (hstep : x.kernel.step a = some k) :
  Turns L acquiring log { x with kernel := k }
  := by
  obtain ⟨hturns, hsame⟩ | ⟨t, hpc, hturns, hentered, hothers⟩ := Kernel.turns_step ha hstep L
  · refine ⟨?_, ?_, ?_⟩
    · simpa only [hsame] using h.entering
    · simpa only [hturns, hsame] using h.entered
    · simpa only [hturns, hsame] using h.rest
  · have hacquiring : acquiring (x.pos t) := by
      apply h.entering
      simp [hpc, Pc.entering]
    have honly : ∀ u, acquiring (x.pos u) → (x.kernel.pc u).entering L = false → u = t := by
      intro u hu hu'
      have howner := hok.owner_of_entered (hholds _ hu) hu'
      have howner' := hok.kernel.leaving t L hpc
      exact Option.some.inj (howner.symm.trans howner')
    have hlogged : x.kernel.turns L = log x.data := by
      apply h.rest
      intro u hu
      by_contra hu'
      obtain rfl := honly u hu (by simpa using hu')
      simp [hpc, Pc.entering] at hu'
    refine ⟨?_, ?_, ?_⟩
    · intro u hu
      by_cases hut : u = t
      · rw [hut]
        exact hacquiring
      · simp only [hothers u hut] at hu
        exact h.entering u hu
    · intro u hu hu'
      have hut : u = t := by
        by_contra hut
        simp only [hothers u hut] at hu'
        exact hut (honly u hu hu')
      simp only [hturns, hlogged, hut]
    · intro hall
      have hentering := hall t hacquiring
      simp only [hentered] at hentering
      contradiction

theorem turns_wakeAll (k : Kernel) (us : List ℕ) (L : ℕ) :
  (wakeAll k us).turns L = k.turns L
  := by
  have hready : (us.foldl (fun k u => k.readyToRun u) k).history = k.history := by
    apply List.foldlRecOn (motive := fun k' : Kernel => k'.history = k.history) us _ rfl
    intro k' hk' u _
    exact hk'
  rw [wakeAll]
  split
  · exact Kernel.turns_congr ((Kernel.history_sleep _).trans hready) L
  · exact Kernel.turns_congr hready L

/-- Every move keeps the order, when a thread that leaves a position `acquiring` is added to `log`. -/
theorem Turns.step (hcode : code.Logs L acquiring log) (hholds : ∀ p, acquiring p → holds p L)
    (hok : x.Ok holds) (h : x.Turns L acquiring log)
    (hleaves : ∀ t i s e p, x.kernel.pc t = .outside →
      code.next t (x.pos t) x.data i = some (s, e, p) → acquiring (x.pos t) →
        log s = log x.data ++ [t] ∧ ¬ acquiring p)
    (hstep : x.step code m = some x') :
  x'.Turns L acquiring log
  := by
  cases step_cases hstep with
  | run hrun hpc hnext happly =>
      exact h.run hcode hholds hok hpc hnext (hleaves _ _ _ _ _ hpc hnext) happly
  | kernel ha henabled hk => exact h.kernel hholds hok ha hk
  | @interrupt i data us henabled hinterrupt =>
      have hlog := hcode.interrupts _ _ _ _ hinterrupt
      have hpc := (wakeAll_frame x.kernel us).2.2
      refine ⟨?_, ?_, ?_⟩
      · simpa only [hpc] using h.entering
      · simpa only [hpc, hlog, turns_wakeAll] using h.entered
      · simpa only [hpc, hlog, turns_wakeAll] using h.rest

theorem turns_initial {ts : List ℕ} {data : σ} {p : π} (hp : ¬ acquiring p) (hlog : log data = []) :
  (initial t ts data p).Turns L acquiring log
  := by
  refine ⟨?_, fun u hu => absurd hu hp, ?_⟩
  · intro u hu
    cases hu
  · intro _
    simp [initial, Kernel.turns, Kernel.initial, hlog]

end Exec

end Nachos.Monitor
