import Mathlib.Data.List.TakeWhile
import Nachos.Simulation.Accounts

/-!
# The assertions of the manager

In the test for the sales the manager asserts that it has counted what the customers have spent, and in
the test for the passports that as many have been counted as there are customers. If the manager signals
cashiers only when they are on their break, then an assertion fails if and only if something is due, or
not counted, when it is evaluated (`assertions_hold_iff`).
-/

namespace Nachos.Simulation

open Monitor Threads

variable {S : Setup} {x x' : Exec Data Pos} {m : Move Bool} {t c : ℕ}

/-- The invariant of the simulation. -/
structure Ok (S : Setup) (x : Exec Data Pos) : Prop where
  sound : x.Sound Pos.holds Pos.last guard
  placed : Placed x.view
  forked : Forked S x.view
  books : Books S x.view

/-- The manager does not signal a cashier that is not on its break. -/
def Proper (x : Exec Data Pos) (m : Move Bool) : Prop := ∀ t, x.mover m = some t → Polite x.view t

/-- When the manager has counted the money nothing is due, and when it closes the office every passport
has been counted. -/
structure Settled (S : Setup) (x : Exec Data Pos) (m : Move Bool) : Prop where
  due : ∀ t, x.mover m = some t → x.pos t = .manager .counting → S.choice = 6 →
    ∀ c < S.numCustomers, due x.view c = 0
  uncounted : ∀ t, x.mover m = some t → x.pos t = .manager .counted → S.choice = 3 →
    (checkClose S x.data).1 = true → ∀ c < S.numCustomers, uncounted x.view c = 0

/-- An assertion has failed. -/
def Failed (x : Exec Data Pos) : Prop := ∃ t, x.pos t = .manager .failed

/-! ### Every move keeps the invariant -/

theorem Ok.nodup_wakes (h : Ok S x) (m : Move Bool) :
  (x.wakes (code S) m ++ x.threads).Nodup
  := by
  have hnodup := h.sound.ok.nodup
  cases m with
  | yield | preempt | proceed => exact hnodup
  | interrupt i => exact hnodup
  | run i =>
      simp only [Exec.wakes]
      split
      · exact hnodup
      · rename_i t _
        split
        · rename_i d' u p' hnext
          have hstep := next_step hnext
          generalize hp : x.pos t = p at hstep
          cases hstep with
          | wake u ts =>
              have ht : t = Thread.main.id := by
                rw [← h.placed.id_thread t, show x.view.pos t = _ from hp]
                rfl
              subst ht
              have hmain := h.forked.nodup _ hp
              rw [List.map_cons, List.cons_append] at hmain
              exact hmain.sublist ((List.sublist_append_right _ _).cons_cons _)
          | manager hstep => cases hstep
          | clerk hstep => cases hstep
          | customer hstep => cases hstep
        · exact hnodup

theorem placed_of_sound (hsound : x.Sound Pos.holds Pos.last guard)
    (hthread : ∀ t, (x.pos t).thread = Thread.ofId t) (hvalid : ∀ t, (x.pos t).Valid) :
  Placed x.view
  := ⟨hthread, hvalid, fun _ _ ht => hsound.last_of_mem ht, hsound.nodup⟩

/-- Every move keeps the invariant, if the manager is polite. -/
theorem Ok.step (h : Ok S x) (hproper : Proper x m) (hstep : x.step (code S) m = some x') :
  Ok S x'
  := by
  obtain ⟨hsound, hview⟩ := h.sound.step (code_monitored S) (h.nodup_wakes m) hstep
  generalize hv : x'.view = v' at hview
  generalize hmover : x.mover m = a at hview
  cases hview with
  | same =>
      have hplaced := h.placed
      have hforked := h.forked
      have hbooks := h.books
      rw [← hv] at hplaced hforked hbooks
      exact ⟨hsound, hplaced, hforked, hbooks⟩
  | @run t i data effect p hfree hnext =>
      have hthread := next_step hnext
      have hafter : x'.view = after x.view t data effect p := hv
      have hplaced : Placed x'.view := by
        apply placed_of_sound hsound
        · intro u
          have hpos : x'.pos u = (after x.view t data effect p).pos u := by
            rw [← hafter]
            rfl
          rw [hpos]
          by_cases hut : u = t
          · subst hut
            rw [pos_after_self, hthread.thread]
            exact h.placed.thread u
          · rw [pos_after_of_ne hut]
            exact h.placed.thread u
        · intro u
          have hpos : x'.pos u = (after x.view t data effect p).pos u := by
            rw [← hafter]
            rfl
          rw [hpos]
          by_cases hut : u = t
          · subst hut
            rw [pos_after_self]
            exact hthread.valid (h.placed.valid u)
          · rw [pos_after_of_ne hut]
            exact h.placed.valid u
      refine ⟨hsound, hplaced, ?_, ?_⟩
      · rw [hafter]
        exact h.forked.step h.placed hthread
      · rw [hafter]
        exact h.books.step h.placed h.forked hfree (hproper t hmover) hthread

theorem pos_initial (S : Setup) (u : Thread) :
  (initial S).view.pos u.id = Pos.start S u
  := by
  change Pos.start S (Thread.ofId u.id) = _
  rw [Thread.ofId_id]

theorem books_initial (S : Setup) :
  Books S (initial S).view
  := by
  have hphase : ∀ j t, phase (initial S).view j t = .away := by
    intro j t
    change (Pos.start S (Thread.ofId t)).phase j _ = _
    cases Thread.ofId t <;> rfl
  have hservice : ∀ j, service (initial S).view j = .idle := by
    intro j
    rw [service, cashierId, pos_initial]
    rfl
  have hdue : ∀ c, due (initial S).view c = 0 := by
    intro c
    rw [due, pos_initial]
    rfl
  have huncounted : ∀ c, uncounted (initial S).view c = 0 := by
    intro c
    rw [uncounted, pos_initial]
    rfl
  constructor
  · intro j
    constructor
    · intro t
      rw [hphase, hservice]
      trivial
    · exact fun t _ ht _ => absurd (hphase j t) ht
    · intro hbusy
      rw [hservice] at hbusy
      simp [Service.Busy] at hbusy
    · intro t c p _ hknown
      rw [hphase] at hknown
      simp at hknown
  · rw [Finset.sum_congr rfl (fun c _ => hdue c)]
    simp [Exec.view, initial, Data.initial, Data.total, clerkMoney]
  · intro _ _
    rw [Finset.sum_congr rfl (fun c _ => huncounted c)]
    simp [Exec.view, initial, Data.initial, numPaid]
  · intro c hc
    cases hc
  · intro t c s j ht
    change Pos.start S (Thread.ofId t) = _ at ht
    generalize Thread.ofId t = u at ht
    cases u <;> cases ht
  · intro t c q ht hq
    change Pos.start S (Thread.ofId t) = _ at ht
    generalize Thread.ofId t = u at ht
    cases u with
    | customer c' =>
        obtain ⟨-, rfl⟩ := Pos.customer.inj ht
        exact absurd rfl hq
    | main | manager | clerk => cases ht

theorem ok_initial (S : Setup) :
  Ok S (initial S)
  := by
  have hsound : (initial S).Sound Pos.holds Pos.last guard := by
    apply Exec.sound_initial (List.nodup_singleton _)
    intro t L hL
    generalize Thread.ofId t = u at hL
    cases u <;> cases hL
  refine ⟨hsound, placed_of_sound hsound ?_ ?_, ?_, books_initial S⟩
  · intro t
    change (Pos.start S (Thread.ofId t)).thread = _
    cases Thread.ofId t <;> rfl
  · intro t
    change (Pos.start S (Thread.ofId t)).Valid
    cases Thread.ofId t <;> trivial
  · constructor
    · intro ts hts
      rw [pos_initial] at hts
      obtain rfl := Pos.main.inj hts
      have hnodup := S.nodup_threads.map (f := Thread.id) (fun _ _ h => Thread.id_injective h)
      rw [List.map_cons] at hnodup
      exact List.nodup_middle.mpr (by rwa [List.append_nil])
    · intro ts hts
      rw [pos_initial] at hts
      obtain rfl := Pos.main.inj hts
      exact fun u hu => hu
    · intro u hu
      exact .inl (List.mem_singleton.mp hu)

/-! ### When an assertion fails -/

theorem due_nonneg (v : SimView) (c : ℕ) :
  0 ≤ due v c
  := by
  rw [due]
  split
  · norm_num
  · split <;> norm_num
  · norm_num

theorem uncounted_nonneg (v : SimView) (c : ℕ) :
  0 ≤ uncounted v c
  := by
  rw [uncounted]
  split
  · split <;> norm_num
  · norm_num

/-- What the manager counts is what has been spent if and only if nothing is due. -/
theorem Books.total_iff {v : SimView} (h : Books S v) :
  (managerCountMoney S v.data).total = v.data.totalSpent ↔ ∀ c < S.numCustomers, due v c = 0
  := by
  have hsum := Finset.sum_eq_zero_iff_of_nonneg (s := Finset.range S.numCustomers)
    (fun c _ => due_nonneg v c)
  simp only [Finset.mem_range] at hsum
  rw [total_managerCountMoney, h.money, ← hsum]
  omega

theorem checkCustomers_paid {us : List CustomerData} (h : (checkCustomers us).1 = true) :
  ∀ u ∈ us, u.paid = true
  := by
  induction us with
  | nil => simp
  | cons u us ih =>
      rw [checkCustomers] at h
      split at h
      · cases h
      · split at h
        · cases h
        · rename_i hdone
          simp only [Bool.or_eq_true, Bool.not_eq_true', not_or, Bool.not_eq_false] at hdone
          exact List.forall_mem_cons.mpr ⟨hdone.2, ih h⟩

theorem numPaid_of_checkClose {d : Data} (h : (checkClose S d).1 = true) :
  numPaid S d = S.numCustomers
  := by
  have hpaid : ∀ c ∈ Finset.range S.numCustomers,
      (if (d.customerData c).paid then (1 : ℤ) else 0) = 1 := by
    intro c hc
    rw [if_pos]
    apply checkCustomers_paid h
    exact List.mem_map.mpr ⟨c, List.mem_range.mpr (Finset.mem_range.mp hc), rfl⟩
  rw [numPaid, Finset.sum_congr rfl hpaid]
  simp

/-- As many passports have been counted as there are customers if and only if none is left. -/
theorem Books.numPassports_iff {v : SimView} (h : Books S v) (hchoice : S.choice = 3)
    (hopen : v.pos Thread.manager.id ≠ .manager .closed) (hdone : (checkClose S v.data).1 = true) :
  v.data.numPassports = S.numCustomers ↔ ∀ c < S.numCustomers, uncounted v c = 0
  := by
  have hsum := Finset.sum_eq_zero_iff_of_nonneg (s := Finset.range S.numCustomers)
    (fun c _ => uncounted_nonneg v c)
  simp only [Finset.mem_range] at hsum
  have hpassports := h.passports hchoice hopen
  rw [numPaid_of_checkClose hdone] at hpassports
  rw [← hsum]
  omega

theorem ne_failed_of_checkLines {k : ℕ} {rest : List ClerkId} {d d' : Data} {e : Effect}
    {p' : ManagerPos} (h : managerCheckLines k rest d = (d', e, p')) :
  p' ≠ .failed
  := by
  rw [managerCheckLines] at h
  split at h
  · obtain ⟨-, -, rfl⟩ := by simpa using h
    simp
  · obtain ⟨-, -, rfl⟩ := by simpa using h
    simp

theorem ne_failed_of_wakeClerks {rest : List ClerkId} {d d' : Data} {e : Effect} {p' : ManagerPos}
    (h : managerWakeClerks S rest d = (d', e, p')) :
  p' ≠ .failed
  := by
  rw [managerWakeClerks] at h
  split at h
  · obtain ⟨-, -, rfl⟩ := by simpa using h
    simp
  · exact ne_failed_of_checkLines h

/-- A step of the manager fails if and only if something is not settled. -/
theorem Ok.manager_failed_iff (h : Ok S x) {p p' : ManagerPos} {d' : Data} {e : Effect}
    (ht : x.pos t = .manager p) (hmover : x.mover m = some t)
    (hnext : manager S p x.data = some (d', e, p')) :
  p' = .failed ↔ ¬ Settled S x m
  := by
  have hself : t = Thread.manager.id := by
    rw [← h.placed.id_thread t, show x.view.pos t = _ from ht]
    rfl
  -- what has to be settled depends on where the manager is
  have hsettled : (p = .counting → S.choice = 6 → ∀ c < S.numCustomers, due x.view c = 0) →
      (p = .counted → S.choice = 3 → (checkClose S x.data).1 = true →
        ∀ c < S.numCustomers, uncounted x.view c = 0) → Settled S x m := by
    intro hdue huncounted
    constructor
    · intro u hu hpos
      obtain rfl := Option.some.inj (hmover.symm.trans hu)
      exact hdue (Pos.manager.inj (ht.symm.trans hpos))
    · intro u hu hpos
      obtain rfl := Option.some.inj (hmover.symm.trans hu)
      exact huncounted (Pos.manager.inj (ht.symm.trans hpos))
  cases p with
  | counting =>
      simp only [manager] at hnext
      split at hnext
      · rename_i hfail
        obtain ⟨-, -, rfl⟩ := by simpa using hnext
        refine ⟨fun _ hok => hfail.2 ?_, fun _ => rfl⟩
        exact h.books.total_iff.mpr (hok.due t hmover ht hfail.1)
      · rename_i hfail
        obtain ⟨-, -, rfl⟩ := by simpa using hnext
        refine ⟨by simp, fun hnot => absurd (hsettled ?_ (by simp)) hnot⟩
        intro _ hchoice
        apply h.books.total_iff.mp
        by_contra hne
        exact hfail ⟨hchoice, hne⟩
  | counted =>
      have hopen : x.view.pos Thread.manager.id ≠ .manager .closed := by
        rw [← hself, show x.view.pos t = _ from ht]
        simp
      simp only [manager] at hnext
      split at hnext
      · rename_i hdone
        split at hnext
        · rename_i hfail
          obtain ⟨-, -, rfl⟩ := by simpa using hnext
          refine ⟨fun _ hok => hfail.2 ?_, fun _ => rfl⟩
          exact (h.books.numPassports_iff hfail.1 hopen hdone).mpr
            (hok.uncounted t hmover ht hfail.1 hdone)
        · rename_i hfail
          obtain ⟨-, -, rfl⟩ := by simpa using hnext
          refine ⟨by simp, fun hnot => absurd (hsettled (by simp) ?_) hnot⟩
          intro _ hchoice _
          apply (h.books.numPassports_iff hchoice hopen hdone).mp
          by_contra hne
          exact hfail ⟨hchoice, hne⟩
      · rename_i hdone
        have hne : p' ≠ .failed := by
          split at hnext
          · exact ne_failed_of_wakeClerks (Option.some.inj hnext)
          · exact ne_failed_of_checkLines (Option.some.inj hnext)
        exact ⟨fun heq => absurd heq hne,
          fun hnot => absurd (hsettled (by simp) (fun _ _ hdone' => absurd hdone' hdone)) hnot⟩
  | start | clerkLock | signalled | released | yielded | closed | failed =>
      have hne : p' ≠ .failed := by
        have hstep := manager_step hnext
        cases hstep <;> simp
      exact ⟨fun heq => absurd heq hne, fun hnot => absurd (hsettled (by simp) (by simp)) hnot⟩

/-- A move leads to a failure if and only if something is not settled. -/
theorem Ok.failed_iff (h : Ok S x) (hfailed : ¬ Failed x) (hstep : x.step (code S) m = some x') :
  Failed x' ↔ ¬ Settled S x m
  := by
  -- a move in which the manager makes no step
  have hother : (∀ t, x'.pos t = .manager .failed → x.pos t = .manager .failed) →
      (∀ t p, x.mover m = some t → x.pos t ≠ .manager p) → (Failed x' ↔ ¬ Settled S x m) := by
    intro hpos hmover
    constructor
    · rintro ⟨t, ht⟩
      exact absurd ⟨t, hpos t ht⟩ hfailed
    · intro hnot
      refine absurd ⟨?_, ?_⟩ hnot
      · exact fun t ht hp => absurd hp (hmover t _ ht)
      · exact fun t ht hp => absurd hp (hmover t _ ht)
  cases m with
  | run i =>
      obtain ⟨t, hrun, hstep⟩ := Option.bind_eq_some_iff.mp hstep
      split at hstep
      · obtain ⟨⟨d', e, p'⟩, hnext, hstep⟩ := Option.bind_eq_some_iff.mp hstep
        obtain ⟨⟨kernel, threads⟩, -, hstep⟩ := Option.bind_eq_some_iff.mp hstep
        obtain rfl := Option.some.inj hstep
        have hself : ∀ u, (Function.update x.pos t p') u = .manager .failed →
            x.pos u = .manager .failed ∨ p' = .manager .failed := by
          intro u hu
          by_cases hut : u = t
          · subst hut
            rw [Function.update_self] at hu
            exact .inr hu
          · rw [Function.update_of_ne hut] at hu
            exact .inl hu
        have hthread := (next_step hnext).thread
        cases hp : x.pos t with
        | manager p =>
            change next S i x.data (x.pos t) = _ at hnext
            rw [hp] at hnext
            obtain ⟨⟨d', e, q'⟩, hmanager, heq⟩ := Option.map_eq_some_iff.mp hnext
            obtain ⟨rfl, rfl, rfl⟩ := by simpa using heq
            rw [← h.manager_failed_iff (m := .run i) hp hrun hmanager]
            constructor
            · rintro ⟨u, hu⟩
              obtain hu | hu := hself u hu
              · exact absurd ⟨u, hu⟩ hfailed
              · exact Pos.manager.inj hu
            · rintro rfl
              exact ⟨t, Function.update_self _ _ _⟩
        | main | clerk | customer =>
            apply hother
            · intro u hu
              apply (hself u hu).resolve_right
              rintro rfl
              rw [hp] at hthread
              cases hthread
            · intro u q hu hq
              obtain rfl := Option.some.inj (hrun.symm.trans hu)
              cases hp.symm.trans hq
      · cases hstep
  | yield | preempt =>
      simp only [Exec.step, Option.ite_none_right_eq_some] at hstep
      obtain ⟨k, -, rfl⟩ := Option.map_eq_some_iff.mp hstep.2
      exact hother (fun _ ht => ht) (by simp [Exec.mover])
  | proceed =>
      obtain ⟨k, -, rfl⟩ := Option.map_eq_some_iff.mp hstep
      exact hother (fun _ ht => ht) (by simp [Exec.mover])
  | interrupt i =>
      simp only [Exec.step, Option.ite_none_right_eq_some] at hstep
      cases hstep.2

/-- A manager whose assertion has failed does not go on. -/
theorem failed_step (hfailed : Failed x) (hstep : x.step (code S) m = some x') :
  Failed x'
  := by
  obtain ⟨t, ht⟩ := hfailed
  use t
  cases Exec.step_cases hstep with
  | @run u i d' e p' kernel threads hrun hpc hnext happly =>
      have hne : t ≠ u := by
        rintro rfl
        change next S i x.data (x.pos t) = _ at hnext
        rw [ht] at hnext
        cases hnext
      exact (Function.update_of_ne hne _ _).trans ht
  | kernel => exact ht
  | interrupt => exact ht

/-- If the manager signals cashiers only when they are on their break, then no assertion fails in a run
if and only if everything is settled whenever one is evaluated. -/
theorem assertions_hold_iff {ms : List (Move Bool)}
    (hrun : Transition.run (Exec.step (code S)) (initial S) ms = some x)
    (hproper : Transition.Along (Exec.step (code S)) Proper (initial S) ms) :
  ¬ Failed x ↔ Transition.Along (Exec.step (code S)) (Settled S) (initial S) ms
  := by
  have hinitial : ¬ Failed (initial S) := by
    rintro ⟨t, ht⟩
    change Pos.start S (Thread.ofId t) = _ at ht
    generalize Thread.ofId t = u at ht
    cases u <;> cases ht
  have hok := ok_initial S
  generalize initial S = y at hrun hproper hinitial hok
  induction ms generalizing y with
  | nil =>
      obtain rfl := Option.some.inj hrun
      exact ⟨fun _ => trivial, fun _ => hinitial⟩
  | cons m ms ih =>
      obtain ⟨z, hstep, hrest⟩ := Transition.run_cons.mp hrun
      rw [Transition.along_cons hstep] at hproper ⊢
      have hiff := hok.failed_iff hinitial hstep
      by_cases hsettled : Settled S y m
      · have hz : ¬ Failed z := fun hz => hiff.mp hz hsettled
        exact (ih z hrest hproper.2 hz (hok.step hproper.1 hstep)).trans
          ⟨fun h => ⟨hsettled, h⟩, fun h => h.2⟩
      · have hx : Failed x := by
          apply Transition.run_invariant (I := Failed) (P := fun _ _ => True) _ (hiff.mpr hsettled) _ hrest
          · exact fun _ _ _ h _ hs => failed_step h hs
          · exact Transition.along_of_forall (fun _ _ => trivial) z ms
        exact ⟨fun h => absurd hx h, fun h => absurd h.1 hsettled⟩

/-! ### A run in which an assertion fails -/

theorem next_manager (S : Setup) (t : ℕ) (p : ManagerPos) (d : Data) (random : Bool) :
  (code S).next t (.manager p) d random = (manager S p d).map (fun (d, e, p) => (d, e, .manager p))
  := rfl

/-- A thread that holds no lock signals nobody. -/
theorem proper_of_held {x : Exec Data Pos} {m : Move Bool}
    (h : ∀ t, x.mover m = some t → (x.pos t).held = []) :
  Proper x m
  := by
  intro t ht q a rest hpos
  have hheld := h t ht
  rw [show x.pos t = _ from hpos] at hheld
  cases hheld

/-- The manager yields again and again, and `main` is interrupted whenever it runs. -/
def looping (S : Setup) (p : ManagerPos) : Exec Data Pos where
  kernel :=
    { Kernel.initial Thread.manager.id [Thread.main.id] with
      pc := fun t => if t ≤ 1 then .leaving none else .outside }
  threads := [Thread.manager.id, Thread.main.id]
  data := Data.initial S
  pos
    | 0 => .main S.threads.tail
    | 1 => .manager p
    | t => Pos.start S (Thread.ofId t)

/-- The manager yields, and `main` is interrupted. -/
def cycle : List (Move Bool) := [.proceed, .run false, .preempt]

theorem run_cycle {p p' : ManagerPos}
    (h : manager S p (Data.initial S) = some (Data.initial S, .call .yield, p')) :
  Transition.run (Exec.step (code S)) (looping S p) cycle = some (looping S p')
  := by
  have hnext : (code S).next 1 (.manager p) (Data.initial S) false =
      some (Data.initial S, .call .yield, .manager p') := by
    rw [next_manager, h]
    rfl
  have hpos : Function.update (looping S p).pos 1 (.manager p') = (looping S p').pos := by
    funext t
    match t with
    | 0 | 1 | t + 2 => rfl
  have hpc : Function.update (Function.update (looping S p).kernel.pc 1 .outside) 1 (.leaving none) =
      (looping S p).kernel.pc := by
    rw [Function.update_idem]
    exact Function.update_eq_self 1 _
  have hrun : Exec.step (code S)
      { looping S p with kernel := (looping S p).kernel.setPc 1 .outside } (.run false) =
      some ⟨⟨some 0, [1], (looping S p).kernel.locks, (looping S p).kernel.conditions,
          (looping S p).kernel.pc, []⟩, [1, 0], Data.initial S, (looping S p').pos⟩ := by
    rw [← hpos, ← hpc]
    exact Exec.step_run rfl rfl hnext rfl
  rw [cycle, Transition.run_cons]
  refine ⟨_, rfl, Transition.run_cons.mpr ⟨_, hrun, rfl⟩⟩

/-- The manager gets from one position to another while `main` is interrupted, and signals no cashier. -/
def Loops (S : Setup) (p p' : ManagerPos) : Prop :=
  ∃ ms, Transition.run (Exec.step (code S)) (looping S p) ms = some (looping S p') ∧
    Transition.Along (Exec.step (code S)) Proper (looping S p) ms

theorem Loops.trans {p₁ p₂ p₃ : ManagerPos} (h : Loops S p₁ p₂) (h' : Loops S p₂ p₃) :
  Loops S p₁ p₃
  := by
  obtain ⟨ms, hrun, hproper⟩ := h
  obtain ⟨ms', hrun', hproper'⟩ := h'
  refine ⟨ms ++ ms', Transition.run_append.mpr ⟨_, hrun, hrun'⟩, ?_⟩
  refine Transition.along_append.mpr ⟨hproper, ?_⟩
  intro x hx
  obtain rfl := Option.some.inj (hrun.symm.trans hx)
  exact hproper'

theorem loops_cycle {p p' : ManagerPos} (hp : p.held = [])
    (h : manager S p (Data.initial S) = some (Data.initial S, .call .yield, p')) :
  Loops S p p'
  := by
  refine ⟨cycle, run_cycle h, ⟨?_, ?_⟩⟩
  · intro t ht
    cases ht
  · intro y hy
    obtain rfl := Option.some.inj hy
    refine ⟨?_, ?_⟩
    · intro t ht q a rest hpos
      obtain rfl := Option.some.inj ht
      obtain rfl := Pos.manager.inj hpos
      cases hp
    · intro z hz
      refine ⟨?_, fun _ _ => trivial⟩
      intro t ht
      cases ht

/-- No clerk is woken before a customer has come. -/
theorem checkLines_initial (S : Setup) (k : ℕ) :
  managerCheckLines k S.clerks (Data.initial S) = (Data.initial S, .call .yield, .yielded k 1)
  := by
  have hdrop : S.clerks.dropWhile (fun a => !(Purpose.checkLines k).wakes (Data.initial S) a) = [] := by
    rw [List.dropWhile_eq_nil_iff]
    intro a _
    simp [Purpose.wakes, Data.initial]
  rw [managerCheckLines, hdrop]

theorem loops_yielded (S : Setup) (k n : ℕ) (hn : n < 70) :
  Loops S (.yielded k 1) (.yielded k (n + 1))
  := by
  induction n with
  | zero => exact ⟨[], rfl, trivial⟩
  | succ n ih =>
      apply (ih (by omega)).trans
      apply loops_cycle rfl
      rw [manager, if_pos (by omega)]

/-- The manager goes through its loop before it counts the money. -/
theorem loops_checkLines (S : Setup) (k : ℕ) (hk : k < 60) :
  Loops S (.yielded 0 1) (.yielded k 70)
  := by
  induction k with
  | zero => exact loops_yielded S 0 69 (by omega)
  | succ k ih =>
      apply (ih (by omega)).trans
      have hnext : Loops S (.yielded k 70) (.yielded (k + 1) 1) := by
        apply loops_cycle rfl
        rw [manager, if_neg (by omega), if_pos hk, checkLines_initial]
      exact hnext.trans (loops_yielded S (k + 1) 69 (by omega))

/-- The manager can come to count the money before a customer has come. -/
theorem comes_to_count (S : Setup) :
  ∃ ms, Transition.run (Exec.step (code S)) (initial S) ms = some (looping S (.yielded 59 70)) ∧
    Transition.Along (Exec.step (code S)) Proper (initial S) ms
  := by
  obtain ⟨ms, hrun, hproper⟩ := loops_checkLines S 59 (by omega)
  have hpos : Function.update (Function.update (initial S).pos 0 (.main S.threads.tail)) 1
      (.manager (.yielded 0 1)) = (looping S (.yielded 0 1)).pos := by
    funext t
    match t with
    | 0 | 1 | t + 2 => rfl
  have hpc : Function.update (Function.update (initial S).kernel.pc 0 (.leaving none)) 1
      (.leaving none) = (looping S (.yielded 0 1)).kernel.pc := by
    funext t
    match t with
    | 0 | 1 | t + 2 => rfl
  have hnext : (code S).next 1 (.manager .start) (Data.initial S) false =
      some (Data.initial S, .call .yield, .manager (.yielded 0 1)) := by
    rw [next_manager, manager, checkLines_initial]
    rfl
  -- `main` forks the manager and is interrupted
  have hfork : Transition.run (Exec.step (code S)) (initial S) [.run false, .yield] =
      some ⟨⟨some 1, [0], (initial S).kernel.locks, (initial S).kernel.conditions,
          Function.update (initial S).kernel.pc 0 (.leaving none), []⟩, [1, 0], Data.initial S,
        Function.update (initial S).pos 0 (.main S.threads.tail)⟩ := rfl
  have hstart : Exec.step (code S) ⟨⟨some 1, [0], (initial S).kernel.locks,
          (initial S).kernel.conditions, Function.update (initial S).kernel.pc 0 (.leaving none), []⟩,
        [1, 0], Data.initial S, Function.update (initial S).pos 0 (.main S.threads.tail)⟩ (.run false) =
      some ⟨⟨some 0, [1], (initial S).kernel.locks, (initial S).kernel.conditions,
          (looping S (.yielded 0 1)).kernel.pc, []⟩, [1, 0], Data.initial S,
        (looping S (.yielded 0 1)).pos⟩ := by
    rw [← hpos, ← hpc]
    exact Exec.step_run rfl rfl hnext rfl
  have hloop : Transition.run (Exec.step (code S)) (initial S)
      ([.run false, .yield] ++ [.run false, .preempt]) = some (looping S (.yielded 0 1)) :=
    Transition.run_append.mpr ⟨_, hfork, Transition.run_cons.mpr ⟨_, hstart, rfl⟩⟩
  have hforks : Transition.Along (Exec.step (code S)) Proper (initial S) [.run false, .yield] := by
    refine ⟨proper_of_held (fun t ht => by cases ht; rfl), fun y _ => ?_⟩
    exact ⟨proper_of_held (fun t ht => by cases ht), fun _ _ => trivial⟩
  refine ⟨_, Transition.run_append.mpr ⟨_, hloop, hrun⟩, Transition.along_append.mpr ⟨?_, ?_⟩⟩
  · refine Transition.along_append.mpr ⟨hforks, fun y hy => ?_⟩
    obtain rfl := Option.some.inj (hfork.symm.trans hy)
    refine (Transition.along_cons hstart).mpr ⟨?_, ?_, fun _ _ => trivial⟩
    · exact proper_of_held (fun t ht => by cases ht; rfl)
    · exact proper_of_held (fun t ht => by cases ht)
  · intro x hx
    obtain rfl := Option.some.inj (hloop.symm.trans hx)
    exact hproper

/-- The test for the sales, where every customer has 600 dollars. -/
def t6TotalSales : Setup := ⟨3, fun _ => 1, 6, fun _ => 1⟩

/-- A customer has spent a bribe, and waits for the lock of the money, when the manager counts it. -/
theorem not_assertions_hold :
  ¬ ∀ (S : Setup) (ms : List (Move Bool)) (x : Exec Data Pos),
    Transition.run (Exec.step (code S)) (initial S) ms = some x → ¬ Failed x
  := by
  intro hall
  obtain ⟨ms, hrun, -⟩ := comes_to_count t6TotalSales
  -- the manager obtains the lock and is interrupted, as are the clerks; the first customer gets in
  -- line and the second one bribes
  obtain ⟨x, hcount, hfailed⟩ : ∃ x, Transition.run (Exec.step (code t6TotalSales))
      (looping t6TotalSales (.yielded 59 70))
      ([.proceed, .run false, .preempt, .proceed] ++ List.replicate 7 (.run false) ++
        [.run true, .preempt] ++ List.replicate 4 .yield ++
        [.run false, .proceed, .run false, .run false, .proceed, .run false, .yield, .proceed,
          .run false]) = some x ∧ x.pos Thread.manager.id = .manager .failed := ⟨_, rfl, rfl⟩
  exact hall t6TotalSales _ x (Transition.run_append.mpr ⟨_, hrun, hcount⟩) ⟨_, hfailed⟩

/-- The manager counts the money before a customer has come. -/
theorem assertions_hold_counted :
  ∃ ms x, Transition.run (Exec.step (code t6TotalSales)) (initial t6TotalSales) ms = some x ∧
    x.pos Thread.manager.id = .manager .counted ∧ (¬ Failed x ↔
      Transition.Along (Exec.step (code t6TotalSales)) (Settled t6TotalSales) (initial t6TotalSales) ms)
  := by
  obtain ⟨ms, hrun, hproper⟩ := comes_to_count t6TotalSales
  obtain ⟨x, hcount, hpos⟩ : ∃ x, Transition.run (Exec.step (code t6TotalSales))
      (looping t6TotalSales (.yielded 59 70)) [.proceed, .run false, .proceed, .run false] = some x ∧
      x.pos Thread.manager.id = .manager .counted := ⟨_, rfl, rfl⟩
  have hrun' := Transition.run_append.mpr ⟨_, hrun, hcount⟩
  refine ⟨_, x, hrun', hpos, assertions_hold_iff hrun' (Transition.along_append.mpr ⟨hproper, ?_⟩)⟩
  intro y hy
  obtain rfl := Option.some.inj (hrun.symm.trans hy)
  refine ⟨proper_of_held (fun t ht => by cases ht), fun y hy => ?_⟩
  obtain rfl := Option.some.inj hy
  refine ⟨proper_of_held (fun t ht => by cases ht; rfl), fun y hy => ?_⟩
  obtain rfl := Option.some.inj hy
  refine ⟨proper_of_held (fun t ht => by cases ht), fun y hy => ?_⟩
  obtain rfl := Option.some.inj hy
  refine ⟨?_, fun _ _ => trivial⟩
  intro t ht q a rest hq
  cases ht
  cases hq

end Nachos.Simulation
