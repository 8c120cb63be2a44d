import Mathlib.Algebra.BigOperators.Group.List.Basic
import Mathlib.Tactic.Ring
import Nachos.Simulation.Books

/-!
# The books are kept

Every step keeps the books, if the manager signals a cashier only when it is on its break
(`Books.step`). What changes is due from one customer, the visitor of a cashier, or is counted by the
manager.
-/

namespace Nachos.Simulation

open Monitor Threads

variable {S : Setup} {v w : SimView} {d d' : Data} {e : Effect} {p' : Pos} {t c j : ℕ}

/-! ### What the manager counts -/

theorem total_count (d : Data) (a : ClerkId) :
  (d.count a).total = d.total + (d.clerk a).money
  := by
  obtain ⟨K, i⟩ := a
  cases K <;> simp [Data.count, Data.total, Data.addMoney, Data.modifyClerk] <;> ring

theorem money_count (d : Data) (a b : ClerkId) :
  ((d.count a).clerk b).money = if b = a then 0 else (d.clerk b).money
  := by
  by_cases hb : b = a
  · subst hb
    simp [Data.count, Data.addMoney, Data.modifyClerk]
  · simp [Data.count, Data.addMoney, Data.modifyClerk, hb]

/-- The clerks that have been gone through have no money. -/
theorem money_foldl_count (d : Data) (as : List ClerkId) (b : ClerkId) :
  ((as.foldl Data.count d).clerk b).money = if b ∈ as then 0 else (d.clerk b).money
  := by
  induction as generalizing d with
  | nil => simp
  | cons a as ih =>
      rw [List.foldl_cons, ih, money_count]
      by_cases hb : b = a <;> by_cases hmem : b ∈ as <;> simp [hb, hmem]

/-- Their money is what has been counted. -/
theorem total_foldl_count (d : Data) {as : List ClerkId} (hnodup : as.Nodup) :
  (as.foldl Data.count d).total = d.total + (as.map (fun a => (d.clerk a).money)).sum
  := by
  induction as generalizing d with
  | nil => simp
  | cons a as ih =>
      obtain ⟨ha, hnodup⟩ := List.nodup_cons.mp hnodup
      have hsame : as.map (fun b => ((d.count a).clerk b).money) =
          as.map (fun b => (d.clerk b).money) := by
        apply List.map_congr_left
        intro b hb
        have hne : b ≠ a := by
          rintro rfl
          exact ha hb
        rw [money_count, if_neg hne]
      rw [List.foldl_cons, ih _ hnodup, total_count, hsame, List.map_cons, List.sum_cons]
      ring

theorem foldl_count (d : Data) (as : List ClerkId) :
  (as.foldl Data.count d).totalSpent = d.totalSpent ∧
    (as.foldl Data.count d).numPassports = d.numPassports ∧
    (as.foldl Data.count d).customerData = d.customerData
  := by
  induction as generalizing d with
  | nil => exact ⟨rfl, rfl, rfl⟩
  | cons a as ih => exact ih (d.count a)

/-- The manager takes the money of all clerks. -/
theorem total_managerCountMoney (S : Setup) (d : Data) :
  (managerCountMoney S d).total = d.total + clerkMoney S d
  := by
  rw [managerCountMoney, total_foldl_count d S.nodup_clerks, clerkMoney,
    List.sum_toFinset _ S.nodup_clerks]

theorem clerkMoney_managerCountMoney (S : Setup) (d : Data) :
  clerkMoney S (managerCountMoney S d) = 0
  := by
  apply Finset.sum_eq_zero
  intro a ha
  rw [managerCountMoney, money_foldl_count, if_pos (List.mem_toFinset.mp ha)]

/-! ### Money that is handed over -/

theorem clerkMoney_addMoney {a : ClerkId} (ha : a ∈ S.clerks) (m : ℤ) (d : Data) :
  clerkMoney S (d.addMoney a m) = clerkMoney S d + m
  := by
  have hchange := sum_change (f := fun b => (d.clerk b).money)
    (g := fun b => ((d.addMoney a m).clerk b).money) (List.mem_toFinset.mpr ha)
    (fun b _ hb => by rw [Data.addMoney, Data.clerk_modifyClerk_of_ne hb])
  rw [clerkMoney, hchange, Data.addMoney, Data.clerk_modifyClerk_self, clerkMoney]
  ring

/-! ### What a step can change -/

theorem clerkId_ne {a : ClerkId} {c : ℕ} :
  (Thread.customer c).id ≠ (Thread.clerk a).id
  := fun h => by cases Thread.id_injective h

/-- A customer whose position is known is in its thread. -/
theorem Placed.customer_eq (h : Placed v) {q : CustomerPos} (ht : v.pos t = .customer c q) :
  t = (Thread.customer c).id
  := by
  have hthread := h.id_thread t
  rw [ht] at hthread
  exact hthread.symm

/-- A customer who waits for a cashier is one of the customers. -/
theorem AtCashier.lt (h : AtCashier v c j) (hv : Placed v) (hbooks : Books S v) :
  c < S.numCustomers
  := by
  obtain ⟨c', hp⟩ := h
  obtain rfl := Thread.customer.inj (Thread.id_injective (hv.customer_eq hp))
  exact hbooks.customers _ _ _ hp (by simp)

theorem phase_visitor {s : Service} {p : Phase} (h : s.Allows p) (hp : p ≠ .away)
    (hs : s = .working ∨ s = .filed) :
  (p = .waiting ∨ p = .woken) ∧ (s = .working → p = .waiting)
  := by
  obtain rfl | rfl := hs <;> cases p <;> simp at h hp ⊢

/-- The visitor of a cashier. -/
theorem Visits.visitor (h : Visits j v) (hv : Placed v)
    (hbusy : service v j = .working ∨ service v j = .filed) :
  ∃ c, AtCashier v c j ∧ (service v j = .working → (v.data.clerk (.cashier, j)).toFile = c)
  := by
  obtain ⟨t, ht⟩ := h.present (by obtain hs | hs := hbusy <;> simp [Service.Busy, hs])
  obtain ⟨c, q, hq⟩ := customer_of_phase ht
  obtain rfl := hv.customer_eq hq
  obtain ⟨hphase, hwaiting⟩ := phase_visitor (h.allowed _) ht hbusy
  refine ⟨c, ⟨c, ?_⟩, ?_⟩
  · rw [phase, hq] at hphase
    rw [hq]
    cases q with
    | served s i =>
        cases s with
        | cashier =>
            by_cases hij : i = j
            · rw [hij]
            · simp [Pos.phase, hij] at hphase
        | appFirst | picSecond | picFirst | appSecond | pass => simp [Pos.phase] at hphase
    | line s i bribe | clerkLock s i | lineUnlocked s i | given s i | leaving s i =>
        cases s <;> simp [Pos.phase] at hphase <;> split at hphase <;> simp at hphase
    | start | lineLock | moneyLock | moneyUnlocked | judged | retake | released | left =>
        simp [Pos.phase] at hphase
  · exact fun hs => h.toFile _ _ _ hq (.inr (hwaiting hs))

/-- What the step of a clerk can mean for a customer who waits for a cashier. -/
theorem pos_cashier_after (d' : Data) (e : Effect) (q' : ClerkPos) (hv : Placed v) {a : ClerkId}
    {q : ClerkPos} (hq : v.pos t = .clerk a q) (j : ℕ) :
  (after v t d' e (.clerk a q')).pos (cashierId j) = v.pos (cashierId j) ∨
    a = (.cashier, j) ∧ t = cashierId j
  := by
  by_cases ht : cashierId j = t
  · right
    subst ht
    obtain ⟨r, hr⟩ := hv.pos_cashier j
    obtain ⟨rfl, -⟩ := Pos.clerk.inj (hr.symm.trans hq)
    exact ⟨rfl, rfl⟩
  · exact .inl (pos_after_of_ne ht)

/-! ### Steps -/

/-- A step keeps the books if it keeps what they say about money and payments. -/
theorem Books.next (h : Books S v) (hv : Placed v) (hforked : Forked S v)
    (hfree : v.Free Pos.holds Pos.last t) (hpolite : Polite v t)
    (hstep : ThreadStep S v.data (v.pos t) d' e p')
    (hmoney : d'.totalSpent = d'.total + clerkMoney S d' +
      ∑ c ∈ Finset.range S.numCustomers, due (after v t d' e p') c)
    (hpassports : S.choice = 3 → (after v t d' e p').pos Thread.manager.id ≠ .manager .closed →
      d'.numPassports + ∑ c ∈ Finset.range S.numCustomers, uncounted (after v t d' e p') c =
        numPaid S d')
    (hpaid : ∀ c : ℕ, (d'.customerData c).paid = true →
      ((after v t d' e p').pos (Thread.customer c).id).Paid (after v t d' e p')) :
  Books S (after v t d' e p')
  := by
  refine ⟨fun j => (h.visits j).step hv hfree hpolite hstep, hmoney, hpassports, hpaid, ?_, ?_⟩
  · intro u c s j hu
    by_cases hut : u = t
    · subst hut
      rw [pos_after_self] at hu
      subst hu
      generalize v.pos u = p at hstep
      cases hstep with
      | customer hstep =>
          cases hstep with
          | bribe hj => exact mem_clerks.mpr hj
    · exact h.bribed u c s j ((pos_after_of_ne hut).symm.trans hu)
  · intro u c q hu hq
    by_cases hut : u = t
    · subst hut
      rw [pos_after_self] at hu
      subst hu
      generalize hp : v.pos u = p at hstep
      cases hstep with
      | customer => exact hforked.customer hv hfree.mem hp
    · exact h.customers u c q ((pos_after_of_ne hut).symm.trans hu) hq

/-- A step that changes nothing in the books. -/
theorem Books.quiet (h : Books S v) (hv : Placed v) (hforked : Forked S v)
    (hfree : v.Free Pos.holds Pos.last t) (hpolite : Polite v t)
    (hstep : ThreadStep S v.data (v.pos t) d' e p') (hd : Unchanged v.data d')
    (hdue : ∀ c, due (after v t d' e p') c = due v c)
    (huncounted : S.choice = 3 → ∀ c, uncounted (after v t d' e p') c = uncounted v c)
    (hpaid : ∀ c, (v.pos (Thread.customer c).id).Paid v →
      ((after v t d' e p').pos (Thread.customer c).id).Paid (after v t d' e p'))
    (hopen : (after v t d' e p').pos Thread.manager.id ≠ .manager .closed →
      v.pos Thread.manager.id ≠ .manager .closed) :
  Books S (after v t d' e p')
  := by
  apply h.next hv hforked hfree hpolite hstep
  · rw [Finset.sum_congr rfl (fun c _ => hdue c), hd.clerkMoney, hd.totalSpent, Data.total, hd.counted]
    exact h.money
  · intro hchoice hclosed
    rw [Finset.sum_congr rfl (fun c _ => huncounted hchoice c), hd.numPassports, hd.numPaid]
    exact h.passports hchoice (hopen hclosed)
  · intro c hc
    rw [hd.paid] at hc
    exact hpaid c (h.paid c hc)

/-- A step of a thread that is neither a customer nor a cashier. -/
theorem same_of_ne (d' : Data) (e : Effect) (p' : Pos)
    (hcustomer : ∀ c, (Thread.customer c).id ≠ t) (hcashier : ∀ j, cashierId j ≠ t) :
  (∀ c, due (after v t d' e p') c = due v c) ∧
    (∀ c, uncounted (after v t d' e p') c = uncounted v c) ∧
    (∀ c, (v.pos (Thread.customer c).id).Paid v →
      ((after v t d' e p').pos (Thread.customer c).id).Paid (after v t d' e p'))
  := by
  have hpos : ∀ j, (after v t d' e p').pos (cashierId j) = v.pos (cashierId j) :=
    fun j => pos_after_of_ne (hcashier j)
  refine ⟨?_, ?_, ?_⟩
  · exact fun c => due_congr (pos_after_of_ne (hcustomer c)) (fun j _ => by rw [hpos])
  · exact fun c => uncounted_congr (pos_after_of_ne (hcustomer c)) (fun j _ => by rw [hpos])
  · exact fun c hc => hc.congr (pos_after_of_ne (hcustomer c)) (fun j _ => by rw [hpos]; exact id)

/-- The manager makes a step. -/
theorem Books.manager_step (h : Books S v) (hv : Placed v) (hforked : Forked S v)
    (hfree : v.Free Pos.holds Pos.last t) (hpolite : Polite v t) {q q' : ManagerPos}
    (hq : v.pos t = .manager q) (hstep : ManagerStep S v.data q d' e q') :
  Books S (after v t d' e (.manager q'))
  := by
  have hthread : ∀ {u : Thread}, u ≠ .manager → u.id ≠ t := by
    rintro u hu rfl
    have heq := hv.thread u.id
    rw [hq, Thread.ofId_id] at heq
    exact hu heq.symm
  have ht : t = Thread.manager.id := by
    have heq := hv.id_thread t
    rw [hq] at heq
    exact heq.symm
  obtain ⟨hdue, huncounted, hpaid⟩ := same_of_ne (v := v) d' e (.manager q')
    (fun c => hthread (by simp)) (fun j => hthread (by simp))
  have hstep' : ThreadStep S v.data (v.pos t) d' e (.manager q') := by
    rw [hq]
    exact .manager hstep
  have hopen : q ≠ .closed → v.pos Thread.manager.id ≠ .manager .closed := by
    intro hne
    rw [← ht, hq]
    exact fun heq => hne (Pos.manager.inj heq)
  have hquiet : Unchanged v.data d' → q ≠ .closed → Books S (after v t d' e (.manager q')) :=
    fun hd hne => h.quiet hv hforked hfree hpolite hstep' hd hdue (fun _ => huncounted) hpaid
      (fun _ => hopen hne)
  -- the manager counts the money
  have hcount : d' = managerCountMoney S v.data → q ≠ .closed →
      Books S (after v t d' e (.manager q')) := by
    rintro rfl hne
    obtain ⟨hspent, hnum, hdata⟩ := foldl_count v.data S.clerks
    apply h.next hv hforked hfree hpolite hstep'
    · rw [Finset.sum_congr rfl (fun c _ => hdue c), clerkMoney_managerCountMoney,
        total_managerCountMoney, managerCountMoney, hspent, h.money]
      ring
    · intro hchoice _
      rw [Finset.sum_congr rfl (fun c _ => huncounted c), managerCountMoney, hnum, numPaid, hdata]
      exact h.passports hchoice (hopen hne)
    · intro c hc
      rw [managerCountMoney, hdata] at hc
      exact hpaid c (h.paid c hc)
  cases hstep with
  | wake r a rest hp | yield k i hp => exact hquiet (.refl _) hp
  | signal | release | count => exact hquiet (.refl _) (by simp)
  | fail | counted => exact hcount rfl (by simp)
  | failClose => exact hquiet (.refl _) (by simp)
  | close =>
      apply h.next hv hforked hfree hpolite hstep'
      · rw [Finset.sum_congr rfl (fun c _ => hdue c)]
        split <;> exact h.money
      · intro _ hclosed
        rw [← ht, pos_after_self] at hclosed
        exact absurd rfl hclosed
      · intro c hc
        apply hpaid c (h.paid c _)
        split at hc <;> exact hc

/-! ### Steps of clerks -/

theorem AtCashier.due_eq (h : AtCashier v c j) :
  due v c = if (v.pos (cashierId j)).owes then 100 else 0
  := by
  obtain ⟨c', hp⟩ := h
  rw [due, hp]

theorem AtCashier.uncounted_eq (h : AtCashier v c j) :
  uncounted v c = if (v.pos (cashierId j)).uncounted then 1 else 0
  := by
  obtain ⟨c', hp⟩ := h
  rw [uncounted, hp]

theorem AtCashier.paid_iff (h : AtCashier v c j) :
  (v.pos (Thread.customer c).id).Paid v ↔ (v.pos (cashierId j)).recorded = true
  := by
  obtain ⟨c', hp⟩ := h
  rw [hp]
  rfl

/-- A clerk makes a step that changes nothing in the books. -/
theorem Books.clerk_quiet (h : Books S v) (hv : Placed v) (hforked : Forked S v)
    (hfree : v.Free Pos.holds Pos.last t) (hpolite : Polite v t) {a : ClerkId} {q q' : ClerkPos}
    (hq : v.pos t = .clerk a q) (hstep : ClerkStep S a v.data q d' e q') (hd : Unchanged v.data d')
    (hflags : a.1 = .cashier → (q.service false).Busy →
      (Pos.clerk a q').owes = (Pos.clerk a q).owes ∧
      (S.choice = 3 → (Pos.clerk a q').uncounted = (Pos.clerk a q).uncounted) ∧
      ((Pos.clerk a q).recorded = true → (Pos.clerk a q').recorded = true)) :
  Books S (after v t d' e (.clerk a q'))
  := by
  have ht : t = (Thread.clerk a).id := hv.clerk_eq hq
  have hcustomer : ∀ c, (after v t d' e (.clerk a q')).pos (Thread.customer c).id =
      v.pos (Thread.customer c).id := by
    intro c
    apply pos_after_of_ne
    rw [ht]
    exact clerkId_ne
  have hcashier : ∀ {c j}, AtCashier v c j →
      (after v t d' e (.clerk a q')).pos (cashierId j) = v.pos (cashierId j) ∨
      v.pos (cashierId j) = .clerk a q ∧
        (after v t d' e (.clerk a q')).pos (cashierId j) = .clerk a q' ∧ a.1 = .cashier ∧
        (q.service false).Busy := by
    intro c j hat
    obtain hsame | ⟨rfl, rfl⟩ := pos_cashier_after d' e q' hv hq j
    · exact .inl hsame
    · refine .inr ⟨hq, pos_after_self, rfl, ?_⟩
      have hservice := hat.service (h.visits j)
      rw [service_free hfree.awake, hq] at hservice
      exact hservice
  have hstep' : ThreadStep S v.data (v.pos t) d' e (.clerk a q') := by
    rw [hq]
    exact .clerk hstep
  apply h.quiet hv hforked hfree hpolite hstep' hd
  · intro c
    apply due_congr (hcustomer c)
    intro j hat
    obtain hsame | ⟨hbefore, hafter, ha, hbusy⟩ := hcashier hat
    · rw [hsame]
    · rw [hbefore, hafter]
      exact (hflags ha hbusy).1
  · intro hchoice c
    apply uncounted_congr (hcustomer c)
    intro j hat
    obtain hsame | ⟨hbefore, hafter, ha, hbusy⟩ := hcashier hat
    · rw [hsame]
    · rw [hbefore, hafter]
      exact (hflags ha hbusy).2.1 hchoice
  · intro c hc
    apply hc.congr (hcustomer c)
    intro j hat
    obtain hsame | ⟨hbefore, hafter, ha, hbusy⟩ := hcashier hat
    · rw [hsame]
      exact id
    · rw [hbefore, hafter]
      exact (hflags ha hbusy).2.2
  · rw [pos_after_of_ne]
    · exact id
    · rw [ht]
      exact fun heq => by cases Thread.id_injective heq

/-- A step of a cashier is seen by its visitor alone. -/
theorem AtCashier.others (d' : Data) (e : Effect) (q' : ClerkPos) (h : AtCashier v c j)
    (hv : Placed v) (hvisits : Visits j v) {q : ClerkPos}
    (hq : v.pos (cashierId j) = .clerk (.cashier, j) q) (c' : ℕ) (hne : c' ≠ c) :
  due (after v (cashierId j) d' e (.clerk (.cashier, j) q')) c' = due v c' ∧
    uncounted (after v (cashierId j) d' e (.clerk (.cashier, j) q')) c' = uncounted v c' ∧
    ((v.pos (Thread.customer c').id).Paid v →
      ((after v (cashierId j) d' e (.clerk (.cashier, j) q')).pos (Thread.customer c').id).Paid
        (after v (cashierId j) d' e (.clerk (.cashier, j) q')))
  := by
  have hcustomer : (after v (cashierId j) d' e (.clerk (.cashier, j) q')).pos (Thread.customer c').id =
      v.pos (Thread.customer c').id := pos_after_of_ne clerkId_ne
  have hcashier : ∀ i, AtCashier v c' i →
      (after v (cashierId j) d' e (.clerk (.cashier, j) q')).pos (cashierId i) =
        v.pos (cashierId i) := by
    intro i hat
    obtain hsame | ⟨heq, -⟩ := pos_cashier_after d' e q' hv hq i
    · exact hsame
    · obtain rfl := (Prod.mk.inj heq).2
      exact absurd (hat.unique h hvisits) hne
  refine ⟨?_, ?_, ?_⟩
  · exact due_congr hcustomer (fun i hat => by rw [hcashier i hat])
  · exact uncounted_congr hcustomer (fun i hat => by rw [hcashier i hat])
  · exact fun hc => hc.congr hcustomer (fun i hat => by rw [hcashier i hat]; exact id)

/-- The visitor stays at the cashier. -/
theorem AtCashier.after (d' : Data) (e : Effect) (q' : ClerkPos) (h : AtCashier v c j) :
  AtCashier (after v (cashierId j) d' e (.clerk (.cashier, j) q')) c j
  := by
  obtain ⟨c', hp⟩ := h
  exact ⟨c', (pos_after_of_ne clerkId_ne).trans hp⟩

/-- A cashier makes a step that changes the books as far as its visitor is concerned. -/
theorem Books.visited (h : Books S v) (hv : Placed v) (hforked : Forked S v)
    (hfree : v.Free Pos.holds Pos.last (cashierId j)) (hpolite : Polite v (cashierId j))
    {q q' : ClerkPos} (hq : v.pos (cashierId j) = .clerk (.cashier, j) q)
    (hstep : ClerkStep S (.cashier, j) v.data q d' e q') (hat : AtCashier v c j)
    (hmoney : d'.totalSpent - d'.total - clerkMoney S d' =
      v.data.totalSpent - v.data.total - clerkMoney S v.data +
        ((if (Pos.clerk (.cashier, j) q').owes then 100 else 0) -
          if (Pos.clerk (.cashier, j) q).owes then 100 else 0))
    (hpassports : numPaid S d' - d'.numPassports = numPaid S v.data - v.data.numPassports +
      ((if (Pos.clerk (.cashier, j) q').uncounted then 1 else 0) -
        if (Pos.clerk (.cashier, j) q).uncounted then 1 else 0))
    (hpaid : ∀ c' : ℕ, c' ≠ c → (d'.customerData c').paid = true →
      (v.data.customerData c').paid = true)
    (hrecorded : (d'.customerData c).paid = true → (Pos.clerk (.cashier, j) q').recorded = true) :
  Books S (after v (cashierId j) d' e (.clerk (.cashier, j) q'))
  := by
  have hothers := AtCashier.others d' e q' hat hv (h.visits j) hq
  have hat' := AtCashier.after d' e q' hat
  have hmem := Finset.mem_range.mpr (hat.lt hv h)
  have hstep' : ThreadStep S v.data (v.pos (cashierId j)) d' e (.clerk (.cashier, j) q') := by
    rw [hq]
    exact .clerk hstep
  apply h.next hv hforked hfree hpolite hstep'
  · rw [sum_change hmem (fun c' _ hne => (hothers c' hne).1), hat.due_eq, hat'.due_eq, pos_after_self, hq]
    have hbefore := h.money
    omega
  · intro hchoice hclosed
    rw [sum_change hmem (fun c' _ hne => (hothers c' hne).2.1), hat.uncounted_eq, hat'.uncounted_eq,
      pos_after_self, hq]
    rw [pos_after_of_ne (fun heq => by cases Thread.id_injective heq)] at hclosed
    have hbefore := h.passports hchoice hclosed
    omega
  · intro c' hc'
    by_cases hne : c' = c
    · subst hne
      rw [hat'.paid_iff, pos_after_self]
      exact hrecorded hc'
    · exact (hothers c' hne).2.2 (h.paid c' (hpaid c' hne hc'))

/-- What is known of the service of a cashier that makes a step. -/
theorem service_of_free (hfree : v.Free Pos.holds Pos.last (cashierId j)) {q : ClerkPos}
    (hq : v.pos (cashierId j) = .clerk (.cashier, j) q) :
  service v j = q.service false
  := by
  rw [service_free hfree.awake, hq]
  rfl

theorem paid_modifyCustomer (c : ℤ) (d : Data) (b : ℤ) :
  ((d.modifyCustomer c (fun u => { u with paid := true })).customerData b).paid =
    if b = c then true else (d.customerData b).paid
  := by
  by_cases hb : b = c
  · simp [Data.modifyCustomer, hb]
  · simp [Data.modifyCustomer, hb]

/-- A payment is recorded. -/
theorem numPaid_modifyCustomer (hc : c < S.numCustomers) (hpaid : (d.customerData c).paid = false) :
  numPaid S (d.modifyCustomer c (fun u => { u with paid := true })) = numPaid S d + 1
  := by
  have hchange := sum_change (f := fun b : ℕ => if (d.customerData b).paid then (1 : ℤ) else 0)
    (g := fun b : ℕ => if ((d.modifyCustomer c (fun u => { u with paid := true })).customerData b).paid
      then (1 : ℤ) else 0) (Finset.mem_range.mpr hc) (by
      intro b _ hb
      have hne : (b : ℤ) ≠ c := by simpa using hb
      simp only [paid_modifyCustomer, if_neg hne])
  rw [numPaid, hchange, paid_modifyCustomer, hpaid, numPaid]
  simp

/-- A clerk makes a step. -/
theorem Books.clerk_step (h : Books S v) (hv : Placed v) (hforked : Forked S v)
    (hfree : v.Free Pos.holds Pos.last t) (hpolite : Polite v t) {a : ClerkId} {q q' : ClerkPos}
    (hq : v.pos t = .clerk a q) (hstep : ClerkStep S a v.data q d' e q') :
  Books S (after v t d' e (.clerk a q'))
  := by
  have hquiet := h.clerk_quiet hv hforked hfree hpolite hq hstep
  -- the cashier has a visitor
  have hvisitor : a.1 = .cashier → q.service false = .working ∨ q.service false = .filed →
      ∃ j c, a = (.cashier, j) ∧ t = cashierId j ∧ AtCashier v c j ∧
        (q.service false = .working → (v.data.clerk a).toFile = c) := by
    intro ha hbusy
    obtain ⟨K, j⟩ := a
    obtain rfl : K = .cashier := ha
    obtain rfl := hv.clerk_eq hq
    rw [← service_of_free hfree hq] at hbusy ⊢
    obtain ⟨c, hat, htoFile⟩ := (h.visits j).visitor hv hbusy
    exact ⟨j, c, rfl, rfl, hat, htoFile⟩
  have hmem := fun ha => hforked.clerk hv hfree.mem (a := a) (q := q) ha
  cases hstep with
  | top | call | breaking | breakLock | clerkLock | left =>
      exact hquiet (.refl _) (by simp [Service.Busy, ClerkPos.service])
  | rest | onBreak | called | released =>
      exact hquiet (unchanged_setState _ _ _) (by simp [Service.Busy, ClerkPos.service])
  | wait bribe hd =>
      apply hquiet _ (by simp [Service.Busy, ClerkPos.service])
      obtain rfl | rfl := hd
      · exact .refl _
      · exact unchanged_modifyClerk (by simp) _ _
  | begin hbribe =>
      apply hquiet (.refl _)
      intro ha _
      simp [hbribe ha, Pos.owes, Pos.uncounted, Pos.recorded]
  | work bribe n => 
      apply hquiet (.refl _)
      cases bribe <;> simp [Pos.owes, Pos.uncounted, Pos.recorded]
  | file bribe n ha hf =>
      exact hquiet (unchanged_modifyCustomer hf _ _) (fun ha' => absurd ha' ha)
  | filed hcount =>
      apply hquiet (.refl _)
      intro ha _
      simp only [Pos.owes, Pos.recorded, true_and, imp_self, and_true]
      exact fun hchoice => absurd ⟨ha, hchoice⟩ hcount
  | take bribe n ha | taken bribe ha | judged bribe ha | again bribe ha =>
      exact hquiet (.refl _) (by simp [ha])
  | liked bribe ha => exact hquiet (unchanged_modifyCustomer (by simp) _ _) (by simp [ha])
  | moneyLock bribe ha hp =>
      apply hquiet (.refl _)
      obtain ⟨rfl, rfl⟩ | ⟨n, rfl, rfl⟩ := hp <;> simp [Pos.owes, Pos.uncounted, Pos.recorded]
  | provide | passPortLock | passPortUnlocked =>
      exact hquiet (.refl _) (by simp [Pos.owes, Pos.uncounted, Pos.recorded])
  | addMoney bribe ha =>
      obtain ⟨j, c, rfl, rfl, hat, -⟩ := hvisitor ha (.inl rfl)
      apply h.visited hv hforked hfree hpolite hq (.addMoney bribe ha) hat
      · rw [clerkMoney_addMoney (hmem hq)]
        simp only [Pos.owes, Data.addMoney, Data.modifyClerk, Data.total]
        simp
        ring
      · have hnumPaid : numPaid S (v.data.addMoney (.cashier, j) 100) = numPaid S v.data := rfl
        rw [hnumPaid]
        simp [Pos.uncounted, Data.addMoney, Data.modifyClerk]
      · exact fun _ _ => id
      · intro hpaid
        have hrecorded := hat.paid_iff.mp (h.paid c hpaid)
        rw [hq] at hrecorded
        cases hrecorded
  | paid ha hp =>
      have hworking : q.service false = .working := by
        obtain rfl | ⟨n, rfl⟩ := hp <;> rfl
      have hflags : (Pos.clerk a q).owes = false ∧ (Pos.clerk a q).uncounted = false ∧
          (Pos.clerk a q).recorded = false := by
        obtain rfl | ⟨n, rfl⟩ := hp <;> exact ⟨rfl, rfl, rfl⟩
      obtain ⟨j, c, rfl, rfl, hat, htoFile⟩ := hvisitor ha (.inl hworking)
      have hunpaid : (v.data.customerData c).paid = false := by
        by_contra hpaid
        have hrecorded := hat.paid_iff.mp (h.paid c (by simpa using hpaid))
        rw [hq, hflags.2.2] at hrecorded
        cases hrecorded
      apply h.visited hv hforked hfree hpolite hq (.paid ha hp) hat
      · rw [hflags.1]
        simp [Pos.owes, clerkMoney, Data.modifyCustomer, Data.total]
      · rw [htoFile hworking, numPaid_modifyCustomer (hat.lt hv h) hunpaid, hflags.2.1]
        simp [Pos.uncounted, Data.modifyCustomer]
        ring
      · intro c' hne
        rw [htoFile hworking, paid_modifyCustomer, if_neg (by simpa using hne)]
        exact id
      · exact fun _ => rfl
  | count ha =>
      obtain ⟨j, c, rfl, rfl, hat, -⟩ := hvisitor ha (.inr rfl)
      apply h.visited hv hforked hfree hpolite hq (.count ha) hat
      · simp [Pos.owes, clerkMoney, Data.total]
      · simp [Pos.uncounted, numPaid]
        ring
      · exact fun _ _ => id
      · exact fun _ => rfl

/-! ### Steps of customers -/

/-- Nothing can be due from a customer. -/
def CustomerPos.quiet : CustomerPos → Bool
  | .moneyLock _ _ | .served .cashier _ => false
  | _ => true

theorem due_of_quiet {c' : ℕ} {q : CustomerPos} (hp : v.pos (Thread.customer c).id = .customer c' q)
    (hquiet : q.quiet = true) :
  due v c = 0 ∧ uncounted v c = 0
  := by
  rw [due, uncounted, hp]
  cases q with
  | served s j => cases s <;> first | exact ⟨rfl, rfl⟩ | cases hquiet
  | moneyLock => cases hquiet
  | start | lineLock | moneyUnlocked | line | clerkLock | lineUnlocked | given | judged | retake
  | leaving | released | left => exact ⟨rfl, rfl⟩

/-- A customer makes a step that changes the books as far as it is concerned. -/
theorem Books.customer_next (h : Books S v) (hv : Placed v) (hforked : Forked S v)
    (hfree : v.Free Pos.holds Pos.last t) (hpolite : Polite v t) {q q' : CustomerPos}
    (hq : v.pos t = .customer c q) (hstep : CustomerStep S c v.data q d' e q')
    (hmoney : d'.totalSpent - d'.total - clerkMoney S d' =
      v.data.totalSpent - v.data.total - clerkMoney S v.data +
        (due (after v t d' e (.customer c q')) c - due v c))
    (hnum : d'.numPassports = v.data.numPassports)
    (hpaid : ∀ c' : ℤ, (d'.customerData c').paid = (v.data.customerData c').paid)
    (huncounted : uncounted (after v t d' e (.customer c q')) c = uncounted v c)
    (hrecorded : (Pos.customer c q).Paid v →
      (Pos.customer c q').Paid (after v t d' e (.customer c q'))) :
  Books S (after v t d' e (.customer c q'))
  := by
  have hmem := Finset.mem_range.mpr (hforked.customer hv hfree.mem hq)
  have hstep' : ThreadStep S v.data (v.pos t) d' e (.customer c q') := by
    rw [hq]
    exact .customer hstep
  obtain rfl := hv.customer_eq hq
  have hcustomer : ∀ {c'}, c' ≠ c → (after v (Thread.customer c).id d' e (.customer c q')).pos
      (Thread.customer c').id = v.pos (Thread.customer c').id := by
    intro c' hne
    apply pos_after_of_ne
    exact fun heq => hne (Thread.customer.inj (Thread.id_injective heq))
  have hcashier : ∀ j, (after v (Thread.customer c).id d' e (.customer c q')).pos (cashierId j) =
      v.pos (cashierId j) := fun j => pos_after_of_ne clerkId_ne.symm
  apply h.next hv hforked hfree hpolite hstep'
  · rw [sum_change hmem (fun c' _ hne => due_congr (hcustomer hne) (fun j _ => by rw [hcashier]))]
    have hbefore := h.money
    omega
  · intro hchoice hclosed
    have hsame : ∀ c', uncounted (after v (Thread.customer c).id d' e (.customer c q')) c' =
        uncounted v c' := by
      intro c'
      by_cases hne : c' = c
      · rw [hne, huncounted]
      · exact uncounted_congr (hcustomer hne) (fun j _ => by rw [hcashier])
    have hnumPaid : numPaid S d' = numPaid S v.data :=
      Finset.sum_congr rfl (fun c' _ => by rw [hpaid])
    rw [pos_after_of_ne (fun heq => by cases Thread.id_injective heq)] at hclosed
    rw [Finset.sum_congr rfl (fun c' _ => hsame c'), hnum, hnumPaid]
    exact h.passports hchoice hclosed
  · intro c' hc'
    rw [hpaid] at hc'
    by_cases hne : c' = c
    · subst hne
      rw [pos_after_self]
      apply hrecorded
      rw [← hq]
      exact h.paid c' hc'
    · exact (h.paid c' hc').congr (hcustomer hne) (fun j _ => by rw [hcashier]; exact id)

/-- A customer makes a step that changes nothing in the books. -/
theorem Books.customer_quiet (h : Books S v) (hv : Placed v) (hforked : Forked S v)
    (hfree : v.Free Pos.holds Pos.last t) (hpolite : Polite v t) {q q' : CustomerPos}
    (hq : v.pos t = .customer c q) (hstep : CustomerStep S c v.data q d' e q')
    (hd : Unchanged v.data d') (hquiet : q.quiet = true) (hquiet' : q'.quiet = true)
    (hrecorded : (Pos.customer c q).Paid v →
      (Pos.customer c q').Paid (after v t d' e (.customer c q'))) :
  Books S (after v t d' e (.customer c q'))
  := by
  obtain rfl := hv.customer_eq hq
  obtain ⟨hdue, huncounted⟩ := due_of_quiet hq hquiet
  obtain ⟨hdue', huncounted'⟩ := due_of_quiet
    (v := after v (Thread.customer c).id d' e (.customer c q')) pos_after_self hquiet'
  apply h.customer_next hv hforked hfree hpolite hq hstep _ hd.numPassports hd.paid _ hrecorded
  · rw [hdue, hdue', hd.clerkMoney, hd.totalSpent, Data.total, hd.counted]
    simp [Data.total]
  · rw [huncounted, huncounted']

theorem Stage.eq_cashier_of_next {s : Stage} (h : s.next = none) :
  s = .cashier
  := by
  cases s <;> first | rfl | cases h

theorem eq_serving {s : Service} (h : s.Allows .given) :
  s = .serving
  := by
  cases s <;> simp at h ⊢

/-- What can be due when a cashier begins to serve its visitor, and when it waits for it to leave. -/
theorem flags_of_service (hv : Placed v) (j : ℕ) :
  (service v j = .serving →
      (v.pos (cashierId j)).owes = true ∧ (v.pos (cashierId j)).uncounted = false) ∧
    (service v j = .leaving →
      (v.pos (cashierId j)).owes = false ∧ (v.pos (cashierId j)).uncounted = false)
  := by
  obtain ⟨q, hq⟩ := hv.pos_cashier j
  rw [service, hq]
  cases q with
  | waited | left =>
      simp only [Pos.service, ClerkPos.service]
      split <;> simp [Pos.owes, Pos.uncounted]
  | top | lineLock | called | clerkLock | lineUnlocked | working | taken | judged | told | moneyLock
  | moneyUnlocked | filed | passPortLock | passPortUnlocked | released | breaking | breakLock
  | onBreak => simp [Pos.service, ClerkPos.service]

/-- A customer makes a step. -/
theorem Books.customer_step (h : Books S v) (hv : Placed v) (hforked : Forked S v)
    (hfree : v.Free Pos.holds Pos.last t) (hpolite : Polite v t) {q q' : CustomerPos}
    (hq : v.pos t = .customer c q) (hstep : CustomerStep S c v.data q d' e q') :
  Books S (after v t d' e (.customer c q'))
  := by
  obtain rfl := hv.customer_eq hq
  have hquiet := h.customer_quiet hv hforked hfree hpolite hq hstep
  have hnext := h.customer_next hv hforked hfree hpolite hq hstep
  have hpos : (after v (Thread.customer c).id d' e (.customer c q')).pos (Thread.customer c).id =
      .customer c q' := pos_after_self
  cases hstep with
  | arrive => exact hquiet (unchanged_modifyCustomer (by simp) _ _) rfl rfl False.elim
  | getInLine | getInBribeLine =>
      exact hquiet (unchanged_modifyClerk (by simp) _ _) rfl rfl False.elim
  | leaveLine s j bribe =>
      apply hquiet _ rfl rfl False.elim
      apply (unchanged_modifyClerk _ _ _).trans (unchanged_setState _ _ _)
      intro k
      cases bribe <;> rfl
  | enter | waitAgain | retake => exact hquiet (.refl _) rfl rfl False.elim
  | give => exact hquiet (unchanged_modifyClerk (by simp) _ _) rfl rfl False.elim
  | @wait s j hs =>
      have hquiet' : (CustomerPos.served s j).quiet = true := by
        cases s <;> first | rfl | exact absurd rfl hs
      exact hquiet (.refl _) rfl hquiet' False.elim
  | @judge s j picLiked _ hs hd =>
      have hne : s ≠ .cashier := by
        rintro rfl
        cases hs
      have hserved : (CustomerPos.served s j).quiet = true := by
        cases s <;> first | rfl | exact absurd rfl hne
      apply hquiet _ hserved rfl
      · cases s <;> first | exact id | exact absurd rfl hne
      · obtain rfl | rfl := hd
        · exact .refl _
        · exact unchanged_modifyClerk (by simp) _ _
  | release s j hp =>
      obtain rfl | rfl := hp
      · exact hquiet (.refl _) rfl rfl (by cases s <;> exact id)
      · exact hquiet (.refl _) rfl rfl False.elim
  | @goOn s s' hs =>
      apply hquiet (.refl _) rfl rfl
      cases s <;> first | exact id | cases hs
  | finish => exact hquiet (.refl _) rfl rfl (fun _ => trivial)
  | @bribe s j hj =>
      apply hnext _ rfl (fun _ => rfl) _ False.elim
      · rw [due, due, hpos, hq]
        simp only [Data.spend, Data.total, clerkMoney]
        ring
      · rw [uncounted, uncounted, hpos, hq]
  | pay s j =>
      apply hnext _ rfl (fun _ => rfl) _ False.elim
      · rw [clerkMoney_addMoney (h.bribed _ _ _ _ hq), due, due, hpos, hq]
        simp only [Data.addMoney, Data.modifyClerk, Data.total]
        ring
      · rw [uncounted, uncounted, hpos, hq]
  | spend j =>
      -- the cashier has just called the customer
      have hgiven : phase v j (Thread.customer c).id = .given := by
        rw [phase, hq]
        simp [Pos.phase]
      have hallowed := (h.visits j).allowed (Thread.customer c).id
      rw [hgiven] at hallowed
      have howes := (flags_of_service hv j).1 (eq_serving hallowed)
      have hcashier : (after v (Thread.customer c).id (v.data.spend c 100) (waitForClerk (.cashier, j))
          (.customer c (.served .cashier j))).pos (cashierId j) = v.pos (cashierId j) :=
        pos_after_of_ne clerkId_ne.symm
      apply hnext _ rfl (fun _ => rfl) _ False.elim
      · have hmoney : clerkMoney S (v.data.spend c 100) = clerkMoney S v.data := rfl
        rw [due, due, hpos, hq, hmoney]
        simp only [hcashier, howes.1, if_true]
        simp only [Data.spend, Data.total]
        ring
      · rw [uncounted, uncounted, hpos, hq]
        simp [hcashier, howes.2]
  | leave s j =>
      by_cases hs : s = .cashier
      · subst hs
        obtain ⟨-, hleaving⟩ := (h.visits j).leaving_of_served hv hfree hq
        have hflags := (flags_of_service hv j).2 hleaving
        have hd := unchanged_setState (Stage.cashier.kind, j) .free v.data
        apply hnext _ hd.numPassports hd.paid _ (fun _ => trivial)
        · rw [due, due, hpos, hq, hd.clerkMoney, hd.totalSpent, Data.total, hd.counted]
          simp [hflags.1, Data.total]
        · rw [uncounted, uncounted, hpos, hq]
          simp [hflags.2]
      · have hserved : (CustomerPos.served s j).quiet = true := by
          cases s <;> first | rfl | exact absurd rfl hs
        apply hquiet (unchanged_setState _ _ _) hserved rfl
        cases s <;> first | exact id | exact absurd rfl hs

/-- Every step keeps the books, if the manager is polite. -/
theorem Books.step (h : Books S v) (hv : Placed v) (hforked : Forked S v)
    (hfree : v.Free Pos.holds Pos.last t) (hpolite : Polite v t)
    (hstep : ThreadStep S v.data (v.pos t) d' e p') :
  Books S (after v t d' e p')
  := by
  have hquiet := h.quiet hv hforked hfree hpolite hstep
  generalize hp : v.pos t = p at hstep
  cases hstep with
  | wake | yield | park =>
      have hne : ∀ {u : Thread}, u ≠ .main → u.id ≠ t := by
        rintro u hu rfl
        have heq := hv.thread u.id
        rw [hp, Thread.ofId_id] at heq
        exact hu heq.symm
      obtain ⟨hdue, huncounted, hpaid⟩ := same_of_ne (v := v) _ _ _ (fun c => hne (by simp))
        (fun j => hne (by simp))
      apply hquiet (.refl _) hdue (fun _ => huncounted) hpaid
      rw [pos_after_of_ne (hne (by simp))]
      exact id
  | manager hstep => exact h.manager_step hv hforked hfree hpolite hp hstep
  | clerk hstep => exact h.clerk_step hv hforked hfree hpolite hp hstep
  | customer hstep => exact h.customer_step hv hforked hfree hpolite hp hstep

end Nachos.Simulation
