import Mathlib.Algebra.BigOperators.Group.Finset.Basic
import Mathlib.Algebra.BigOperators.Intervals
import Mathlib.Algebra.Order.BigOperators.Group.Finset
import Nachos.Simulation.Visits

/-!
# The books of the passport office

What customers have spent is what the manager has counted, what the clerks have, and what is due: a
bribe that the customer has not handed over, and a payment that the cashier has not taken yet. The
passports that have been counted, and those that have not been yet, are those of the customers whose
payment has been recorded (`Books`).
-/

namespace Nachos.Simulation

open Monitor Threads

/-! ### What is due -/

/-- The customer has paid and the cashier has not taken the money. -/
def Pos.owes : Pos → Bool
  | .clerk _ (.waited _) | .clerk _ (.working false _) | .clerk _ (.moneyLock _) => true
  | _ => false

/-- The payment is recorded and the passport is not counted. -/
def Pos.uncounted : Pos → Bool
  | .clerk _ .filed | .clerk _ .passPortLock => true
  | _ => false

/-- The payment is recorded. -/
def Pos.recorded : Pos → Bool
  | .clerk _ .filed | .clerk _ .passPortLock | .clerk _ .passPortUnlocked | .clerk _ .left => true
  | _ => false

/-- What the customer `c` has spent and no clerk has received. -/
def due (v : SimView) (c : ℕ) : ℤ :=
  match v.pos (Thread.customer c).id with
  | .customer _ (.moneyLock _ _) => 500
  | .customer _ (.served .cashier j) => if (v.pos (cashierId j)).owes then 100 else 0
  | _ => 0

/-- Whether the payment of the customer `c` has been recorded, and the passport not counted. -/
def uncounted (v : SimView) (c : ℕ) : ℤ :=
  match v.pos (Thread.customer c).id with
  | .customer _ (.served .cashier j) => if (v.pos (cashierId j)).uncounted then 1 else 0
  | _ => 0

def clerkMoney (S : Setup) (d : Data) : ℤ := ∑ a ∈ S.clerks.toFinset, (d.clerk a).money

def numPaid (S : Setup) (d : Data) : ℤ :=
  ∑ c ∈ Finset.range S.numCustomers, if (d.customerData c).paid then 1 else 0

/-- The payment of a customer has been recorded. -/
def Pos.Paid (v : SimView) : Pos → Prop
  | .customer _ (.served .cashier j) => (v.pos (cashierId j)).recorded = true
  | .customer _ (.leaving .cashier _) | .customer _ (.released .cashier) | .customer _ .left => True
  | _ => False

/-- The invariant. -/
structure Books (S : Setup) (v : SimView) : Prop where
  visits : ∀ j, Visits j v
  money : v.data.totalSpent = v.data.total + clerkMoney S v.data +
    ∑ c ∈ Finset.range S.numCustomers, due v c
  passports : S.choice = 3 → v.pos Thread.manager.id ≠ .manager .closed →
    v.data.numPassports + ∑ c ∈ Finset.range S.numCustomers, uncounted v c = numPaid S v.data
  paid : ∀ c : ℕ, (v.data.customerData c).paid = true → (v.pos (Thread.customer c).id).Paid v
  bribed : ∀ t c s j, v.pos t = .customer c (.moneyLock s j) → (s.kind, j) ∈ S.clerks
  customers : ∀ t c q, v.pos t = .customer c q → q ≠ .start → c < S.numCustomers

variable {S : Setup} {v w : SimView} {d' : Data} {e : Effect} {p' : Pos} {t c : ℕ}

/-! ### Threads that have been forked -/

/-- The threads are those that have been forked. -/
structure Forked (S : Setup) (v : SimView) : Prop where
  nodup : ∀ ts, v.pos Thread.main.id = .main ts → (ts.map Thread.id ++ v.threads).Nodup
  rest : ∀ ts, v.pos Thread.main.id = .main ts → ∀ u ∈ ts, u ∈ S.threads
  mem : ∀ u ∈ v.threads, u = Thread.main.id ∨ Thread.ofId u ∈ S.threads

theorem Setup.nodup_clerks (S : Setup) :
  S.clerks.Nodup
  := by
  rw [Setup.clerks, List.nodup_flatMap]
  constructor
  · intro K _
    exact List.nodup_range.map (fun i i' h => (Prod.mk.inj h).2)
  · have hne : [Kind.app, .pic, .pass, .cashier].Pairwise (· ≠ ·) := by decide
    apply hne.imp
    rintro K K' hKK' a ha ha'
    obtain ⟨i, -, rfl⟩ := List.mem_map.mp ha
    obtain ⟨i', -, heq⟩ := List.mem_map.mp ha'
    exact hKK' (Prod.mk.inj heq).1.symm

theorem Setup.nodup_threads (S : Setup) :
  (Thread.main :: S.threads).Nodup
  := by
  have hclerk : (S.clerks.map Thread.clerk).Nodup :=
    S.nodup_clerks.map (fun a b h => Thread.clerk.inj h)
  have hcustomer : ((List.range S.numCustomers).map Thread.customer).Nodup :=
    List.nodup_range.map (fun c c' h => Thread.customer.inj h)
  simp only [Setup.threads, List.cons_append, List.nodup_cons, List.nodup_append, hclerk, hcustomer,
    List.mem_cons, List.mem_append, List.mem_map, List.mem_range, true_and]
  refine ⟨by simp, by simp, ?_⟩
  rintro _ ⟨a, -, rfl⟩ _ ⟨c, -, rfl⟩ heq
  cases heq

theorem mem_clerks {K : Kind} {i : ℕ} :
  (K, i) ∈ S.clerks ↔ i < S.numClerks K
  := by
  cases K <;> simp [Setup.clerks]

theorem clerk_mem_threads {a : ClerkId} :
  Thread.clerk a ∈ S.threads ↔ a ∈ S.clerks
  := by
  simp [Setup.threads]

theorem customer_mem_threads :
  Thread.customer c ∈ S.threads ↔ c < S.numCustomers
  := by
  simp [Setup.threads]

/-- A clerk that makes a step is one of the clerks. -/
theorem Forked.clerk (h : Forked S v) (hv : Placed v) (ht : t ∈ v.threads) {a : ClerkId}
    {q : ClerkPos} (hq : v.pos t = .clerk a q) :
  a ∈ S.clerks
  := by
  have hthread := hv.thread t
  rw [hq] at hthread
  obtain rfl | hmem := h.mem t ht
  · cases hthread
  · rw [← hthread] at hmem
    exact clerk_mem_threads.mp hmem

theorem Forked.customer (h : Forked S v) (hv : Placed v) (ht : t ∈ v.threads) {q : CustomerPos}
    (hq : v.pos t = .customer c q) :
  c < S.numCustomers
  := by
  have hthread := hv.thread t
  rw [hq] at hthread
  obtain rfl | hmem := h.mem t ht
  · cases hthread
  · rw [← hthread] at hmem
    exact customer_mem_threads.mp hmem

/-- Threads are forked once. -/
theorem Forked.step (h : Forked S v) (hv : Placed v) (hstep : ThreadStep S v.data (v.pos t) d' e p') :
  Forked S (after v t d' e p')
  := by
  generalize hp : v.pos t = p at hstep
  -- a thread that forks nobody may leave
  have hother : (∀ ts, p' = .main ts → v.pos t = .main ts) → t ≠ Thread.main.id ∨ p' = v.pos t →
      (∀ u, e ≠ .wake u) → Forked S (after v t d' e p') := by
    intro hsame hmain he
    have hpos : ∀ ts, (after v t d' e p').pos Thread.main.id = .main ts →
        v.pos Thread.main.id = .main ts := by
      intro ts hts
      by_cases htm : t = Thread.main.id
      · subst htm
        exact hsame ts (pos_after_self.symm.trans hts)
      · exact (pos_after_of_ne (fun heq => htm heq.symm)).symm.trans hts
    have hsub : ((after v t d' e p').threads).Sublist v.threads := by
      cases e with
      | wake u => exact absurd rfl (he u)
      | park => exact List.erase_sublist
      | compute | call => exact .refl _
    constructor
    · intro ts hts
      exact (h.nodup ts (hpos ts hts)).sublist (hsub.append_left _)
    · exact fun ts hts => h.rest ts (hpos ts hts)
    · exact fun u hu => h.mem u (hsub.subset hu)
  cases hstep with
  | wake u ts =>
      have htm : t = Thread.main.id := by
        have hthread := hv.thread t
        rw [hp] at hthread
        rw [← Thread.id_ofId t, ← hthread]
        rfl
      subst htm
      have hpos : (after v Thread.main.id v.data (.wake u.id) (.main ts)).pos Thread.main.id =
          .main ts := pos_after_self
      constructor
      · intro ts' hts'
        obtain rfl := Pos.main.inj (hpos.symm.trans hts')
        have hnodup := h.nodup _ hp
        rw [List.map_cons, List.cons_append] at hnodup
        exact List.nodup_middle.mpr hnodup
      · intro ts' hts'
        obtain rfl := Pos.main.inj (hpos.symm.trans hts')
        exact fun x hx => h.rest _ hp x (List.mem_cons_of_mem u hx)
      · intro x hx
        obtain rfl | hx := List.mem_cons.mp hx
        · right
          rw [Thread.ofId_id]
          exact h.rest _ hp u List.mem_cons_self
        · exact h.mem x hx
  | yield ts | park => exact hother (fun ts hts => by rw [← hts, hp]) (.inr hp.symm) (by simp)
  | manager hstep =>
      apply hother (by simp)
      · left
        rintro rfl
        have hthread := hv.thread Thread.main.id
        rw [hp] at hthread
        cases hthread
      · cases hstep <;> simp [signalClerk]
  | clerk hstep =>
      apply hother (by simp)
      · left
        rintro rfl
        have hthread := hv.thread Thread.main.id
        rw [hp] at hthread
        cases hthread
      · cases hstep <;> simp [signalClerk, waitForClerk]
  | customer hstep =>
      apply hother (by simp)
      · left
        rintro rfl
        have hthread := hv.thread Thread.main.id
        rw [hp] at hthread
        cases hthread
      · cases hstep <;> simp [signalClerk, waitForClerk]

/-! ### What the books depend on -/

/-- The books of two states are the same. -/
structure Unchanged (d d' : Data) : Prop where
  money : ∀ a, (d'.clerk a).money = (d.clerk a).money
  totalSpent : d'.totalSpent = d.totalSpent
  counted : d'.counted = d.counted
  numPassports : d'.numPassports = d.numPassports
  paid : ∀ c, (d'.customerData c).paid = (d.customerData c).paid

theorem Unchanged.refl (d : Data) :
  Unchanged d d
  := ⟨fun _ => rfl, rfl, rfl, rfl, fun _ => rfl⟩

theorem Unchanged.trans {d₁ d₂ d₃ : Data} (h : Unchanged d₁ d₂) (h' : Unchanged d₂ d₃) :
  Unchanged d₁ d₃
  where
  money a := (h'.money a).trans (h.money a)
  totalSpent := h'.totalSpent.trans h.totalSpent
  counted := h'.counted.trans h.counted
  numPassports := h'.numPassports.trans h.numPassports
  paid c := (h'.paid c).trans (h.paid c)

theorem unchanged_modifyClerk {f : Clerk → Clerk} (hf : ∀ k, (f k).money = k.money) (a : ClerkId)
    (d : Data) :
  Unchanged d (d.modifyClerk a f)
  := by
  refine ⟨?_, rfl, rfl, rfl, fun _ => rfl⟩
  intro b
  by_cases hb : b = a
  · rw [hb, Data.clerk_modifyClerk_self, hf]
  · rw [Data.clerk_modifyClerk_of_ne hb]

theorem unchanged_setState (a : ClerkId) (state : ClerkState) (d : Data) :
  Unchanged d (d.setState a state)
  := unchanged_modifyClerk (by simp) a d

theorem unchanged_modifyCustomer {f : CustomerData → CustomerData} (hf : ∀ u, (f u).paid = u.paid)
    (c : ℤ) (d : Data) :
  Unchanged d (d.modifyCustomer c f)
  := by
  refine ⟨fun _ => rfl, rfl, rfl, rfl, ?_⟩
  intro c'
  rw [Data.modifyCustomer]
  by_cases hc : c' = c
  · simp [hc, hf]
  · simp [Function.update_of_ne hc]

theorem Unchanged.clerkMoney {d d' : Data} (h : Unchanged d d') (S : Setup) :
  clerkMoney S d' = clerkMoney S d
  := Finset.sum_congr rfl (fun a _ => h.money a)

theorem Unchanged.numPaid {d d' : Data} (h : Unchanged d d') (S : Setup) :
  numPaid S d' = numPaid S d
  := Finset.sum_congr rfl (fun c _ => by rw [h.paid])

/-- A sum of which one term changes. -/
theorem sum_change {κ : Type} [DecidableEq κ] {s : Finset κ} {f g : κ → ℤ} {a : κ} (ha : a ∈ s)
    (h : ∀ b ∈ s, b ≠ a → g b = f b) :
  ∑ b ∈ s, g b = ∑ b ∈ s, f b + (g a - f a)
  := by
  rw [← Finset.add_sum_erase s g ha, ← Finset.add_sum_erase s f ha]
  have hsame : ∑ b ∈ s.erase a, g b = ∑ b ∈ s.erase a, f b :=
    Finset.sum_congr rfl (fun b hb => h b (Finset.mem_of_mem_erase hb) (Finset.ne_of_mem_erase hb))
  rw [hsame]
  omega

/-- The customer `c` waits for the cashier `j`. -/
def AtCashier (v : SimView) (c j : ℕ) : Prop :=
  ∃ c', v.pos (Thread.customer c).id = .customer c' (.served .cashier j)

/-- What is due from a customer depends on where it is, and on the cashier. -/
theorem due_congr (hpos : w.pos (Thread.customer c).id = v.pos (Thread.customer c).id)
    (howes : ∀ j, AtCashier v c j → (w.pos (cashierId j)).owes = (v.pos (cashierId j)).owes) :
  due w c = due v c
  := by
  rw [due, due, hpos]
  split
  · rfl
  · rename_i c' j hp
    rw [howes j ⟨c', hp⟩]
  · rfl

theorem uncounted_congr (hpos : w.pos (Thread.customer c).id = v.pos (Thread.customer c).id)
    (huncounted : ∀ j, AtCashier v c j →
      (w.pos (cashierId j)).uncounted = (v.pos (cashierId j)).uncounted) :
  uncounted w c = uncounted v c
  := by
  rw [uncounted, uncounted, hpos]
  split
  · rename_i c' j hp
    rw [huncounted j ⟨c', hp⟩]
  · rfl

theorem Pos.Paid.congr (h : (v.pos (Thread.customer c).id).Paid v)
    (hpos : w.pos (Thread.customer c).id = v.pos (Thread.customer c).id)
    (hrecorded : ∀ j, AtCashier v c j → (v.pos (cashierId j)).recorded = true →
      (w.pos (cashierId j)).recorded = true) :
  (w.pos (Thread.customer c).id).Paid w
  := by
  rw [hpos]
  cases hp : v.pos (Thread.customer c).id with
  | main | manager | clerk =>
      rw [hp] at h
      exact h
  | customer c' q =>
      rw [hp] at h
      cases q with
      | served s j =>
          cases s with
          | cashier => exact hrecorded j ⟨c', hp⟩ h
          | appFirst | picSecond | picFirst | appSecond | pass => exact h
      | leaving s j | released s => cases s <;> exact h
      | start | lineLock | moneyLock | moneyUnlocked | line | clerkLock | lineUnlocked | given
      | judged | retake | left => exact h

/-- A customer who waits for a cashier is at its counter. -/
theorem AtCashier.phase {j : ℕ} (h : AtCashier v c j) :
  phase v j (Thread.customer c).id = .waiting ∨ phase v j (Thread.customer c).id = .woken
  := by
  obtain ⟨c', hp⟩ := h
  rw [Simulation.phase, hp]
  by_cases hmem : (Thread.customer c).id ∈ v.queue (clerkCV (.cashier, j))
  · simp [Pos.phase, hmem]
  · simp [Pos.phase, hmem]

/-- A cashier at whose counter a customer waits is serving it. -/
theorem AtCashier.service {j : ℕ} (h : AtCashier v c j) (hvisits : Visits j v) :
  Simulation.service v j = .serving ∨ Simulation.service v j = .working ∨
    Simulation.service v j = .filed ∨ Simulation.service v j = .leaving
  := by
  have hallowed := hvisits.allowed (Thread.customer c).id
  obtain hphase | hphase := h.phase <;> rw [hphase] at hallowed <;>
    cases hs : Simulation.service v j <;> rw [hs] at hallowed <;> simp at hallowed ⊢

/-- Two customers do not wait for the same cashier. -/
theorem AtCashier.unique {j c' : ℕ} (h : AtCashier v c j) (h' : AtCashier v c' j)
    (hvisits : Visits j v) :
  c = c'
  := by
  have heq := hvisits.unique (Thread.customer c).id (Thread.customer c').id
    (by obtain hphase | hphase := h.phase <;> simp [hphase])
    (by obtain hphase | hphase := h'.phase <;> simp [hphase])
  exact Thread.customer.inj (Thread.id_injective heq)

end Nachos.Simulation
