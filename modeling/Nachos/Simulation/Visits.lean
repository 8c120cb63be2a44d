import Nachos.Simulation.Steps

/-!
# Visits to a cashier

A cashier signals a customer who waits in a line, and waits until the customer has given its number.
While the cashier takes the money and records the payment the customer waits, and then the cashier
waits until the customer has left. If the manager signals the cashier only when it is on break, then at
most one customer is at the counter, and is as far in its visit as the cashier is in serving it
(`Visits`).
-/

namespace Nachos.Simulation

open Monitor Threads

/-! ### How far a visit is -/

/-- Where a customer is, seen from a cashier. -/
inductive Phase where
  | away
  /-- The customer has been called out of the line. -/
  | called
  | entering
  | entered
  | given
  | waiting
  /-- The customer has been woken. -/
  | woken
  | leaving
deriving DecidableEq

/-- Where a cashier is. -/
inductive Service where
  | idle
  | calling
  | ready
  /-- The cashier waits for the customer's number. -/
  | waiting
  | serving
  | working
  | filed
  /-- The cashier waits until the customer leaves. -/
  | leaving
  | left
deriving DecidableEq

/-- The phase of a thread that is at a position and in some queues, seen from the cashier `j`. -/
def Pos.phase (j : ℕ) (waits : ℕ → Bool) : Pos → Phase
  | .customer _ (.line .cashier i bribe) =>
      if i = j ∧ waits (lineCV (.cashier, j) bribe) = false then .called else .away
  | .customer _ (.clerkLock .cashier i) => if i = j then .entering else .away
  | .customer _ (.lineUnlocked .cashier i) => if i = j then .entered else .away
  | .customer _ (.given .cashier i) => if i = j then .given else .away
  | .customer _ (.served .cashier i) =>
      if i = j then if waits (clerkCV (.cashier, j)) then .waiting else .woken else .away
  | .customer _ (.leaving .cashier i) => if i = j then .leaving else .away
  | _ => .away

def ClerkPos.service (waits : Bool) : ClerkPos → Service
  | .called _ | .clerkLock _ => .calling
  | .lineUnlocked _ => .ready
  | .waited _ => if waits then .waiting else .serving
  | .working _ _ | .moneyLock _ | .moneyUnlocked _ => .working
  | .filed | .passPortLock | .passPortUnlocked => .filed
  | .left => if waits then .leaving else .left
  | .top | .lineLock | .taken _ | .judged _ | .told _ | .released | .breaking | .breakLock
  | .onBreak => .idle

def Pos.service (waits : Bool) : Pos → Service
  | .clerk _ p => p.service waits
  | _ => .idle

/-- The phases in which a customer may be. -/
@[simp]
def Service.Allows : Service → Phase → Prop
  | _, .away => True
  | .calling, p => p = .called
  | .ready, p => p = .called ∨ p = .entering
  | .waiting, p => p = .called ∨ p = .entering ∨ p = .entered
  | .serving, p => p = .given ∨ p = .waiting
  | .working, p => p = .waiting
  | .filed, p => p = .woken
  | .leaving, p => p = .woken
  | .left, p => p = .leaving
  | .idle, _ => False

section

variable {p : Phase}

/-- What a cashier allows when it is a step further. -/
theorem allows_ready (h : Service.calling.Allows p) :
  Service.ready.Allows p
  := by
  cases p <;> simp at h ⊢

theorem allows_waiting (h : Service.ready.Allows p) :
  Service.waiting.Allows p
  := by
  cases p <;> simp at h ⊢

theorem allows_working (h : Service.serving.Allows p) (hp : p ≠ .given) :
  Service.working.Allows p
  := by
  cases p <;> simp at h hp ⊢

theorem allows_entering {s : Service} (h : s.Allows .called) (hs : s ≠ .calling) :
  s.Allows .entering
  := by
  cases s <;> simp at h hs ⊢

theorem allows_entered {s : Service} (h : s.Allows .entering) (hs : s ≠ .ready) :
  s.Allows .entered
  := by
  cases s <;> simp at h hs ⊢

theorem allows_waits {s : Service} (h : s.Allows .given) :
  s.Allows .waiting
  := by
  cases s <;> simp at h ⊢

theorem eq_waiting {s : Service} (h : s.Allows .entered) :
  s = .waiting
  := by
  cases s <;> simp at h ⊢

theorem eq_leaving {s : Service} (h : s.Allows .woken) (hs : s ≠ .filed) :
  s = .leaving
  := by
  cases s <;> simp at h hs ⊢

theorem eq_left {s : Service} (h : s.Allows .leaving) :
  s = .left
  := by
  cases s <;> simp at h ⊢

theorem allows_leaving (h : Service.filed.Allows p) :
  Service.leaving.Allows p
  := by
  cases p <;> simp at h ⊢

theorem allows_idle (h : Service.left.Allows p) (hp : p ≠ .leaving) :
  Service.idle.Allows p
  := by
  cases p <;> simp at h hp ⊢

end

/-- The cashier has a customer. -/
def Service.Busy (s : Service) : Prop := s = .serving ∨ s = .working ∨ s = .filed ∨ s = .leaving

/-- The thread of the cashier `j`. -/
def cashierId (j : ℕ) : ℕ := (Thread.clerk (.cashier, j)).id

/-- The threads in the simulation, as they can be seen. -/
abbrev SimView := View Data Pos

def phase (v : SimView) (j t : ℕ) : Phase := (v.pos t).phase j (fun c => t ∈ v.queue c)

def service (v : SimView) (j : ℕ) : Service :=
  (v.pos (cashierId j)).service (cashierId j ∈ v.queue (clerkCV (.cashier, j)))

/-- The invariant of a cashier. -/
structure Visits (j : ℕ) (v : SimView) : Prop where
  allowed : ∀ t, (service v j).Allows (phase v j t)
  unique : ∀ t u, phase v j t ≠ .away → phase v j u ≠ .away → t = u
  present : (service v j).Busy → ∃ t, phase v j t ≠ .away
  /-- The cashier knows the customer's number. -/
  toFile : ∀ t c p, v.pos t = .customer c p → phase v j t = .given ∨ phase v j t = .waiting →
    (v.data.clerk (.cashier, j)).toFile = c

/-! ### Which thread is where -/

/-- The thread of a position. -/
def Pos.thread : Pos → Thread
  | .main _ => .main
  | .manager _ => .manager
  | .clerk a _ => .clerk a
  | .customer c _ => .customer c

/-- Only pictures are judged. -/
def Pos.Valid : Pos → Prop
  | .customer _ (.judged v _ _) | .customer _ (.retake v _ _) => v.kind = .pic
  | _ => True

structure Placed (v : SimView) : Prop where
  thread : ∀ t, (v.pos t).thread = Thread.ofId t
  valid : ∀ t, (v.pos t).Valid
  queued : ∀ t c, t ∈ v.queue c → ∃ M, (v.pos t).last = some (.wait c M)
  nodup : ∀ c, (v.queue c).Nodup

variable {S : Setup} {v : SimView} {d' : Data} {e : Effect} {p p' : Pos} {j t u c : ℕ}

theorem ThreadStep.thread {d : Data} (h : ThreadStep S d p d' e p') :
  p'.thread = p.thread
  := by
  cases h <;> rfl

theorem ThreadStep.valid {d : Data} (h : ThreadStep S d p d' e p') (hp : p.Valid) :
  p'.Valid
  := by
  cases h with
  | wake | yield | park | manager | clerk => trivial
  | customer h =>
      cases h with
      | judge j picLiked hv => exact hv
      | waitAgain => exact hp
      | arrive | bribe | getInLine | pay | getInBribeLine | leaveLine | enter | give | wait | spend
      | leave | retake | release | goOn | finish => trivial

/-- The thread of a clerk is at the positions of the clerk. -/
theorem Placed.clerk_eq (h : Placed v) {a : ClerkId} {q : ClerkPos} (ht : v.pos t = .clerk a q) :
  t = (Thread.clerk a).id
  := by
  have hthread := h.thread t
  rw [ht] at hthread
  rw [← Thread.id_ofId t, ← hthread]
  rfl

theorem Placed.id_thread (h : Placed v) (t : ℕ) :
  (v.pos t).thread.id = t
  := by rw [h.thread, Thread.id_ofId]

theorem Placed.pos_cashier (h : Placed v) (j : ℕ) :
  ∃ q, v.pos (cashierId j) = .clerk (.cashier, j) q
  := by
  have hthread := h.thread (cashierId j)
  rw [cashierId, Thread.ofId_id] at hthread
  rw [cashierId]
  cases hp : v.pos (Thread.clerk (.cashier, j)).id with
  | clerk a q =>
      rw [hp] at hthread
      obtain rfl := Thread.clerk.inj hthread
      exact ⟨q, rfl⟩
  | main | manager | customer =>
      rw [hp] at hthread
      cases hthread

/-! ### What a step changes -/

/-- What can be seen after a step of the thread `t`. -/
def after (v : SimView) (t : ℕ) (d' : Data) (e : Effect) (p' : Pos) : SimView :=
  ⟨Function.update v.pos t p', d', e.queue t v.queue, e.threads t v.threads⟩

@[simp]
theorem pos_after_self :
  (after v t d' e p').pos t = p'
  := Function.update_self _ _ _

theorem pos_after_of_ne (h : u ≠ t) :
  (after v t d' e p').pos u = v.pos u
  := Function.update_of_ne h _ _

/-- The step is a call of `Wait`. -/
def waitsFor : Effect → ℕ → Bool
  | .call (.wait v _), c => v = c
  | _, _ => false

/-- A thread that makes a step is in a queue afterwards only if it has called `Wait`. -/
theorem mem_queue_self {q : ℕ → List ℕ} (ht : t ∉ q c) :
  t ∈ e.queue t q c ↔ waitsFor e c = true
  := by
  cases e with
  | compute | park | wake u => simp [Effect.queue, waitsFor, ht]
  | call a =>
      cases a with
      | wait w M =>
          by_cases hw : c = w
          · subst hw
            simp [Effect.queue, waitsFor]
          · have hwc : w ≠ c := fun heq => hw heq.symm
            simp [Effect.queue, waitsFor, Function.update_of_ne hw, ht, hwc]
      | signal w M =>
          by_cases hw : c = w
          · subst hw
            have htail : t ∉ (q c).tail := fun h => ht (List.mem_of_mem_tail h)
            simp [Effect.queue, waitsFor, htail]
          · simp [Effect.queue, waitsFor, Function.update_of_ne hw, ht]
      | acquire | release | broadcast | yield | preempt | proceed =>
          simp [Effect.queue, waitsFor, ht]

/-- The other threads stay in a queue, but for the first one when it is signalled. -/
theorem mem_queue_of_ne {q : ℕ → List ℕ} (hut : u ≠ t)
    (he : ∀ M, e = .call (.signal c M) → u ∉ (q c).head?) :
  u ∈ e.queue t q c ↔ u ∈ q c
  := by
  cases e with
  | compute | park | wake => rfl
  | call a =>
      cases a with
      | wait w M =>
          by_cases hw : c = w
          · subst hw
            simp [Effect.queue, hut]
          · simp [Effect.queue, Function.update_of_ne hw]
      | signal w M =>
          by_cases hw : c = w
          · subst hw
            have hhead := he M rfl
            cases hq : q c with
            | nil => simp [Effect.queue, hq]
            | cons x xs =>
                have hux : u ≠ x := by
                  rintro rfl
                  exact hhead (by simp [hq])
                simp [Effect.queue, hq, hux]
          · simp [Effect.queue, Function.update_of_ne hw]
      | acquire | release | broadcast | yield | preempt | proceed => rfl

/-- The queues of the cashier `j`. -/
def IsQueueOf (j c : ℕ) : Prop := c = clerkCV (.cashier, j) ∨ ∃ bribe, c = lineCV (.cashier, j) bribe

/-- No queue of the cashier `j` is signalled. -/
def Ignores (j : ℕ) (e : Effect) : Prop := ∀ c M, IsQueueOf j c → e ≠ .call (.signal c M)

theorem phase_congr {w : SimView} (hpos : w.pos u = v.pos u)
    (hqueue : ∀ c, IsQueueOf j c → (u ∈ w.queue c ↔ u ∈ v.queue c)) :
  phase w j u = phase v j u
  := by
  rw [phase, phase, hpos]
  cases v.pos u with
  | main | manager | clerk => rfl
  | customer c p =>
      have hclerk := hqueue _ (.inl rfl)
      cases p with
      | line s i bribe =>
          have hline := hqueue _ (.inr ⟨bribe, rfl⟩)
          cases s <;> simp [Pos.phase, hline]
      | served s i => cases s <;> simp [Pos.phase, hclerk]
      | clerkLock s i | lineUnlocked s i | given s i | leaving s i => cases s <;> rfl
      | start | lineLock | moneyLock | moneyUnlocked | judged | retake | released | left => rfl

theorem service_congr {w : SimView} (hpos : w.pos (cashierId j) = v.pos (cashierId j))
    (hqueue : cashierId j ∈ w.queue (clerkCV (.cashier, j)) ↔
      cashierId j ∈ v.queue (clerkCV (.cashier, j))) :
  service w j = service v j
  := by
  rw [service, service, hpos]
  simp only [hqueue]

/-- The others stay where they are, unless they are signalled. -/
theorem phase_of_ne (hut : u ≠ t)
    (he : ∀ c M, IsQueueOf j c → e = .call (.signal c M) → u ∉ (v.queue c).head?) :
  phase (after v t d' e p') j u = phase v j u
  := phase_congr (Function.update_of_ne hut _ _)
    (fun c hc => mem_queue_of_ne hut (fun M => he c M hc))

theorem service_of_ne (ht : cashierId j ≠ t)
    (he : ∀ M, e = .call (.signal (clerkCV (.cashier, j)) M) →
      cashierId j ∉ (v.queue (clerkCV (.cashier, j))).head?) :
  service (after v t d' e p') j = service v j
  := service_congr (Function.update_of_ne ht _ _) (mem_queue_of_ne ht he)

/-- The phase of a thread that is in no queue. -/
theorem phase_free (hfree : ∀ c, t ∉ v.queue c) :
  phase v j t = (v.pos t).phase j (fun _ => false)
  := by
  have hbefore : (fun c => decide (t ∈ v.queue c)) = fun _ => false := by
    funext c
    exact decide_eq_false (hfree c)
  rw [phase, hbefore]

/-- The phase of a thread that has made a step. -/
theorem phase_self (hfree : ∀ c, t ∉ v.queue c) :
  phase (after v t d' e p') j t = p'.phase j (waitsFor e)
  := by
  have hafter : (fun c => decide (t ∈ e.queue t v.queue c)) = waitsFor e := by
    funext c
    rw [Bool.eq_iff_iff, decide_eq_true_eq]
    exact mem_queue_self (hfree c)
  have hpos : (after v t d' e p').pos t = p' := Function.update_self _ _ _
  rw [phase, hpos]
  change p'.phase j (fun c => decide (t ∈ e.queue t v.queue c)) = _
  rw [hafter]

/-- The service of a cashier that is in no queue. -/
theorem service_free (hfree : ∀ c, cashierId j ∉ v.queue c) :
  service v j = (v.pos (cashierId j)).service false
  := by
  rw [service, decide_eq_false (hfree _)]

/-- The service of a cashier that has made a step. -/
theorem service_self (hfree : ∀ c, cashierId j ∉ v.queue c) :
  service (after v (cashierId j) d' e p') j = p'.service (waitsFor e (clerkCV (.cashier, j)))
  := by
  have hpos : (after v (cashierId j) d' e p').pos (cashierId j) = p' := Function.update_self _ _ _
  have hafter : decide (cashierId j ∈ e.queue (cashierId j) v.queue (clerkCV (.cashier, j))) =
      waitsFor e (clerkCV (.cashier, j)) := by
    rw [Bool.eq_iff_iff, decide_eq_true_eq]
    exact mem_queue_self (hfree _)
  rw [service, hpos]
  change p'.service (decide (cashierId j ∈ e.queue (cashierId j) v.queue _)) = _
  rw [hafter]

/-! ### Steps that signal no queue of the cashier -/

/-- A cashier is away. -/
theorem phase_cashier (hv : Placed v) (j : ℕ) :
  phase v j (cashierId j) = .away
  := by
  obtain ⟨q, hq⟩ := hv.pos_cashier j
  rw [phase, hq]
  rfl

/-- The phase of a customer is not that of another thread. -/
theorem customer_of_phase (ht : phase v j t ≠ .away) :
  ∃ c p, v.pos t = .customer c p
  := by
  rw [phase] at ht
  cases hp : v.pos t with
  | customer c p => exact ⟨c, p, rfl⟩
  | main | manager | clerk =>
      rw [hp] at ht
      exact absurd rfl ht

/-- A thread other than the cashier makes a step. -/
theorem Visits.other (h : Visits j v) (ht : cashierId j ≠ t) (he : Ignores j e)
    (hthread : p'.thread = (v.pos t).thread)
    (hallowed : (service v j).Allows (phase (after v t d' e p') j t))
    (hcome : phase v j t = .away → phase (after v t d' e p') j t = .away)
    (hgo : phase (after v t d' e p') j t = .away → phase v j t = .away ∨ ¬ (service v j).Busy)
    (htoFile : (d'.clerk (.cashier, j)).toFile = (v.data.clerk (.cashier, j)).toFile)
    (hknown : phase (after v t d' e p') j t = .given ∨ phase (after v t d' e p') j t = .waiting →
      phase v j t = .given ∨ phase v j t = .waiting) :
  Visits j (after v t d' e p')
  := by
  have hservice : service (after v t d' e p') j = service v j :=
    service_of_ne ht (fun M heq => absurd heq (he _ M (.inl rfl)))
  have hphase : ∀ {u}, u ≠ t → phase (after v t d' e p') j u = phase v j u :=
    fun hut => phase_of_ne hut (fun c M hc heq => absurd heq (he c M hc))
  have haway : ∀ u, phase (after v t d' e p') j u ≠ .away → phase v j u ≠ .away := by
    intro u hu
    by_cases hut : u = t
    · subst hut
      exact fun h => hu (hcome h)
    · rwa [hphase hut] at hu
  constructor
  · intro u
    rw [hservice]
    by_cases hut : u = t
    · subst hut
      exact hallowed
    · rw [hphase hut]
      exact h.allowed u
  · intro u w hu hw
    exact h.unique u w (haway u hu) (haway w hw)
  · intro hbusy
    rw [hservice] at hbusy
    obtain ⟨u, hu⟩ := h.present hbusy
    refine ⟨u, ?_⟩
    by_cases hut : u = t
    · subst hut
      exact fun heq => (hgo heq).elim hu (fun hnot => hnot hbusy)
    · rwa [hphase hut]
  · intro u c p hu hknown'
    change (d'.clerk (.cashier, j)).toFile = c
    rw [htoFile]
    by_cases hut : u = t
    · subst hut
      have hpos : (after v u d' e p').pos u = p' := Function.update_self _ _ _
      have hp' : p' = .customer c p := hpos.symm.trans hu
      rw [hp'] at hthread
      obtain ⟨c', q, hq⟩ : ∃ c' q, v.pos u = .customer c' q := by
        apply customer_of_phase (j := j)
        obtain heq | heq := hknown hknown' <;> simp [heq]
      rw [hq] at hthread
      obtain rfl : c = c' := Thread.customer.inj hthread
      exact h.toFile u c q hq (hknown hknown')
    · rw [hphase hut] at hknown'
      have hpos : (after v t d' e p').pos u = v.pos u := Function.update_of_ne hut _ _
      exact h.toFile u c p (hpos.symm.trans hu) hknown'

/-- The cashier makes a step. -/
theorem Visits.cashier (h : Visits j v) (hv : Placed v) (he : Ignores j e)
    (hthread : p'.thread = (v.pos (cashierId j)).thread)
    (hallowed : ∀ u, phase v j u ≠ .away →
      (service (after v (cashierId j) d' e p') j).Allows (phase v j u))
    (hbusy : (service (after v (cashierId j) d' e p') j).Busy → (service v j).Busy)
    (htoFile : (d'.clerk (.cashier, j)).toFile = (v.data.clerk (.cashier, j)).toFile) :
  Visits j (after v (cashierId j) d' e p')
  := by
  have hself : phase (after v (cashierId j) d' e p') j (cashierId j) = .away := by
    obtain ⟨q, hq⟩ := hv.pos_cashier j
    rw [hq] at hthread
    by_contra hne
    obtain ⟨c, p, hp⟩ := customer_of_phase hne
    have hpos : (after v (cashierId j) d' e p').pos (cashierId j) = p' := Function.update_self _ _ _
    rw [hpos] at hp
    rw [hp] at hthread
    cases hthread
  have hphase : ∀ u, phase (after v (cashierId j) d' e p') j u = phase v j u := by
    intro u
    by_cases huj : u = cashierId j
    · subst huj
      rw [hself, phase_cashier hv]
    · exact phase_of_ne huj (fun c M hc heq => absurd heq (he c M hc))
  constructor
  · intro u
    rw [hphase]
    by_cases haway : phase v j u = .away
    · rw [haway]
      cases service (after v (cashierId j) d' e p') j <;> trivial
    · exact hallowed u haway
  · intro u w hu hw
    rw [hphase] at hu hw
    exact h.unique u w hu hw
  · intro hbusy'
    obtain ⟨u, hu⟩ := h.present (hbusy hbusy')
    exact ⟨u, by rwa [hphase]⟩
  · intro u c p hu hknown
    rw [hphase] at hknown
    change (d'.clerk (.cashier, j)).toFile = c
    rw [htoFile]
    have huj : u ≠ cashierId j := by
      rintro rfl
      rw [phase_cashier hv] at hknown
      simp at hknown
    have hpos : (after v (cashierId j) d' e p').pos u = v.pos u := Function.update_of_ne huj _ _
    exact h.toFile u c p (hpos.symm.trans hu) hknown

/-! ### Steps that signal a queue of the cashier -/

theorem Stage.eq_cashier {s : Stage} {i : ℕ} (h : (s.kind, i) = (Kind.cashier, j)) :
  s = .cashier ∧ i = j
  := by
  obtain ⟨hs, rfl⟩ := Prod.mk.inj h
  refine ⟨?_, rfl⟩
  cases s <;> first | rfl | cases hs

/-- Who waits for the condition variable of a cashier. -/
theorem queue_clerkCV (hv : Placed v) (hu : u ∈ v.queue (clerkCV (.cashier, j))) :
  u = cashierId j ∨ phase v j u = .waiting
  := by
  obtain ⟨M, hlast⟩ := hv.queued u _ hu
  cases hp : v.pos u with
  | main ts =>
      rw [hp] at hlast
      cases hlast
  | manager p =>
      rw [hp] at hlast
      cases p <;> cases hlast
  | clerk a q =>
      rw [hp] at hlast
      left
      suffices ha : a = (.cashier, j) by
        subst ha
        exact hv.clerk_eq hp
      cases q with
      | waited | judged | left | onBreak =>
          simp only [Pos.last, ClerkPos.last, Option.some.injEq, Kernel.Action.wait.injEq] at hlast
          exact clerkCV_inj.mp hlast.1
      | top | lineLock | called | clerkLock | lineUnlocked | working | taken | told | moneyLock
      | moneyUnlocked | filed | passPortLock | passPortUnlocked | released | breaking
      | breakLock => cases hlast
  | customer c q =>
      rw [hp] at hlast
      have hvalid := hv.valid u
      rw [hp] at hvalid
      right
      cases q with
      | line s i bribe =>
          simp only [Pos.last, CustomerPos.last, Option.some.injEq, Kernel.Action.wait.injEq] at hlast
          exact absurd hlast.1 (lineCV_ne_clerkCV _ _ _)
      | served s i =>
          simp only [Pos.last, CustomerPos.last, Option.some.injEq, Kernel.Action.wait.injEq] at hlast
          obtain ⟨rfl, rfl⟩ := Stage.eq_cashier (clerkCV_inj.mp hlast.1)
          rw [phase, hp]
          simp [Pos.phase, hu]
      | retake s i picLiked =>
          simp only [Pos.last, CustomerPos.last, Option.some.injEq, Kernel.Action.wait.injEq] at hlast
          obtain ⟨rfl, rfl⟩ := Stage.eq_cashier (clerkCV_inj.mp hlast.1)
          cases hvalid
      | start | lineLock | moneyLock | moneyUnlocked | clerkLock | lineUnlocked | given | judged
      | leaving | released | left => cases hlast

/-- Who waits in a line of a cashier. -/
theorem queue_lineCV (hv : Placed v) {bribe : Bool} (hu : u ∈ v.queue (lineCV (.cashier, j) bribe)) :
  ∃ c, v.pos u = .customer c (.line .cashier j bribe)
  := by
  obtain ⟨M, hlast⟩ := hv.queued u _ hu
  cases hp : v.pos u with
  | main ts =>
      rw [hp] at hlast
      cases hlast
  | manager p =>
      rw [hp] at hlast
      cases p <;> cases hlast
  | clerk a q =>
      rw [hp] at hlast
      cases q with
      | waited | judged | left | onBreak =>
          simp only [Pos.last, ClerkPos.last, Option.some.injEq, Kernel.Action.wait.injEq] at hlast
          exact absurd hlast.1.symm (lineCV_ne_clerkCV _ _ _)
      | top | lineLock | called | clerkLock | lineUnlocked | working | taken | told | moneyLock
      | moneyUnlocked | filed | passPortLock | passPortUnlocked | released | breaking
      | breakLock => cases hlast
  | customer c q =>
      rw [hp] at hlast
      cases q with
      | line s i bribe' =>
          simp only [Pos.last, CustomerPos.last, Option.some.injEq, Kernel.Action.wait.injEq] at hlast
          obtain ⟨ha, rfl⟩ := lineCV_inj.mp hlast.1
          obtain ⟨rfl, rfl⟩ := Stage.eq_cashier ha
          exact ⟨c, rfl⟩
      | served s i | retake s i picLiked =>
          simp only [Pos.last, CustomerPos.last, Option.some.injEq, Kernel.Action.wait.injEq] at hlast
          exact absurd hlast.1.symm (lineCV_ne_clerkCV _ _ _)
      | start | lineLock | moneyLock | moneyUnlocked | clerkLock | lineUnlocked | given | judged
      | leaving | released | left => cases hlast

/-- Nobody is at the counter of a cashier that does not serve. -/
theorem Visits.away (h : Visits j v) (hidle : service v j = .idle) (t : ℕ) :
  phase v j t = .away
  := by
  have hallowed := h.allowed t
  rw [hidle] at hallowed
  cases hp : phase v j t <;> rw [hp] at hallowed <;> first | rfl | cases hallowed

/-- The cashier calls a customer out of a line. -/
theorem Visits.call (h : Visits j v) (hv : Placed v) (hfree : ∀ c, cashierId j ∉ v.queue c)
    (hidle : service v j = .idle) (bribe : Bool) {M : Option ℕ} {a : ClerkId} :
  Visits j (after v (cashierId j) d' (.call (.signal (lineCV (.cashier, j) bribe) M))
    (.clerk a (.called bribe)))
  := by
  have hservice : service (after v (cashierId j) d' (.call (.signal (lineCV (.cashier, j) bribe) M))
      (.clerk a (.called bribe))) j = .calling := service_self hfree
  have hphase : ∀ u, phase (after v (cashierId j) d'
      (.call (.signal (lineCV (.cashier, j) bribe) M)) (.clerk a (.called bribe))) j u ≠ .away →
      phase (after v (cashierId j) d' (.call (.signal (lineCV (.cashier, j) bribe) M))
        (.clerk a (.called bribe))) j u = .called ∧
      u ∈ (v.queue (lineCV (.cashier, j) bribe)).head? := by
    intro u hu
    by_cases huj : u = cashierId j
    · subst huj
      exact absurd (phase_self hfree) hu
    · by_cases hhead : u ∈ (v.queue (lineCV (.cashier, j) bribe)).head?
      · refine ⟨?_, hhead⟩
        obtain ⟨us, hqueue⟩ : ∃ us, v.queue (lineCV (.cashier, j) bribe) = u :: us := by
          cases hq : v.queue (lineCV (.cashier, j) bribe) with
          | nil => simp [hq] at hhead
          | cons x us => exact ⟨us, by simpa [hq, eq_comm] using hhead⟩
        have hmem : u ∈ v.queue (lineCV (.cashier, j) bribe) := by simp [hqueue]
        obtain ⟨c, hp⟩ := queue_lineCV hv hmem
        have hnodup := hv.nodup (lineCV (.cashier, j) bribe)
        rw [hqueue, List.nodup_cons] at hnodup
        have hpos : (after v (cashierId j) d' (.call (.signal (lineCV (.cashier, j) bribe) M))
            (.clerk a (.called bribe))).pos u = .customer c (.line .cashier j bribe) :=
          (Function.update_of_ne huj _ _).trans hp
        rw [phase, hpos]
        simp [Pos.phase, after, Effect.queue, hqueue, hnodup.1]
      · rw [phase_of_ne huj] at hu
        · exact absurd (h.away hidle u) hu
        · intro c N _ heq
          obtain ⟨rfl, -⟩ := Kernel.Action.signal.inj (Effect.call.inj heq)
          exact hhead
  constructor
  · intro u
    rw [hservice]
    by_cases hu : phase (after v (cashierId j) d' (.call (.signal (lineCV (.cashier, j) bribe) M))
        (.clerk a (.called bribe))) j u = .away
    · rw [hu]
      trivial
    · rw [(hphase u hu).1]
      rfl
  · intro u w hu hw
    exact Option.some.inj ((hphase u hu).2.symm.trans (hphase w hw).2)
  · intro hbusy
    rw [hservice] at hbusy
    simp [Service.Busy] at hbusy
  · intro u c p _ hknown
    have hu : phase (after v (cashierId j) d' (.call (.signal (lineCV (.cashier, j) bribe) M))
        (.clerk a (.called bribe))) j u ≠ .away := by
      obtain heq | heq := hknown <;> simp [heq]
    rw [(hphase u hu).1] at hknown
    simp at hknown

theorem eq_singleton {l : List ℕ} (hnodup : l.Nodup) (hmem : u ∈ l) (hall : ∀ w ∈ l, w = u) :
  l = [u]
  := by
  match l with
  | [] => cases hmem
  | [w] => rw [hall w List.mem_cons_self]
  | w :: x :: l =>
      have hw := hall w List.mem_cons_self
      have hx := hall x (List.mem_cons_of_mem w List.mem_cons_self)
      rw [hw, hx] at hnodup
      simp at hnodup

/-- A visitor signals the cashier, who waits alone. -/
theorem Visits.signal (h : Visits j v) (hv : Placed v) (hfree : ∀ c, t ∉ v.queue c)
    (hwaits : cashierId j ∈ v.queue (clerkCV (.cashier, j)))
    (hnone : ∀ u, phase v j u ≠ .waiting) (hthread : p'.thread = (v.pos t).thread)
    (hvisitor : phase v j t ≠ .away)
    (hafter : p'.phase j (fun _ => false) ≠ .away)
    (hallowed : ((v.pos (cashierId j)).service false).Allows (p'.phase j (fun _ => false)))
    (htoFile : p'.phase j (fun _ => false) = .given ∨ p'.phase j (fun _ => false) = .waiting →
      ∀ c q, p' = .customer c q → (d'.clerk (.cashier, j)).toFile = c) :
  Visits j (after v t d' (signalClerk (.cashier, j)) p')
  := by
  have ht : cashierId j ≠ t := by
    rintro rfl
    exact hfree _ hwaits
  have hqueue : v.queue (clerkCV (.cashier, j)) = [cashierId j] := by
    apply eq_singleton (hv.nodup _) hwaits
    intro u hu
    exact (queue_clerkCV hv hu).resolve_right (hnone u)
  have hself : phase (after v t d' (signalClerk (.cashier, j)) p') j t =
      p'.phase j (fun _ => false) := phase_self hfree
  have hservice : service (after v t d' (signalClerk (.cashier, j)) p') j =
      (v.pos (cashierId j)).service false := by
    have hpos : (after v t d' (signalClerk (.cashier, j)) p').pos (cashierId j) =
        v.pos (cashierId j) := Function.update_of_ne ht _ _
    rw [service, hpos]
    simp [after, signalClerk, Effect.queue, hqueue]
  have haway : ∀ u, u ≠ t → phase (after v t d' (signalClerk (.cashier, j)) p') j u = .away := by
    intro u hut
    have hbefore : phase v j u = .away := by
      by_contra hu
      exact hut (h.unique u t hu hvisitor)
    by_cases huj : u = cashierId j
    · subst huj
      obtain ⟨q, hq⟩ := hv.pos_cashier j
      have hpos : (after v t d' (signalClerk (.cashier, j)) p').pos (cashierId j) =
          .clerk (.cashier, j) q := (Function.update_of_ne ht _ _).trans hq
      rw [phase, hpos]
      rfl
    · rw [phase_of_ne hut, hbefore]
      intro c M _ heq
      obtain ⟨rfl, -⟩ := Kernel.Action.signal.inj (Effect.call.inj heq)
      simpa [hqueue] using fun heq => huj heq.symm
  constructor
  · intro u
    rw [hservice]
    by_cases hut : u = t
    · rw [hut, hself]
      exact hallowed
    · rw [haway u hut]
      cases (v.pos (cashierId j)).service false <;> trivial
  · intro u w hu hw
    have heq : ∀ x, phase (after v t d' (signalClerk (.cashier, j)) p') j x ≠ .away → x = t :=
      fun x hx => by_contra fun hxt => hx (haway x hxt)
    rw [heq u hu, heq w hw]
  · exact fun _ => ⟨t, by rwa [hself]⟩
  · intro u c q hu hknown
    have hut : u = t := by
      by_contra hut
      rw [haway u hut] at hknown
      simp at hknown
    subst hut
    have hpos : (after v u d' (signalClerk (.cashier, j)) p').pos u = p' :=
      Function.update_self _ _ _
    rw [hself] at hknown
    exact htoFile hknown c q (hpos.symm.trans hu)

/-- The cashier signals the customer when the payment has been recorded. -/
theorem Visits.file (h : Visits j v) (hv : Placed v) (hfree : ∀ c, cashierId j ∉ v.queue c)
    (hworking : service v j = .working) (a : ClerkId) :
  Visits j (after v (cashierId j) d' (signalClerk (.cashier, j)) (.clerk a .filed))
  := by
  obtain ⟨w, hw⟩ := h.present (by rw [hworking]; exact .inr (.inl rfl))
  have hwaiting : phase v j w = .waiting := by
    have hallowed := h.allowed w
    rw [hworking] at hallowed
    cases hp : phase v j w <;> rw [hp] at hallowed hw <;> first | rfl | exact absurd rfl hw | cases hallowed
  obtain ⟨c, q, hpos⟩ := customer_of_phase hw
  have hwj : w ≠ cashierId j := by
    rintro rfl
    exact hw (phase_cashier hv j)
  have hmem : w ∈ v.queue (clerkCV (.cashier, j)) ∧ q = .served .cashier j := by
    rw [phase, hpos] at hwaiting
    cases q with
    | line s i bribe =>
        cases s <;> simp [Pos.phase] at hwaiting
        split at hwaiting <;> cases hwaiting
    | served s i =>
        cases s <;> simp [Pos.phase] at hwaiting
        split at hwaiting
        · rename_i hij
          split at hwaiting
          · rename_i hmem
            exact ⟨hmem, by rw [hij]⟩
          · cases hwaiting
        · cases hwaiting
    | clerkLock s i | lineUnlocked s i | given s i | leaving s i =>
        cases s <;> simp [Pos.phase] at hwaiting
        split at hwaiting <;> cases hwaiting
    | start | lineLock | moneyLock | moneyUnlocked | judged | retake | released | left =>
        cases hwaiting
  obtain ⟨hmem, rfl⟩ := hmem
  have hqueue : v.queue (clerkCV (.cashier, j)) = [w] := by
    apply eq_singleton (hv.nodup _) hmem
    intro u hu
    obtain rfl | hu := queue_clerkCV hv hu
    · exact absurd hu (hfree _)
    · exact h.unique u w (by simp [hu]) hw
  have hservice : service (after v (cashierId j) d' (signalClerk (.cashier, j)) (.clerk a .filed)) j =
      .filed := service_self hfree
  have hwoken : phase (after v (cashierId j) d' (signalClerk (.cashier, j)) (.clerk a .filed)) j w =
      .woken := by
    have hpos' : (after v (cashierId j) d' (signalClerk (.cashier, j)) (.clerk a .filed)).pos w =
        .customer c (.served .cashier j) := (Function.update_of_ne hwj _ _).trans hpos
    rw [phase, hpos']
    simp [Pos.phase, after, signalClerk, Effect.queue, hqueue]
  have haway : ∀ u, u ≠ w →
      phase (after v (cashierId j) d' (signalClerk (.cashier, j)) (.clerk a .filed)) j u = .away := by
    intro u huw
    by_cases huj : u = cashierId j
    · subst huj
      exact phase_self hfree
    · rw [phase_of_ne huj]
      · by_contra hu
        exact huw (h.unique u w hu hw)
      · intro c M _ heq
        obtain ⟨rfl, -⟩ := Kernel.Action.signal.inj (Effect.call.inj heq)
        simpa [hqueue] using fun heq => huw heq.symm
  constructor
  · intro u
    rw [hservice]
    by_cases huw : u = w
    · rw [huw, hwoken]
      rfl
    · rw [haway u huw]
      trivial
  · intro u x hu hx
    have heq : ∀ y, phase (after v (cashierId j) d' (signalClerk (.cashier, j)) (.clerk a .filed)) j y ≠
        .away → y = w := fun y hy => by_contra fun hyw => hy (haway y hyw)
    rw [heq u hu, heq x hx]
  · exact fun _ => ⟨w, by rw [hwoken]; decide⟩
  · intro u c' q' _ hknown
    by_cases huw : u = w
    · rw [huw, hwoken] at hknown
      simp at hknown
    · rw [haway u huw] at hknown
      simp at hknown

/-- The manager signals the cashier, when nobody waits but the cashier on its break. -/
theorem Visits.manager (h : Visits j v) (ht : cashierId j ≠ t)
    (hproper : ∀ u ∈ v.queue (clerkCV (.cashier, j)), v.pos u = .clerk (.cashier, j) .onBreak)
    (hthread : p'.thread = (v.pos t).thread) {q : ManagerPos} (hq : v.pos t = .manager q) :
  Visits j (after v t v.data (signalClerk (.cashier, j)) p')
  := by
  have hmanager : ∃ q, p' = .manager q := by
    rw [hq] at hthread
    cases p' with
    | manager q => exact ⟨q, rfl⟩
    | main | clerk | customer => cases hthread
  have hservice : service (after v t v.data (signalClerk (.cashier, j)) p') j = service v j := by
    have hpos : (after v t v.data (signalClerk (.cashier, j)) p').pos (cashierId j) =
        v.pos (cashierId j) := Function.update_of_ne ht _ _
    by_cases hmem : cashierId j ∈ v.queue (clerkCV (.cashier, j))
    · rw [service, service, hpos, hproper _ hmem]
      rfl
    · apply service_of_ne ht
      intro M _ hhead
      exact hmem (List.mem_of_mem_head? hhead)
  have hphase : ∀ u, phase (after v t v.data (signalClerk (.cashier, j)) p') j u = phase v j u := by
    intro u
    by_cases hut : u = t
    · subst hut
      obtain ⟨q', rfl⟩ := hmanager
      have hpos : (after v u v.data (signalClerk (.cashier, j)) (.manager q')).pos u = .manager q' :=
        Function.update_self _ _ _
      rw [phase, phase, hpos, hq]
      rfl
    · by_cases hmem : u ∈ v.queue (clerkCV (.cashier, j))
      · have hpos : (after v t v.data (signalClerk (.cashier, j)) p').pos u = v.pos u :=
          Function.update_of_ne hut _ _
        rw [phase, phase, hpos, hproper u hmem]
        rfl
      · apply phase_of_ne hut
        intro c M _ heq hhead
        obtain ⟨rfl, -⟩ := Kernel.Action.signal.inj (Effect.call.inj heq)
        exact hmem (List.mem_of_mem_head? hhead)
  constructor
  · intro u
    rw [hservice, hphase]
    exact h.allowed u
  · intro u w hu hw
    rw [hphase] at hu hw
    exact h.unique u w hu hw
  · intro hbusy
    rw [hservice] at hbusy
    obtain ⟨u, hu⟩ := h.present hbusy
    exact ⟨u, by rwa [hphase]⟩
  · intro u c r hu hknown
    rw [hphase] at hknown
    have hut : u ≠ t := by
      rintro rfl
      obtain ⟨q', rfl⟩ := hmanager
      have hpos : (after v u v.data (signalClerk (.cashier, j)) (.manager q')).pos u = .manager q' :=
        Function.update_self _ _ _
      cases hpos.symm.trans hu
    have hpos : (after v t v.data (signalClerk (.cashier, j)) p').pos u = v.pos u :=
      Function.update_of_ne hut _ _
    exact h.toFile u c r (hpos.symm.trans hu) hknown

/-! ### Who holds which lock -/

/-- A thread that holds the lock `L`, and is not still acquiring it. -/
def Pos.Has (p : Pos) (L : ℕ) : Prop := p.holds L ∧ ∀ a, p.last = some a → ¬ a.Acquires L

theorem eq_of_has (hfree : v.Free Pos.holds Pos.last t) {L : ℕ} (ht : (v.pos t).holds L)
    (hu : (v.pos u).Has L) :
  u = t
  := hfree.alone u L ht hu.1 hu.2

theorem has_of_calling (hv : Placed v) (h : service v j = .calling) :
  (v.pos (cashierId j)).Has clerkLineLock
  := by
  obtain ⟨q, hq⟩ := hv.pos_cashier j
  rw [service, hq] at h
  rw [hq]
  have hne := (clerkLock_ne (.cashier, j)).1
  cases q with
  | called bribe => exact ⟨by simp [Pos.holds, Pos.held, ClerkPos.held], by simp [Pos.last, ClerkPos.last]⟩
  | clerkLock bribe =>
      refine ⟨by simp [Pos.holds, Pos.held, ClerkPos.held], ?_⟩
      rintro a ha
      obtain rfl := Option.some.inj ha
      exact hne
  | waited | left =>
      simp only [Pos.service, ClerkPos.service] at h
      split at h <;> cases h
  | top | lineLock | lineUnlocked | working | taken | judged | told | moneyLock | moneyUnlocked
  | filed | passPortLock | passPortUnlocked | released | breaking | breakLock | onBreak => cases h

theorem has_of_ready (hv : Placed v) (h : service v j = .ready) :
  (v.pos (cashierId j)).Has (clerkLock (.cashier, j))
  := by
  obtain ⟨q, hq⟩ := hv.pos_cashier j
  rw [service, hq] at h
  rw [hq]
  cases q with
  | lineUnlocked bribe =>
      exact ⟨by simp [Pos.holds, Pos.held, ClerkPos.held], by simp [Pos.last, ClerkPos.last]⟩
  | waited | left =>
      simp only [Pos.service, ClerkPos.service] at h
      split at h <;> cases h
  | top | lineLock | called | clerkLock | working | taken | judged | told | moneyLock
  | moneyUnlocked | filed | passPortLock | passPortUnlocked | released | breaking | breakLock
  | onBreak => cases h

theorem has_of_filed (hv : Placed v) (h : service v j = .filed) :
  (v.pos (cashierId j)).Has (clerkLock (.cashier, j))
  := by
  obtain ⟨q, hq⟩ := hv.pos_cashier j
  rw [service, hq] at h
  rw [hq]
  have hne := (clerkLock_ne (.cashier, j)).2.2
  cases q with
  | filed | passPortUnlocked =>
      exact ⟨by simp [Pos.holds, Pos.held, ClerkPos.held], by simp [Pos.last, ClerkPos.last]⟩
  | passPortLock =>
      refine ⟨by simp [Pos.holds, Pos.held, ClerkPos.held], ?_⟩
      rintro a ha
      obtain rfl := Option.some.inj ha
      exact hne.symm
  | waited | left =>
      simp only [Pos.service, ClerkPos.service] at h
      split at h <;> cases h
  | top | lineLock | called | clerkLock | lineUnlocked | working | taken | judged | told | moneyLock
  | moneyUnlocked | released | breaking | breakLock | onBreak => cases h

/-- A cashier that waits is in the queue. -/
theorem waits_of_waiting (hv : Placed v) (h : service v j = .waiting ∨ service v j = .leaving) :
  cashierId j ∈ v.queue (clerkCV (.cashier, j)) ∧
    (service v j = .waiting → (v.pos (cashierId j)).service false = .serving) ∧
    (service v j = .leaving → (v.pos (cashierId j)).service false = .left)
  := by
  obtain ⟨q, hq⟩ := hv.pos_cashier j
  rw [service, hq] at h ⊢
  by_cases hmem : cashierId j ∈ v.queue (clerkCV (.cashier, j))
  · refine ⟨hmem, ?_, ?_⟩ <;> cases q <;> simp [Pos.service, ClerkPos.service, hmem]
  · cases q <;> simp [Pos.service, ClerkPos.service, hmem] at h

/-- The cashier of a customer that has been served waits until it leaves. -/
theorem Visits.leaving_of_served (h : Visits j v) (hv : Placed v)
    (hfree : v.Free Pos.holds Pos.last t) (ht : v.pos t = .customer c (.served .cashier j)) :
  phase v j t = .woken ∧ service v j = .leaving
  := by
  have hwoken : phase v j t = .woken := by
    rw [phase_free hfree.awake, ht]
    simp [Pos.phase]
  refine ⟨hwoken, ?_⟩
  have hallowed := h.allowed t
  rw [hwoken] at hallowed
  apply eq_leaving hallowed
  intro hfiled
  have hholds : (v.pos t).holds (clerkLock (.cashier, j)) := by
    rw [ht]
    simp [Pos.holds, Pos.held, CustomerPos.held, Stage.kind]
  have hself := eq_of_has hfree hholds (has_of_filed hv hfiled)
  obtain ⟨q, hq⟩ := hv.pos_cashier j
  rw [hself, ht] at hq
  cases hq

/-- A customer at the counter of a cashier has its lock. -/
theorem has_of_phase (h : phase v j u = .given ∨ phase v j u = .leaving) :
  (v.pos u).Has (clerkLock (.cashier, j))
  := by
  rw [phase] at h
  cases hp : v.pos u with
  | main | manager | clerk =>
      rw [hp] at h
      simp [Pos.phase] at h
  | customer c q =>
      rw [hp] at h
      cases q with
      | given s i | leaving s i =>
          cases s <;> simp [Pos.phase] at h
          obtain rfl : i = j := by
            by_contra hij
            simp [hij] at h
          exact ⟨by simp [Pos.holds, Pos.held, CustomerPos.held, Stage.kind],
            by simp [Pos.last, CustomerPos.last]⟩
      | line s i bribe | clerkLock s i | lineUnlocked s i =>
          cases s <;> simp [Pos.phase] at h <;> split at h <;> simp at h
      | served s i =>
          cases s <;> simp [Pos.phase] at h
          split at h
          · split at h <;> simp at h
          · simp at h
      | start | lineLock | moneyLock | moneyUnlocked | judged | retake | released | left =>
          simp [Pos.phase] at h

/-! ### Every step -/

theorem ignores_of_not_signal (he : ∀ c M, e ≠ .call (.signal c M)) :
  Ignores j e
  := fun c M _ => he c M

theorem ignores_signalClerk {a : ClerkId} (ha : a ≠ (.cashier, j)) :
  Ignores j (signalClerk a)
  := by
  rintro c M hc heq
  obtain ⟨rfl, -⟩ := Kernel.Action.signal.inj (Effect.call.inj heq)
  obtain hc | ⟨bribe, hc⟩ := hc
  · exact ha (clerkCV_inj.mp hc)
  · exact lineCV_ne_clerkCV _ _ _ hc.symm

theorem ignores_signalLine {a : ClerkId} (ha : a ≠ (.cashier, j)) (bribe : Bool) (M : Option ℕ) :
  Ignores j (.call (.signal (lineCV a bribe) M))
  := by
  rintro c N hc heq
  obtain ⟨rfl, -⟩ := Kernel.Action.signal.inj (Effect.call.inj heq)
  obtain hc | ⟨bribe', hc⟩ := hc
  · exact lineCV_ne_clerkCV _ _ _ hc
  · exact ha (lineCV_inj.mp hc).1

/-- A thread that is not at the counter does something else. -/
theorem Visits.elsewhere (h : Visits j v) (ht : cashierId j ≠ t)
    (hfree : ∀ c, t ∉ v.queue c) (he : Ignores j e) (hthread : p'.thread = (v.pos t).thread)
    (hbefore : (v.pos t).phase j (fun _ => false) = .away)
    (hafter : p'.phase j (waitsFor e) = .away)
    (htoFile : (d'.clerk (.cashier, j)).toFile = (v.data.clerk (.cashier, j)).toFile) :
  Visits j (after v t d' e p')
  := by
  have hphase : phase v j t = .away := (phase_free hfree).trans hbefore
  have hphase' : phase (after v t d' e p') j t = .away := (phase_self hfree).trans hafter
  apply h.other ht he hthread
  · rw [hphase']
    cases service v j <;> trivial
  · exact fun _ => hphase'
  · exact fun _ => .inl hphase
  · exact htoFile
  · intro hknown
    rw [hphase'] at hknown
    simp at hknown

/-- A clerk that is not the cashier makes a step. -/
theorem ClerkStep.ignores {a : ClerkId} {d : Data} {q q' : ClerkPos} (h : ClerkStep S a d q d' e q')
    (ha : a ≠ (.cashier, j)) :
  Ignores j e ∧ (d'.clerk (.cashier, j)).toFile = (d.clerk (.cashier, j)).toFile
  := by
  have hmodify : ∀ f : Clerk → Clerk, ((d.modifyClerk a f).clerk (.cashier, j)).toFile =
      (d.clerk (.cashier, j)).toFile := by
    intro f
    rw [Data.clerk_modifyClerk_of_ne ha.symm]
  cases h with
  | call bribe => exact ⟨ignores_signalLine ha bribe _, rfl⟩
  | file | take | judged | paid => exact ⟨ignores_signalClerk ha, rfl⟩
  | wait bribe hd =>
      refine ⟨ignores_of_not_signal (by simp [waitForClerk]), ?_⟩
      obtain rfl | rfl := hd
      · rfl
      · exact hmodify _
  | rest | onBreak | called | released | addMoney =>
      exact ⟨ignores_of_not_signal (by simp), hmodify _⟩
  | top | breaking | breakLock | clerkLock | left | begin | work | filed | taken | liked | again
  | moneyLock | provide | passPortLock | count | passPortUnlocked =>
      exact ⟨ignores_of_not_signal (by simp [waitForClerk]), rfl⟩

/-- The money that is counted does not change which customer a clerk knows. -/
theorem toFile_countMoney (S : Setup) (d : Data) (a : ClerkId) :
  ((managerCountMoney S d).clerk a).toFile = (d.clerk a).toFile
  := by
  rw [managerCountMoney]
  induction S.clerks generalizing d with
  | nil => rfl
  | cons b bs ih =>
      rw [List.foldl_cons, ih]
      by_cases hab : a = b
      · subst hab
        simp [Data.count, Data.addMoney, Data.modifyClerk]
      · simp [Data.count, Data.addMoney, Data.modifyClerk, Function.update_of_ne hab]

/-- The manager does not signal a cashier that is not on its break. -/
def Polite (v : SimView) (t : ℕ) : Prop :=
  ∀ q a rest, v.pos t = .manager (.clerkLock q a rest) → a.1 = .cashier →
    ∀ u ∈ v.queue (clerkCV a), v.pos u = .clerk a .onBreak

theorem Visits.step_manager (h : Visits j v) (hv : Placed v) (hpolite : Polite v t)
    (hfree : ∀ c, t ∉ v.queue c) {q q' : ManagerPos} (hq : v.pos t = .manager q)
    (hstep : ManagerStep S v.data q d' e q') :
  Visits j (after v t d' e (.manager q'))
  := by
  have ht : cashierId j ≠ t := by
    rintro rfl
    obtain ⟨r, hr⟩ := hv.pos_cashier j
    cases hr.symm.trans hq
  have hthread : (Pos.manager q').thread = (v.pos t).thread := by rw [hq]; rfl
  have helsewhere : Ignores j e →
      (d'.clerk (.cashier, j)).toFile = (v.data.clerk (.cashier, j)).toFile →
      Visits j (after v t d' e (.manager q')) :=
    fun he htoFile => h.elsewhere ht hfree he hthread (by rw [hq]; rfl) rfl htoFile
  cases hstep with
  | signal r a rest =>
      by_cases ha : a = (.cashier, j)
      · subst ha
        exact h.manager ht (hpolite r _ rest hq rfl) hthread hq
      · exact helsewhere (ignores_signalClerk ha) rfl
  | wake | yield | release | count | failClose =>
      exact helsewhere (ignores_of_not_signal (by simp)) rfl
  | fail | counted =>
      exact helsewhere (ignores_of_not_signal (by simp)) (toFile_countMoney S v.data _)
  | close =>
      apply helsewhere (ignores_of_not_signal (by simp))
      split <;> rfl

/-- The step of a cashier. -/
theorem Visits.step_cashier (h : Visits j v) (hv : Placed v)
    (hfree : v.Free Pos.holds Pos.last (cashierId j)) {q q' : ClerkPos}
    (hq : v.pos (cashierId j) = .clerk (.cashier, j) q)
    (hstep : ClerkStep S (.cashier, j) v.data q d' e q') :
  Visits j (after v (cashierId j) d' e (.clerk (.cashier, j) q'))
  := by
  have hservice := service_free hfree.awake
  have hservice' : service (after v (cashierId j) d' e (.clerk (.cashier, j) q')) j = _ :=
    service_self hfree.awake
  rw [hq] at hservice
  have hthread : (Pos.clerk (.cashier, j) q').thread = (v.pos (cashierId j)).thread := by
    rw [hq]
    rfl
  have hmodify : ∀ f : Clerk → Clerk, (∀ k, (f k).toFile = k.toFile) →
      ((v.data.modifyClerk (.cashier, j) f).clerk (.cashier, j)).toFile =
        (v.data.clerk (.cashier, j)).toFile := by
    intro f hf
    rw [Data.clerk_modifyClerk_self, hf]
  -- a step after which the same phases are allowed, if the customer has not the lock of the cashier
  have hcashier : ∀ s s' : Service, q.service false = s →
      q'.service (waitsFor e (clerkCV (.cashier, j))) = s' → Ignores j e →
      (d'.clerk (.cashier, j)).toFile = (v.data.clerk (.cashier, j)).toFile →
      (∀ u, phase v j u ≠ .away → s.Allows (phase v j u) → s'.Allows (phase v j u)) →
      (s'.Busy → s.Busy) → Visits j (after v (cashierId j) d' e (.clerk (.cashier, j) q')) := by
    rintro s s' rfl rfl he htoFile hallows hbusy
    apply h.cashier hv he hthread _ _ htoFile
    · intro u hu
      rw [hservice']
      apply hallows u hu
      have hallowed := h.allowed u
      rwa [hservice] at hallowed
    · rw [hservice, hservice']
      exact hbusy
  have hnot : ∀ {u}, (v.pos (cashierId j)).holds (clerkLock (.cashier, j)) → phase v j u ≠ .away →
      phase v j u ≠ .given ∧ phase v j u ≠ .leaving := by
    intro u hholds hu
    by_contra hcon
    have hphase : phase v j u = .given ∨ phase v j u = .leaving := by tauto
    rw [eq_of_has hfree hholds (has_of_phase hphase)] at hu
    exact hu (phase_cashier hv j)
  have hplain : ∀ {e : Effect}, (∀ c M, e ≠ .call (.signal c M)) → Ignores j e :=
    fun he => ignores_of_not_signal he
  have hwaits : Ignores j (waitForClerk (.cashier, j)) ∧
      waitsFor (waitForClerk (.cashier, j)) (clerkCV (.cashier, j)) = true :=
    ⟨hplain (by simp [waitForClerk]), by simp [waitForClerk, waitsFor]⟩
  cases hstep with
  | top | breaking => exact hcashier .idle .idle rfl rfl (hplain (by simp)) rfl (fun _ _ h => h) id
  | rest | onBreak | released =>
      exact hcashier .idle .idle rfl rfl (hplain (by simp)) (hmodify _ (fun _ => rfl))
        (fun _ _ h => h) id
  | breakLock => exact hcashier .idle .idle rfl rfl hwaits.1 rfl (fun _ _ h => h) id
  | call bribe => exact h.call hv hfree.awake hservice bribe
  | called bribe =>
      exact hcashier .calling .calling rfl rfl (hplain (by simp)) (hmodify _ (fun _ => rfl))
        (fun _ _ h => h) id
  | clerkLock bribe =>
      apply hcashier .calling .ready rfl rfl (hplain (by simp)) rfl
      · exact fun _ _ => allows_ready
      · simp [Service.Busy]
  | wait bribe hd =>
      have htoFile : (d'.clerk (.cashier, j)).toFile = (v.data.clerk (.cashier, j)).toFile := by
        obtain rfl | rfl := hd
        · rfl
        · exact hmodify _ (fun _ => rfl)
      apply hcashier .ready .waiting rfl _ hwaits.1 htoFile
      · exact fun _ _ => allows_waiting
      · simp [Service.Busy]
      · rw [hwaits.2]
        rfl
  | begin hbribe =>
      have hholds : (v.pos (cashierId j)).holds (clerkLock (.cashier, j)) := by
        simp [hq, Pos.holds, Pos.held, ClerkPos.held]
      apply hcashier .serving .working rfl rfl (hplain (by simp)) rfl
      · intro u hu hallows
        exact allows_working hallows (hnot hholds hu).1
      · exact fun _ => .inl rfl
  | work bribe n =>
      exact hcashier .working .working rfl rfl (hplain (by simp)) rfl (fun _ _ h => h) id
  | moneyLock bribe ha hp =>
      obtain ⟨rfl, rfl⟩ | ⟨n, rfl, rfl⟩ := hp
      · have hholds : (v.pos (cashierId j)).holds (clerkLock (.cashier, j)) := by
          simp [hq, Pos.holds, Pos.held, ClerkPos.held]
        apply hcashier .serving .working rfl rfl (hplain (by simp)) rfl
        · intro u hu hallows
          exact allows_working hallows (hnot hholds hu).1
        · exact fun _ => .inl rfl
      · exact hcashier .working .working rfl rfl (hplain (by simp)) rfl (fun _ _ h => h) id
  | addMoney bribe =>
      exact hcashier .working .working rfl rfl (hplain (by simp)) (hmodify _ (fun _ => rfl))
        (fun _ _ h => h) id
  | provide => exact hcashier .working .working rfl rfl (hplain (by simp)) rfl (fun _ _ h => h) id
  | paid ha hp =>
      obtain rfl | ⟨n, rfl⟩ := hp
      all_goals exact h.file hv hfree.awake hservice _
  | passPortLock | count =>
      exact hcashier .filed .filed rfl rfl (hplain (by simp)) rfl (fun _ _ h => h) id
  | filed | passPortUnlocked =>
      apply hcashier .filed .leaving rfl _ hwaits.1 rfl (fun _ _ => allows_leaving)
        (fun _ => .inr (.inr (.inl rfl)))
      rw [hwaits.2]
      rfl
  | left =>
      have hholds : (v.pos (cashierId j)).holds (clerkLock (.cashier, j)) := by
        simp [hq, Pos.holds, Pos.held, ClerkPos.held]
      apply hcashier .left .idle rfl rfl (hplain (by simp)) rfl
      · intro u hu hallows
        exact allows_idle hallows (hnot hholds hu).2
      · simp [Service.Busy]
  | file bribe n ha => exact absurd rfl ha
  | take bribe n ha | taken bribe ha | judged bribe ha | liked bribe ha | again bribe ha => cases ha

/-- A position at another counter is away. -/
theorem Pos.phase_of_ne {waits : ℕ → Bool} {s : Stage} {i : ℕ} (h : (s.kind, i) ≠ (Kind.cashier, j))
    {q : CustomerPos} (hq : (∃ bribe, q = .line s i bribe) ∨ q = .clerkLock s i ∨
      q = .lineUnlocked s i ∨ q = .given s i ∨ q = .served s i ∨ q = .leaving s i) :
  (Pos.customer c q).phase j waits = .away
  := by
  cases s with
  | cashier =>
      have hij : i ≠ j := by
        rintro rfl
        exact h rfl
      obtain ⟨bribe, rfl⟩ | rfl | rfl | rfl | rfl | rfl := hq <;> simp [Pos.phase, hij]
  | appFirst | picSecond | picFirst | appSecond | pass =>
      obtain ⟨bribe, rfl⟩ | rfl | rfl | rfl | rfl | rfl := hq <;> rfl

/-- The step of a customer. -/
theorem Visits.step_customer (h : Visits j v) (hv : Placed v) (hfree : v.Free Pos.holds Pos.last t)
    {q q' : CustomerPos} (hq : v.pos t = .customer c q) (hstep : CustomerStep S c v.data q d' e q') :
  Visits j (after v t d' e (.customer c q'))
  := by
  have ht : cashierId j ≠ t := by
    rintro rfl
    obtain ⟨r, hr⟩ := hv.pos_cashier j
    cases hr.symm.trans hq
  have hthread : (Pos.customer c q').thread = (v.pos t).thread := by rw [hq]; rfl
  have hvalid := hv.valid t
  rw [hq] at hvalid
  have hphase : phase v j t = _ := phase_free hfree.awake
  have hphase' : phase (after v t d' e (.customer c q')) j t = _ := phase_self hfree.awake
  rw [hq] at hphase
  have hmodify : ∀ (a : ClerkId) (f : Clerk → Clerk), (∀ k, (f k).toFile = k.toFile) →
      ((v.data.modifyClerk a f).clerk (.cashier, j)).toFile =
        (v.data.clerk (.cashier, j)).toFile := by
    intro a f hf
    by_cases ha : (Kind.cashier, j) = a
    · subst ha
      rw [Data.clerk_modifyClerk_self, hf]
    · rw [Data.clerk_modifyClerk_of_ne ha]
  have helsewhere : (Pos.customer c q).phase j (fun _ => false) = .away →
      (Pos.customer c q').phase j (waitsFor e) = .away → Ignores j e →
      (d'.clerk (.cashier, j)).toFile = (v.data.clerk (.cashier, j)).toFile →
      Visits j (after v t d' e (.customer c q')) := by
    intro hbefore hafter he htoFile
    exact h.elsewhere ht hfree.awake he hthread (by rw [hq]; exact hbefore) hafter htoFile
  -- a step at the counter
  have hvisit : ∀ ph' : Phase, (Pos.customer c q').phase j (waitsFor e) = ph' →
      phase v j t ≠ .away → ph' ≠ .away → Ignores j e →
      (d'.clerk (.cashier, j)).toFile = (v.data.clerk (.cashier, j)).toFile →
      (service v j).Allows ph' → (ph' = .given ∨ ph' = .waiting → phase v j t = .given) →
      Visits j (after v t d' e (.customer c q')) := by
    rintro ph' rfl hne hne' he htoFile hallows hknown
    rw [← hphase'] at hne' hallows hknown
    exact h.other ht he hthread hallows (fun heq => absurd heq hne) (fun heq => absurd heq hne')
      htoFile (fun hk => .inl (hknown hk))
  have hallowed := h.allowed t
  have hholds : ∀ L, L ∈ q.held → (v.pos t).holds L := by
    intro L hL
    rw [hq]
    exact hL
  have hkind : ∀ {s : Stage}, s.kind = .pic → s.kind ≠ .cashier := by
    intro s hs
    rw [hs]
    decide
  cases hstep with
  | arrive | goOn | bribe | finish =>
      exact helsewhere rfl rfl (ignores_of_not_signal (by simp)) rfl
  | pay s i => exact helsewhere rfl rfl (ignores_of_not_signal (by simp)) (hmodify _ _ (fun _ => rfl))
  | getInLine s i | getInBribeLine s i =>
      apply helsewhere rfl _ (ignores_of_not_signal (by simp)) (hmodify _ _ (fun _ => rfl))
      by_cases hij : (s.kind, i) = (Kind.cashier, j)
      · obtain ⟨rfl, rfl⟩ := Stage.eq_cashier hij
        simp [Pos.phase, waitsFor, Stage.kind]
      · exact Pos.phase_of_ne hij (.inl ⟨_, rfl⟩)
  | leaveLine s i bribe =>
      have htoFile : ((Data.setState (s.kind, i) .busy (v.data.modifyClerk (s.kind, i) (fun k =>
          if bribe then { k with bribeLineCount := k.bribeLineCount - 1 }
          else { k with lineCount := k.lineCount - 1 }))).clerk (.cashier, j)).toFile =
          (v.data.clerk (.cashier, j)).toFile := by
        rw [← hmodify (s.kind, i) (fun k =>
          if bribe then { k with bribeLineCount := k.bribeLineCount - 1 }
          else { k with lineCount := k.lineCount - 1 }) (fun k => by cases bribe <;> rfl)]
        by_cases ha : (Kind.cashier, j) = (s.kind, i)
        · rw [ha, Data.setState, Data.clerk_modifyClerk_self]
        · rw [Data.setState, Data.clerk_modifyClerk_of_ne ha]
      by_cases hij : (s.kind, i) = (Kind.cashier, j)
      · obtain ⟨rfl, rfl⟩ := Stage.eq_cashier hij
        have hcalled : phase v i t = .called := by simp [hphase, Pos.phase]
        rw [hcalled] at hallowed
        have hne : service v i ≠ .calling := by
          intro hcalling
          have hself := eq_of_has hfree (hholds clerkLineLock (by simp [CustomerPos.held]))
            (has_of_calling hv hcalling)
          exact ht hself
        apply hvisit .entering (by simp [Pos.phase]) (by simp [hcalled]) (by decide)
          (ignores_of_not_signal (by simp)) htoFile
        · exact allows_entering hallowed hne
        · simp
      · exact helsewhere (Pos.phase_of_ne hij (.inl ⟨_, rfl⟩))
          (Pos.phase_of_ne hij (.inr (.inl rfl))) (ignores_of_not_signal (by simp)) htoFile
  | enter s i =>
      by_cases hij : (s.kind, i) = (Kind.cashier, j)
      · obtain ⟨rfl, rfl⟩ := Stage.eq_cashier hij
        have hentering : phase v i t = .entering := by simp [hphase, Pos.phase]
        rw [hentering] at hallowed
        have hne : service v i ≠ .ready := by
          intro hready
          have hself := eq_of_has hfree
            (hholds (clerkLock (.cashier, i)) (by simp [CustomerPos.held, Stage.kind]))
            (has_of_ready hv hready)
          exact ht hself
        apply hvisit .entered (by simp [Pos.phase]) (by simp [hentering]) (by decide)
          (ignores_of_not_signal (by simp)) rfl
        · exact allows_entered hallowed hne
        · simp
      · exact helsewhere (Pos.phase_of_ne hij (.inr (.inl rfl)))
          (Pos.phase_of_ne hij (.inr (.inr (.inl rfl)))) (ignores_of_not_signal (by simp)) rfl
  | give s i =>
      by_cases hij : (s.kind, i) = (Kind.cashier, j)
      · obtain ⟨rfl, rfl⟩ := Stage.eq_cashier hij
        have hentered : phase v i t = .entered := by simp [hphase, Pos.phase]
        rw [hentered] at hallowed
        have hwaiting := eq_waiting hallowed
        obtain ⟨hmem, hserving, -⟩ := waits_of_waiting hv (.inl hwaiting)
        apply h.signal hv hfree.awake hmem _ hthread (by simp [hentered]) (by simp [Pos.phase])
        · rw [hserving hwaiting]
          simp [Pos.phase]
        · intro _ c' q' hq'
          obtain ⟨rfl, -⟩ := Pos.customer.inj hq'
          rw [show (Stage.cashier.kind, i) = (Kind.cashier, i) from rfl, Data.clerk_modifyClerk_self]
        · intro u hu
          have hallowed' := h.allowed u
          rw [hu, hwaiting] at hallowed'
          simp at hallowed'
      · apply helsewhere (Pos.phase_of_ne hij (.inr (.inr (.inl rfl))))
          (Pos.phase_of_ne hij (.inr (.inr (.inr (.inl rfl))))) (ignores_signalClerk hij)
        rw [Data.clerk_modifyClerk_of_ne (fun heq => hij heq.symm)]
  | wait i hs =>
      have hij : (Stage.kind _, i) ≠ (Kind.cashier, j) := fun heq => hs (Stage.eq_cashier heq).1
      exact helsewhere (Pos.phase_of_ne hij (.inr (.inr (.inr (.inl rfl)))))
        (Pos.phase_of_ne hij (.inr (.inr (.inr (.inr (.inl rfl))))))
        (ignores_of_not_signal (by simp [waitForClerk])) rfl
  | spend i =>
      by_cases hij : i = j
      · subst hij
        have hgiven : phase v i t = .given := by simp [hphase, Pos.phase]
        rw [hgiven] at hallowed
        apply hvisit .waiting (by simp [Pos.phase, waitForClerk, waitsFor]) (by simp [hgiven])
          (by decide) (ignores_of_not_signal (by simp [waitForClerk])) rfl
        · exact allows_waits hallowed
        · exact fun _ => hgiven
      · have hne : (Stage.cashier.kind, i) ≠ (Kind.cashier, j) :=
          fun heq => hij (Stage.eq_cashier heq).2
        exact helsewhere (Pos.phase_of_ne hne (.inr (.inr (.inr (.inl rfl)))))
          (Pos.phase_of_ne hne (.inr (.inr (.inr (.inr (.inl rfl))))))
          (ignores_of_not_signal (by simp [waitForClerk])) rfl
  | @judge s i picLiked _ hs hd =>
      have hij : (s.kind, i) ≠ (Kind.cashier, j) := fun heq => hkind hs (Prod.mk.inj heq).1
      apply helsewhere (Pos.phase_of_ne hij (.inr (.inr (.inr (.inr (.inl rfl)))))) rfl
        (ignores_signalClerk hij)
      obtain rfl | rfl := hd
      · rfl
      · exact hmodify _ _ (fun _ => rfl)
  | leave s i =>
      by_cases hij : (s.kind, i) = (Kind.cashier, j)
      · obtain ⟨rfl, rfl⟩ := Stage.eq_cashier hij
        obtain ⟨hwoken, hleaving⟩ := h.leaving_of_served hv hfree hq
        obtain ⟨hmem, -, hleft⟩ := waits_of_waiting hv (.inr hleaving)
        apply h.signal hv hfree.awake hmem _ hthread (by simp [hwoken]) (by simp [Pos.phase])
        · rw [hleft hleaving]
          simp [Pos.phase]
        · simp [Pos.phase]
        · intro u hu
          have hallowed' := h.allowed u
          rw [hu, hleaving] at hallowed'
          simp at hallowed'
      · exact helsewhere (Pos.phase_of_ne hij (.inr (.inr (.inr (.inr (.inl rfl))))))
          (Pos.phase_of_ne hij (.inr (.inr (.inr (.inr (.inr rfl)))))) (ignores_signalClerk hij)
          (hmodify _ _ (fun _ => rfl))
  | waitAgain s i picLiked =>
      exact helsewhere rfl rfl (ignores_of_not_signal (by simp [waitForClerk])) rfl
  | retake s i picLiked =>
      have hij : (s.kind, i) ≠ (Kind.cashier, j) := fun heq => hkind hvalid (Prod.mk.inj heq).1
      exact helsewhere rfl (Pos.phase_of_ne hij (.inr (.inr (.inr (.inl rfl)))))
        (ignores_signalClerk hij) rfl
  | release s i hp =>
      obtain rfl | rfl := hp
      · by_cases hij : (s.kind, i) = (Kind.cashier, j)
        · obtain ⟨rfl, rfl⟩ := Stage.eq_cashier hij
          have hleaving : phase v i t = .leaving := by simp [hphase, Pos.phase]
          rw [hleaving] at hallowed
          have hleft := eq_left hallowed
          apply h.other ht (ignores_of_not_signal (by simp)) hthread _ _ _ rfl
          · rw [hphase']
            simp [Pos.phase]
          · rw [hphase', hleft]
            trivial
          · exact fun _ => hphase'
          · intro _
            right
            rw [hleft]
            simp [Service.Busy]
        · exact helsewhere (Pos.phase_of_ne hij (.inr (.inr (.inr (.inr (.inr rfl)))))) rfl
            (ignores_of_not_signal (by simp)) rfl
      · exact helsewhere rfl rfl (ignores_of_not_signal (by simp)) rfl

/-- Every step keeps the invariant of a cashier, if the manager is polite. -/
theorem Visits.step (h : Visits j v) (hv : Placed v) (hfree : v.Free Pos.holds Pos.last t)
    (hpolite : Polite v t) (hstep : ThreadStep S v.data (v.pos t) d' e p') :
  Visits j (after v t d' e p')
  := by
  generalize hp : v.pos t = p at hstep
  cases hstep with
  | wake | yield | park =>
      have ht : cashierId j ≠ t := by
        rintro rfl
        obtain ⟨r, hr⟩ := hv.pos_cashier j
        cases hr.symm.trans hp
      exact h.elsewhere ht hfree.awake (ignores_of_not_signal (by simp)) (by simp [hp, Pos.thread])
        (by rw [hp]; rfl) rfl rfl
  | manager hstep => exact h.step_manager hv hpolite hfree.awake hp hstep
  | customer hstep => exact h.step_customer hv hfree hp hstep
  | @clerk a q q' d' e hstep =>
      by_cases ha : a = (.cashier, j)
      · subst ha
        obtain rfl := hv.clerk_eq hp
        exact h.step_cashier hv hfree hp hstep
      · have ht : cashierId j ≠ t := by
          rintro rfl
          obtain ⟨r, hr⟩ := hv.pos_cashier j
          obtain ⟨rfl, -⟩ := Pos.clerk.inj (hr.symm.trans hp)
          exact ha rfl
        obtain ⟨hignores, htoFile⟩ := hstep.ignores ha
        exact h.elsewhere ht hfree.awake hignores (by rw [hp]; rfl) (by rw [hp]; rfl) rfl htoFile

end Nachos.Simulation
