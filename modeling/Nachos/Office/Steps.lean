import Mathlib.Tactic.Common
import Nachos.Office.Locks

/-!
# The steps of the passport office

A step is a request and its reply, or a process comes to the beginning of a loop. An invariant of the
office is kept if the requests keep it (`run_induction`).
-/

namespace Nachos.Office

/-- The lock for which a process in a phase can be waiting. -/
def Phase.asking (p : Process) : Phase → Option LockName
  | .indexing => some (indexLock p)
  | .choosing _ _ | .lining _ | .looking _ _ | .lined _ _ _ | .summoned _ _ _ => some .lineLock
  | .crediting _ | .counting _ | .charging _ => some .moneyLock
  | .flagging _ => some .senatorLock
  | .outside _ _ | .atDoor _ | .entered _ | .exiting _ | .atEntrance _ => some .outsideLock
  | .arrived _ K i | .served _ K i | .ready K i | .awaiting K i | .parting K i | .resting K i
  | .asleep K i | .waking _ K i => some (.clerkLock K i)
  | .posing _ i | .developing i => some (.clerkLock .pic i)
  | .printing _ => some .outputLock
  | _ => none

/-! ### Phases and processes -/

def isVisitor : Process → Bool
  | .customer _ | .senator _ => true
  | _ => false

def isClerk (K : Kind) : Process → Bool
  | .clerk K' _ => K' = K
  | _ => false

/-- The process can be in the phase. -/
def Phase.suits (p : Process) : Phase → Bool
  | .fresh | .indexing | .indexed _ | .numbered _ => p ≠ .manager
  | .roaming _ rich | .outside _ rich => isVisitor p && (!rich || !isSenator p)
  | .choosing _ _ | .debited _ | .crediting _ | .creditRead _ _ _ _ | .credited _ | .lined _ _ _
  | .sentAway _ | .passed _ _ _ => isVisitor p && !isSenator p
  | .flagging _ | .raised _ | .atDoor _ | .entered _ | .visiting _ | .lining _ | .summoned _ _ _
  | .exiting _ | .dismissed _ | .emptied _ | .lowered _ | .gone _ => isSenator p
  | .free K _ | .looking K _ | .called K _ | .ready K _ | .listening K _ | .awaiting K _
  | .filing K _ _ | .filed K _ | .done K _ | .parting K _ | .retiring K _ | .resting K _
  | .asleep K _ => isClerk K p
  | .charging _ | .chargeRead _ _ | .charged _ | .accounted _ => isClerk .cashier p
  | .developing _ => isClerk .pic p
  | .managing _ | .waking _ _ _ | .atEntrance _ | .counting _ | .collected _ _ _ _ => p = .manager
  | .printing φ => φ.suits p
  | _ => isVisitor p

section

variable {p : Process} {φ φ' : Phase} {r : Request} {v : ℤ}

theorem isVisitor_of_isSenator (h : isSenator p = true) :
  isVisitor p = true
  := by cases p <;> first | rfl | cases h

theorem Phase.suits_start (id : ℤ) :
  (Phase.start id p).suits p = true ↔ p ≠ .manager
  := by cases p <;> simp [Phase.start, Phase.suits, isVisitor, isClerk]

theorem Phase.suits_back (id : ℤ) :
  (Phase.back id p).suits p = isVisitor p
  := by cases p <;> rfl

theorem suits_next (h : next p φ r v = some φ') :
  φ.suits p = true → φ'.suits p = true
  := by
  refine next_cases (M := fun φ _ _ φ' => φ.suits p = true → φ'.suits p = true)
    ?_ ?_ ?_ ?_ ?_ ?_ ?_ ?_ ?_ h
  · exact fun _ _ _ => id
  · exact fun _ _ _ => id
  · intro φ l v φ'
    fun_cases onAcquire p φ l <;> intro h <;> simp at h <;>
      grind [Phase.suits, isVisitor_of_isSenator]
  · intro φ l v φ'
    fun_cases onRelease p φ l <;> intro h <;> simp at h <;>
      grind [Phase.suits, Phase.suits_start, Phase.suits_back]
  · intro φ c v φ'
    fun_cases onWait φ c <;> intro h <;> simp at h <;> grind [Phase.suits]
  · intro φ c v φ'
    fun_cases onSignal φ c <;> intro h <;> simp at h <;> grind [Phase.suits]
  · intro φ c v φ'
    fun_cases onBroadcast φ c <;> intro h <;> simp at h <;> grind [Phase.suits]
  · intro φ mv position value v φ'
    fun_cases onSet p φ mv position value <;> intro h <;> simp at h <;> grind [Phase.suits]
  · intro φ mv position v φ'
    fun_cases onGet p φ mv position v <;> intro h <;> simp at h <;> grind [Phase.suits]

end

/-! ### Waiting and phases -/

def Status.isWaiting : Status → Bool
  | .atCondition _ => true
  | _ => false

/-- The condition variables for which a process in a phase can be waiting. -/
def Phase.waits (c : ConditionName) : Phase → Prop
  | .outside _ _ => c = .senatorCV
  | .lined _ K i => c = .lineCV K i ∨ c = .bribeLineCV K i
  | .summoned _ K i => c = .senatorLineCV K i
  | .served _ K i | .awaiting K i | .parting K i | .asleep K i => c = .clerkCV K i
  | .posing _ i | .developing i => c = .clerkCV .pic i
  | .entered _ => c = .customerCV
  | _ => False

section

variable {p : Process} {φ φ' : Phase}

theorem waits_onWait {c : ConditionName} (h : onWait φ c = some φ') :
  φ'.waits c
  := by
  revert h
  fun_cases onWait φ c <;> intro h <;> simp at h <;> grind [Phase.waits]

theorem asking_onAcquire {l : LockName} (h : onAcquire p φ l = some φ') :
  φ'.asking p = some l
  := by
  revert h
  fun_cases onAcquire p φ l <;> intro h <;> simp at h <;> grind [Phase.asking]

theorem asking_onWait {c : ConditionName} (h : onWait φ c = some φ') :
  φ'.asking p = some (lockOf c)
  := by
  revert h
  fun_cases onWait φ c <;> intro h <;> simp at h <;> grind [Phase.asking, lockOf]

theorem asking_next {r : Request} {v : ℤ} {status : Status} {l : LockName}
    (h : next p φ r v = some φ') (hasks : status.Asks r) (hlock : status.lock = some l) :
  φ'.asking p = some l
  := by
  have hacquire : next p φ (.acquire l) v = some φ' → φ'.asking p = some l := by
    intro h
    rw [next] at h
    split at h
    · rename_i hl
      obtain ⟨-, rfl⟩ := Phase.when_eq_some.mp h
      rw [hl]
      rfl
    · exact asking_onAcquire h
  have hwait : ∀ c, next p φ (.wait c (lockOf c)) v = some φ' → φ'.asking p = some (lockOf c) :=
    fun c h => asking_onWait (Option.ite_none_right_eq_some.mp h).2
  cases status with
  | ready => cases hlock
  | atLock l' =>
      obtain rfl := Option.some.inj hlock
      obtain rfl | ⟨c, rfl, rfl⟩ := hasks
      · exact hacquire h
      · exact hwait c h
  | atCondition c =>
      obtain rfl := Option.some.inj hlock
      obtain rfl := hasks
      exact hwait c h

end

namespace State

variable (machine : Process → ℕ) {s s' : State} {p q : Process}

/-- The reply to a request. -/
def reply (s : State) : Request → ℤ
  | .getMV mv position => if inRange mv position then s.values mv (char position) else -1
  | _ => 0

/-- The values of the monitor variables after a request. -/
def stored (s : State) : Request → Variable → ℤ → ℤ
  | .setMV mv position value =>
      if inRange mv position then fun mv' position' =>
        if mv' = mv ∧ position' = char position then char value else s.values mv' position'
      else s.values
  | _ => s.values

theorem values_passOn (l : LockName) :
  (s.passOn l).values = s.values
  := by
  rw [passOn]
  split <;> rfl

theorem values_moveWaiter (c : ConditionName) (l : LockName) (b : Bool) :
  (s.moveWaiter c l b).values = s.values
  := by
  rw [moveWaiter]
  split <;> rfl

theorem values_moveWaiters (c : ConditionName) (l : LockName) (n : ℕ) :
  (s.moveWaiters c l n).values = s.values
  := by
  induction n generalizing s with
  | zero => rfl
  | succ n ih => rw [moveWaiters, ih, values_moveWaiter]

theorem reply_serve (p : Process) (r : Request) :
  (s.serve machine p r).1 = s.reply r
  := by
  cases r with
  | acquire | wait =>
      rw [serve]
      split <;> rfl
  | _ => rfl

theorem values_serve (p : Process) (r : Request) :
  (s.serve machine p r).2.values = s.stored r
  := by
  cases r with
  | acquire l =>
      rw [serve]
      split <;> rfl
  | release l =>
      rw [serve]
      dsimp only
      split
      · exact values_passOn l
      · rfl
  | wait c l =>
      rw [serve]
      split
      · exact values_passOn l
      · rfl
  | signal c l =>
      rw [serve]
      dsimp only
      split
      · exact values_moveWaiter c l true
      · rfl
  | broadcast c l =>
      rw [serve]
      dsimp only
      split
      · exact values_moveWaiters c l _
      · rfl
  | setMV mv position value =>
      rw [serve, stored]
      dsimp only
      split <;> rfl
  | getMV => rfl

theorem Ok.suits (h : Ok s) (p : Process) :
  (s.phase p).suits p = true
  := by
  refine (h.followed.allowed p).invariant (I := fun φ _ => φ.suits p = true) ?_ ?_
  · cases p <;> rfl
  · intro φ history r v φ' hφ hnext
    exact suits_next hnext hφ

/-- A process that waits is in a phase in which it can. -/
theorem Ok.asking (h : Ok s) {l : LockName} (hlock : (s.tasks p).status.lock = some l) :
  (s.phase p).asking p = some l
  := by
  have hwaiting : (s.tasks p).status ≠ .ready := by
    intro hready
    rw [hready] at hlock
    cases hlock
  obtain ⟨r, v, history, heq, hasks⟩ := h.waiting p hwaiting
  have hallowed := h.followed.allowed p
  rw [heq] at hallowed
  obtain ⟨φ, hφ⟩ := Option.isSome_iff_exists.mp hallowed.2
  rw [phase, heq, Prog.known_cons hφ]
  exact asking_next hφ hasks hlock

theorem Ok.waits (h : Ok s) {c : ConditionName} (hstatus : (s.tasks p).status = .atCondition c) :
  (s.phase p).waits c
  := by
  obtain ⟨r, v, history, heq, hasks⟩ := h.waiting p (by rw [hstatus]; exact nofun)
  rw [hstatus] at hasks
  obtain rfl := hasks
  have hallowed := h.followed.allowed p
  rw [heq] at hallowed
  obtain ⟨φ, hφ⟩ := Option.isSome_iff_exists.mp hallowed.2
  rw [phase, heq, Prog.known_cons hφ]
  rw [Office.next, if_pos rfl] at hφ
  exact waits_onWait hφ

/-- A process has the locks of its phase, if it is not one for which it can be waiting. -/
theorem Ok.owner (h : Ok s) {l : LockName} (hheld : l ∈ held p (s.phase p))
    (hasking : (s.tasks p).status = .ready ∨ (s.phase p).asking p ≠ some l) :
  (s.locks l).owner = some p
  := by
  rw [h.locked.owner]
  use hheld
  intro hlock
  obtain hready | hasking := hasking
  · rw [hready] at hlock
    cases hlock
  · exact hasking (h.asking hlock)

/-- The process `p` has made the request `r`, and the server has done with it what the state `t` says. -/
structure Asked (s : State) (p : Process) (r : Request) (t s' : State) : Prop where
  room : fits p = true
  ready : (s.tasks p).status = .ready
  grants : s.Grants p r
  grant : t = (s.grant machine p r).2
  next : Office.next p (s.phase p) r (s.reply r) = some (s'.phase p)
  phase : ∀ q, q ≠ p → s'.phase q = s.phase q
  history : (s'.tasks p).history = (r, s.reply r) :: (s.tasks p).history
  histories : ∀ q, q ≠ p → (s'.tasks q).history = (s.tasks q).history
  values : s'.values = s.stored r
  locks : s'.locks = t.locks
  conditions : s'.conditions = t.conditions
  status : ∀ q, (s'.tasks q).status = (t.tasks q).status
  signalled : ∀ q, (s'.tasks q).signalled = (t.tasks q).signalled

/-- Nothing has been requested. -/
structure Same (s s' : State) : Prop where
  phase : ∀ q, s'.phase q = s.phase q
  history : ∀ q, (s'.tasks q).history = (s.tasks q).history
  values : s'.values = s.values
  locks : s'.locks = s.locks
  conditions : s'.conditions = s.conditions
  status : ∀ q, (s'.tasks q).status = (s.tasks q).status
  signalled : ∀ q, (s'.tasks q).signalled = (s.tasks q).signalled

theorem signalled_ask {r : Request} {k : ℤ → Program Label} (q : Process) :
  ((s.ask machine p r k).tasks q).signalled = ((s.serve machine p r).2.tasks q).signalled
  := by
  by_cases hq : q = p <;> simp [ask, hq]

theorem Ok.asked (h : Ok s) (hready : (s.tasks p).status = .ready) {r : Request}
    {k : ℤ → Program Label} (hprogram : (s.tasks p).program = .call r k) :
  Asked machine s p r (s.grant machine p r).2 (s.ask machine p r k)
  := by
  have hgrants := h.grants hready hprogram
  have hserve := serve_of_grants machine hgrants
  have hreply := reply_serve (s := s) machine p r
  constructor
  · rw [← Bool.not_eq_false]
    intro hfits
    have hexit := (h.room p hfits).1
    rw [hprogram] at hexit
    cases hexit
  · exact hready
  · exact hgrants
  · rfl
  · rw [← reply_serve machine p r]
    exact h.followed.next machine hprogram
  · exact fun q hq => phase_ask_of_ne machine hq
  · rw [history_ask, if_pos rfl, hreply]
  · intro q hq
    rw [history_ask, if_neg hq]
  · exact values_serve machine p r
  · rw [← hserve]
    rfl
  · rw [← hserve]
    rfl
  · intro q
    rw [← hserve]
    exact status_ask machine q
  · intro q
    rw [← hserve]
    exact signalled_ask machine q

theorem same_goOn (l : Label) :
  Same s (s.setTask p { s.tasks p with program := code l })
  := by
  have htask : ∀ q, ∃ program,
      (s.setTask p { s.tasks p with program := code l }).tasks q =
        { s.tasks q with program := program } := by
    intro q
    by_cases hq : q = p
    · exact ⟨code l, by simp [hq]⟩
    · exact ⟨(s.tasks q).program, by simp [hq]⟩
  have hhistory : ∀ q, ((s.setTask p { s.tasks p with program := code l }).tasks q).history =
      (s.tasks q).history := by
    intro q
    obtain ⟨program, heq⟩ := htask q
    rw [heq]
  constructor
  · exact fun q => phase_congr (hhistory q)
  · exact hhistory
  · rfl
  · rfl
  · rfl
  · intro q
    obtain ⟨program, heq⟩ := htask q
    rw [heq]
  · intro q
    obtain ⟨program, heq⟩ := htask q
    rw [heq]

/-- What a step can do. -/
theorem Ok.step_cases (h : Ok s) (hstep : s.step machine p = some s') :
  s.asks p = none ∧ Same s s' ∨ ∃ r t, s.asks p = some r ∧ Asked machine s p r t s'
  := by
  rw [State.step] at hstep
  split at hstep
  · rename_i hready
    split at hstep
    · rename_i l hprogram
      obtain rfl := Option.some.inj hstep
      exact .inl ⟨by simp [asks, hready, hprogram], same_goOn l⟩
    · rename_i r k hprogram
      obtain rfl := Option.some.inj hstep
      exact .inr ⟨r, _, by simp [asks, hready, hprogram], h.asked machine hready hprogram⟩
  · cases hstep

/-! ### Waiting for a condition variable -/

theorem task_passOn (l : LockName) (q : Process) :
  (s.passOn l).tasks q = s.tasks q ∨
    q ∈ (s.locks l).waitQueue ∧ (s.passOn l).tasks q = { s.tasks q with status := .ready }
  := by
  rw [passOn]
  split
  · rename_i u us hqueue
    by_cases hq : q = u
    · right
      simp [hq, hqueue]
    · left
      simp [hq]
  · exact .inl rfl

theorem task_moveWaiter (c : ConditionName) (l : LockName) (b : Bool) (q : Process) :
  (s.moveWaiter c l b).tasks q = if (s.conditions c).waitQueue.head? = some q then
    { s.tasks q with status := .atLock l, signalled := b } else s.tasks q
  := by
  rw [moveWaiter]
  split
  · rename_i u us hqueue
    by_cases hq : q = u
    · simp [hq, hqueue]
    · simp [hq, hqueue, Ne.symm hq]
  · rename_i hqueue
    simp [hqueue]

theorem task_moveWaiters (c : ConditionName) (l : LockName) (n : ℕ) (q : Process) :
  (s.moveWaiters c l n).tasks q = if q ∈ (s.conditions c).waitQueue.take n then
    { s.tasks q with status := .atLock l, signalled := false } else s.tasks q
  := by
  induction n generalizing s with
  | zero => simp [moveWaiters]
  | succ n ih =>
      rw [moveWaiters, ih, task_moveWaiter]
      cases hqueue : (s.conditions c).waitQueue with
      | nil => simp [moveWaiter, hqueue]
      | cons u us =>
          have htail : ((s.moveWaiter c l false).conditions c).waitQueue = us := by
            simp [moveWaiter, hqueue]
          rw [htail]
          by_cases hq : q = u
          · simp [hq]
          · simp [hq, Ne.symm hq]

/-- What a request does to a process that waits for a condition variable. -/
theorem Asked.waiting {t : State} {r : Request} (hasked : Asked machine s p r t s') (h : Ok s)
    {c : ConditionName} (hq : (s.tasks q).status = .atCondition c) :
  (s'.tasks q).status = .atCondition c ∧ (s'.tasks q).signalled = (s.tasks q).signalled ∨
    (s'.tasks q).status = .atLock (lockOf c) ∧
      (r = .signal c (lockOf c) ∧ (s.conditions c).waitQueue.head? = some q ∧
          (s'.tasks q).signalled = true ∨
        r = .broadcast c (lockOf c) ∧ (s'.tasks q).signalled = false)
  := by
  have hqp : q ≠ p := by
    rintro rfl
    rw [hasked.ready] at hq
    cases hq
  have hmoves := moves_next hasked.next
  have hpassOn : ∀ l, (s.passOn l).tasks q = s.tasks q := by
    intro l
    obtain heq | ⟨hmem, -⟩ := task_passOn (s := s) l q
    · exact heq
    · rw [h.locked.lockQueue, hq] at hmem
      cases hmem
  have hsame : t.tasks q = s.tasks q → (s'.tasks q).status = .atCondition c ∧
      (s'.tasks q).signalled = (s.tasks q).signalled := by
    intro heq
    rw [hasked.status, hasked.signalled, heq]
    exact ⟨hq, rfl⟩
  have hmem : ∀ d, q ∈ (s.conditions d).waitQueue → d = c := by
    intro d hd
    rw [h.locked.conditionQueue, hq] at hd
    injection hd with hd
    exact hd.symm
  rw [hasked.status, hasked.signalled]
  rw [hasked.status, hasked.signalled] at hsame
  rw [hasked.grant] at hsame ⊢
  cases r with
  | acquire l =>
      left
      apply hsame
      change (s.serve machine p (.acquire l)).2.tasks q = s.tasks q
      rw [serve]
      split
      · rfl
      · simp [hqp]
  | release l => exact .inl (hsame (hpassOn l))
  | wait d l =>
      left
      apply hsame
      simp [State.grant, hqp, hpassOn]
  | signal d l =>
      obtain ⟨rfl, -⟩ := hmoves
      by_cases hhead : (s.conditions d).waitQueue.head? = some q
      · obtain rfl := hmem d (List.mem_of_mem_head? hhead)
        right
        rw [State.grant, task_moveWaiter, if_pos hhead]
        exact ⟨rfl, .inl ⟨rfl, hhead, rfl⟩⟩
      · left
        apply hsame
        rw [State.grant, task_moveWaiter, if_neg hhead]
  | broadcast d l =>
      obtain ⟨rfl, -⟩ := hmoves
      by_cases hd : q ∈ (s.conditions d).waitQueue
      · obtain rfl := hmem d hd
        right
        rw [State.grant, task_moveWaiters, List.take_length, if_pos hd]
        exact ⟨rfl, .inr ⟨rfl, rfl⟩⟩
      · left
        apply hsame
        rw [State.grant, task_moveWaiters, List.take_length, if_neg hd]
  | setMV mv position value =>
      left
      apply hsame
      change (s.serve machine p (.setMV mv position value)).2.tasks q = s.tasks q
      rw [serve]
      dsimp only
      split <;> rfl
  | getMV => exact .inl (hsame rfl)

/-- A process that does not wait for a condition variable begins to do so with a request only. -/
theorem Asked.moving {t : State} {r : Request} (hasked : Asked machine s p r t s') (h : Ok s)
    (hq : (s.tasks q).status.isWaiting = false) :
  (s'.tasks q).signalled = (s.tasks q).signalled ∧
    ((s'.tasks q).status.isWaiting = false ∨ q = p ∧ ∃ c l, r = .wait c l)
  := by
  have hpassOn : ∀ l, ((s.passOn l).tasks q).signalled = (s.tasks q).signalled ∧
      ((s.passOn l).tasks q).status.isWaiting = false := by
    intro l
    obtain heq | ⟨-, heq⟩ := task_passOn (s := s) l q <;> rw [heq]
    · exact ⟨rfl, hq⟩
    · exact ⟨rfl, rfl⟩
  have hmem : ∀ d, q ∉ (s.conditions d).waitQueue := by
    intro d hd
    rw [h.locked.conditionQueue] at hd
    rw [hd] at hq
    cases hq
  rw [hasked.status, hasked.signalled, hasked.grant]
  cases r with
  | acquire l =>
      change ((s.serve machine p (.acquire l)).2.tasks q).signalled = _ ∧
        (((s.serve machine p (.acquire l)).2.tasks q).status.isWaiting = false ∨ _)
      rw [serve]
      split
      · exact ⟨rfl, .inl hq⟩
      · by_cases hqp : q = p
        · simp [hqp, Status.isWaiting]
        · simp [hqp, hq]
  | release l => exact ⟨(hpassOn l).1, .inl (hpassOn l).2⟩
  | wait d l =>
      by_cases hqp : q = p
      · subst hqp
        refine ⟨?_, .inr ⟨rfl, d, l, rfl⟩⟩
        simp [State.grant, hpassOn]
      · simp [State.grant, hqp, hpassOn]
  | signal d l =>
      have hhead : (s.conditions d).waitQueue.head? ≠ some q :=
        fun hhead => hmem d (List.mem_of_mem_head? hhead)
      rw [State.grant, task_moveWaiter, if_neg hhead]
      exact ⟨rfl, .inl hq⟩
  | broadcast d l =>
      rw [State.grant, task_moveWaiters, List.take_length, if_neg (hmem d)]
      exact ⟨rfl, .inl hq⟩
  | setMV mv position value =>
      change ((s.serve machine p (.setMV mv position value)).2.tasks q).signalled = _ ∧
        (((s.serve machine p (.setMV mv position value)).2.tasks q).status.isWaiting = false ∨ _)
      rw [serve]
      dsimp only
      split <;> exact ⟨rfl, .inl hq⟩
  | getMV => exact ⟨rfl, .inl hq⟩

theorem Asked.waits {t : State} {c : ConditionName} {l : LockName}
    (hasked : Asked machine s p (.wait c l) t s') :
  (s'.tasks p).status = .atCondition c
  := by
  rw [hasked.status, hasked.grant, State.grant]
  simp

/-- What a request does to the processes that wait for condition variables: nothing, or one begins to
wait, or one or more end to wait. -/
theorem Asked.status_cases {t : State} {r : Request} (hasked : Asked machine s p r t s') (h : Ok s)
    (q : Process) :
  (s'.tasks q).status.isWaiting = (s.tasks q).status.isWaiting ∧
      (s'.tasks q).signalled = (s.tasks q).signalled ∨
    q = p ∧ (∃ c l, r = .wait c l) ∧ (s'.tasks p).status.isWaiting = true ∧
      (s'.tasks p).signalled = (s.tasks p).signalled ∨
    ∃ c, (s.tasks q).status = .atCondition c ∧ (s'.tasks q).status.isWaiting = false ∧
      (r = .signal c (lockOf c) ∧ (s.conditions c).waitQueue.head? = some q ∧
          (s'.tasks q).signalled = true ∨
        r = .broadcast c (lockOf c) ∧ (s'.tasks q).signalled = false)
  := by
  cases hq : (s.tasks q).status with
  | atCondition c =>
      obtain ⟨hstatus, hsignalled⟩ | ⟨hstatus, hr⟩ := hasked.waiting machine h hq
      · exact .inl ⟨by rw [hstatus], hsignalled⟩
      · exact .inr (.inr ⟨c, rfl, by rw [hstatus]; rfl, hr⟩)
  | _ =>
      have hwaiting : (s.tasks q).status.isWaiting = false := by rw [hq]; rfl
      obtain ⟨hsignalled, hstatus | ⟨hqp, c, l, rfl⟩⟩ := hasked.moving machine h hwaiting
      · exact .inl ⟨hstatus, hsignalled⟩
      · rw [hqp] at hsignalled
        exact .inr (.inl ⟨hqp, ⟨c, l, rfl⟩, by rw [hasked.waits]; rfl, hsignalled⟩)

/-- The first process in the queue is signalled. -/
theorem Asked.woken {t : State} {c : ConditionName} {l : LockName}
    (hasked : Asked machine s p (.signal c l) t s') (h : Ok s)
    (hq : (s.conditions c).waitQueue.head? = some q) :
  q ≠ p ∧ (s.tasks q).status = .atCondition c ∧ (s'.tasks q).status.isWaiting = false ∧
    (s'.tasks q).signalled = true
  := by
  have hstatus := (h.locked.conditionQueue c q).mp (List.mem_of_mem_head? hq)
  refine ⟨?_, hstatus, ?_⟩
  · rintro rfl
    rw [hasked.ready] at hstatus
    cases hstatus
  · rw [hasked.status, hasked.signalled, hasked.grant, State.grant, task_moveWaiter, if_pos hq]
    exact ⟨rfl, rfl⟩

/-- The elements of a variable that is not set. -/
theorem stored_of_ne {r : Request} {mv : Variable} (h : ∀ position value, r ≠ .setMV mv position value)
    (i : ℤ) :
  s.stored r mv i = s.values mv i
  := by
  cases r with
  | setMV mv' position value =>
      rw [stored]
      split
      · apply if_neg
        rintro ⟨rfl, -⟩
        exact h position value rfl
      · rfl
  | _ => rfl

/-- What all requests preserve that satisfy `P` holds after every run with such requests. -/
theorem run_induction {I : State → Prop} {P : State → Process → Request → Prop}
    {started : Process → Bool} (hinitial : I (initial started))
    (hsame : ∀ s s', Same s s' → I s → I s')
    (hasked : ∀ s p r t s', Ok s → I s → P s p r → Asked machine s p r t s' → I s')
    {ps : List Process}
    (hP : Transition.Along (State.step machine) (fun s p => ∀ r, s.asks p = some r → P s p r)
      (initial started) ps)
    (hrun : Transition.run (State.step machine) (initial started) ps = some s) :
  I s
  := by
  have hboth : Ok s ∧ I s := by
    refine Transition.run_invariant (I := fun s => Ok s ∧ I s) ?_ ⟨ok_initial started, hinitial⟩ hP hrun
    rintro s p s' ⟨hok, hI⟩ hP hstep
    use hok.step machine hstep
    rcases hok.step_cases machine hstep with ⟨-, hsames⟩ | ⟨r, t, hasks, hask⟩
    · exact hsame s s' hsames hI
    · exact hasked s p r t s' hok hI (hP r hasks) hask
  exact hboth.2

end State

end Nachos.Office
