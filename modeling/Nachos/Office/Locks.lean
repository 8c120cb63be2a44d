import Mathlib.Data.List.Basic
import Nachos.Office.System
import Nachos.Office.Keeps

/-!
# The locks of the passport office

A process holds a lock when it has acquired the lock and has not released it since. The server knows
only the machine of the owner of a lock, and it does what a process that does not own the lock asks for
if it is on the same machine. No process of the passport office does so: the server grants all its
requests (`requests_granted`), and a lock is held by one process at a time.
-/

namespace Nachos.Office

/-! ### Which locks are held in a phase -/

/-- A senator has `senatorLock` from the beginning to the end of its visit. -/
def visitorLocks (p : Process) : List LockName := if isSenator p then [.senatorLock] else []

/-- The locks that a process has acquired in a phase or has asked for, the last one first. -/
def held (p : Process) : Phase → List LockName
  | .fresh | .roaming _ _ | .gone _ | .free _ _ | .retiring _ _ | .managing _ => []
  | .indexing | .indexed _ | .numbered _ => [indexLock p]
  | .outside _ _ | .atEntrance _ => [.outsideLock]
  | .choosing _ _ | .debited _ | .lined _ _ _ | .sentAway _ | .passed _ _ _ | .looking _ _
  | .called _ _ => [.lineLock]
  | .crediting _ | .creditRead _ _ _ _ | .credited _ => [.moneyLock, .lineLock]
  | .arrived _ K i => .clerkLock K i :: .lineLock :: visitorLocks p
  | .atCounter _ K i | .given _ K i | .signalled _ K i | .served _ K i | .goodbye _ K i =>
      .clerkLock K i :: visitorLocks p
  | .paying _ i _ | .paid _ i => .clerkLock .cashier i :: visitorLocks p
  | .posing _ i => .clerkLock .pic i :: visitorLocks p
  | .flagging _ | .raised _ | .visiting _ | .emptied _ | .lowered _ => [.senatorLock]
  | .atDoor _ | .entered _ | .exiting _ | .dismissed _ => [.outsideLock, .senatorLock]
  | .lining _ | .summoned _ _ _ => [.lineLock, .senatorLock]
  | .ready K i => [.clerkLock K i, .lineLock]
  | .listening K i | .awaiting K i | .filing K i _ | .filed K i | .done K i | .parting K i
  | .resting K i | .asleep K i | .waking _ K i => [.clerkLock K i]
  | .charging i | .chargeRead i _ | .charged i => [.moneyLock, .clerkLock .cashier i]
  | .accounted i => [.clerkLock .cashier i]
  | .developing i => [.clerkLock .pic i]
  | .counting _ | .collected _ _ _ _ => [.moneyLock]
  | .printing φ => .outputLock :: held p φ

/-- What a request means for the locks that a process holds. -/
def Moves (r : Request) (before after : LockName → Prop) : Prop :=
  match r with
  | .acquire l => ¬ before l ∧ ∀ l', after l' ↔ l' = l ∨ before l'
  | .release l => before l ∧ ∀ l', after l' ↔ l' ≠ l ∧ before l'
  | .wait c l | .signal c l | .broadcast c l =>
      l = lockOf c ∧ before l ∧ ∀ l', after l' ↔ before l'
  | .setMV _ _ _ | .getMV _ _ => ∀ l', after l' ↔ before l'

section

variable {p : Process} {φ φ' : Phase}

theorem outputLock_not_mem (hφ : φ.isPrinting = false) :
  .outputLock ∉ held p φ
  := by
  cases φ <;> simp [Phase.isPrinting] at hφ <;>
    cases p <;> simp [held, visitorLocks, indexLock, isSenator]

theorem held_start (id : ℤ) :
  held p (.start id p) = []
  := by cases p <;> rfl

theorem held_back (id : ℤ) :
  held p (.back id p) = visitorLocks p
  := by cases p <;> rfl

theorem moves_next {r : Request} {v : ℤ} (h : next p φ r v = some φ') :
  Moves r (· ∈ held p φ) (· ∈ held p φ')
  := by
  refine next_cases (M := fun φ r _ φ' => Moves r (· ∈ held p φ) (· ∈ held p φ'))
    ?_ ?_ ?_ ?_ ?_ ?_ ?_ ?_ ?_ h
  · intro φ v hφ
    exact ⟨outputLock_not_mem hφ, fun l => by simp [held]⟩
  · intro φ v hφ
    have hnot := outputLock_not_mem (p := p) hφ
    exact ⟨by simp [held], fun l => by grind [held]⟩
  · intro φ l v φ' h
    have heq : l ∉ held p φ ∧ held p φ' = l :: held p φ := by
      revert h
      fun_cases onAcquire p φ l <;> intro h <;> simp at h <;> grind [held, visitorLocks, isSenator]
    exact ⟨heq.1, fun l' => by simp [heq.2]⟩
  · intro φ l v φ' h
    have heq : l ∈ held p φ ∧ l ∉ held p φ' ∧
        ∀ l', l' ≠ l → (l' ∈ held p φ' ↔ l' ∈ held p φ) := by
      revert h
      fun_cases onRelease p φ l <;> intro h <;> simp at h <;>
        grind [held, visitorLocks, held_start, held_back]
    refine ⟨heq.1, fun l' => ?_⟩
    by_cases hl' : l' = l
    · simp [hl', heq.2.1]
    · simp [hl', heq.2.2 l' hl']
  · intro φ c v φ' h
    have heq : lockOf c ∈ held p φ ∧ held p φ' = held p φ := by
      revert h
      fun_cases onWait φ c <;> intro h <;> simp at h <;> grind [held, lockOf]
    exact ⟨rfl, heq.1, fun _ => by rw [heq.2]⟩
  · intro φ c v φ' h
    have heq : lockOf c ∈ held p φ ∧ held p φ' = held p φ := by
      revert h
      fun_cases onSignal φ c <;> intro h <;> simp at h <;> grind [held, lockOf]
    exact ⟨rfl, heq.1, fun _ => by rw [heq.2]⟩
  · intro φ c v φ' h
    have heq : lockOf c ∈ held p φ ∧ held p φ' = held p φ := by
      revert h
      fun_cases onBroadcast φ c <;> intro h <;> simp at h <;> grind [held, lockOf]
    exact ⟨rfl, heq.1, fun _ => by rw [heq.2]⟩
  · intro φ mv position value v φ' h
    have heq : held p φ' = held p φ := by
      revert h
      fun_cases onSet p φ mv position value <;> intro h <;> simp at h <;> grind [held]
    exact fun _ => by rw [heq]
  · intro φ mv position v φ' h
    have heq : held p φ' = held p φ := by
      revert h
      fun_cases onGet p φ mv position v <;> intro h <;> simp at h <;> grind [held]
    exact fun _ => by rw [heq]

end

/-! ### Locks and queues -/

/-- The lock that a process needs before it goes on. -/
def Status.lock : Status → Option LockName
  | .ready => none
  | .atLock l => some l
  | .atCondition c => some (lockOf c)

/-- The requests whose reply can be kept back in a queue. -/
def Status.Asks : Status → Request → Prop
  | .ready, _ => True
  | .atLock l, r => r = .acquire l ∨ ∃ c, lockOf c = l ∧ r = .wait c l
  | .atCondition c, r => r = .wait c (lockOf c)

/-- How the status of a process can change when another one makes a request. -/
def Status.Advances (t t' : Status) : Prop :=
  t' = t ∨ t' = .ready ∨ ∃ c, t = .atCondition c ∧ t' = .atLock (lockOf c)

theorem Status.Advances.trans {t t' t'' : Status} (h : t.Advances t') (h' : t'.Advances t'') :
  t.Advances t''
  := by
  obtain rfl | rfl | ⟨c, rfl, rfl⟩ := h
  · exact h'
  · obtain rfl | rfl | ⟨c, hc, -⟩ := h'
    · exact .inr (.inl rfl)
    · exact .inr (.inl rfl)
    · cases hc
  · obtain rfl | rfl | ⟨d, hd, -⟩ := h'
    · exact .inr (.inr ⟨c, rfl, rfl⟩)
    · exact .inr (.inl rfl)
    · cases hd

theorem Status.Asks.advances {t t' : Status} {r : Request} (h : t.Asks r) (ha : t.Advances t') :
  t'.Asks r
  := by
  obtain rfl | rfl | ⟨c, rfl, rfl⟩ := ha
  · exact h
  · trivial
  · exact .inr ⟨c, rfl, h⟩

/-- The tables of the server agree with the locks that the processes hold or have asked for. -/
structure Locked (H : Process → LockName → Prop) (s : State) : Prop where
  owner : ∀ l p, (s.locks l).owner = some p ↔ H p l ∧ (s.tasks p).status.lock ≠ some l
  asked : ∀ l p, (s.tasks p).status.lock = some l → H p l
  lockQueue : ∀ l p, p ∈ (s.locks l).waitQueue ↔ (s.tasks p).status = .atLock l
  conditionQueue : ∀ c p, p ∈ (s.conditions c).waitQueue ↔ (s.tasks p).status = .atCondition c
  lockNodup : ∀ l, (s.locks l).waitQueue.Nodup
  conditionNodup : ∀ c, (s.conditions c).waitQueue.Nodup
  free : ∀ l, (s.locks l).owner = none → (s.locks l).waitQueue = []
  bound : ∀ c, (s.conditions c).lock = some (lockOf c) ∨
    (s.conditions c).lock = none ∧ (s.conditions c).waitQueue = []

namespace Locked

variable {H H' : Process → LockName → Prop} {s s' : State} {p : Process} {l : LockName}
  {c : ConditionName}

theorem congr (h : Locked H s) (hH : ∀ q m, H' q m ↔ H q m) (hlocks : s'.locks = s.locks)
    (hconditions : s'.conditions = s.conditions)
    (hstatus : ∀ q, (s'.tasks q).status = (s.tasks q).status) :
  Locked H' s'
  := by
  constructor
  · intro m q
    rw [hlocks, hstatus, hH]
    exact h.owner m q
  · intro m q hm
    rw [hH]
    exact h.asked m q (by rwa [hstatus] at hm)
  · intro m q
    rw [hlocks, hstatus]
    exact h.lockQueue m q
  · intro d q
    rw [hconditions, hstatus]
    exact h.conditionQueue d q
  · rw [hlocks]
    exact h.lockNodup
  · rw [hconditions]
    exact h.conditionNodup
  · rw [hlocks]
    exact h.free
  · rw [hconditions]
    exact h.bound

/-- A process that holds a lock is not in the queue of the lock. -/
theorem acquire_free (h : Locked H s) (hready : (s.tasks p).status = .ready)
    (hfree : (s.locks l).owner = none) (hself : ∀ m, H' p m ↔ m = l ∨ H p m)
    (hother : ∀ q, q ≠ p → ∀ m, H' q m ↔ H q m) :
  Locked H' (s.setLock l { s.locks l with owner := some p })
  := by
  have howner := h.owner
  have hfrees := h.free l hfree
  constructor
  · intro m q
    by_cases hm : m = l
    · subst hm
      have hnone := howner m q
      grind [Status.lock]
    · have hsame := howner m q
      by_cases hq : q = p <;> grind [Status.lock]
  · intro m q hm
    have hasked := h.asked m q hm
    grind
  · intro m q
    have hqueue := h.lockQueue m q
    grind
  · exact h.conditionQueue
  · intro m
    have hnodup := h.lockNodup m
    grind
  · exact h.conditionNodup
  · intro m hm
    have hfree := h.free m
    grind
  · exact h.bound

/-- A process whose reply is kept back by a lock. -/
theorem acquire_busy (h : Locked H s) (hready : (s.tasks p).status = .ready) (hnot : ¬ H p l)
    (hbusy : (s.locks l).owner ≠ none) (hself : ∀ m, H' p m ↔ m = l ∨ H p m)
    (hother : ∀ q, q ≠ p → ∀ m, H' q m ↔ H q m) :
  Locked H' ((s.setLock l { s.locks l with waitQueue := (s.locks l).waitQueue ++ [p] }).setStatus p
    (.atLock l))
  := by
  constructor
  · intro m q
    have howner := h.owner m q
    grind [Status.lock]
  · intro m q hm
    have hasked := h.asked m q
    grind [Status.lock]
  · intro m q
    have hqueue := h.lockQueue m q
    grind
  · intro d q
    have hqueue := h.conditionQueue d q
    grind
  · intro m
    have hnodup := h.lockNodup m
    have hqueue := h.lockQueue m p
    grind [List.nodup_append]
  · exact h.conditionNodup
  · intro m hm
    have hfree := h.free m
    grind
  · exact h.bound

/-- The owner gives the lock away. -/
theorem passOn (h : Locked H s) (hready : (s.tasks p).status = .ready)
    (howner : (s.locks l).owner = some p) (hself : ∀ m, H' p m ↔ m ≠ l ∧ H p m)
    (hother : ∀ q, q ≠ p → ∀ m, H' q m ↔ H q m) :
  Locked H' (s.passOn l)
  := by
  have hsole : ∀ q, H q l ∧ (s.tasks q).status.lock ≠ some l → q = p := by
    intro q hq
    rw [← h.owner l q, howner] at hq
    exact (Option.some.inj hq).symm
  rw [State.passOn]
  cases hqueue : (s.locks l).waitQueue with
  | nil =>
      constructor
      · intro m q
        have howner := h.owner m q
        have hnone := h.lockQueue l q
        have hq := hsole q
        grind [Status.lock]
      · intro m q hm
        have hasked := h.asked m q hm
        grind [Status.lock]
      · intro m q
        have hmem := h.lockQueue m q
        grind
      · exact h.conditionQueue
      · intro m
        have hnodup := h.lockNodup m
        grind
      · exact h.conditionNodup
      · intro m hm
        have hfree := h.free m
        grind
      · exact h.bound
  | cons u us =>
      have hu : (s.tasks u).status = .atLock l := (h.lockQueue l u).mp (by simp [hqueue])
      have hup : u ≠ p := by
        rintro rfl
        rw [hready] at hu
        cases hu
      have hnodup := h.lockNodup l
      rw [hqueue] at hnodup
      constructor
      · intro m q
        have howner := h.owner m q
        have hasked := h.asked l u
        have hq := hsole q
        grind [Status.lock]
      · intro m q hm
        have hasked := h.asked m q
        grind [Status.lock]
      · intro m q
        have hmem := h.lockQueue m q
        grind
      · intro d q
        have hmem := h.conditionQueue d q
        grind
      · intro m
        have hnodup := h.lockNodup m
        grind
      · exact h.conditionNodup
      · intro m hm
        have hfree := h.free m
        grind
      · exact h.bound

/-- A process that has given the lock away waits for a condition variable. -/
theorem block (h : Locked H s) (hready : (s.tasks p).status = .ready) (hnot : ¬ H p (lockOf c))
    (hself : ∀ m, H' p m ↔ m = lockOf c ∨ H p m) (hother : ∀ q, q ≠ p → ∀ m, H' q m ↔ H q m) :
  Locked H' ((s.setCondition c ⟨some (lockOf c), (s.conditions c).waitQueue ++ [p]⟩).setStatus p
    (.atCondition c))
  := by
  constructor
  · intro m q
    have howner := h.owner m q
    grind [Status.lock]
  · intro m q hm
    have hasked := h.asked m q
    grind [Status.lock]
  · intro m q
    have hqueue := h.lockQueue m q
    grind
  · intro d q
    have hqueue := h.conditionQueue d q
    grind
  · exact h.lockNodup
  · intro d
    have hnodup := h.conditionNodup d
    have hqueue := h.conditionQueue d p
    grind [List.nodup_append]
  · exact h.free
  · intro d
    have hbound := h.bound d
    grind

/-- A reply is moved from a condition variable to the lock that is held. -/
theorem moveWaiter (h : Locked H s) (hbusy : (s.locks (lockOf c)).owner ≠ none) (b : Bool) :
  Locked H (s.moveWaiter c (lockOf c) b)
  := by
  rw [State.moveWaiter]
  cases hqueue : (s.conditions c).waitQueue with
  | nil => exact h
  | cons u us =>
      have hu : (s.tasks u).status = .atCondition c :=
        (h.conditionQueue c u).mp (by simp [hqueue])
      have hnodup := h.conditionNodup c
      rw [hqueue] at hnodup
      constructor
      · intro m q
        have howner := h.owner m q
        grind [Status.lock]
      · intro m q hm
        have hasked := h.asked m q
        grind [Status.lock]
      · intro m q
        have hmem := h.lockQueue m q
        grind
      · intro d q
        have hmem := h.conditionQueue d q
        grind
      · intro m
        have hnodup := h.lockNodup m
        have hmem := h.lockQueue m u
        grind [List.nodup_append]
      · intro d
        have hnodup := h.conditionNodup d
        grind
      · intro m hm
        have hfree := h.free m
        grind
      · intro d
        have hbound := h.bound d
        grind

theorem moveWaiters (h : Locked H s) (hbusy : (s.locks (lockOf c)).owner ≠ none) (n : ℕ) :
  Locked H (s.moveWaiters c (lockOf c) n)
  := by
  induction n generalizing s with
  | zero => exact h
  | succ n ih =>
      apply ih (h.moveWaiter hbusy false)
      rw [State.moveWaiter]
      split
      · simpa using hbusy
      · exact hbusy

/-- The statuses when a lock is passed on. -/
theorem advances_passOn (l : LockName) (q : Process) :
  (s.tasks q).status.Advances ((s.passOn l).tasks q).status
  := by
  rw [State.passOn]
  split
  · by_cases hq : q = ‹Process›
    · right
      left
      simp [hq]
    · left
      simp [hq]
  · exact .inl rfl

theorem advances_moveWaiter (h : Locked H s) (c : ConditionName) (b : Bool) (q : Process) :
  (s.tasks q).status.Advances ((s.moveWaiter c (lockOf c) b).tasks q).status
  := by
  rw [State.moveWaiter]
  split
  · rename_i u us hqueue
    by_cases hq : q = u
    · right
      right
      have hmem := (h.conditionQueue c u).mp (by simp [hqueue])
      exact ⟨c, by rw [hq, hmem], by simp [hq]⟩
    · left
      simp [hq]
  · exact .inl rfl

end Locked

/-! ### Steps -/

namespace State

variable (machine : Process → ℕ) {s s' : State} {p q : Process}

/-- What the server does with a request when it knows that the process owns the lock. -/
def grant (p : Process) : Request → State → ℤ × State
  | .release l, s => (0, s.passOn l)
  | .wait c l, s =>
      (0, ((s.passOn l).setCondition c ⟨some l, (s.conditions c).waitQueue ++ [p]⟩).setStatus p
        (.atCondition c))
  | .signal c l, s => (0, s.moveWaiter c l true)
  | .broadcast c l, s => (0, s.moveWaiters c l (s.conditions c).waitQueue.length)
  | r, s => s.serve machine p r

/-- The process owns the lock that its request names, and the condition variable is not bound to
another lock. -/
def Grants (s : State) (p : Process) : Request → Prop
  | .release l => (s.locks l).owner = some p
  | .wait c l | .signal c l | .broadcast c l =>
      (s.locks l).owner = some p ∧
        ((s.conditions c).lock = some l ∨
          (s.conditions c).lock = none ∧ (s.conditions c).waitQueue = [])
  | _ => True

theorem serve_of_grants {r : Request} (h : s.Grants p r) :
  s.serve machine p r = s.grant machine p r
  := by
  cases r with
  | release l =>
      have howner : s.isOwner machine p l = true := by simp [isOwner, show _ = some p from h]
      simp [serve, grant, howner]
  | wait c l =>
      obtain ⟨hp, hlock⟩ := h
      have howner : s.isOwner machine p l = true := by simp [isOwner, hp]
      have hbound : (s.conditions c).lock = some l ∨ (s.conditions c).lock = none := by tauto
      simp [serve, grant, howner, hbound]
  | signal c l =>
      obtain ⟨hp, hlock⟩ := h
      have howner : s.isOwner machine p l = true := by simp [isOwner, hp]
      obtain hbound | ⟨hnone, hempty⟩ := hlock
      · simp [serve, grant, howner, hbound]
      · simp [serve, grant, hnone, moveWaiter, hempty]
  | broadcast c l =>
      obtain ⟨hp, hlock⟩ := h
      have howner : s.isOwner machine p l = true := by simp [isOwner, hp]
      obtain hbound | ⟨hnone, hempty⟩ := hlock
      · simp [serve, grant, howner, hbound]
      · simp [serve, grant, hnone, moveWaiters, hempty]
  | acquire | setMV | getMV => rfl

/-- The phase of a process, as its requests and the replies to them tell. -/
def phase (s : State) (p : Process) : Phase :=
  Prog.known (next p) (.first p) (s.tasks p).history

/-- The processes keep to the phases. -/
structure Followed (s : State) : Prop where
  allowed : ∀ p, Prog.Allowed (next p) (.first p) (s.tasks p).history
  keeps : ∀ p, Prog.Keeps (next p) (s.tasks p).program (s.phase p) (Good p)

/-- The server leaves what the processes do and have done as it is. -/
structure SameWork (s s' : State) : Prop where
  program : ∀ q, (s'.tasks q).program = (s.tasks q).program
  history : ∀ q, (s'.tasks q).history = (s.tasks q).history

theorem SameWork.trans {s'' : State} (h : SameWork s s') (h' : SameWork s' s'') :
  SameWork s s''
  := ⟨fun q => (h'.program q).trans (h.program q), fun q => (h'.history q).trans (h.history q)⟩

theorem sameWork_of_tasks (h : s'.tasks = s.tasks) :
  SameWork s s'
  := ⟨fun _ => by rw [h], fun _ => by rw [h]⟩

theorem sameWork_setStatus (h : s'.tasks = s.tasks) (p : Process) (status : Status) :
  SameWork s (s'.setStatus p status)
  := by
  constructor <;> intro q <;> by_cases hq : q = p <;> simp [hq, h]

theorem sameWork_passOn (l : LockName) :
  SameWork s (s.passOn l)
  := by
  rw [passOn]
  split
  · exact sameWork_setStatus (by rfl) _ _
  · exact sameWork_of_tasks rfl

theorem sameWork_moveWaiter (c : ConditionName) (l : LockName) (b : Bool) :
  SameWork s (s.moveWaiter c l b)
  := by
  rw [moveWaiter]
  split
  · constructor <;> intro q <;> simp <;> grind
  · exact sameWork_of_tasks rfl

theorem sameWork_moveWaiters (c : ConditionName) (l : LockName) (n : ℕ) :
  SameWork s (s.moveWaiters c l n)
  := by
  induction n generalizing s with
  | zero => exact sameWork_of_tasks rfl
  | succ n ih => exact (sameWork_moveWaiter c l false).trans ih

theorem sameWork_serve (p : Process) (r : Request) :
  SameWork s (s.serve machine p r).2
  := by
  have hrefl : SameWork s s := sameWork_of_tasks rfl
  cases r with
  | acquire l =>
      rw [serve]
      split
      · exact sameWork_of_tasks rfl
      · exact sameWork_setStatus (by rfl) _ _
  | release l =>
      rw [serve]
      dsimp only
      split
      · exact sameWork_passOn l
      · exact hrefl
  | wait c l =>
      rw [serve]
      split
      · exact (sameWork_passOn l).trans (sameWork_setStatus (by rfl) _ _)
      · exact hrefl
  | signal c l =>
      rw [serve]
      dsimp only
      split
      · exact sameWork_moveWaiter _ _ _
      · exact hrefl
  | broadcast c l =>
      rw [serve]
      dsimp only
      split
      · exact sameWork_moveWaiters _ _ _
      · exact hrefl
  | setMV mv position value =>
      rw [serve]
      dsimp only
      split
      · exact sameWork_of_tasks rfl
      · exact hrefl
  | getMV => exact hrefl

theorem phase_congr (h : (s'.tasks q).history = (s.tasks q).history) :
  s'.phase q = s.phase q
  := by rw [phase, phase, h]

theorem history_ask {r : Request} {k : ℤ → Program Label} (q : Process) :
  ((s.ask machine p r k).tasks q).history =
    if q = p then (r, (s.serve machine p r).1) :: (s.tasks p).history else (s.tasks q).history
  := by
  have hwork := (sameWork_serve (s := s) machine p r).history q
  by_cases hq : q = p
  · simp [ask, hq]
  · simp [ask, hq, hwork]

theorem program_ask {r : Request} {k : ℤ → Program Label} (q : Process) :
  ((s.ask machine p r k).tasks q).program =
    if q = p then k (s.serve machine p r).1 else (s.tasks q).program
  := by
  have hwork := (sameWork_serve (s := s) machine p r).program q
  by_cases hq : q = p
  · simp [ask, hq]
  · simp [ask, hq, hwork]

/-- The request that a process makes is allowed in its phase, and leads to the next phase. -/
theorem Followed.next (h : Followed s) {r : Request} {k : ℤ → Program Label}
    (hprogram : (s.tasks p).program = .call r k) :
  Office.next p (s.phase p) r (s.serve machine p r).1 = some ((s.ask machine p r k).phase p)
  := by
  have hkeeps := h.keeps p
  rw [hprogram] at hkeeps
  obtain ⟨φ, hnext, -⟩ := hkeeps (s.serve machine p r).1
  rw [hnext, phase, history_ask, if_pos rfl, Prog.known_cons hnext]

theorem phase_ask_of_ne {r : Request} {k : ℤ → Program Label} (hq : q ≠ p) :
  (s.ask machine p r k).phase q = s.phase q
  := phase_congr (by rw [history_ask, if_neg hq])

theorem Followed.ask (h : Followed s) {r : Request} {k : ℤ → Program Label}
    (hprogram : (s.tasks p).program = .call r k) :
  Followed (s.ask machine p r k)
  := by
  have hnext := h.next machine hprogram
  constructor
  · intro q
    rw [history_ask]
    split
    · rename_i hq
      rw [hq]
      exact (h.allowed p).cons hnext
    · exact h.allowed q
  · intro q
    rw [program_ask]
    by_cases hq : q = p
    · have hkeeps := h.keeps p
      rw [hprogram] at hkeeps
      obtain ⟨φ, hφ, hk⟩ := hkeeps (s.serve machine p r).1
      obtain rfl := Option.some.inj (hnext.symm.trans hφ)
      rw [if_pos hq, hq]
      exact hk
    · rw [if_neg hq, phase_ask_of_ne machine hq]
      exact h.keeps q

/-- A process comes to the beginning of a loop. -/
theorem Followed.goOn (h : Followed s) {l : Label} (hprogram : (s.tasks p).program = .pure l) :
  Followed (s.setTask p { s.tasks p with program := code l })
  := by
  have hhistory : ∀ q, ((s.setTask p { s.tasks p with program := code l }).tasks q).history =
      (s.tasks q).history := by
    intro q
    by_cases hq : q = p <;> simp [hq]
  constructor
  · intro q
    rw [hhistory]
    exact h.allowed q
  · intro q
    rw [phase_congr (hhistory q)]
    have hkeeps := h.keeps q
    by_cases hq : q = p
    · subst hq
      rw [hprogram] at hkeeps
      simpa using keeps_code hkeeps
    · simpa [hq] using hkeeps

theorem followed_initial (started : Process → Bool) :
  Followed (initial started)
  := by
  constructor
  · exact fun _ => trivial
  · intro p
    change Prog.Keeps (Office.next p) (if started p && fits p then main p else return .exit)
      (.first p) (Good p)
    split
    · exact keeps_main p
    · cases p <;> exact rfl

theorem conditions_passOn (l : LockName) :
  (s.passOn l).conditions = s.conditions
  := by
  rw [passOn]
  split <;> rfl

end State

namespace Locked

variable (machine : Process → ℕ) {H H' : Process → LockName → Prop} {s s' : State} {p : Process}
  {c : ConditionName}

/-- What a request does to the tables. -/
theorem serve (h : Locked H s)
    (hready : (s.tasks p).status = .ready) {r : Request} (hgrants : s.Grants p r)
    (hself : Moves r (H p) (H' p)) (hother : ∀ q, q ≠ p → ∀ m, H' q m ↔ H q m) :
  Locked H' (s.serve machine p r).2
  := by
  have hsame : (∀ m, H' p m ↔ H p m) → ∀ q m, H' q m ↔ H q m := by
    intro hp q m
    by_cases hq : q = p
    · rw [hq]
      exact hp m
    · exact hother q hq m
  rw [State.serve_of_grants machine hgrants]
  cases r with
  | acquire l =>
      obtain ⟨hnot, hself⟩ := hself
      change Locked H' (s.serve machine p (.acquire l)).2
      rw [State.serve]
      split
      · rename_i hfree
        exact h.acquire_free hready hfree hself hother
      · rename_i hbusy
        exact h.acquire_busy hready hnot hbusy hself hother
  | release l => exact h.passOn hready hgrants hself.2 hother
  | wait c l =>
      obtain ⟨rfl, hmem, hself⟩ := hself
      let H'' : Process → LockName → Prop := fun q m => ¬ (q = p ∧ m = lockOf c) ∧ H q m
      have hpass : Locked H'' (s.passOn (lockOf c)) :=
        h.passOn hready hgrants.1 (by simp [H'']) (fun q hq m => by simp [H'', hq])
      have hstatus : ((s.passOn (lockOf c)).tasks p).status = .ready := by
        have hadvances := advances_passOn (s := s) (lockOf c) p
        rw [hready] at hadvances
        rcases hadvances with h | h | ⟨d, hd, -⟩
        · exact h
        · exact h
        · cases hd
      have hblock : Locked H' _ := hpass.block (c := c) hstatus (by simp [H''])
        (fun m => by simp only [H'', hself]; grind) (fun q hq m => by simp [H'', hother q hq, hq])
      rwa [State.conditions_passOn] at hblock
  | signal c l =>
      obtain ⟨rfl, -, hself⟩ := hself
      have hbusy : (s.locks (lockOf c)).owner ≠ none := by simp [hgrants.1]
      exact (h.moveWaiter hbusy true).congr (hsame hself) rfl rfl (fun _ => rfl)
  | broadcast c l =>
      obtain ⟨rfl, -, hself⟩ := hself
      have hbusy : (s.locks (lockOf c)).owner ≠ none := by simp [hgrants.1]
      exact (h.moveWaiters hbusy _).congr (hsame hself) rfl rfl (fun _ => rfl)
  | setMV mv position value =>
      change Locked H' (s.serve machine p (.setMV mv position value)).2
      rw [State.serve]
      dsimp only
      split <;> exact h.congr (hsame hself) rfl rfl (fun _ => rfl)
  | getMV => exact h.congr (hsame hself) rfl rfl (fun _ => rfl)

theorem advances_moveWaiters (h : Locked H s) (hbusy : (s.locks (lockOf c)).owner ≠ none) (n : ℕ)
    (q : Process) :
  (s.tasks q).status.Advances ((s.moveWaiters c (lockOf c) n).tasks q).status
  := by
  induction n generalizing s with
  | zero => exact .inl rfl
  | succ n ih =>
      have hbusy' : ((s.moveWaiter c (lockOf c) false).locks (lockOf c)).owner ≠ none := by
        rw [State.moveWaiter]
        split
        · simpa using hbusy
        · exact hbusy
      exact (h.advances_moveWaiter c false q).trans (ih (h.moveWaiter hbusy false) hbusy')

/-- What a request does to the statuses: the process that makes it can have to wait for the reply, and
the others go on. -/
theorem status_serve (h : Locked H s) {r : Request}
    (hgrants : s.Grants p r)
    (hlock : ∀ c l, r = .wait c l ∨ r = .signal c l ∨ r = .broadcast c l → l = lockOf c)
    (q : Process) :
  (s.tasks q).status.Advances ((s.serve machine p r).2.tasks q).status ∨
    q = p ∧ ((s.serve machine p r).2.tasks p).status.Asks r
  := by
  rw [State.serve_of_grants machine hgrants]
  cases r with
  | acquire l =>
      change (s.tasks q).status.Advances ((s.serve machine p (.acquire l)).2.tasks q).status ∨
        q = p ∧ ((s.serve machine p (.acquire l)).2.tasks p).status.Asks (.acquire l)
      rw [State.serve]
      split
      · exact .inl (.inl rfl)
      · by_cases hq : q = p
        · right
          use hq
          simp [Status.Asks]
        · left
          left
          simp [hq]
  | release l => exact .inl (advances_passOn l q)
  | wait c l =>
      obtain rfl := hlock c l (.inl rfl)
      by_cases hq : q = p
      · right
        use hq
        simp [State.grant, Status.Asks]
      · left
        have hadvances := advances_passOn (s := s) (lockOf c) q
        simpa [State.grant, hq] using hadvances
  | signal c l =>
      obtain rfl := hlock c l (.inr (.inl rfl))
      exact .inl (h.advances_moveWaiter c true q)
  | broadcast c l =>
      obtain rfl := hlock c l (.inr (.inr rfl))
      exact .inl (h.advances_moveWaiters (by simp [hgrants.1]) _ q)
  | setMV mv position value =>
      left
      left
      change ((s.serve machine p (.setMV mv position value)).2.tasks q).status = (s.tasks q).status
      rw [State.serve]
      dsimp only
      split <;> rfl
  | getMV => exact .inl (.inl rfl)

end Locked

namespace State

variable (machine : Process → ℕ) {s s' : State} {p q : Process}

/-! ### The invariant -/

structure Ok (s : State) : Prop where
  followed : Followed s
  locked : Locked (fun p l => l ∈ held p (s.phase p)) s
  /-- A process that waits has asked for it last. -/
  waiting : ∀ p, (s.tasks p).status ≠ .ready →
    ∃ r v history, (s.tasks p).history = (r, v) :: history ∧ (s.tasks p).status.Asks r
  /-- There is room for every process that makes requests. -/
  room : ∀ p, fits p = false → (s.tasks p).program = .pure .exit ∧ (s.tasks p).history = []

/-- The process owns the lock that its request names. -/
theorem Ok.grants (h : Ok s) (hready : (s.tasks p).status = .ready) {r : Request}
    {k : ℤ → Program Label} (hprogram : (s.tasks p).program = .call r k) :
  s.Grants p r
  := by
  have hmoves := moves_next (h.followed.next (fun _ => 0) hprogram)
  have howner : ∀ l, l ∈ held p (s.phase p) → (s.locks l).owner = some p := by
    intro l hl
    rw [h.locked.owner]
    exact ⟨hl, by simp [hready, Status.lock]⟩
  cases r with
  | release l => exact howner l hmoves.1
  | wait c l | signal c l | broadcast c l =>
      obtain ⟨rfl, hmem, -⟩ := hmoves
      exact ⟨howner _ hmem, h.locked.bound c⟩
  | acquire | setMV | getMV => trivial

theorem status_ask {r : Request} {k : ℤ → Program Label} (q : Process) :
  ((s.ask machine p r k).tasks q).status = ((s.serve machine p r).2.tasks q).status
  := by
  by_cases hq : q = p <;> simp [ask, hq]

theorem Ok.ask (h : Ok s) (hready : (s.tasks p).status = .ready) {r : Request}
    {k : ℤ → Program Label} (hprogram : (s.tasks p).program = .call r k) :
  Ok (s.ask machine p r k)
  := by
  have hmoves := moves_next (h.followed.next machine hprogram)
  have hgrants := h.grants hready hprogram
  have hlock : ∀ c l, r = .wait c l ∨ r = .signal c l ∨ r = .broadcast c l → l = lockOf c := by
    rintro c l (rfl | rfl | rfl) <;> exact hmoves.1
  constructor
  · exact h.followed.ask machine hprogram
  · have hlocked : Locked (fun q l => l ∈ held q ((s.ask machine p r k).phase q))
        (s.serve machine p r).2 :=
      h.locked.serve machine hready hgrants hmoves
        (fun q hq l => by rw [phase_ask_of_ne machine hq])
    exact hlocked.congr (fun _ _ => Iff.rfl) rfl rfl (status_ask machine)
  · intro q hq
    rw [status_ask] at hq ⊢
    rw [history_ask]
    obtain hadvances | ⟨rfl, hasks⟩ := h.locked.status_serve machine hgrants hlock q
    · by_cases hqp : q = p
      · rw [hqp, hready] at hadvances
        rw [hqp] at hq
        rcases hadvances with heq | heq | ⟨c, hc, -⟩
        · exact absurd heq hq
        · exact absurd heq hq
        · cases hc
      · rw [if_neg hqp]
        have hwaiting : (s.tasks q).status ≠ .ready := by
          intro heq
          rw [heq] at hadvances
          rcases hadvances with heq | heq | ⟨c, hc, -⟩
          · exact hq heq
          · exact hq heq
          · cases hc
        obtain ⟨r', v, history, heq, hasks⟩ := h.waiting q hwaiting
        exact ⟨r', v, history, heq, hasks.advances hadvances⟩
    · rw [if_pos rfl]
      exact ⟨r, _, _, rfl, hasks⟩
  · intro q hq
    obtain ⟨hexit, hnil⟩ := h.room q hq
    have hqp : q ≠ p := by
      rintro rfl
      rw [hprogram] at hexit
      cases hexit
    rw [program_ask, history_ask, if_neg hqp, if_neg hqp]
    exact ⟨hexit, hnil⟩

theorem Ok.step (h : Ok s) (hstep : s.step machine p = some s') :
  Ok s'
  := by
  rw [State.step] at hstep
  split at hstep
  · rename_i hready
    split at hstep
    · rename_i l hprogram
      obtain rfl := Option.some.inj hstep
      have hsame : ∀ q, ((s.setTask p { s.tasks p with program := code l }).tasks q).history =
          (s.tasks q).history ∧ ((s.setTask p { s.tasks p with program := code l }).tasks q).status =
          (s.tasks q).status := by
        intro q
        by_cases hq : q = p <;> simp [hq]
      constructor
      · exact h.followed.goOn hprogram
      · exact h.locked.congr (fun q l => by rw [phase_congr (hsame q).1]) rfl rfl
          (fun q => (hsame q).2)
      · intro q hq
        rw [(hsame q).2] at hq ⊢
        rw [(hsame q).1]
        exact h.waiting q hq
      · intro q hq
        obtain ⟨hexit, hnil⟩ := h.room q hq
        rw [(hsame q).1]
        refine ⟨?_, hnil⟩
        by_cases hqp : q = p
        · rw [← hqp, hexit] at hprogram
          cases hprogram
          simp only [hqp, tasks_setTask, if_pos]
          rfl
        · simpa [hqp] using hexit
    · rename_i r k hprogram
      obtain rfl := Option.some.inj hstep
      exact h.ask machine hready hprogram
  · cases hstep

theorem ok_initial (started : Process → Bool) :
  Ok (initial started)
  := by
  have hheld : ∀ p l, l ∉ held p ((initial started).phase p) := by
    intro p l
    cases p <;> exact List.not_mem_nil
  constructor
  · exact followed_initial started
  · have hstatus : ∀ p, ((initial started).tasks p).status = .ready := fun _ => rfl
    have hlock : ∀ l, (initial started).locks l = ⟨none, []⟩ := fun _ => rfl
    have hcondition : ∀ c, (initial started).conditions c = ⟨none, []⟩ := fun _ => rfl
    constructor <;> simp [hheld, hstatus, hlock, hcondition, Status.lock]
  · intro p hp
    exact absurd rfl hp
  · intro p hp
    change (if started p && fits p then main p else return .exit) = _ ∧ _
    rw [hp, Bool.and_false]
    exact ⟨rfl, rfl⟩

theorem ok_run {started : Process → Bool} {ps : List Process}
    (hrun : Transition.run (State.step machine) (initial started) ps = some s) :
  Ok s
  := by
  apply Transition.run_invariant (P := fun _ _ => True) _ (ok_initial started) _ hrun
  · intro s p s' h _ hstep
    exact h.step machine hstep
  · exact Transition.along_of_forall (fun _ _ => trivial) _ _

/-! ### What the processes hold -/

/-- Whether a process has acquired the lock and has not released it since. -/
def acquired (l : LockName) : List (Request × ℤ) → Bool
  | [] => false
  | (.acquire l', _) :: history => l' = l || acquired l history
  | (.release l', _) :: history => !decide (l' = l) && acquired l history
  | _ :: history => acquired l history

/-- The process `p` has acquired the lock, has not released it since, and is not waiting for it. -/
def Holds (s : State) (p : Process) (l : LockName) : Prop :=
  acquired l (s.tasks p).history ∧ (s.tasks p).status.lock ≠ some l

theorem acquired_iff (h : Prog.Allowed (Office.next p) (.first p) (s.tasks p).history)
    (l : LockName) :
  acquired l (s.tasks p).history ↔ l ∈ held p (s.phase p)
  := by
  refine h.invariant (I := fun φ history => acquired l history ↔ l ∈ held p φ) ?_ ?_
  · cases p <;> simp [acquired, Phase.first, held]
  · intro φ history r v φ' ih hnext
    have hmoves := moves_next hnext
    cases r with
    | acquire l' => simp [acquired, hmoves.2 l, ih, @eq_comm _ l l']
    | release l' => simp [acquired, hmoves.2 l, ih, @eq_comm _ l l']
    | wait | signal | broadcast => simpa [acquired, hmoves.2.2 l] using ih
    | setMV | getMV => simpa [acquired, hmoves l] using ih

/-- The request that the process makes in its next step. -/
def asks (s : State) (p : Process) : Option Request :=
  if (s.tasks p).status = .ready then
    match (s.tasks p).program with
    | .call r _ => some r
    | .pure _ => none
  else none

theorem asks_eq_some {r : Request} (h : s.asks p = some r) :
  (s.tasks p).status = .ready ∧ ∃ k, (s.tasks p).program = .call r k
  := by
  rw [asks] at h
  split at h
  · rename_i hready
    split at h
    · rename_i r' k hprogram
      obtain rfl := Option.some.inj h
      exact ⟨hready, k, hprogram⟩
    · cases h
  · cases h

end State

end Nachos.Office
