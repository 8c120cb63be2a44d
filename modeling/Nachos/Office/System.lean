import Nachos.Library.Run
import Nachos.Office.Programs

/-!
# The passport office at work

The processes run in any order. A request is served as soon as it is made: `serve` is what the loop
of `Server` does with it, with the replies that it keeps back. A process that has to wait goes on when
the reply has been sent.
-/

namespace Nachos.Office

/-- Where the reply to the last request of a process is: it has been sent, or it is in the
`waitQueue` of a lock or of a condition variable. -/
inductive Status where
  | ready
  | atLock (lock : LockName)
  | atCondition (condition : ConditionName)
deriving DecidableEq

structure Task where
  /-- What the process does next. -/
  program : Program Label
  status : Status
  /-- Whether it was a `Signal` that took its last reply from a condition variable. -/
  signalled : Bool
  /-- The requests it has made and the replies to them, the last one first. -/
  history : List (Request × ℤ)

/-- A `ServerLock`. It is available when it has no owner. -/
structure Lock where
  owner : Option Process
  waitQueue : List Process

/-- A `ServerCV`, whose `lock` is not known before the first `Wait`. -/
structure Condition where
  lock : Option LockName
  waitQueue : List Process

structure State where
  locks : LockName → Lock
  conditions : ConditionName → Condition
  values : Variable → ℤ → ℤ
  tasks : Process → Task

namespace State

/-! ### The server -/

def setLock (l : LockName) (lock : Lock) (s : State) : State :=
  { s with locks := fun l' => if l' = l then lock else s.locks l' }

def setCondition (c : ConditionName) (cv : Condition) (s : State) : State :=
  { s with conditions := fun c' => if c' = c then cv else s.conditions c' }

def setTask (p : Process) (t : Task) (s : State) : State :=
  { s with tasks := fun p' => if p' = p then t else s.tasks p' }

/-- The reply of a process is moved. -/
def setStatus (p : Process) (status : Status) (s : State) : State :=
  s.setTask p { s.tasks p with status := status }

section

variable (s : State) (l m : LockName) (c d : ConditionName) (p q : Process)

@[simp, grind =]
theorem locks_setLock (lock : Lock) :
  (s.setLock l lock).locks m = if m = l then lock else s.locks m
  := rfl

@[simp, grind =]
theorem conditions_setLock (lock : Lock) :
  (s.setLock l lock).conditions c = s.conditions c
  := rfl

@[simp, grind =]
theorem tasks_setLock (lock : Lock) :
  (s.setLock l lock).tasks p = s.tasks p
  := rfl

@[simp, grind =]
theorem locks_setCondition (cv : Condition) :
  (s.setCondition c cv).locks l = s.locks l
  := rfl

@[simp, grind =]
theorem conditions_setCondition (cv : Condition) :
  (s.setCondition c cv).conditions d = if d = c then cv else s.conditions d
  := rfl

@[simp, grind =]
theorem tasks_setCondition (cv : Condition) :
  (s.setCondition c cv).tasks p = s.tasks p
  := rfl

@[simp, grind =]
theorem locks_setTask (t : Task) :
  (s.setTask p t).locks l = s.locks l
  := rfl

@[simp, grind =]
theorem conditions_setTask (t : Task) :
  (s.setTask p t).conditions c = s.conditions c
  := rfl

@[simp, grind =]
theorem tasks_setTask (t : Task) :
  (s.setTask p t).tasks q = if q = p then t else s.tasks q
  := rfl

@[simp, grind =]
theorem locks_setStatus (status : Status) :
  (s.setStatus p status).locks l = s.locks l
  := rfl

@[simp, grind =]
theorem conditions_setStatus (status : Status) :
  (s.setStatus p status).conditions c = s.conditions c
  := rfl

@[simp, grind =]
theorem tasks_setStatus (status : Status) :
  (s.setStatus p status).tasks q = if q = p then { s.tasks p with status := status } else s.tasks q
  := rfl

end

/-- The lock goes to the first one in its queue. -/
def passOn (l : LockName) (s : State) : State :=
  match (s.locks l).waitQueue with
  | q :: qs => (s.setLock l ⟨some q, qs⟩).setStatus q .ready
  | [] => s.setLock l ⟨none, []⟩

/-- The first reply is moved from the queue of a condition variable to that of the lock. -/
def moveWaiter (c : ConditionName) (l : LockName) (signalled : Bool) (s : State) : State :=
  match (s.conditions c).waitQueue with
  | q :: qs =>
      ((s.setCondition c { s.conditions c with waitQueue := qs }).setLock l
        { s.locks l with waitQueue := (s.locks l).waitQueue ++ [q] }).setTask q
          { s.tasks q with status := .atLock l, signalled := signalled }
  | [] => s

/-- All replies are moved, one after the other. -/
def moveWaiters (c : ConditionName) (l : LockName) : ℕ → State → State
  | 0, s => s
  | n + 1, s => moveWaiters c l n (s.moveWaiter c l false)

/-- The elements of the request are sent as characters. -/
def char (n : ℤ) : ℤ := n.bmod 256

/-- Whether there is an element of a monitor variable at a position. -/
def inRange (mv : Variable) (position : ℤ) : Bool :=
  -1 < char position && char position < numElements mv

variable (machine : Process → ℕ)

/-- Only the machine of the owner of a lock is known. -/
def isOwner (p : Process) (l : LockName) (s : State) : Bool :=
  (s.locks l).owner.map machine == some (machine p)

/-- A request of the process `p` is served. The reply is returned. -/
def serve (p : Process) : Request → State → ℤ × State
  | .acquire l, s =>
      if (s.locks l).owner = none then
        (0, s.setLock l { s.locks l with owner := some p })
      else
        (0, (s.setLock l { s.locks l with waitQueue := (s.locks l).waitQueue ++ [p] }).setStatus p
          (.atLock l))
  | .release l, s => (0, if s.isOwner machine p l then s.passOn l else s)
  | .wait c l, s =>
      if s.isOwner machine p l ∧ ((s.conditions c).lock = some l ∨ (s.conditions c).lock = none) then
        (0, ((s.passOn l).setCondition c ⟨some l, (s.conditions c).waitQueue ++ [p]⟩).setStatus p
          (.atCondition c))
      else (0, s)
  | .signal c l, s =>
      (0, if s.isOwner machine p l ∧ (s.conditions c).lock = some l then s.moveWaiter c l true else s)
  | .broadcast c l, s =>
      (0, if s.isOwner machine p l ∧ (s.conditions c).lock = some l then
          s.moveWaiters c l (s.conditions c).waitQueue.length
        else s)
  | .setMV mv position value, s =>
      (0, if inRange mv position then
          { s with values := fun mv' position' =>
              if mv' = mv ∧ position' = char position then char value else s.values mv' position' }
        else s)
  | .getMV mv position, s => (if inRange mv position then s.values mv (char position) else -1, s)

/-! ### Runs -/

/-- The process `p` makes the request `r` and goes on with `k`. -/
def ask (p : Process) (r : Request) (k : ℤ → Program Label) (s : State) : State :=
  let (v, s') := s.serve machine p r
  s'.setTask p { s'.tasks p with program := k v, history := (r, v) :: (s.tasks p).history }

/-- A step of the process `p`, which is not possible while it waits for a reply. -/
def step (s : State) (p : Process) : Option State :=
  if (s.tasks p).status = .ready then
    match (s.tasks p).program with
    | .pure l => some (s.setTask p { s.tasks p with program := code l })
    | .call r k => some (s.ask machine p r k)
  else none

/-- Whether a process is one of those that `Setup` makes room for. -/
def fits : Process → Bool
  | .customer n => n < NUM_CUSTOMERS
  | .senator n => n < NUM_SENATORS
  | .clerk K n => n < numClerks K
  | .manager => true

/-- The processes that are selected have been started. -/
def initial (started : Process → Bool) : State where
  locks _ := ⟨none, []⟩
  conditions _ := ⟨none, []⟩
  values _ _ := 0
  tasks p := ⟨if started p && fits p then main p else return .exit, .ready, false, []⟩

end State

end Nachos.Office
