import Mathlib.Logic.Function.Basic
import Nachos.Library.Run

/-!
# Monitors of the kernel

The locks and the condition variables of the kernel (`threads/synch.cc`), `Thread::Yield` and
`Thread::Sleep` (`threads/thread.cc`) and the ready list (`threads/scheduler.cc`). Threads, locks
and condition variables are numbered.

Interrupts are disabled inside the operations, so that a switch happens only where a thread sleeps,
where it yields, or where interrupts are enabled again, at the end of an operation and in the loop
of `Broadcast`. Where a thread is in the code is its `Pc`. The history is not part of the code.
-/

namespace Nachos.Monitor

inductive LockState where
  | free
  | busy
deriving DecidableEq

structure Lock where
  state : LockState
  owner : Option ℕ
  waitQueue : List ℕ

structure Condition where
  waitingLock : Option ℕ
  waitQueue : List ℕ

/-- Where a thread is. -/
inductive Pc where
  /-- In none of the operations. -/
  | outside
  /-- At the end of an operation, where interrupts are enabled. If the operation is `Acquire`, or a
  `Wait` in which the thread has slept, it also says for which lock. -/
  | leaving (lock : Option ℕ)
  /-- At the `Sleep` in `Acquire`, which may have been called in `Wait`. -/
  | inAcquire (lock : ℕ)
  /-- At the `Sleep` in `Wait`. -/
  | inWait (condition lock : ℕ)
  /-- In the loop of `Broadcast`. -/
  | inBroadcast (condition lock : ℕ)
deriving DecidableEq

/-- What happens to threads. -/
inductive Event where
  /-- The thread returns from `Acquire`, or from a `Wait` in which it has slept. -/
  | returned (thread lock : ℕ)
  /-- The thread calls `Release`, or a `Wait` in which it is going to sleep. -/
  | gaveUp (thread lock : ℕ)
  /-- The thread is put into the queue of a lock. -/
  | blocked (thread lock : ℕ)
  /-- The thread is taken out of the queue of a lock, and owns it. -/
  | obtained (thread lock : ℕ)
  /-- The thread is put into the queue of a condition variable. -/
  | waited (thread condition : ℕ)
  /-- The thread is taken out of the queue of a condition variable. -/
  | woken (thread condition : ℕ)
deriving DecidableEq

structure Kernel where
  currentThread : Option ℕ
  readyList : List ℕ
  locks : ℕ → Lock
  conditions : ℕ → Condition
  pc : ℕ → Pc
  history : List Event

namespace Kernel

def setLock (L : ℕ) (l : Lock) (k : Kernel) : Kernel :=
  { k with locks := Function.update k.locks L l }

def setCondition (c : ℕ) (v : Condition) (k : Kernel) : Kernel :=
  { k with conditions := Function.update k.conditions c v }

def setPc (t : ℕ) (pc : Pc) (k : Kernel) : Kernel := { k with pc := Function.update k.pc t pc }

def record (e : Event) (k : Kernel) : Kernel := { k with history := k.history ++ [e] }

/-! ### Threads -/

def readyToRun (t : ℕ) (k : Kernel) : Kernel := { k with readyList := k.readyList ++ [t] }

/-- `Sleep`. If no thread is ready then none is running. -/
def sleep (k : Kernel) : Kernel :=
  match k.readyList with
  | [] => { k with currentThread := none }
  | nextThread :: readyList => { k with currentThread := some nextThread, readyList := readyList }

/-- `Yield` of the thread `t`. -/
def yield (t : ℕ) (k : Kernel) : Kernel :=
  match k.readyList with
  | [] => k
  | nextThread :: readyList =>
      { k with currentThread := some nextThread, readyList := readyList ++ [t] }

/-! ### Locks -/

/-- `Acquire` of the thread `t`, which may have been called in `Wait`. -/
def acquire (t L : ℕ) (k : Kernel) : Kernel :=
  if (k.locks L).owner = some t then k.setPc t (.leaving (some L))
  else if (k.locks L).state = .free then
    (k.setLock L { k.locks L with state := .busy, owner := some t }).setPc t (.leaving (some L))
  else
    (((k.setLock L { k.locks L with waitQueue := (k.locks L).waitQueue ++ [t] }).record
      (.blocked t L)).setPc t (.inAcquire L)).sleep

/-- `Release` of the thread `t`, which may have been called in `Wait`. -/
def release (t L : ℕ) (k : Kernel) : Kernel :=
  if (k.locks L).owner = some t then
    match (k.locks L).waitQueue with
    | newOwner :: waitQueue =>
        ((k.setLock L { k.locks L with owner := some newOwner, waitQueue := waitQueue }).record
          (.obtained newOwner L)).readyToRun newOwner
    | [] => k.setLock L { k.locks L with state := .free, owner := none }
  else k

/-! ### Condition variables -/

/-- `Wait` of the thread `t`, up to its `Sleep`. -/
def wait (t c : ℕ) (conditionLock : Option ℕ) (k : Kernel) : Kernel :=
  match conditionLock with
  | none => k.setPc t (.leaving none)
  | some L =>
      if (k.conditions c).waitingLock = none ∨ (k.conditions c).waitingLock = some L then
        (((((k.setCondition c ⟨some L, (k.conditions c).waitQueue ++ [t]⟩).record
          (.waited t c)).setPc t (.inWait c L)).record (.gaveUp t L)).release t L).sleep
      else k.setPc t (.leaving none)

/-- `Signal`. -/
def signal (c : ℕ) (conditionLock : Option ℕ) (k : Kernel) : Kernel :=
  match conditionLock, (k.conditions c).waitQueue with
  | some L, threadToWake :: waitQueue =>
      if (k.conditions c).waitingLock = some L then
        ((k.setCondition c ⟨if waitQueue = [] then none else some L, waitQueue⟩).record
          (.woken threadToWake c)).readyToRun threadToWake
      else k
  | _, _ => k

/-- `Broadcast` of the thread `t`, up to its loop. -/
def broadcast (t c : ℕ) (conditionLock : Option ℕ) (k : Kernel) : Kernel :=
  match conditionLock with
  | none => k.setPc t (.leaving none)
  | some L =>
      if (k.conditions c).waitingLock = some L then k.setPc t (.inBroadcast c L)
      else k.setPc t (.leaving none)

/-- One iteration of the loop of `Broadcast`. -/
def broadcastLoop (t c L : ℕ) (k : Kernel) : Kernel :=
  if (k.conditions c).waitQueue = [] then k.setPc t .outside else k.signal c (some L)

/-- The thread `t` returns from an operation. -/
def leave (t : ℕ) (lock : Option ℕ) (k : Kernel) : Kernel :=
  match lock with
  | some L => (k.record (.returned t L)).setPc t .outside
  | none => k.setPc t .outside

/-! ### Runs -/

/-- What the running thread can do. -/
inductive Action where
  | acquire (lock : ℕ)
  | release (lock : ℕ)
  | wait (condition : ℕ) (conditionLock : Option ℕ)
  | signal (condition : ℕ) (conditionLock : Option ℕ)
  | broadcast (condition : ℕ) (conditionLock : Option ℕ)
  | yield
  /-- There is an interrupt, and the thread yields. -/
  | preempt
  /-- The thread goes on in an operation. -/
  | proceed
deriving DecidableEq

/-- The running thread `t` calls an operation. -/
def call (t : ℕ) (k : Kernel) : Action → Option Kernel
  | .acquire L => some (k.acquire t L)
  | .release L => some (((k.record (.gaveUp t L)).release t L).setPc t (.leaving none))
  | .wait c L => some (k.wait t c L)
  | .signal c L => some ((k.signal c L).setPc t (.leaving none))
  | .broadcast c L => some (k.broadcast t c L)
  | .yield => some ((k.setPc t (.leaving none)).yield t)
  | .preempt => none
  | .proceed => none

/-- One action of the running thread. -/
def step (k : Kernel) (a : Action) : Option Kernel := do
  let t ← k.currentThread
  match k.pc t, a with
  | .outside, a => k.call t a
  | .leaving _, .preempt => some (k.yield t)
  | .leaving lock, .proceed => some (k.leave t lock)
  | .inAcquire L, .proceed => some (k.setPc t (.leaving (some L)))
  | .inWait _ L, .proceed => some (k.acquire t L)
  | .inBroadcast _ _, .preempt => some (k.yield t)
  | .inBroadcast c L, .proceed => some (k.broadcastLoop t c L)
  | _, _ => none

/-- The thread `t` is running and the threads `ts` are ready. -/
def initial (t : ℕ) (ts : List ℕ) : Kernel where
  currentThread := some t
  readyList := ts
  locks _ := ⟨.free, none, []⟩
  conditions _ := ⟨none, []⟩
  pc _ := .outside
  history := []

end Kernel

end Nachos.Monitor
