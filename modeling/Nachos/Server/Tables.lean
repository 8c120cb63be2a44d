import Mathlib.Tactic.Common
import Mathlib.Data.List.Basic
import Mathlib.Data.List.Range

/-!
# The tables of a lock server

The data of `network/nettest.cc`: the tables of locks, condition variables and monitor
variables a server keeps, the replies it has put off, and the requests it has passed on to
other servers, with the operations on them (`CreateLock` to `DestroyMV`).

A response buffer is allocated anew for every request the server receives, so the number of
the request identifies the buffer. `Response` carries that number, and every message carries
the number of the client's request it is sent on account of; the code never reads them. A
deleted object stays in its table, where the pointer to it is left dangling; `deleted` marks
it and its other fields keep their values.
-/

namespace Nachos.Server

/-- The value of the expression `(char)n`. -/
def char (n : Int) : Int8 := Int8.ofInt n

/-- A return address: the machine a request comes from and the mailbox its sender waits on. -/
structure Client where
  machine : ℕ
  mailBox : ℕ
deriving DecidableEq, Repr

/-- A message handed to `PostOffice::Send`. -/
structure Mail where
  /-- The machine and the mailbox it is sent to. -/
  dest : Client
  data : List Int8
  /-- The number of the request of a client the message is sent on account of. -/
  request : ℕ
deriving DecidableEq, Repr

/-- The written part of a response buffer. -/
structure Response where
  /-- The number of the request the buffer was allocated for. -/
  request : ℕ
  data : List Int8
deriving DecidableEq, Repr

/-- A reply that has been put off. -/
structure ReplyMsg where
  idToSendTo : ℕ
  boxToSendTo : ℕ
  msgLength : ℕ
  responseMsg : Response
deriving DecidableEq, Repr

structure ServerLock where
  owner : Int
  id : ℕ
  available : Bool
  ownerMailBoxNum : Int
  waitQueue : List ReplyMsg
  name : List Int8
  numWaiters : ℕ
  toBeDeleted : Bool
  deleted : Bool
deriving DecidableEq, Repr

structure ServerCV where
  serverLockIndex : Int
  id : ℕ
  waitQueue : List ReplyMsg
  name : List Int8
  toBeDeleted : Bool
  numWaiters : ℕ
  deleted : Bool
deriving DecidableEq, Repr

structure ServerMV where
  values : List Int
  id : ℕ
  name : List Int8
  numElements : ℕ
  deleted : Bool
deriving DecidableEq, Repr

/-- A request for a lock the other servers have been asked about. -/
structure PendingRequest where
  noCount : ℕ
  opCode : Int8
  clientID : ℕ
  clientMail : ℕ
  name : List Int8
  /-- The number of the request. -/
  request : ℕ
deriving DecidableEq, Repr

/-- The tables of one server. -/
structure State where
  serverLockTable : List ServerLock
  serverCVTable : List ServerCV
  serverMVTable : List ServerMV
  pendingRequestTable : List PendingRequest
deriving DecidableEq, Repr

/-- The tables when `Server` starts. -/
def State.initial : State := ⟨[], [], [], []⟩

/-- The command line arguments of a server. -/
structure Config where
  serverID : ℕ
  numServers : ℕ

/-! ### Access to the tables -/

namespace State

/-- The lock at `index`, if `index > -1` and `index` is below the size of the table. -/
def lockAt (s : State) (index : Int) : Option ServerLock :=
  if -1 < index then s.serverLockTable[index.toNat]? else none

/-- The condition variable at `index`, if `index` is in the table. -/
def cvAt (s : State) (index : Int) : Option ServerCV :=
  if -1 < index then s.serverCVTable[index.toNat]? else none

/-- The monitor variable at `index`, if `index` is in the table. -/
def mvAt (s : State) (index : Int) : Option ServerMV :=
  if -1 < index then s.serverMVTable[index.toNat]? else none

/-- The lock at `index` overwritten. -/
def setLock (s : State) (index : Int) (lock : ServerLock) : State :=
  { s with serverLockTable := s.serverLockTable.set index.toNat lock }

/-- The condition variable at `index` overwritten. -/
def setCV (s : State) (index : Int) (cv : ServerCV) : State :=
  { s with serverCVTable := s.serverCVTable.set index.toNat cv }

/-- The monitor variable at `index` overwritten. -/
def setMV (s : State) (index : Int) (mv : ServerMV) : State :=
  { s with serverMVTable := s.serverMVTable.set index.toNat mv }

end State

/-! ### Messages -/

/-- The message that sends the one byte `b` back to `c`, in answer to request `n`. -/
def reply (n : ℕ) (c : Client) (b : Int8) : Mail := ⟨c, [b], n⟩

/-- The same message put off. -/
def replyMsg (n : ℕ) (c : Client) (b : Int8) : ReplyMsg := ⟨c.machine, c.mailBox, 1, ⟨n, [b]⟩⟩

/-- The message a `ReplyMsg` is sent as. -/
def ReplyMsg.mail (newMsg : ReplyMsg) : Mail :=
  ⟨⟨newMsg.idToSendTo, newMsg.boxToSendTo⟩, newMsg.responseMsg.data.take newMsg.msgLength,
    newMsg.responseMsg.request⟩

/-- The number of the request a put off reply answers. -/
abbrev ReplyMsg.request (newMsg : ReplyMsg) : ℕ := newMsg.responseMsg.request

/-! ### Locks -/

/-- A byte array up to its first `NUL`. -/
def cstring (name : List Int8) : List Int8 := name.takeWhile (· != 0)

/-- `strcmp(a, b) == 0`. -/
def strcmp (a b : List Int8) : Bool := cstring a == cstring b

/-- A new `ServerLock`. -/
def ServerLock.new (name : List Int8) (id : ℕ) : ServerLock :=
  ⟨-1, id, true, -1, [], name, 0, false, false⟩

/-- `CreateLock`: the new lock and its id. -/
def createLock (cfg : Config) (lockName : List Int8) (s : State) : Int × State :=
  let uniqueID := s.serverLockTable.length + cfg.serverID * 50
  (uniqueID, { s with serverLockTable := s.serverLockTable ++ [ServerLock.new lockName uniqueID] })

/-- The id of the lock called `lockName`, or `-1`. -/
def getLockFromTable (lockName : List Int8) (s : State) : Int :=
  match s.serverLockTable.find? (fun lock => strcmp lockName lock.name) with
  | some lock => lock.id
  | none => -1

def destroyLock (index : Int) (s : State) : State :=
  match s.lockAt index with
  | none => s
  | some toDelete =>
      if toDelete.numWaiters = 0 ∧ toDelete.available then
        s.setLock index { toDelete with deleted := true }
      else s.setLock index { toDelete with toBeDeleted := true }

/-- `Acquire`: `0` when the lock was available and has been taken, `1` when it was not, `-1`
when there is no such lock. -/
def acquire (index : Int) (s : State) : Int × State :=
  match s.lockAt index with
  | some toAcquire =>
      if toAcquire.available then (0, s.setLock index { toAcquire with available := false })
      else (1, s)
  | none => (-1, s)

/-- The branch `numWaiters > 0` of `Release` and of `Wait`: the reply at the head of the queue
is sent, and its addressee becomes the owner. The queue is not empty in that branch. -/
def sendToNewOwner (index : Int) (toRelease : ServerLock) (s : State) : State × List Mail :=
  match toRelease.waitQueue with
  | newMsg :: rest =>
      (s.setLock index { toRelease with
          numWaiters := toRelease.numWaiters - 1, waitQueue := rest,
          owner := newMsg.idToSendTo },
        [newMsg.mail])
  | [] => (s, [])

/-- The last branch of `Release` and of `Wait`: the lock becomes available. -/
def makeAvailable (index : Int) (toRelease : ServerLock) (s : State) : State × List Mail :=
  (s.setLock index { toRelease with owner := -1, available := true }, [])

def release (index : Int) (s : State) : State × List Mail :=
  match s.lockAt index with
  | none => (s, [])
  | some toRelease =>
      if 0 < toRelease.numWaiters then sendToNewOwner index toRelease s
      else if toRelease.toBeDeleted then (s.setLock index { toRelease with deleted := true }, [])
      else makeAvailable index toRelease s

/-! ### Condition variables -/

/-- A new `ServerCV`. -/
def ServerCV.new (name : List Int8) (id : ℕ) : ServerCV := ⟨-1, id, [], name, false, 0, false⟩

/-- `CreateCV`: for a name that is in the table the position, else the id of the new condition
variable. -/
def createCV (cfg : Config) (cvName : List Int8) (s : State) : Int × State :=
  match s.serverCVTable.findIdx? (fun cv => strcmp cvName cv.name) with
  | some i => (i, s)
  | none =>
      let uniqueID := s.serverCVTable.length + cfg.serverID * 50
      (uniqueID, { s with serverCVTable := s.serverCVTable ++ [ServerCV.new cvName uniqueID] })

/-- One waiter of the condition variable moves to the queue of the lock: the body of the loop
of `Broadcast`, which `Signal` executes once. -/
def moveWaiter (condIndex lockIndex : Int) (s : State) : State :=
  match s.cvAt condIndex, s.lockAt lockIndex with
  | some toSignal, some lock =>
      match toSignal.waitQueue with
      | newMsg :: rest =>
          (s.setCV condIndex { toSignal with
              numWaiters := toSignal.numWaiters - 1, waitQueue := rest }).setLock
            lockIndex { lock with
              numWaiters := lock.numWaiters + 1, waitQueue := lock.waitQueue ++ [newMsg] }
      | [] => s
  | _, _ => s

/-- `delete toSignal`. -/
def deleteCV (condIndex : Int) (s : State) : State :=
  match s.cvAt condIndex with
  | some toSignal => s.setCV condIndex { toSignal with deleted := true }
  | none => s

def signal (condIndex lockIndex : Int) (s : State) : State :=
  match s.cvAt condIndex with
  | none => s
  | some toSignal =>
      if toSignal.serverLockIndex = lockIndex then
        if 0 < toSignal.numWaiters then
          if toSignal.numWaiters - 1 = 0 ∧ toSignal.toBeDeleted then
            deleteCV condIndex (moveWaiter condIndex lockIndex s)
          else moveWaiter condIndex lockIndex s
        else if toSignal.toBeDeleted then deleteCV condIndex s
        else s
      else s

/-- The loop of `Broadcast`, which runs once for each of the waiters counted when it starts. -/
def broadcastLoop (condIndex lockIndex : Int) : ℕ → State → State
  | 0, s => s
  | n + 1, s => broadcastLoop condIndex lockIndex n (moveWaiter condIndex lockIndex s)

def broadcast (condIndex lockIndex : Int) (s : State) : State :=
  match s.cvAt condIndex with
  | none => s
  | some toSignal =>
      if toSignal.serverLockIndex = lockIndex then
        if toSignal.toBeDeleted then
          deleteCV condIndex (broadcastLoop condIndex lockIndex toSignal.numWaiters s)
        else broadcastLoop condIndex lockIndex toSignal.numWaiters s
      else s

/-- `Wait`: the condition variable is bound to the lock, and the lock is released. -/
def wait (condIndex lockIndex : Int) (s : State) : State × List Mail :=
  match s.cvAt condIndex with
  | none => (s, [])
  | some cv =>
      let s := s.setCV condIndex { cv with serverLockIndex := lockIndex }
      match s.lockAt lockIndex with
      | none => (s, [])
      | some toRelease =>
          if 0 < toRelease.numWaiters then sendToNewOwner lockIndex toRelease s
          else makeAvailable lockIndex toRelease s

def destroyCV (index : Int) (s : State) : State :=
  match s.cvAt index with
  | none => s
  | some toDelete =>
      if toDelete.numWaiters = 0 then s.setCV index { toDelete with deleted := true }
      else s.setCV index { toDelete with toBeDeleted := true }

/-! ### Monitor variables -/

/-- A new `ServerMV`. -/
def ServerMV.new (size : ℕ) (name : List Int8) (id : ℕ) : ServerMV :=
  ⟨List.replicate size 0, id, name, size, false⟩

/-- `CreateMV`: for a name that is in the table the position, else the id of the new monitor
variable. -/
def createMV (cfg : Config) (mvName : List Int8) (numElements : ℕ) (s : State) : Int × State :=
  match s.serverMVTable.findIdx? (fun mv => strcmp mvName mv.name) with
  | some i => (i, s)
  | none =>
      let uniqueID := s.serverMVTable.length + cfg.serverID * 50
      (uniqueID, { s with
        serverMVTable := s.serverMVTable ++ [ServerMV.new numElements mvName uniqueID] })

def setMV (index arrayIndex value : Int) (s : State) : State :=
  match s.mvAt index with
  | some mv =>
      if -1 < arrayIndex ∧ arrayIndex < mv.numElements then
        s.setMV index { mv with values := mv.values.set arrayIndex.toNat value }
      else s
  | none => s

def getMV (index arrayIndex : Int) (s : State) : Int :=
  match s.mvAt index with
  | some mv =>
      if -1 < arrayIndex ∧ arrayIndex < mv.numElements then mv.values.getD arrayIndex.toNat 0
      else -1
  | none => -1

def destroyMV (index : Int) (s : State) : State :=
  match s.mvAt index with
  | some mv => s.setMV index { mv with deleted := true }
  | none => s

end Nachos.Server
