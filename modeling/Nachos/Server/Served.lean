import Nachos.Server.Loop
import Nachos.Library.Queues

/-!
# What an iteration of the server does

Where no object is ever destroyed and there is one server, an iteration of the loop does one of
few things to the tables of locks and condition variables: it leaves them as they are, adds an
entry, lets a client take or queue for a lock, hands a lock over, moves waiters from a condition
variable to a lock, or makes the owner of a lock wait. `Served` lists them, and `serve_served`
says that there are no others, in states whose counters agree with their queues (`State.Ok`).
-/

namespace Nachos.Server

/-! ### Access to updated tables -/

namespace State

@[simp]
theorem cvAt_setLock (s : State) (i j : Int) (lock : ServerLock) :
  (s.setLock i lock).cvAt j = s.cvAt j
  := rfl

@[simp]
theorem lockAt_setCV (s : State) (i j : Int) (cv : ServerCV) :
  (s.setCV i cv).lockAt j = s.lockAt j
  := rfl

/-- A position at which there is an entry is not negative. -/
theorem getElem?_of_lockAt {s : State} {i : Int} {lock : ServerLock}
    (h : s.lockAt i = some lock) :
  -1 < i ∧ s.serverLockTable[i.toNat]? = some lock
  := by
  simpa [lockAt] using h

theorem getElem?_of_cvAt {s : State} {i : Int} {cv : ServerCV} (h : s.cvAt i = some cv) :
  -1 < i ∧ s.serverCVTable[i.toNat]? = some cv
  := by
  simpa [cvAt] using h

/-- Entry `j` of a table whose entry `i` has been overwritten. -/
theorem getElem?_set_toNat {ε : Type*} {l : List ε} {x y : ε} {i j : Int} (hi : -1 < i)
    (hj : -1 < j) (h : l[i.toNat]? = some x) :
  (l.set i.toNat y)[j.toNat]? = if j = i then some y else l[j.toNat]?
  := by
  obtain ⟨hlt, -⟩ := List.getElem?_eq_some_iff.mp h
  by_cases hji : j = i
  · subst hji
    simp [hlt]
  · have hne : i.toNat ≠ j.toNat := by omega
    simp [hji, List.getElem?_set_ne hne]

theorem lockAt_setLock {s : State} {i : Int} {lock : ServerLock} (h : s.lockAt i = some lock)
    (lock' : ServerLock) (j : Int) :
  (s.setLock i lock').lockAt j = if j = i then some lock' else s.lockAt j
  := by
  obtain ⟨hi, h⟩ := getElem?_of_lockAt h
  by_cases hj : -1 < j
  · simp only [lockAt, setLock, hj, if_true]
    apply getElem?_set_toNat hi hj h
  · have hji : j ≠ i := by omega
    simp [lockAt, hj, hji]

theorem cvAt_setCV {s : State} {i : Int} {cv : ServerCV} (h : s.cvAt i = some cv)
    (cv' : ServerCV) (j : Int) :
  (s.setCV i cv').cvAt j = if j = i then some cv' else s.cvAt j
  := by
  obtain ⟨hi, h⟩ := getElem?_of_cvAt h
  by_cases hj : -1 < j
  · simp only [cvAt, setCV, hj, if_true]
    apply getElem?_set_toNat hi hj h
  · have hji : j ≠ i := by omega
    simp [cvAt, hj, hji]

/-- Overwriting an entry with itself changes nothing. -/
theorem setLock_self {s : State} {i : Int} {lock : ServerLock} (h : s.lockAt i = some lock) :
  s.setLock i lock = s
  := by
  obtain ⟨-, h⟩ := getElem?_of_lockAt h
  obtain ⟨hlt, rfl⟩ := List.getElem?_eq_some_iff.mp h
  simp [setLock]

theorem setCV_self {s : State} {i : Int} {cv : ServerCV} (h : s.cvAt i = some cv) :
  s.setCV i cv = s
  := by
  obtain ⟨-, h⟩ := getElem?_of_cvAt h
  obtain ⟨hlt, rfl⟩ := List.getElem?_eq_some_iff.mp h
  simp [setCV]

@[simp]
theorem setLock_setLock (s : State) (i : Int) (lock lock' : ServerLock) :
  (s.setLock i lock).setLock i lock' = s.setLock i lock'
  := by
  simp [setLock]

@[simp]
theorem setCV_setCV (s : State) (i : Int) (cv cv' : ServerCV) :
  (s.setCV i cv).setCV i cv' = s.setCV i cv'
  := by
  simp [setCV]

theorem setLock_setCV (s : State) (i j : Int) (lock : ServerLock) (cv : ServerCV) :
  (s.setLock i lock).setCV j cv = (s.setCV j cv).setLock i lock
  := rfl

end State

/-! ### Well-formed tables -/

/-- The fields of a lock agree, whether or not it is to be deleted. -/
structure ServerLock.Agree (lock : ServerLock) : Prop where
  numWaiters_eq : lock.numWaiters = lock.waitQueue.length
  owner_ge : -1 ≤ lock.owner
  available_iff : lock.available = true ↔ lock.owner = -1
  unavailable : lock.waitQueue ≠ [] → lock.available = false

/-- The fields of a condition variable agree. -/
structure ServerCV.Agree (cv : ServerCV) : Prop where
  numWaiters_eq : cv.numWaiters = cv.waitQueue.length
  bound : cv.waitQueue ≠ [] → cv.serverLockIndex ≠ -1

/-- The fields of a lock agree: the counter with the queue, `available` with `owner`, and only a
lock that is not available has a queue. Nobody has tried to destroy it. -/
structure ServerLock.Ok (lock : ServerLock) : Prop where
  numWaiters_eq : lock.numWaiters = lock.waitQueue.length
  owner_ge : -1 ≤ lock.owner
  available_iff : lock.available = true ↔ lock.owner = -1
  unavailable : lock.waitQueue ≠ [] → lock.available = false
  live : lock.toBeDeleted = false ∧ lock.deleted = false

/-- The counter of a condition variable agrees with its queue, and only one that is bound to a
lock has a queue. Nobody has tried to destroy it. -/
structure ServerCV.Ok (cv : ServerCV) : Prop where
  numWaiters_eq : cv.numWaiters = cv.waitQueue.length
  bound : cv.waitQueue ≠ [] → cv.serverLockIndex ≠ -1
  live : cv.toBeDeleted = false ∧ cv.deleted = false

theorem ServerLock.Ok.agree {lock : ServerLock} (h : lock.Ok) :
  lock.Agree
  := ⟨h.numWaiters_eq, h.owner_ge, h.available_iff, h.unavailable⟩

theorem ServerLock.Agree.ok {lock : ServerLock} (h : lock.Agree)
    (hlive : lock.toBeDeleted = false ∧ lock.deleted = false) :
  lock.Ok
  := ⟨h.numWaiters_eq, h.owner_ge, h.available_iff, h.unavailable, hlive⟩

theorem ServerCV.Ok.agree {cv : ServerCV} (h : cv.Ok) :
  cv.Agree
  := ⟨h.numWaiters_eq, h.bound⟩

theorem ServerCV.Agree.ok {cv : ServerCV} (h : cv.Agree)
    (hlive : cv.toBeDeleted = false ∧ cv.deleted = false) :
  cv.Ok
  := ⟨h.numWaiters_eq, h.bound, hlive⟩

/-- The lock a client owns is not available. -/
theorem ServerLock.Agree.not_available {lock : ServerLock} {c : Client} (h : lock.Agree)
    (howner : lock.owner = c.machine) :
  lock.available = false
  := by
  rw [← Bool.not_eq_true, h.available_iff]
  omega

/-- A lock that is available is taken. -/
theorem ServerLock.Agree.take {lock : ServerLock} (h : lock.Agree) (m : ℕ)
    (hav : lock.available = true) :
  ServerLock.Agree { lock with available := false, owner := m }
  := by
  have hnil : lock.waitQueue = [] := by
    by_contra hne
    simp [h.unavailable hne] at hav
  constructor
  · apply h.numWaiters_eq
  · simp only
    omega
  · simp only [Bool.false_eq_true, false_iff]
    omega
  · simp

/-- Every lock and every condition variable is well formed. -/
structure State.Ok (s : State) : Prop where
  lock : ∀ {i : Int} {lock : ServerLock}, s.lockAt i = some lock → lock.Ok
  cv : ∀ {i : Int} {cv : ServerCV}, s.cvAt i = some cv → cv.Ok

/-- The tables are well formed when the server starts. -/
theorem State.ok_initial :
  State.initial.Ok
  := by
  constructor
  · intro i lock h
    simp [lockAt, initial] at h
  · intro i cv h
    simp [cvAt, initial] at h

/-! ### Handing a lock over -/

/-- A lock after `Release`: its owner is the head of its queue, or it is available. -/
def ServerLock.handOver (lock : ServerLock) : ServerLock :=
  match lock.waitQueue with
  | newMsg :: rest =>
      { lock with
        numWaiters := lock.numWaiters - 1, waitQueue := rest, owner := newMsg.idToSendTo }
  | [] => { lock with owner := -1, available := true }

/-- The reply that hands the lock over, if somebody waits for it. -/
def ServerLock.grant (lock : ServerLock) : List Mail := lock.waitQueue.head?.toList.map (·.mail)

theorem ServerLock.Agree.handOver {lock : ServerLock} (h : lock.Agree) :
  lock.handOver.Agree
  := by
  obtain ⟨hnum, hge, hav, hun⟩ := h
  unfold ServerLock.handOver
  cases hq : lock.waitQueue with
  | nil => constructor <;> simp [hnum, hq]
  | cons newMsg rest =>
      have hne : lock.available = false := hun (by simp [hq])
      constructor
      · simp [hnum, hq]
      · simp only
        omega
      · simp only [hne, Bool.false_eq_true, false_iff]
        omega
      · intro _
        apply hne

theorem ServerLock.handOver_live (lock : ServerLock) :
  lock.handOver.toBeDeleted = lock.toBeDeleted ∧ lock.handOver.deleted = lock.deleted
  := by
  unfold handOver
  split <;> exact ⟨rfl, rfl⟩

/-- `Release` hands the lock over, or deletes it. -/
theorem release_cases {s : State} {i : Int} {lock : ServerLock} (hi : s.lockAt i = some lock)
    (hok : lock.Agree) :
  lock.waitQueue = [] ∧ lock.toBeDeleted = true ∧
      release i s = (s.setLock i { lock with deleted := true }, []) ∨
    release i s = (s.setLock i lock.handOver, lock.grant)
  := by
  rw [release, hi]
  cases hq : lock.waitQueue with
  | nil =>
      cases hdel : lock.toBeDeleted with
      | false =>
          right
          simp [hok.numWaiters_eq, hq, hdel, makeAvailable, ServerLock.handOver, ServerLock.grant]
      | true =>
          left
          simp [hok.numWaiters_eq, hq, hdel]
  | cons newMsg rest =>
      right
      simp [hok.numWaiters_eq, hq, sendToNewOwner, ServerLock.handOver, ServerLock.grant]

/-- `Release` hands the lock over, if nobody has tried to destroy it. -/
theorem release_eq {s : State} {i : Int} {lock : ServerLock} (hi : s.lockAt i = some lock)
    (hok : lock.Ok) :
  release i s = (s.setLock i lock.handOver, lock.grant)
  := by
  apply (release_cases hi hok.agree).resolve_left
  simp [hok.live.1]

/-- `Wait` binds the condition variable and hands the lock over. -/
theorem wait_eq {s : State} {j i : Int} {cv : ServerCV} {lock : ServerLock}
    (hj : s.cvAt j = some cv) (hi : s.lockAt i = some lock) (hok : lock.Agree) :
  wait j i s =
    ((s.setCV j { cv with serverLockIndex := i }).setLock i lock.handOver, lock.grant)
  := by
  rw [wait, hj]
  simp only [State.lockAt_setCV, hi]
  cases hq : lock.waitQueue with
  | nil => simp [hok.numWaiters_eq, hq, makeAvailable, ServerLock.handOver, ServerLock.grant]
  | cons newMsg rest =>
      simp [hok.numWaiters_eq, hq, sendToNewOwner, ServerLock.handOver, ServerLock.grant]

/-! ### Moving waiters -/

/-- A lock after `replies` have been put at the end of its queue. -/
def ServerLock.append (lock : ServerLock) (replies : List ReplyMsg) : ServerLock :=
  { lock with
    numWaiters := lock.numWaiters + replies.length, waitQueue := lock.waitQueue ++ replies }

/-- A condition variable without its `k` first waiters. -/
def ServerCV.wake (cv : ServerCV) (k : ℕ) : ServerCV :=
  { cv with numWaiters := cv.numWaiters - k, waitQueue := cv.waitQueue.drop k }

/-- A condition variable bound to lock `i` with one more waiter. -/
def ServerCV.park (cv : ServerCV) (i : Int) (reply : ReplyMsg) : ServerCV :=
  { cv with
    serverLockIndex := i, numWaiters := cv.numWaiters + 1, waitQueue := cv.waitQueue ++ [reply] }

/-- The tables after the `k` first waiters of condition variable `j` have been moved to the queue
of lock `i`. -/
def State.moved (s : State) (j i : Int) (cv : ServerCV) (lock : ServerLock) (k : ℕ) : State :=
  (s.setCV j (cv.wake k)).setLock i (lock.append (cv.waitQueue.take k))

theorem ServerLock.Agree.append {lock : ServerLock} (h : lock.Agree) (hne : lock.available = false)
    (replies : List ReplyMsg) :
  (lock.append replies).Agree
  := by
  constructor
  · simp [ServerLock.append, h.numWaiters_eq]
  · apply h.owner_ge
  · apply h.available_iff
  · intro _
    apply hne

theorem ServerCV.Agree.wake {cv : ServerCV} (h : cv.Agree) (k : ℕ) :
  (cv.wake k).Agree
  := by
  constructor
  · simp [ServerCV.wake, h.numWaiters_eq]
  · intro hne
    apply h.bound
    intro hnil
    simp [ServerCV.wake, hnil] at hne

theorem ServerCV.Agree.park {cv : ServerCV} (h : cv.Agree) {i : Int} (hi : -1 < i)
    (reply : ReplyMsg) :
  (cv.park i reply).Agree
  := by
  constructor
  · simp [ServerCV.park, h.numWaiters_eq]
  · intro _
    simp only [ServerCV.park]
    omega

/-- Moving no waiter changes nothing. -/
theorem State.moved_zero {s : State} {j i : Int} {cv : ServerCV} {lock : ServerLock}
    (hj : s.cvAt j = some cv) (hi : s.lockAt i = some lock) :
  s.moved j i cv lock 0 = s
  := by
  have hcv : cv.wake 0 = cv := by simp [ServerCV.wake]
  have hlock : lock.append [] = lock := by simp [ServerLock.append]
  rw [moved, List.take_zero, hcv, hlock, setCV_self hj, setLock_self hi]

/-- After `k` waiters have been moved, one more move is the move of `k + 1` waiters. -/
theorem moveWaiter_moved {s : State} {j i : Int} {cv : ServerCV} {lock : ServerLock} {k : ℕ}
    (hj : s.cvAt j = some cv) (hi : s.lockAt i = some lock) (hk : k < cv.waitQueue.length) :
  moveWaiter j i (s.moved j i cv lock k) = s.moved j i cv lock (k + 1)
  := by
  have hi' : (s.setCV j (cv.wake k)).lockAt i = some lock := hi
  have hj' : (s.moved j i cv lock k).cvAt j = some (cv.wake k) := by
    simp [State.moved, State.cvAt_setCV hj]
  have hl' : (s.moved j i cv lock k).lockAt i = some (lock.append (cv.waitQueue.take k)) := by
    simp [State.moved, State.lockAt_setLock hi']
  rw [moveWaiter, hj', hl']
  simp only [ServerCV.wake, List.drop_eq_getElem_cons hk, State.moved, State.setLock_setCV,
    State.setCV_setCV, State.setLock_setLock]
  congr 1
  simp only [ServerLock.append, List.take_succ_eq_append_getElem hk, List.append_assoc,
    List.length_append, List.length_singleton, Nat.add_assoc]

/-- The loop of `Broadcast` moves as many waiters as it has iterations. -/
theorem broadcastLoop_moved {s : State} {j i : Int} {cv : ServerCV} {lock : ServerLock}
    (hj : s.cvAt j = some cv) (hi : s.lockAt i = some lock) :
  ∀ (n k : ℕ), k + n ≤ cv.waitQueue.length →
    broadcastLoop j i n (s.moved j i cv lock k) = s.moved j i cv lock (k + n)
  | 0, k, _ => rfl
  | n + 1, k, h => by
      rw [broadcastLoop, moveWaiter_moved hj hi (by omega),
        broadcastLoop_moved hj hi n (k + 1) (by omega)]
      congr 1
      omega

/-- The condition variable whose waiters have been moved is deleted. -/
theorem deleteCV_moved {s : State} {j : Int} {cv : ServerCV} (hj : s.cvAt j = some cv) (i : Int)
    (lock : ServerLock) (k : ℕ) :
  deleteCV j (s.moved j i cv lock k) =
    (s.moved j i cv lock k).setCV j { cv.wake k with deleted := true }
  := by
  have hj' : (s.moved j i cv lock k).cvAt j = some (cv.wake k) := by
    simp [State.moved, State.cvAt_setCV hj]
  rw [deleteCV, hj']

/-- `Signal` moves the first waiter, and deletes a condition variable that has no other. -/
theorem signal_cases {s : State} {j i : Int} {cv : ServerCV} {lock : ServerLock}
    (hj : s.cvAt j = some cv) (hi : s.lockAt i = some lock) (hok : cv.Agree)
    (hbound : cv.serverLockIndex = i) :
  signal j i s = s.moved j i cv lock (min 1 cv.waitQueue.length) ∨
    cv.toBeDeleted = true ∧ signal j i s = (s.moved j i cv lock cv.waitQueue.length).setCV j
      { cv.wake cv.waitQueue.length with deleted := true }
  := by
  rw [signal, hj]
  simp only [hbound, if_true, hok.numWaiters_eq]
  cases hq : cv.waitQueue with
  | nil =>
      have hzero := State.moved_zero hj hi
      cases hdel : cv.toBeDeleted with
      | false =>
          left
          simp [hzero]
      | true =>
          right
          have hdelete := deleteCV_moved hj i lock 0
          rw [hzero] at hdelete
          simp [hdelete, hzero]
  | cons newMsg rest =>
      have hmove := moveWaiter_moved hj hi (k := 0) (by simp [hq])
      rw [State.moved_zero hj hi] at hmove
      by_cases hlast : rest = [] ∧ cv.toBeDeleted = true
      · right
        have hdelete := deleteCV_moved hj i lock 1
        simp [hmove, hlast, hdelete]
      · left
        have hnot : ¬ (rest.length = 0 ∧ cv.toBeDeleted = true) := by
          simpa using hlast
        simp [hmove]
        intro hrest hdel
        simp [hrest, hdel] at hlast

/-- `Broadcast` moves all waiters, and may delete the condition variable. -/
theorem broadcast_cases {s : State} {j i : Int} {cv : ServerCV} {lock : ServerLock}
    (hj : s.cvAt j = some cv) (hi : s.lockAt i = some lock) (hok : cv.Agree)
    (hbound : cv.serverLockIndex = i) :
  broadcast j i s = s.moved j i cv lock cv.waitQueue.length ∨
    cv.toBeDeleted = true ∧ broadcast j i s = (s.moved j i cv lock cv.waitQueue.length).setCV j
      { cv.wake cv.waitQueue.length with deleted := true }
  := by
  have hloop := broadcastLoop_moved hj hi cv.waitQueue.length 0 (by omega)
  rw [State.moved_zero hj hi, Nat.zero_add] at hloop
  rw [broadcast, hj]
  simp only [hbound, if_true, hok.numWaiters_eq, hloop]
  split
  · rename_i hdel
    right
    exact ⟨hdel, deleteCV_moved hj i lock _⟩
  · left
    rfl

/-- `Signal` moves the first waiter, if nobody has tried to destroy the condition variable. -/
theorem signal_eq {s : State} {j i : Int} {cv : ServerCV} {lock : ServerLock}
    (hj : s.cvAt j = some cv) (hi : s.lockAt i = some lock) (hok : cv.Ok)
    (hbound : cv.serverLockIndex = i) :
  signal j i s = s.moved j i cv lock (min 1 cv.waitQueue.length)
  := by
  apply (signal_cases hj hi hok.agree hbound).resolve_right
  simp [hok.live.1]

/-- `Broadcast` moves all waiters. -/
theorem broadcast_eq {s : State} {j i : Int} {cv : ServerCV} {lock : ServerLock}
    (hj : s.cvAt j = some cv) (hi : s.lockAt i = some lock) (hok : cv.Ok)
    (hbound : cv.serverLockIndex = i) :
  broadcast j i s = s.moved j i cv lock cv.waitQueue.length
  := by
  apply (broadcast_cases hj hi hok.agree hbound).resolve_right
  simp [hok.live.1]

/-! ### What the requests do -/

/-- The requests that destroy an object. -/
def Request.isDestroy : Request → Bool
  | .destroyLock _ | .destroyCV _ | .destroyMV _ => true
  | _ => false

/-- The lock a request is about. -/
def Request.lockIndex : Request → Option Int
  | .acquire index | .release index | .destroyLock index => some index
  | .signal _ lockIndex | .broadcast _ lockIndex | .wait _ lockIndex => some lockIndex
  | _ => none

/-- The condition variable exists and its `serverLockIndex` is `lockIndex`. -/
def boundTo (condIndex lockIndex : Int) (s : State) : Bool :=
  match s.cvAt condIndex with
  | some cv => cv.serverLockIndex == lockIndex
  | none => false

/-- The server answers the request without doing what it asks for. -/
def Refused (c : Client) (s : State) : Request → Prop
  | .acquire i => s.lockAt i = none
  | .release i => ownedBy c i s = false
  | .signal j i | .broadcast j i => ownedBy c i s = false ∨ boundTo j i s = false
  | .wait j i => ownedBy c i s = false ∨ waitable j i s = false
  | _ => False

/-- The number of waiters a request moves from a condition variable with `len` waiters to the
queue of the lock. -/
def Request.wakes (len : ℕ) : Request → ℕ
  | .signal _ _ => min 1 len
  | .broadcast _ _ => len
  | _ => 0

/-- What the server can do with request number `n` of `c`, where nothing is destroyed. -/
inductive Served (n : ℕ) (c : Client) (s : State) : Request → Outcome → Prop where
  /-- The request names no lock and adds none. -/
  | other {request : Request} {s' : State} {b : Int8} (hrequest : request.lockIndex = none)
      (hlocks : s'.serverLockTable = s.serverLockTable)
      (hcvs : s'.serverCVTable = s.serverCVTable) :
      Served n c s request ⟨s', [], [reply n c b]⟩
  | newLock {name : List Int8} {id : ℕ} {b : Int8} :
      Served n c s (.createLock name)
        ⟨{ s with serverLockTable := s.serverLockTable ++ [ServerLock.new name id] }, [],
          [reply n c b]⟩
  | newCV {name : List Int8} {id : ℕ} {b : Int8} :
      Served n c s (.createCV name)
        ⟨{ s with serverCVTable := s.serverCVTable ++ [ServerCV.new name id] }, [],
          [reply n c b]⟩
  | refused {request : Request} (hrefused : Refused c s request) :
      Served n c s request ⟨s, [], [reply n c ack]⟩
  | take {i : Int} {lock : ServerLock} (hi : s.lockAt i = some lock)
      (havailable : lock.available = true) :
      Served n c s (.acquire i)
        ⟨s.setLock i { lock with available := false, owner := c.machine }, [], [reply n c ack]⟩
  | queue {i : Int} {lock : ServerLock} (hi : s.lockAt i = some lock)
      (havailable : lock.available = false) :
      Served n c s (.acquire i) ⟨s.setLock i (lock.append [replyMsg n c ack]), [], []⟩
  | release {i : Int} {lock : ServerLock} (hi : s.lockAt i = some lock)
      (howner : lock.owner = c.machine) :
      Served n c s (.release i) ⟨s.setLock i lock.handOver, lock.grant, [reply n c ack]⟩
  | wake {request : Request} {j i : Int} {cv : ServerCV} {lock : ServerLock}
      (hrequest : request = .signal j i ∨ request = .broadcast j i)
      (hj : s.cvAt j = some cv) (hi : s.lockAt i = some lock) (howner : lock.owner = c.machine)
      (hbound : cv.serverLockIndex = i) :
      Served n c s request
        ⟨s.moved j i cv lock (request.wakes cv.waitQueue.length), [], [reply n c ack]⟩
  | wait {j i : Int} {cv : ServerCV} {lock : ServerLock} (hj : s.cvAt j = some cv)
      (hi : s.lockAt i = some lock) (howner : lock.owner = c.machine)
      (hbound : cv.serverLockIndex = i ∨ cv.serverLockIndex = -1) :
      Served n c s (.wait j i)
        ⟨(s.setCV j (cv.park i (replyMsg n c ack))).setLock i lock.handOver, lock.grant, []⟩

/-- The lock a client owns. -/
theorem exists_of_ownedBy {c : Client} {i : Int} {s : State} (h : ownedBy c i s = true) :
  ∃ lock, s.lockAt i = some lock ∧ lock.owner = c.machine
  := by
  unfold ownedBy at h
  split at h
  · rename_i lock hlock
    use lock, hlock
    simpa using h
  · cases h

theorem exists_of_boundTo {j i : Int} {s : State} (h : boundTo j i s = true) :
  ∃ cv, s.cvAt j = some cv ∧ cv.serverLockIndex = i
  := by
  unfold boundTo at h
  split at h
  · rename_i cv hcv
    use cv, hcv
    simpa using h
  · cases h

theorem exists_of_waitable {j i : Int} {s : State} (h : waitable j i s = true) :
  ∃ cv, s.cvAt j = some cv ∧ (cv.serverLockIndex = i ∨ cv.serverLockIndex = -1)
  := by
  unfold waitable at h
  split at h
  · rename_i cv hcv
    use cv, hcv
    simpa using h
  · cases h

/-- A `Signal` or `Broadcast` on a condition variable that is not bound to the lock does
nothing. -/
theorem signal_of_not_boundTo {j i : Int} {s : State} (h : boundTo j i s = false) :
  signal j i s = s
  := by
  unfold signal
  unfold boundTo at h
  cases hcv : s.cvAt j with
  | none => rfl
  | some cv =>
      have hne : cv.serverLockIndex ≠ i := by simpa [hcv] using h
      simp [hne]

theorem broadcast_of_not_boundTo {j i : Int} {s : State} (h : boundTo j i s = false) :
  broadcast j i s = s
  := by
  unfold broadcast
  unfold boundTo at h
  cases hcv : s.cvAt j with
  | none => rfl
  | some cv =>
      have hne : cv.serverLockIndex ≠ i := by simpa [hcv] using h
      simp [hne]

/-- A request that is refused is answered, and nothing else happens. -/
theorem serve_refused {c : Client} {s : State} {request : Request} (h : Refused c s request)
    (cfg : Config) (n : ℕ) :
  serve cfg n c request s = ⟨s, [], [reply n c ack]⟩
  := by
  cases request with
  | acquire i =>
      have hi : s.lockAt i = none := h
      simp [serve, acquire, hi]
  | release i =>
      have how : ownedBy c i s = false := h
      simp [serve, how]
  | signal j i =>
      obtain how | hb := h
      · simp [serve, how]
      · simp [serve, signal_of_not_boundTo hb]
  | broadcast j i =>
      obtain how | hb := h
      · simp [serve, how]
      · simp [serve, broadcast_of_not_boundTo hb]
  | wait j i =>
      obtain how | hw := h
      · simp [serve, how]
      · simp [serve, hw]
  | _ => cases h

/-- The requests that read no counter of a lock or condition variable. -/
def Request.isPlain : Request → Bool
  | .release _ | .signal _ _ | .broadcast _ _ | .wait _ _ | .destroyLock _ | .destroyCV _ => false
  | _ => true

/-- What one server does with these requests does not depend on the counters. -/
theorem serve_plain {cfg : Config} (hcfg : cfg.numServers = 1) (n : ℕ) (c : Client)
    {request : Request} (hrequest : request.isPlain = true) (s : State) :
  Served n c s request (serve cfg n c request s)
  := by
  cases request with
  | createLock name =>
      simp only [serve, hcfg, if_true]
      split
      · exact Served.other rfl rfl rfl
      · apply Served.newLock
  | acquire i =>
      cases hi : s.lockAt i with
      | none =>
          have hrefused : Refused c s (.acquire i) := hi
          rw [serve_refused hrefused]
          exact Served.refused hrefused
      | some lock =>
          cases hav : lock.available with
          | false =>
              have hacq : acquire i s = (1, s) := by simp [acquire, hi, hav]
              simp only [serve, hacq, appendToLock, hi, Int.reduceEq, if_false, if_true]
              apply Served.queue hi hav
          | true =>
              simp only [serve, acquire, hi, hav, if_true, setOwner, State.lockAt_setLock hi,
                State.setLock_setLock]
              apply Served.take hi hav
  | createCV name =>
      simp only [serve, createCV]
      cases s.serverCVTable.findIdx? (fun cv => strcmp name cv.name) with
      | none => apply Served.newCV
      | some k => exact Served.other rfl rfl rfl
  | createMV name numElements =>
      simp only [serve, createMV]
      split
      · exact Served.other rfl rfl rfl
      · exact Served.other rfl rfl rfl
  | setMV index arrayIndex value =>
      simp only [serve, setMV]
      split
      · split
        · exact Served.other rfl rfl rfl
        · exact Served.other rfl rfl rfl
      · exact Served.other rfl rfl rfl
  | getMV index arrayIndex => exact Served.other rfl rfl rfl
  | destroyMV index =>
      simp only [serve, destroyMV]
      split
      · exact Served.other rfl rfl rfl
      · exact Served.other rfl rfl rfl
  | release | signal | broadcast | wait | destroyLock | destroyCV => cases hrequest

/-- One server does with a request one of the things `Served` lists. -/
theorem serve_served {cfg : Config} (hcfg : cfg.numServers = 1) (n : ℕ) (c : Client)
    {request : Request} (hrequest : request.isDestroy = false) {s : State} (hok : s.Ok) :
  Served n c s request (serve cfg n c request s)
  := by
  by_cases hrefused : Refused c s request
  · rw [serve_refused hrefused]
    exact Served.refused hrefused
  cases request with
  | release i =>
      have how : ownedBy c i s = true := by simpa [Refused] using hrefused
      obtain ⟨lock, hi, howner⟩ := exists_of_ownedBy how
      simp only [serve, how, if_true, release_eq hi (hok.lock hi)]
      apply Served.release hi howner
  | signal j i =>
      obtain ⟨how, hb⟩ : ownedBy c i s = true ∧ boundTo j i s = true := by
        simpa [Refused] using hrefused
      obtain ⟨lock, hi, howner⟩ := exists_of_ownedBy how
      obtain ⟨cv, hj, hbound⟩ := exists_of_boundTo hb
      simp only [serve, how, if_true, signal_eq hj hi (hok.cv hj) hbound]
      apply Served.wake (Or.inl rfl) hj hi howner hbound
  | broadcast j i =>
      obtain ⟨how, hb⟩ : ownedBy c i s = true ∧ boundTo j i s = true := by
        simpa [Refused] using hrefused
      obtain ⟨lock, hi, howner⟩ := exists_of_ownedBy how
      obtain ⟨cv, hj, hbound⟩ := exists_of_boundTo hb
      simp only [serve, how, if_true, broadcast_eq hj hi (hok.cv hj) hbound]
      apply Served.wake (Or.inr rfl) hj hi howner hbound
  | wait j i =>
      obtain ⟨how, hw⟩ : ownedBy c i s = true ∧ waitable j i s = true := by
        simpa [Refused] using hrefused
      obtain ⟨lock, hi, howner⟩ := exists_of_ownedBy how
      obtain ⟨cv, hj, hbound⟩ := exists_of_waitable hw
      simp only [serve, how, hw, if_true, wait_eq hj hi (hok.lock hi).agree, appendToCV,
        State.cvAt_setLock, State.cvAt_setCV hj, State.setLock_setCV, State.setCV_setCV]
      apply Served.wait hj hi howner hbound
  | destroyLock index | destroyCV index | destroyMV index => cases hrequest
  | _ => exact serve_plain hcfg n c rfl s

end Nachos.Server
