import Mathlib.Data.Fintype.Card
import Mathlib.Logic.Function.Basic
import Nachos.Client.Encoding

/-!
# Counting with a lock and a monitor variable

The programs of `code/test` take their numbers from a monitor variable: a process acquires a lock,
reads the variable, writes back what it has read plus one, and releases the lock. Here `n` processes
on different machines do this, each of them once, while other machines send whatever requests they
like as long as they do not write to the variable and destroy nothing. The messages between a machine
and the server arrive in the order in which they are sent, and otherwise nothing is known about when
they arrive.

The processes read different values, and in the end these are `0` to `n - 1` and the variable is `n`
(`Counting.no_lost_update`), if the handles of the lock and of the variable survive being sent as bytes
with a sign.
-/

namespace Nachos.Client

open Server

/-! ### Processes -/

/-- The system call that a process makes next, and the value that it has read. -/
inductive Stage where
  | acquire
  | get
  | set (v : Int)
  | release (v : Int)
  | done (v : Int)
deriving DecidableEq

/-- The handles that were returned when the lock and the monitor variable were created. -/
structure Handles where
  lock : Int
  mv : Int

namespace Stage

/-- What the stub of the system call sends. -/
def frame (handles : Handles) : Stage → Option Frame
  | acquire => some (acquireSyscall handles.lock)
  | get => some (getMVSyscall handles.mv 0)
  | set v => some (setMVSyscall handles.mv 0 (v + 1))
  | release _ => some (releaseSyscall handles.lock)
  | done _ => none

/-- The system call returns. -/
def next (response : Int8) : Stage → Stage
  | acquire => get
  | get => set (returnValue response)
  | set v => release v
  | release v => done v
  | done v => done v

/-- The value that has been read. -/
def value : Stage → Option Int
  | set v | release v | done v => some v
  | _ => none

end Stage

/-- A process on one of the machines. -/
structure Process where
  stage : Stage
  /-- It is in `PostOffice::Receive`. -/
  waiting : Bool
  /-- The requests on their way to the server. -/
  outgoing : List (List Int8)
  /-- The replies in its mailbox, or on their way there. -/
  inbox : List (List Int8)
deriving DecidableEq

/-- A process that has done nothing yet. -/
def Process.initial : Process := ⟨.acquire, false, [], []⟩

/-- The server and the processes. -/
structure Counting (n : ℕ) where
  tables : State
  /-- The number of requests that the server has processed. -/
  numRequests : ℕ
  processes : Fin n → Process

/-- A request that sets an element of monitor variable `m`. -/
def writesTo (m : Int) : Request → Bool
  | .setMV index _ _ => index == m
  | _ => false

/-- The messages for `c`. -/
def delivered (c : Server.Client) (mails : List Mail) : List (List Int8) :=
  (mails.filter (fun mail => mail.dest = c)).map (·.data)

namespace Counting

variable {n : ℕ}

/-- What can happen: a process makes its next system call, the server receives the next request of a
process, a system call returns, or the server receives a request from another machine. -/
inductive Action (n : ℕ) where
  | call (k : Fin n)
  | serve (k : Fin n)
  | receive (k : Fin n)
  | other (c : Server.Client) (request : Request)

/-- The server processes a request and sends its messages. -/
def process (clients : Fin n → Server.Client) (x : Counting n) (c : Server.Client)
    (request : Request) : Counting n :=
  let o := Server.serve ⟨0, 1⟩ x.numRequests c request x.tables
  { tables := o.state
    numRequests := x.numRequests + 1
    processes := fun k => { x.processes k with
      inbox := (x.processes k).inbox ++ delivered (clients k) o.sent } }

/-- Process `k` becomes `p`. -/
def setProcess (x : Counting n) (k : Fin n) (p : Process) : Counting n :=
  { x with processes := Function.update x.processes k p }

/-- The processes are at `clients`, and the monitor variable is `m`. -/
def step (clients : Fin n → Server.Client) (handles : Handles) (m : Int) (x : Counting n) :
    Action n → Option (Counting n)
  | .call k =>
      if (x.processes k).waiting then none
      else (x.processes k).stage.frame handles |>.map (fun f => x.setProcess k
        { x.processes k with waiting := true, outgoing := (x.processes k).outgoing ++ [f.data] })
  | .serve k =>
      match (x.processes k).outgoing with
      | data :: rest =>
          match decode data with
          | some (.client request) =>
              some ((x.setProcess k { x.processes k with outgoing := rest }).process clients
                (clients k) request)
          | _ => none
      | [] => none
  | .receive k =>
      match (x.processes k).inbox with
      | data :: rest =>
          if (x.processes k).waiting then
            some (x.setProcess k { x.processes k with
              stage := (x.processes k).stage.next (byteAt data 0), waiting := false, inbox := rest })
          else none
      | [] => none
  | .other c request =>
      if (∀ k, c.machine ≠ (clients k).machine) ∧ request.isDestroy = false ∧
          writesTo m request = false then
        some (x.process clients c request)
      else none

/-- The objects have been created, and no process has done anything. -/
def initial (n : ℕ) (creates : List (Server.Client × Request)) : Counting n :=
  ⟨(Trace.run ⟨0, 1⟩ creates).state, creates.length, fun _ => Process.initial⟩

/-- The values that have been read are different, and when all processes are done they are
`0` to `n - 1` and monitor variable `m` is `n`. -/
structure Counted (m : Int) (x : Counting n) : Prop where
  distinct : ∀ k k' v, (x.processes k).stage.value = some v →
    (x.processes k').stage.value = some v → k = k'
  final : (∀ k, ∃ v, (x.processes k).stage = .done v) →
    (∀ v : Int, (∃ k, (x.processes k).stage.value = some v) ↔ 0 ≤ v ∧ v < n) ∧
      getMV m 0 x.tables = n

end Counting

/-! ### Where a machine is in the tables -/

/-- Whether machine `m` owns lock `i`, and its replies on the queue of this lock. There are none on
other queues. -/
structure Stands (s : State) (i : Int) (m : ℕ) (owns : Bool) (queue : List ReplyMsg) : Prop where
  lock : ∃ lock, s.lockAt i = some lock ∧ (lock.owner = m ↔ owns = true) ∧
    lock.waitQueue.filter (fun r => r.idToSendTo == m) = queue
  locks : s.AllLocks (fun k lock => k ≠ i → ∀ r ∈ lock.waitQueue, r.idToSendTo ≠ m)
  cvs : s.AllCVs (fun _ cv => ∀ r ∈ cv.waitQueue, r.idToSendTo ≠ m)

/-- The messages for machine `m`. -/
def mailsTo (m : ℕ) (mails : List Mail) : List Mail :=
  mails.filter (fun mail => mail.dest.machine == m)

namespace Stands

variable {s : State} {i k : Int} {m n : ℕ} {owns owns' : Bool} {queue queue' : List ReplyMsg}
  {lock lock' : ServerLock} {c : Server.Client} {request : Request} {o : Outcome}

/-- The tables of locks and condition variables are all that matters. -/
theorem congr {s' : State} (h : Stands s i m owns queue)
    (hlocks : s'.serverLockTable = s.serverLockTable) (hcvs : s'.serverCVTable = s.serverCVTable) :
  Stands s' i m owns queue
  := by
  obtain ⟨hlock, hothers, hcv⟩ := h
  constructor
  · simpa only [State.lockAt_congr hlocks] using hlock
  · intro k lock hk
    rw [State.lockAt_congr hlocks] at hk
    apply hothers k lock hk
  · intro j cv hj
    rw [State.cvAt_congr hcvs] at hj
    apply hcv j cv hj

/-- Lock `k` is overwritten. -/
theorem setLock (h : Stands s i m owns queue) (hk : s.lockAt k = some lock)
    (heq : k = i → (lock'.owner = m ↔ owns' = true) ∧
      lock'.waitQueue.filter (fun r => r.idToSendTo == m) = queue')
    (hne : k ≠ i → (∀ r ∈ lock'.waitQueue, r.idToSendTo ≠ m) ∧ owns' = owns ∧ queue' = queue) :
  Stands (s.setLock k lock') i m owns' queue'
  := by
  obtain ⟨⟨lock₀, hi, howner, hqueue⟩, hothers, hcv⟩ := h
  constructor
  · by_cases hki : k = i
    · subst hki
      use lock'
      rw [State.lockAt_setLock hk, if_pos rfl]
      exact ⟨rfl, heq rfl⟩
    · obtain ⟨-, rfl, rfl⟩ := hne hki
      use lock₀
      rw [State.lockAt_setLock hk, if_neg (Ne.symm hki)]
      exact ⟨hi, howner, hqueue⟩
  · apply hothers.set hk
    intro hki
    exact (hne hki).1
  · exact hcv

/-- A condition variable on which nobody from machine `m` waits is overwritten. -/
theorem setCV {j : Int} {cv cv' : ServerCV} (h : Stands s i m owns queue)
    (hj : s.cvAt j = some cv) (hcv' : ∀ r ∈ cv'.waitQueue, r.idToSendTo ≠ m) :
  Stands (s.setCV j cv') i m owns queue
  := ⟨h.lock, h.locks, h.cvs.set hj hcv'⟩

/-- Another machine hands lock `k` over. The lock goes to machine `m` if that is first in the
queue. -/
theorem handOver (h : Stands s i m owns queue) (hk : s.lockAt k = some lock)
    (howner : lock.owner ≠ m) :
  Stands (s.setLock k lock.handOver) i m owns queue ∧ mailsTo m lock.grant = [] ∨
    ∃ r rest, queue = r :: rest ∧ Stands (s.setLock k lock.handOver) i m true rest ∧
      mailsTo m lock.grant = [r.mail]
  := by
  have howns : k = i → owns = false := by
    rintro rfl
    obtain ⟨lock₀, hi, hiff, -⟩ := h.lock
    obtain rfl := Option.some.inj (hk.symm.trans hi)
    simpa [howner] using hiff
  have hfilter : k = i → lock.waitQueue.filter (fun r => r.idToSendTo == m) = queue := by
    rintro rfl
    obtain ⟨lock₀, hi, -, hqueue⟩ := h.lock
    obtain rfl := Option.some.inj (hk.symm.trans hi)
    exact hqueue
  have hothers : k ≠ i → ∀ r ∈ lock.waitQueue, r.idToSendTo ≠ m := h.locks k lock hk
  unfold ServerLock.handOver ServerLock.grant
  cases hq : lock.waitQueue with
  | nil =>
      left
      rw [hq] at hfilter
      refine ⟨h.setLock hk ?_ ?_, rfl⟩
      · intro hki
        rw [← hfilter hki, howns hki]
        simp
      · intro hki
        simp
  | cons r rest =>
      rw [hq] at hfilter hothers
      by_cases hr : r.idToSendTo = m
      · right
        have hki : k = i := by
          by_contra hki
          exact hothers hki r List.mem_cons_self hr
        use r, rest.filter (fun r => r.idToSendTo == m)
        refine ⟨?_, h.setLock hk ?_ (absurd hki), ?_⟩
        · rw [← hfilter hki]
          simp [hr]
        · intro _
          simp [hr]
        · simp [mailsTo, ReplyMsg.mail, hr]
      · left
        refine ⟨h.setLock hk ?_ ?_, ?_⟩
        · intro hki
          rw [← hfilter hki, howns hki]
          have hne : (r.idToSendTo : ℤ) ≠ m := by omega
          simp [hr, hne]
        · intro hki
          exact ⟨fun r' hr' => hothers hki r' (List.mem_cons_of_mem _ hr'), rfl, rfl⟩
        · simp [mailsTo, ReplyMsg.mail, hr]

/-- Messages for other machines. -/
theorem mailsTo_reply (hne : c.machine ≠ m) (b : Int8) :
  mailsTo m [reply n c b] = []
  := by
  simp [mailsTo, reply, hne]

/-- A request from another machine leaves machine `m` where it is, unless a lock is handed over to
it. -/
theorem served (h : Stands s i m owns queue) (hs : s.Ok) (hserved : Served n c s request o)
    (hne : c.machine ≠ m) :
  Stands o.state i m owns queue ∧ mailsTo m o.sent = [] ∨
    ∃ r rest, queue = r :: rest ∧ Stands o.state i m true rest ∧ mailsTo m o.sent = [r.mail]
  := by
  have hown : ∀ {lock : ServerLock}, lock.owner = c.machine → lock.owner ≠ m := by
    intro lock howner
    rw [howner]
    exact_mod_cast hne
  have hsplit : ∀ l b, mailsTo m (l ++ [reply n c b]) = mailsTo m l := by
    intro l b
    simp [mailsTo, reply, hne]
  cases hserved with
  | other _ hlocks hcvs => exact Or.inl ⟨h.congr hlocks hcvs, mailsTo_reply hne _⟩
  | newLock =>
      left
      refine ⟨⟨?_, h.locks.append ?_, h.cvs⟩, mailsTo_reply hne _⟩
      · obtain ⟨lock, hi, hlock⟩ := h.lock
        use lock
        refine ⟨?_, hlock⟩
        obtain ⟨hpos, hat⟩ := State.getElem?_of_lockAt hi
        obtain ⟨hlt, -⟩ := List.getElem?_eq_some_iff.mp hat
        simp [State.lockAt, hpos, List.getElem?_append_left hlt, hat]
      · intro k _ r hr
        simp [ServerLock.new] at hr
  | newCV =>
      left
      refine ⟨⟨h.lock, h.locks, h.cvs.append ?_⟩, mailsTo_reply hne _⟩
      intro j r hr
      simp [ServerCV.new] at hr
  | refused => exact Or.inl ⟨h, mailsTo_reply hne _⟩
  | @take k lock hk hav =>
      left
      refine ⟨h.setLock hk ?_ (fun hki => ⟨h.locks k lock hk hki, rfl, rfl⟩), mailsTo_reply hne _⟩
      rintro rfl
      obtain ⟨lock₀, hi, hiff, hqueue⟩ := h.lock
      obtain rfl := Option.some.inj (hk.symm.trans hi)
      have hfree := (hs.lock hk).available_iff.mp hav
      refine ⟨?_, hqueue⟩
      rw [← hiff, hfree]
      constructor
      · intro hm
        have hm' : (c.machine : Int) = m := hm
        exact absurd (by exact_mod_cast hm') hne
      · intro hm
        omega
  | @queue k lock hk hav =>
      left
      refine ⟨h.setLock hk ?_ ?_, rfl⟩
      · rintro rfl
        obtain ⟨lock₀, hi, hiff, hqueue⟩ := h.lock
        obtain rfl := Option.some.inj (hk.symm.trans hi)
        refine ⟨hiff, ?_⟩
        rw [← hqueue]
        simp [ServerLock.append, replyMsg, hne]
      · intro hki
        refine ⟨?_, rfl, rfl⟩
        intro r hr
        obtain hr | hr := List.mem_append.mp hr
        · exact h.locks k lock hk hki r hr
        · obtain rfl := List.mem_singleton.mp hr
          exact hne
  | release hk howner =>
      simp only [Outcome.sent, hsplit]
      exact h.handOver hk (hown howner)
  | @wake _ j k cv lock _ hj hk howner hbound =>
      left
      have hmoved : ∀ r ∈ cv.waitQueue, r.idToSendTo ≠ m := h.cvs j cv hj
      have hcv : Stands (s.setCV j (cv.wake (request.wakes cv.waitQueue.length))) i m owns queue :=
        h.setCV hj (fun r hr => hmoved r (List.mem_of_mem_drop hr))
      refine ⟨hcv.setLock hk ?_ ?_, mailsTo_reply hne _⟩
      · rintro rfl
        obtain ⟨lock₀, hi, hiff, hqueue⟩ := h.lock
        obtain rfl := Option.some.inj (hk.symm.trans hi)
        refine ⟨hiff, ?_⟩
        rw [← hqueue]
        simp only [ServerLock.append, List.filter_append, List.append_right_eq_self,
          List.filter_eq_nil_iff, beq_iff_eq]
        exact fun r hr => hmoved r (List.mem_of_mem_take hr)
      · intro hki
        refine ⟨?_, rfl, rfl⟩
        intro r hr
        obtain hr | hr := List.mem_append.mp hr
        · exact h.locks k lock hk hki r hr
        · exact hmoved r (List.mem_of_mem_take hr)
  | @wait j k cv lock hj hk howner hbound =>
      have hcv : Stands (s.setCV j (cv.park k (replyMsg n c ack))) i m owns queue := by
        apply h.setCV hj
        intro r hr
        obtain hr | hr := List.mem_append.mp hr
        · exact h.cvs j cv hj r hr
        · obtain rfl := List.mem_singleton.mp hr
          exact hne
      simp only [Outcome.sent, List.append_nil]
      exact hcv.handOver hk (hown howner)

/-- A machine that is nowhere acquires lock `i`: it gets it or is put on the queue. -/
theorem acquire (h : Stands s i c.machine false []) (cfg : Config) :
  (∃ s', serve cfg n c (.acquire i) s = ⟨s', [], [reply n c ack]⟩ ∧
      Stands s' i c.machine true []) ∨
    ∃ s', serve cfg n c (.acquire i) s = ⟨s', [], []⟩ ∧
      Stands s' i c.machine false [replyMsg n c ack]
  := by
  obtain ⟨lock, hi, hiff, hqueue⟩ := h.lock
  cases hav : lock.available with
  | true =>
      left
      use s.setLock i { lock with available := false, owner := c.machine }
      constructor
      · simp [serve, Server.acquire, hi, hav, setOwner, State.lockAt_setLock hi]
      · apply h.setLock hi
        · intro _
          exact ⟨by simp, hqueue⟩
        · intro hne
          contradiction
  | false =>
      right
      use s.setLock i (lock.append [replyMsg n c ack])
      constructor
      · have hacq : Server.acquire i s = (1, s) := by simp [Server.acquire, hi, hav]
        simp only [serve, hacq, appendToLock, hi, Int.reduceEq, if_false, if_true]
        rfl
      · apply h.setLock hi
        · intro _
          refine ⟨hiff, ?_⟩
          simp [ServerLock.append, hqueue, replyMsg]
        · intro hne
          contradiction

/-- The machine that owns lock `i` releases it. -/
theorem release (h : Stands s i c.machine true []) (hs : s.Ok) (cfg : Config) :
  Stands (serve cfg n c (.release i) s).state i c.machine false [] ∧
    mailsTo c.machine (serve cfg n c (.release i) s).sent = [reply n c ack]
  := by
  obtain ⟨lock, hi, hiff, hqueue⟩ := h.lock
  have howner : lock.owner = c.machine := by simpa using hiff
  have how : ownedBy c i s = true := by simp [ownedBy, hi, howner]
  simp only [serve, how, if_true, release_eq hi (hs.lock hi), Outcome.sent]
  unfold ServerLock.handOver ServerLock.grant
  cases hq : lock.waitQueue with
  | nil =>
      refine ⟨h.setLock hi ?_ (fun hne => by contradiction), ?_⟩
      · intro _
        simp
      · simp [mailsTo, reply]
  | cons r rest =>
      have hr : r.idToSendTo ≠ c.machine := by
        intro hr
        simp [hq, hr] at hqueue
      refine ⟨h.setLock hi ?_ (fun hne => by contradiction), ?_⟩
      · intro _
        rw [hq, List.filter_cons_of_neg (by simpa using hr)] at hqueue
        refine ⟨?_, hqueue⟩
        simp only [Bool.false_eq_true, iff_false]
        omega
      · simp [mailsTo, reply, ReplyMsg.mail, hr]

end Stands

/-! ### Where a process is -/

/-- The process is between the answer to its `Acquire` and its `Release`. -/
def Stage.inside : Stage → Bool
  | get | set _ | release _ => true
  | _ => false

/-- The server has set the monitor variable for the process. -/
def Process.written (p : Process) : Bool :=
  match p.stage with
  | .set _ => p.waiting && p.outgoing.isEmpty
  | .release _ | .done _ => true
  | _ => false

/-- Where the process at `c` is when the monitor variable is `v₀`: whether its machine owns the lock,
and its replies on the queue of the lock. -/
inductive Placed (c : Server.Client) (handles : Handles) (v₀ : Int) :
    Process → Bool → List ReplyMsg → Prop where
  | ready {stage : Stage} (hset : ∀ v, stage = .set v → v = v₀) :
      Placed c handles v₀ ⟨stage, false, [], []⟩ stage.inside []
  /-- The request is on its way. -/
  | sent {stage : Stage} {f : Frame} (hframe : stage.frame handles = some f)
      (hset : ∀ v, stage = .set v → v = v₀) :
      Placed c handles v₀ ⟨stage, true, [f.data], []⟩ stage.inside []
  /-- The process waits for the lock. -/
  | queued {n : ℕ} : Placed c handles v₀ ⟨.acquire, true, [], []⟩ false [replyMsg n c ack]
  /-- The reply is on its way. -/
  | replied {stage : Stage} {b : Int8} (hget : stage = .get → returnValue b = v₀) :
      Placed c handles v₀ ⟨stage, true, [], [[b]]⟩ (stage.next b).inside []

namespace Placed

variable {c c' : Server.Client} {handles : Handles} {v₀ v₁ : Int} {p : Process} {owns : Bool}
  {queue : List ReplyMsg} {s : State} {i : Int} {n : ℕ} {request : Request} {o : Outcome}

/-- The monitor variable does not matter to a process whose machine does not own the lock. -/
theorem of_not_owns (h : Placed c handles v₀ p false queue) :
  Placed c handles v₁ p false queue
  := by
  generalize howns : false = owns at h
  cases h with
  | @ready stage hset =>
      apply Placed.ready
      rintro v rfl
      cases howns
  | @sent stage f hframe hset =>
      apply Placed.sent hframe
      rintro v rfl
      cases howns
  | queued => apply Placed.queued
  | @replied stage b hget =>
      apply Placed.replied
      rintro rfl
      cases howns

theorem delivered_eq (c : Server.Client) (mails : List Mail) :
  delivered c mails = delivered c (mailsTo c.machine mails)
  := by
  rw [delivered, delivered, mailsTo, List.filter_filter]
  congr 2
  funext mail
  by_cases hmail : mail.dest = c
  · simp [hmail]
  · simp [hmail]

/-- A reply is delivered. -/
theorem delivered_reply (n : ℕ) (c : Server.Client) (b : Int8) :
  delivered c [reply n c b] = [[b]]
  := by
  simp [delivered, reply]

/-- A request from another machine leaves a process where it is, unless the lock is handed over to
it. -/
theorem served (h : Placed c handles v₀ p owns queue) (hstands : Stands s i c.machine owns queue)
    (hs : s.Ok) (hserved : Served n c' s request o) (hne : c'.machine ≠ c.machine) :
  ∃ owns' queue', Stands o.state i c.machine owns' queue' ∧
    Placed c handles v₀ { p with inbox := p.inbox ++ delivered c o.sent } owns' queue'
  := by
  rw [delivered_eq]
  obtain ⟨hstands', hmails⟩ | ⟨r, rest, rfl, hstands', hmails⟩ := hstands.served hs hserved hne
  · use owns, queue, hstands'
    rw [hmails]
    simpa [delivered] using h
  · rw [hmails]
    generalize hqueue : r :: rest = queue at h
    cases h with
    | ready | sent | replied => cases hqueue
    | @queued k =>
        obtain ⟨rfl, rfl⟩ := List.cons.inj hqueue
        have hdelivered : delivered c [(replyMsg k c ack).mail] = [[Server.ack]] := by
          simp [delivered, ReplyMsg.mail, replyMsg]
        use true, [], hstands'
        rw [hdelivered]
        exact @Placed.replied c handles v₀ .acquire ack (by simp)

end Placed

/-! ### The monitor variable -/

section MonitorVariable

variable {s : State} {m : Int} {mv : ServerMV} {request : Request} {c : Server.Client} {n : ℕ}

/-- A request that does not write to a monitor variable leaves it as it is. -/
theorem mvAt_serve (hs : s.Ok) (hm : s.mvAt m = some mv) (hdestroy : request.isDestroy = false)
    (hwrites : writesTo m request = false) :
  (serve ⟨0, 1⟩ n c request s).state.mvAt m = some mv
  := by
  have hcongr : ∀ s' : State, s'.serverMVTable = s.serverMVTable → s'.mvAt m = some mv := by
    intro s' hsame
    rw [← hm]
    simp [State.mvAt, hsame]
  have hserved := @serve_served ⟨0, 1⟩ rfl n c _ hdestroy _ hs
  cases request with
  | acquire | release | signal | broadcast | wait =>
      apply hcongr
      exact (sameNames_of_served hserved (by simp [Request.lockIndex])).mvs
  | createLock name =>
      apply hcongr
      simp only [serve, createLock]
      split
      · rfl
      · split <;> rfl
  | createCV name =>
      apply hcongr
      simp only [serve, createCV]
      split <;> rfl
  | createMV name numElements =>
      simp only [serve, createMV]
      split
      · exact hm
      · simp only [State.mvAt, Option.ite_none_right_eq_some] at hm ⊢
        obtain ⟨hlt, -⟩ := List.getElem?_eq_some_iff.mp hm.2
        exact ⟨hm.1, by rw [List.getElem?_append_left hlt, hm.2]⟩
  | setMV index arrayIndex value =>
      have hne : index ≠ m := by simpa [writesTo] using hwrites
      simp only [serve, setMV]
      split
      · rename_i mv' hindex
        split
        · simp only [State.mvAt, State.setMV, Option.ite_none_right_eq_some] at hm hindex ⊢
          exact ⟨hm.1, by rw [List.getElem?_set_ne (by omega), hm.2]⟩
        · exact hm
      · exact hm
  | getMV => exact hm
  | destroyLock | destroyCV | destroyMV => cases hdestroy

/-- The first element of a monitor variable is set. -/
theorem serve_setMV (hm : s.mvAt m = some mv) (hpos : 0 < mv.numElements) (v : Int) :
  serve ⟨0, 1⟩ n c (.setMV m 0 v) s =
    ⟨s.setMV m { mv with values := mv.values.set 0 v }, [], [reply n c 127]⟩
  := by
  have hcond : -1 < (0 : Int) ∧ (0 : Int) < mv.numElements := ⟨by decide, by omega⟩
  simp only [serve, setMV, hm, if_pos hcond]
  rfl

theorem mvAt_setMV (hm : s.mvAt m = some mv) (mv' : ServerMV) :
  (s.setMV m mv').mvAt m = some mv'
  := by
  simp only [State.mvAt, State.setMV, Option.ite_none_right_eq_some] at hm ⊢
  obtain ⟨hlt, -⟩ := List.getElem?_eq_some_iff.mp hm.2
  exact ⟨hm.1, by simp [hlt]⟩

/-- The first element of a monitor variable. -/
theorem getMV_of_mvAt (hm : s.mvAt m = some mv) (hpos : 0 < mv.numElements) :
  getMV m 0 s = mv.values.getD 0 0
  := by
  have hcond : -1 < (0 : Int) ∧ (0 : Int) < mv.numElements := ⟨by decide, by omega⟩
  simp only [getMV, hm, if_pos hcond]
  rfl

end MonitorVariable

/-! ### The order of the processes -/

/-- The processes for which the monitor variable has been set can be put in an order such that each
of them has read its position, and there are as many of them as the variable says. -/
def Ordered {n : ℕ} (processes : Fin n → Process) (v₀ : Int) : Prop :=
  ∃ order : List (Fin n), order.Nodup ∧ (∀ k, k ∈ order ↔ (processes k).written = true) ∧
    (∀ (j : ℕ) k, order[j]? = some k → (processes k).stage.value = some (j : Int)) ∧
    v₀ = order.length

namespace Ordered

variable {n : ℕ} {processes processes' : Fin n → Process} {v₀ : Int} {k : Fin n}

/-- Only the values of these processes matter. -/
theorem congr (h : Ordered processes v₀)
    (hwritten : ∀ k, (processes' k).written = (processes k).written)
    (hvalue : ∀ k, (processes k).written = true →
      (processes' k).stage.value = (processes k).stage.value) :
  Ordered processes' v₀
  := by
  obtain ⟨order, hnodup, hmem, hpos, hlength⟩ := h
  refine ⟨order, hnodup, ?_, ?_, hlength⟩
  · intro k
    rw [hwritten, hmem]
  · intro j k hj
    rw [hvalue k ((hmem k).mp (List.mem_of_getElem? hj)), hpos j k hj]

/-- The variable is at most the number of processes. -/
theorem bounds (h : Ordered processes v₀) :
  0 ≤ v₀ ∧ v₀ ≤ n
  := by
  obtain ⟨order, hnodup, -, -, rfl⟩ := h
  have hle := hnodup.length_le_card
  rw [Fintype.card_fin] at hle
  omega

/-- The variable is less than the number of processes when there is one for which it has not been
set. -/
theorem lt (h : Ordered processes v₀) (hk : (processes k).written = false) :
  v₀ < n
  := by
  obtain ⟨order, hnodup, hmem, -, rfl⟩ := h
  have hk' : k ∉ order := by
    rw [hmem, hk]
    simp
  have hle := (List.nodup_cons.mpr ⟨hk', hnodup⟩).length_le_card
  rw [Fintype.card_fin, List.length_cons] at hle
  omega

/-- The variable is set for one more process, which has read what it was. -/
theorem snoc (h : Ordered processes v₀) (hk : (processes k).written = false)
    (hother : ∀ k', k' ≠ k → (processes' k').written = (processes k').written ∧
      (processes' k').stage.value = (processes k').stage.value)
    (hwritten : (processes' k).written = true) (hvalue : (processes' k).stage.value = some v₀) :
  Ordered processes' (v₀ + 1)
  := by
  obtain ⟨order, hnodup, hmem, hpos, rfl⟩ := h
  have hk' : k ∉ order := by
    rw [hmem, hk]
    simp
  refine ⟨order ++ [k], ?_, ?_, ?_, by simp⟩
  · rw [List.nodup_append]
    simpa using ⟨hnodup, fun a ha hak => hk' (hak ▸ ha)⟩
  · intro k'
    rw [List.mem_append, List.mem_singleton]
    by_cases hkk : k' = k
    · simp [hkk, hwritten]
    · simp [hkk, hmem, (hother k' hkk).1]
  · intro j k' hj
    rw [List.getElem?_append] at hj
    split at hj
    · have hne : k' ≠ k := by
        rintro rfl
        exact hk' (List.mem_of_getElem? hj)
      rw [(hother k' hne).2, hpos j k' hj]
    · rename_i hlt
      obtain ⟨hj', rfl⟩ := List.getElem?_eq_some_iff.mp hj
      simp only [List.length_singleton] at hj'
      have hjlen : j = order.length := by omega
      simp [hjlen, hvalue]

end Ordered

/-! ### Runs -/

/-- Two machines do not own one lock. -/
theorem Stands.not_owns {s : State} {i : Int} {m m' : ℕ} {owns : Bool}
    {queue queue' : List ReplyMsg} (h : Stands s i m true queue) (h' : Stands s i m' owns queue')
    (hne : m ≠ m') :
  owns = false
  := by
  obtain ⟨lock, hi, hiff, -⟩ := h.lock
  obtain ⟨lock', hi', hiff', -⟩ := h'.lock
  obtain rfl := Option.some.inj (hi.symm.trans hi')
  have howner : lock.owner = m := by simpa using hiff
  rw [← Bool.not_eq_true, ← hiff', howner]
  omega

namespace Counting

variable {n : ℕ} {clients : Fin n → Server.Client} {handles : Handles} {i m : Int}
  {x x' : Counting n} {k : Fin n} {c : Server.Client} {request : Request}

/-- The lock that the processes use is at `i`, and the monitor variable is at `m`. -/
structure Ok (clients : Fin n → Server.Client) (handles : Handles) (i m : Int) (x : Counting n) :
    Prop where
  tables : x.tables.Ok
  mv : ∃ mv, x.tables.mvAt m = some mv ∧ 0 < mv.numElements ∧ mv.values ≠ []
  placed : ∀ k, ∃ owns queue, Stands x.tables i (clients k).machine owns queue ∧
    Placed (clients k) handles (getMV m 0 x.tables) (x.processes k) owns queue
  ordered : Ordered x.processes (getMV m 0 x.tables)

/-- A process has changed, and no other. -/
theorem Ok.setProcess (h : x.Ok clients handles i m) {p : Process}
    (hplaced : ∀ owns queue,
      Placed (clients k) handles (getMV m 0 x.tables) (x.processes k) owns queue →
        Placed (clients k) handles (getMV m 0 x.tables) p owns queue)
    (hwritten : p.written = (x.processes k).written)
    (hvalue : (x.processes k).written = true → p.stage.value = (x.processes k).stage.value) :
  (x.setProcess k p).Ok clients handles i m
  := by
  refine ⟨h.tables, h.mv, ?_, ?_⟩
  · intro k'
    obtain ⟨owns, queue, hstands, hk'⟩ := h.placed k'
    use owns, queue, hstands
    simp only [Counting.setProcess]
    by_cases hkk : k' = k
    · subst hkk
      simpa using hplaced owns queue hk'
    · simpa [hkk] using hk'
  · apply h.ordered.congr
    · intro k'
      simp only [Counting.setProcess]
      by_cases hkk : k' = k
      · subst hkk
        simpa using hwritten
      · simp [hkk]
    · intro k' hk'
      simp only [Counting.setProcess]
      by_cases hkk : k' = k
      · subst hkk
        simpa using hvalue hk'
      · simp [hkk]

/-- A process makes its next system call. -/
theorem Ok.call (h : x.Ok clients handles i m)
    (hstep : step clients handles m x (.call k) = some x') :
  x'.Ok clients handles i m
  := by
  simp only [step] at hstep
  split at hstep
  · cases hstep
  · rename_i hwaiting
    obtain ⟨f, hframe, rfl⟩ := Option.map_eq_some_iff.mp hstep
    apply h.setProcess
    · intro owns queue hplaced
      generalize hp : x.processes k = p at hplaced hwaiting hframe
      cases hplaced with
      | @ready stage hset => exact Placed.sent hframe hset
      | sent | queued | replied => simp at hwaiting
    · cases hstage : (x.processes k).stage <;> simp_all [Process.written]
    · intro _
      rfl

/-- A system call returns. -/
theorem Ok.receive (h : x.Ok clients handles i m)
    (hstep : step clients handles m x (.receive k) = some x') :
  x'.Ok clients handles i m
  := by
  obtain ⟨owns, queue, hstands, hplaced⟩ := h.placed k
  simp only [step] at hstep
  generalize hp : x.processes k = p at hstep hplaced
  cases hplaced with
  | ready | sent | queued => simp at hstep
  | @replied stage b hget =>
      simp only [if_true, Option.some.injEq] at hstep
      subst hstep
      apply h.setProcess
      · intro owns queue hplaced
        rw [hp] at hplaced
        generalize hq : (⟨stage, true, [], [[b]]⟩ : Process) = q at hplaced
        cases hplaced with
        | ready | sent | queued => cases hq
        | @replied stage' b' hget' =>
            cases hq
            apply Placed.ready
            intro v hv
            cases stage with
            | get =>
                have hv' : returnValue b = v := by simpa [Stage.next, byteAt] using hv
                rw [← hv', hget' rfl]
            | acquire | set | release | done => simp [Stage.next] at hv
      · rw [hp]
        cases stage <;> simp [Process.written, Stage.next]
      · rw [hp]
        cases stage <;> simp [Process.written, Stage.next, Stage.value]

/-- The messages that the server sends do not change what a process has read. -/
theorem written_inbox (p : Process) (inbox : List (List Int8)) :
  ({ p with inbox := inbox } : Process).written = p.written
  := rfl

/-- The server receives a request from another machine. -/
theorem Ok.other (h : x.Ok clients handles i m)
    (hstep : step clients handles m x (.other c request) = some x') :
  x'.Ok clients handles i m
  := by
  simp only [step, Option.ite_none_right_eq_some, Option.some.injEq] at hstep
  obtain ⟨⟨hne, hdestroy, hwrites⟩, rfl⟩ := hstep
  have hserved := @serve_served ⟨0, 1⟩ rfl x.numRequests c _ hdestroy _ h.tables
  obtain ⟨mv, hm, hpos, hvalues⟩ := h.mv
  have hm' : (serve ⟨0, 1⟩ x.numRequests c request x.tables).state.mvAt m = some mv :=
    mvAt_serve h.tables hm hdestroy hwrites
  have hget : getMV m 0 (serve ⟨0, 1⟩ x.numRequests c request x.tables).state =
      getMV m 0 x.tables := by
    rw [getMV_of_mvAt hm' hpos, getMV_of_mvAt hm hpos]
  refine ⟨hserved.ok h.tables, ⟨mv, hm', hpos, hvalues⟩, ?_, ?_⟩
  · intro k
    obtain ⟨owns, queue, hstands, hplaced⟩ := h.placed k
    simp only [process, hget]
    exact hplaced.served hstands h.tables hserved (hne k)
  · simp only [process, hget]
    exact h.ordered.congr (fun k => written_inbox _ _) (fun k _ => rfl)

/-- The server receives a request of process `k`, which is at its place afterwards, and the monitor
variable stays as it is or the machine of the process owns the lock. -/
theorem Ok.served (hinj : ∀ k k', (clients k).machine = (clients k').machine → k = k')
    (h : x.Ok clients handles i m) (hdestroy : request.isDestroy = false) {p : Process}
    {owns : Bool} {queue : List ReplyMsg} {mv : ServerMV} {o : Outcome}
    (ho : serve ⟨0, 1⟩ x.numRequests (clients k) request x.tables = o)
    (hm : o.state.mvAt m = some mv) (hmv : 0 < mv.numElements ∧ mv.values ≠ [])
    (hstands : Stands o.state i (clients k).machine owns queue)
    (hplaced : Placed (clients k) handles (getMV m 0 o.state)
      { p with inbox := p.inbox ++ delivered (clients k) o.sent } owns queue)
    (hsame : getMV m 0 o.state = getMV m 0 x.tables ∨ owns = true)
    (hordered : Ordered ((x.setProcess k p).process clients (clients k) request).processes
      (getMV m 0 o.state)) :
  ((x.setProcess k p).process clients (clients k) request).Ok clients handles i m
  := by
  have hserved := @serve_served ⟨0, 1⟩ rfl x.numRequests (clients k) _ hdestroy _ h.tables
  rw [ho] at hserved
  have htables : ((x.setProcess k p).process clients (clients k) request).tables = o.state := by
    rw [← ho]
    rfl
  have hprocesses : ∀ k', ((x.setProcess k p).process clients (clients k) request).processes k' =
      { Function.update x.processes k p k' with
        inbox := (Function.update x.processes k p k').inbox ++ delivered (clients k') o.sent } := by
    intro k'
    rw [← ho]
    rfl
  refine ⟨?_, ?_, ?_, ?_⟩
  · rw [htables]
    exact hserved.ok h.tables
  · rw [htables]
    exact ⟨mv, hm, hmv⟩
  · intro k'
    rw [htables, hprocesses]
    by_cases hkk : k' = k
    · subst hkk
      use owns, queue, hstands
      simpa using hplaced
    · obtain ⟨owns', queue', hstands', hplaced'⟩ := h.placed k'
      have hne : (clients k).machine ≠ (clients k').machine := fun hm => hkk (hinj k' k hm.symm)
      obtain ⟨owns₁, queue₁, hstands₁, hplaced₁⟩ :=
        hplaced'.served hstands' h.tables hserved hne
      use owns₁, queue₁, hstands₁
      simp only [ne_eq, hkk, not_false_eq_true, Function.update_of_ne]
      obtain hsame | rfl := hsame
      · rw [hsame]
        exact hplaced₁
      · obtain rfl := hstands.not_owns hstands₁ hne
        exact hplaced₁.of_not_owns
  · rw [htables]
    exact hordered

/-- The values that have been read stay what they are when the server receives a request of process
`k`. -/
theorem Ok.ordered_process (h : x.Ok clients handles i m) (k : Fin n) (c : Server.Client)
    (request : Request) (p : Process)
    (hwritten : p.written = (x.processes k).written)
    (hvalue : (x.processes k).written = true → p.stage.value = (x.processes k).stage.value) :
  Ordered ((x.setProcess k p).process clients c request).processes (getMV m 0 x.tables)
  := by
  have hset : Ordered (Function.update x.processes k p) (getMV m 0 x.tables) := by
    apply h.ordered.congr
    · intro k'
      by_cases hkk : k' = k
      · subst hkk
        simpa using hwritten
      · simp [hkk]
    · intro k' hk'
      by_cases hkk : k' = k
      · subst hkk
        simpa using hvalue hk'
      · simp [hkk]
  exact hset.congr (fun k' => written_inbox _ _) (fun k' _ => rfl)

/-- The server receives a request of a process. -/
theorem Ok.serve (hinj : ∀ k k', (clients k).machine = (clients k').machine → k = k')
    (hn : n ≤ 127) (hlock : (char handles.lock).toInt = i) (hmv : (char handles.mv).toInt = m)
    (h : x.Ok clients handles i m)
    (hstep : step clients handles m x (.serve k) = some x') :
  x'.Ok clients handles i m
  := by
  obtain ⟨owns, queue, hstands, hplaced⟩ := h.placed k
  obtain ⟨mv, hm, hpos, hvalues⟩ := h.mv
  have hsame : ∀ request, request.isDestroy = false → writesTo m request = false →
      (Server.serve ⟨0, 1⟩ x.numRequests (clients k) request x.tables).state.mvAt m = some mv ∧
        getMV m 0 (Server.serve ⟨0, 1⟩ x.numRequests (clients k) request x.tables).state =
          getMV m 0 x.tables := by
    intro request hdestroy hwrites
    have hm' := @mvAt_serve x.tables m mv request (clients k) x.numRequests h.tables hm hdestroy
      hwrites
    exact ⟨hm', by rw [getMV_of_mvAt hm' hpos, getMV_of_mvAt hm hpos]⟩
  simp only [step] at hstep
  generalize hp : x.processes k = p at hstep hplaced
  cases hplaced with
  | ready | queued | replied => simp at hstep
  | @sent stage f hframe hset =>
      cases stage with
      | done v => cases hframe
      | acquire =>
          obtain rfl := Option.some.inj hframe
          have hdecode : decode (acquireSyscall handles.lock).data = some (.client (.acquire i)) := by
            rw [acquireSyscall, Frame.data_ofBytes, ← hlock]
            rfl
          simp only [hdecode, Option.some.injEq] at hstep
          subst hstep
          obtain ⟨hm', hget⟩ := hsame (.acquire i) rfl rfl
          have hordered := h.ordered_process k (clients k) (.acquire i) ⟨.acquire, true, [], []⟩
            (by rw [hp]; rfl) (by rw [hp]; simp [Process.written])
          obtain ⟨s', ho, hstands'⟩ | ⟨s', ho, hstands'⟩ :=
            @Stands.acquire x.tables i x.numRequests (clients k) hstands ⟨0, 1⟩
          · rw [ho] at hm' hget
            rw [← hget] at hordered
            refine h.served hinj rfl ho hm' ⟨hpos, hvalues⟩ hstands' ?_ (Or.inl hget) hordered
            simp only [Outcome.sent, List.nil_append, Placed.delivered_reply]
            exact @Placed.replied _ _ _ .acquire ack (by simp)
          · rw [ho] at hm' hget
            rw [← hget] at hordered
            refine h.served hinj rfl ho hm' ⟨hpos, hvalues⟩ hstands' ?_ (Or.inl hget) hordered
            exact Placed.queued
      | get =>
          obtain rfl := Option.some.inj hframe
          have hdecode : decode (getMVSyscall handles.mv 0).data =
              some (.client (.getMV m 0)) := by
            rw [getMVSyscall, Frame.data_ofBytes, ← hmv]
            rfl
          simp only [hdecode, Option.some.injEq] at hstep
          subst hstep
          have hordered := h.ordered_process k (clients k) (.getMV m 0) ⟨.get, true, [], []⟩
            (by rw [hp]; rfl) (by rw [hp]; simp [Process.written])
          refine h.served hinj rfl rfl hm ⟨hpos, hvalues⟩ hstands ?_ (Or.inl rfl) hordered
          have hbounds := h.ordered.bounds
          have hvalue : returnValue (char (getMV m 0 x.tables)) = getMV m 0 x.tables := by
            rw [returnValue, toInt_char_eq_iff]
            omega
          simp only [Server.serve, Outcome.sent, List.nil_append, Placed.delivered_reply]
          exact @Placed.replied (clients k) handles (getMV m 0 x.tables) .get
            (char (getMV m 0 x.tables)) (fun _ => hvalue)
      | set v =>
          obtain rfl := Option.some.inj hframe
          have hwritten : (x.processes k).written = false := by rw [hp]; rfl
          have hlt := h.ordered.lt hwritten
          have hbounds := h.ordered.bounds
          have hv : v = getMV m 0 x.tables := hset v rfl
          have hbyte : (char (v + 1)).toInt = v + 1 := by
            rw [toInt_char_eq_iff]
            omega
          have hdecode : decode (setMVSyscall handles.mv 0 (v + 1)).data =
              some (.client (.setMV m 0 (v + 1))) := by
            rw [setMVSyscall, Frame.data_ofBytes, ← hmv]
            nth_rewrite 2 [← hbyte]
            rfl
          simp only [hdecode, Option.some.injEq] at hstep
          subst hstep
          have ho := @serve_setMV x.tables m mv (clients k) x.numRequests hm hpos (v + 1)
          have hm' := mvAt_setMV hm { mv with values := mv.values.set 0 (v + 1) }
          have hget : getMV m 0 (x.tables.setMV m { mv with values := mv.values.set 0 (v + 1) }) =
              getMV m 0 x.tables + 1 := by
            rw [getMV_of_mvAt hm' hpos, ← hv]
            cases hl : mv.values with
            | nil => contradiction
            | cons w ws => rfl
          refine h.served hinj rfl ho hm' ⟨hpos, by simpa using hvalues⟩
            (hstands.congr rfl rfl) ?_ (Or.inr rfl) ?_
          · simp only [Outcome.sent, List.nil_append, Placed.delivered_reply]
            exact @Placed.replied _ _ _ (.set v) 127 (by simp)
          · rw [hget]
            apply h.ordered.snoc hwritten
            · intro k' hkk
              simp only [process, Counting.setProcess, ne_eq, hkk, not_false_eq_true,
                Function.update_of_ne]
              exact ⟨written_inbox _ _, trivial⟩
            · simp [process, Counting.setProcess, Process.written]
            · simp [process, Counting.setProcess, Stage.value, hv]
      | release v =>
          obtain rfl := Option.some.inj hframe
          have hdecode : decode (releaseSyscall handles.lock).data = some (.client (.release i)) := by
            rw [releaseSyscall, Frame.data_ofBytes, ← hlock]
            rfl
          simp only [hdecode, Option.some.injEq] at hstep
          subst hstep
          obtain ⟨hm', hget⟩ := hsame (.release i) rfl rfl
          have hordered := h.ordered_process k (clients k) (.release i) ⟨.release v, true, [], []⟩
            (by rw [hp]; rfl) (by rw [hp]; simp)
          rw [← hget] at hordered
          obtain ⟨hstands', hmails⟩ :=
            @Stands.release x.tables i x.numRequests (clients k) hstands h.tables ⟨0, 1⟩
          refine h.served hinj rfl rfl hm' ⟨hpos, hvalues⟩ hstands' ?_ (Or.inl hget) hordered
          rw [Placed.delivered_eq, hmails, Placed.delivered_reply]
          exact @Placed.replied _ _ _ (.release v) ack (by simp)

theorem Ok.step (hinj : ∀ k k', (clients k).machine = (clients k').machine → k = k')
    (hn : n ≤ 127) (hlock : (char handles.lock).toInt = i) (hmv : (char handles.mv).toInt = m)
    (h : x.Ok clients handles i m) {a : Action n}
    (hstep : Counting.step clients handles m x a = some x') :
  x'.Ok clients handles i m
  := by
  cases a with
  | call k => exact h.call hstep
  | serve k => exact h.serve hinj hn hlock hmv hstep
  | receive k => exact h.receive hstep
  | other c request => exact h.other hstep

/-- What has been read when the processes are at their places. -/
theorem Ok.counted (hinj : ∀ k k', (clients k).machine = (clients k').machine → k = k')
    (h : x.Ok clients handles i m) :
  x.Counted m
  := by
  obtain ⟨order, hnodup, hmem, hpos, hlength⟩ := h.ordered
  -- a process that has read a value is in the order, or owns the lock and has read the last value
  have hread : ∀ k v, (x.processes k).stage.value = some v →
      (∃ j : ℕ, order[j]? = some k ∧ v = j) ∨
        Stands x.tables i (clients k).machine true [] ∧ v = order.length := by
    intro k v hv
    cases hwritten : (x.processes k).written with
    | true =>
        left
        obtain ⟨j, hj⟩ := List.getElem?_of_mem ((hmem k).mpr hwritten)
        use j, hj
        exact Option.some.inj (hv.symm.trans (hpos j k hj))
    | false =>
        right
        obtain ⟨owns, queue, hstands, hplaced⟩ := h.placed k
        rw [← hlength]
        generalize x.processes k = p at hplaced hwritten hv
        cases hplaced with
        | @ready stage hset | @sent stage f hframe hset =>
            cases stage with
            | set w =>
                obtain rfl := Option.some.inj hv
                exact ⟨hstands, hset w rfl⟩
            | acquire | get | release | done => simp [Process.written, Stage.value] at hv hwritten
        | queued => simp [Stage.value] at hv
        | @replied stage b hget =>
            cases stage <;> simp [Process.written, Stage.value] at hv hwritten
  have hlt : ∀ {j k}, order[j]? = some k → j < order.length :=
    fun hj => (List.getElem?_eq_some_iff.mp hj).1
  constructor
  · intro k k' v hv hv'
    obtain ⟨j, hj, rfl⟩ | ⟨hstands, rfl⟩ := hread k v hv
    · obtain ⟨j', hj', hjj⟩ | ⟨-, hjj⟩ := hread k' _ hv'
      · obtain rfl : j = j' := by omega
        exact Option.some.inj (hj.symm.trans hj')
      · have := hlt hj
        omega
    · obtain ⟨j', hj', hjj⟩ | ⟨hstands', -⟩ := hread k' _ hv'
      · have := hlt hj'
        omega
      · by_contra hne
        have hfalse := hstands.not_owns hstands' (fun hm => hne (hinj k k' hm))
        cases hfalse
  · intro hdone
    have hall : ∀ k, k ∈ order := by
      intro k
      obtain ⟨v, hv⟩ := hdone k
      simp [hmem, Process.written, hv]
    have hcard : order.length = n := by
      apply le_antisymm
      · simpa using hnodup.length_le_card
      · have hsub : (List.finRange n).length ≤ order.length :=
          ((List.nodup_finRange n).subperm (fun k _ => hall k)).length_le
        simpa using hsub
    refine ⟨?_, by rw [hlength, hcard]⟩
    intro v
    constructor
    · rintro ⟨k, hv⟩
      obtain ⟨j, hj⟩ := List.getElem?_of_mem (hall k)
      have hvj : v = j := Option.some.inj (hv.symm.trans (hpos j k hj))
      have := hlt hj
      omega
    · rintro ⟨hge, hlt'⟩
      have hj : v.toNat < order.length := by omega
      use order[v.toNat]
      rw [hpos v.toNat _ (List.getElem?_eq_getElem hj)]
      congr 1
      omega

end Counting

/-! ### The beginning -/

/-- The requests that create an object. -/
def isCreate : Request → Bool
  | .createLock _ | .createCV _ | .createMV _ _ => true
  | _ => false

/-- Nobody has used the objects. -/
structure Fresh (s : State) : Prop where
  locks : ∀ lock ∈ s.serverLockTable, lock.owner = -1 ∧ lock.waitQueue = []
  cvs : ∀ cv ∈ s.serverCVTable, cv.waitQueue = []
  mvs : ∀ mv ∈ s.serverMVTable, mv.values = List.replicate mv.numElements 0

/-- An object is created. -/
theorem Fresh.serve {s : State} (h : Fresh s) {request : Request} (hcreate : isCreate request = true)
    (n : ℕ) (c : Server.Client) :
  Fresh (serve ⟨0, 1⟩ n c request s).state
  := by
  obtain ⟨hlocks, hcvs, hmvs⟩ := h
  cases request with
  | createLock name =>
      simp only [Server.serve, createLock]
      split
      · exact ⟨hlocks, hcvs, hmvs⟩
      · refine ⟨?_, hcvs, hmvs⟩
        intro lock hlock
        obtain hlock | hlock := List.mem_append.mp hlock
        · exact hlocks lock hlock
        · obtain rfl := List.mem_singleton.mp hlock
          exact ⟨rfl, rfl⟩
  | createCV name =>
      simp only [Server.serve, createCV]
      split
      · exact ⟨hlocks, hcvs, hmvs⟩
      · refine ⟨hlocks, ?_, hmvs⟩
        intro cv hcv
        obtain hcv | hcv := List.mem_append.mp hcv
        · exact hcvs cv hcv
        · obtain rfl := List.mem_singleton.mp hcv
          rfl
  | createMV name numElements =>
      simp only [Server.serve, createMV]
      split
      · exact ⟨hlocks, hcvs, hmvs⟩
      · refine ⟨hlocks, hcvs, ?_⟩
        intro mv hmv
        obtain hmv | hmv := List.mem_append.mp hmv
        · exact hmvs mv hmv
        · obtain rfl := List.mem_singleton.mp hmv
          rfl
  | _ => cases hcreate

theorem not_isDestroy_of_isCreate {request : Request} (h : isCreate request = true) :
  request.isDestroy = false
  := by
  cases request with
  | createLock | createCV | createMV => rfl
  | _ => cases h

theorem fresh_run {creates : List (Server.Client × Request)}
    (hcreates : ∀ a ∈ creates, isCreate a.2 = true) :
  Fresh (Trace.run ⟨0, 1⟩ creates).state
  := by
  apply Trace.run_induction (I := fun t => Fresh t.state) _ _ rfl
    (fun a ha => not_isDestroy_of_isCreate (hcreates a ha))
  · constructor <;> simp [Trace.initial, State.initial]
  · intro t a _ h ha
    exact h.serve (hcreates a ha) _ _

namespace Counting

variable {n : ℕ} {clients : Fin n → Server.Client} {handles : Handles}
  {creates : List (Server.Client × Request)} {i : Int} {m : ℕ} {lock : ServerLock} {mv : ServerMV}

theorem ok_initial (hcreates : ∀ a ∈ creates, isCreate a.2 = true)
    (hi : (Trace.run ⟨0, 1⟩ creates).state.lockAt i = some lock)
    (hm : (Trace.run ⟨0, 1⟩ creates).state.serverMVTable[m]? = some mv)
    (hpos : 0 < mv.numElements) :
  (initial n creates).Ok clients handles i m
  := by
  obtain ⟨hlocks, hcvs, hmvs⟩ := fresh_run hcreates
  have hat : (Trace.run ⟨0, 1⟩ creates).state.mvAt m = some mv := by
    have hge : (-1 : Int) < m := by omega
    simp [State.mvAt, hge, hm]
  have hvalues := hmvs mv (List.mem_of_getElem? hm)
  have hne : mv.values ≠ [] := by
    rw [hvalues]
    simp
    omega
  have hget : getMV m 0 (Trace.run ⟨0, 1⟩ creates).state = 0 := by
    rw [getMV_of_mvAt hat hpos, hvalues]
    simp
  refine ⟨?_, ⟨mv, hat, hpos, hne⟩, ?_, ?_⟩
  · exact (Trace.ok_run rfl creates
      (fun a ha => not_isDestroy_of_isCreate (hcreates a ha))).state
  · intro k
    use false, []
    constructor
    · constructor
      · obtain ⟨howner, hqueue⟩ := hlocks lock (List.mem_of_getElem? (State.getElem?_of_lockAt hi).2)
        use lock, hi
        simp [howner, hqueue]
      · intro j lock' hj _ r hr
        rw [(hlocks lock' (List.mem_of_getElem? (State.getElem?_of_lockAt hj).2)).2] at hr
        cases hr
      · intro j cv hj r hr
        rw [hcvs cv (List.mem_of_getElem? (State.getElem?_of_cvAt hj).2)] at hr
        cases hr
    · exact @Placed.ready (clients k) handles _ .acquire (by simp)
  · simp only [initial, hget]
    exact ⟨[], List.nodup_nil, by simp [Process.initial, Process.written], by simp, by simp⟩

/-- Lock `l` and monitor variable `m` have been created, and then up to 127 processes on different
machines each take a number from the variable while they hold the lock. If the handle of the lock is
not negative as a byte, and that of the variable is less than 128, no update is lost. -/
theorem no_lost_update (hn : n ≤ 127)
    (hclients : ∀ k k', (clients k).machine = (clients k').machine → k = k')
    (hcreates : ∀ a ∈ creates, isCreate a.2 = true) {l : ℕ}
    (hl : l < (Trace.run ⟨0, 1⟩ creates).state.serverLockTable.length)
    (hm : (Trace.run ⟨0, 1⟩ creates).state.serverMVTable[m]? = some mv)
    (hpos : 0 < mv.numElements) (hlock : l % 256 < 128) (hmv : m < 128)
    {actions : List (Action n)} {x : Counting n}
    (hrun : Transition.run (step clients ⟨returnValue (char l), returnValue (char m)⟩ m)
      (initial n creates) actions = some x) :
  x.Counted m
  := by
  have hchar : ∀ j : ℕ, char (returnValue (char j)) = char j := by
    intro j
    rw [char, returnValue, Int8.ofInt_toInt]
  have hi : (char (returnValue (char l))).toInt = (l % 256 : ℕ) := by
    rw [hchar, char, Int8.toInt_ofInt, Int.bmod_def]
    simp only [Int8.size]
    omega
  have hm' : (char (returnValue (char m))).toInt = m := by
    rw [hchar, toInt_char_eq_iff]
    omega
  have hlt : l % 256 < (Trace.run ⟨0, 1⟩ creates).state.serverLockTable.length :=
    lt_of_le_of_lt (Nat.mod_le l 256) hl
  have hat : (Trace.run ⟨0, 1⟩ creates).state.lockAt (l % 256 : ℕ) =
      some (Trace.run ⟨0, 1⟩ creates).state.serverLockTable[l % 256] := by
    have hge : (-1 : Int) < (l % 256 : ℕ) := by omega
    rw [State.lockAt, if_pos hge, Int.toNat_natCast, List.getElem?_eq_getElem hlt]
  have hok := @Transition.run_invariant _ _ _
    (Ok clients ⟨returnValue (char l), returnValue (char m)⟩ (l % 256 : ℕ) m) (fun _ _ => True)
    (fun x a x' hx _ hstep => hx.step hclients hn hi hm' hstep) _ _ _
    (ok_initial hcreates hat hm hpos) (Transition.along_of_forall (fun _ _ => trivial) _ _) hrun
  exact hok.counted hclients

/-- Two clients. -/
def twoClients (k : Fin 2) : Server.Client := ⟨k + 1, 0⟩

/-- The values that the two processes have read. -/
def twoValues (x : Counting 2) : Option Int × Option Int :=
  ((x.processes 0).stage.value, (x.processes 1).stage.value)

/-- A lock and a monitor variable are created. -/
def createOne : List (Server.Client × Request) :=
  [(⟨1, 0⟩, .createLock [76]), (⟨1, 0⟩, .createMV [77] 1)]

/-- The second process has to wait for the lock. -/
def takeTurns : List (Action 2) :=
  [.call 0, .serve 0, .call 1, .serve 1, .receive 0, .call 0, .serve 0, .receive 0, .call 0, .serve 0,
    .receive 0, .call 0, .serve 0, .receive 0, .receive 1, .call 1, .serve 1, .receive 1, .call 1,
    .serve 1, .receive 1, .call 1, .serve 1, .receive 1]

theorem no_lost_update_two :
  ∃ x, Transition.run (step twoClients ⟨returnValue (char 0), returnValue (char 0)⟩ 0)
      (initial 2 createOne) takeTurns = some x ∧
    twoValues x = (some 0, some 1) ∧ x.Counted 0
  := by
  have hvalues : (Transition.run (step twoClients ⟨returnValue (char 0), returnValue (char 0)⟩ 0)
      (initial 2 createOne) takeTurns).map twoValues = some (some 0, some 1) := by decide
  obtain ⟨x, hx, hread⟩ := Option.map_eq_some_iff.mp hvalues
  refine ⟨x, hx, hread, ?_⟩
  exact @no_lost_update 2 twoClients createOne 0 (ServerMV.new 1 [77] 0) (by decide) (by decide)
    (by decide) 0 (by decide) rfl (by decide) (by decide) (by decide) takeTurns x hx

/-- 129 locks and a monitor variable are created. -/
def createMany : List (Server.Client × Request) :=
  (List.range 129).map (fun i => (⟨1, 0⟩, .createLock [char (i + 1)])) ++
    [(⟨1, 0⟩, .createMV [77] 1)]

/-- Neither process has to wait for the lock. -/
def readBoth : List (Action 2) :=
  [.call 0, .serve 0, .receive 0, .call 1, .serve 1, .receive 1, .call 0, .serve 0, .receive 0,
    .call 1, .serve 1, .receive 1]

/-- The handle of the last lock is `-128`, and nobody has to wait for it. -/
theorem not_no_lost_update :
  128 < (Trace.run ⟨0, 1⟩ createMany).state.serverLockTable.length ∧
    ∃ x, Transition.run (step twoClients ⟨returnValue (char 128), returnValue (char 0)⟩ 0)
      (initial 2 createMany) readBoth = some x ∧ ¬ x.Counted 0
  := by
  refine ⟨by decide +kernel, ?_⟩
  have hvalues : (Transition.run (step twoClients ⟨returnValue (char 128), returnValue (char 0)⟩ 0)
      (initial 2 createMany) readBoth).map twoValues = some (some 0, some 0) := by decide +kernel
  obtain ⟨x, hx, hread⟩ := Option.map_eq_some_iff.mp hvalues
  refine ⟨x, hx, ?_⟩
  rintro ⟨hdistinct, -⟩
  obtain ⟨h₀, h₁⟩ := Prod.mk.inj hread
  have hsame := hdistinct 0 1 0 h₀ h₁
  cases hsame

end Counting

end Nachos.Client
