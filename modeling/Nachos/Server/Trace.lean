import Nachos.Server.Served

/-!
# Runs of a lock server

A run of one server is a list of requests in the order in which they arrive. `Trace` is what has
happened after some of them: the tables, the requests processed, the messages sent, and for each
lock who holds it, to whom it was granted last, and which requests were put on its queue and
taken off it. Only the tables are read by the server.

An iteration keeps the tables well formed (`Served.ok`), and every reply on the queue of a lock,
or on the queue of a condition variable bound to it, answers an `Acquire` of that lock or a `Wait`
with it that the server has accepted (`Trace.Ok`).
-/

namespace Nachos.Server

/-! ### Properties of all entries -/

namespace State

/-- `P` holds of every lock and its position. -/
def AllLocks (P : Int → ServerLock → Prop) (s : State) : Prop :=
  ∀ i lock, s.lockAt i = some lock → P i lock

/-- `P` holds of every condition variable and its position. -/
def AllCVs (P : Int → ServerCV → Prop) (s : State) : Prop :=
  ∀ j cv, s.cvAt j = some cv → P j cv

theorem AllLocks.set {P : Int → ServerLock → Prop} {s : State} (h : s.AllLocks P) {i : Int}
    {lock lock' : ServerLock} (hi : s.lockAt i = some lock) (hP : P i lock') :
  (s.setLock i lock').AllLocks P
  := by
  intro k l hk
  rw [lockAt_setLock hi] at hk
  split at hk
  · rename_i hki
    obtain rfl := Option.some.inj hk
    rw [hki]
    apply hP
  · apply h k l hk

theorem AllCVs.set {P : Int → ServerCV → Prop} {s : State} (h : s.AllCVs P) {j : Int}
    {cv cv' : ServerCV} (hj : s.cvAt j = some cv) (hP : P j cv') :
  (s.setCV j cv').AllCVs P
  := by
  intro k l hk
  rw [cvAt_setCV hj] at hk
  split at hk
  · rename_i hki
    obtain rfl := Option.some.inj hk
    rw [hki]
    apply hP
  · apply h k l hk

/-- The locks stay as they are when a condition variable is overwritten. -/
theorem AllLocks.setCV {P : Int → ServerLock → Prop} {s : State} (h : s.AllLocks P) (j : Int)
    (cv : ServerCV) :
  (s.setCV j cv).AllLocks P
  := h

/-- Entry `i` of a table to which `x` has been added. -/
theorem getElem?_append_toNat {ε : Type*} {l : List ε} {x y : ε} {i : Int}
    (h : (l ++ [x])[i.toNat]? = some y) :
  l[i.toNat]? = some y ∨ y = x
  := by
  rw [List.getElem?_append] at h
  split at h
  · left
    apply h
  · right
    have hy := List.mem_of_getElem? h
    simpa using hy

theorem AllLocks.append {P : Int → ServerLock → Prop} {s : State} (h : s.AllLocks P)
    {lock : ServerLock} (hP : ∀ i, P i lock) :
  State.AllLocks P { s with serverLockTable := s.serverLockTable ++ [lock] }
  := by
  intro i l hl
  obtain ⟨hi, hl⟩ := getElem?_of_lockAt hl
  obtain hold | rfl := getElem?_append_toNat hl
  · apply h i l
    simp [lockAt, hi, hold]
  · apply hP

theorem AllCVs.append {P : Int → ServerCV → Prop} {s : State} (h : s.AllCVs P)
    {cv : ServerCV} (hP : ∀ j, P j cv) :
  State.AllCVs P { s with serverCVTable := s.serverCVTable ++ [cv] }
  := by
  intro j l hl
  obtain ⟨hj, hl⟩ := getElem?_of_cvAt hl
  obtain hold | rfl := getElem?_append_toNat hl
  · apply h j l
    simp [cvAt, hj, hold]
  · apply hP

/-- The locks do not depend on the other tables. -/
theorem lockAt_congr {s s' : State} (h : s'.serverLockTable = s.serverLockTable) (i : Int) :
  s'.lockAt i = s.lockAt i
  := by
  simp [lockAt, h]

theorem cvAt_congr {s s' : State} (h : s'.serverCVTable = s.serverCVTable) (j : Int) :
  s'.cvAt j = s.cvAt j
  := by
  simp [cvAt, h]

end State

/-! ### Preservation -/

/-- The lock the sender of a request holds once the request is answered, if it is accepted. -/
def Request.asksFor : Request → Option Int
  | .acquire index => some index
  | .wait _ lockIndex => some lockIndex
  | _ => none

/-- The server will grant the lock the request asks for: an `Acquire` of a lock in the table, or
a `Wait` it does not reject. -/
def accepts (c : Client) (s : State) : Request → Bool
  | .acquire index => (s.lockAt index).isSome
  | .wait condIndex lockIndex => ownedBy c lockIndex s && waitable condIndex lockIndex s
  | _ => false

section Preservation

variable {P : Int → ServerLock → Prop} {Q : Int → ServerCV → Prop} {n : ℕ} {c : Client}
  {s : State} {request : Request} {o : Outcome}

/-- What holds of all locks and all condition variables still does after a request, if it is
preserved by what an iteration does to single entries. -/
theorem Served.preserves (h : Served n c s request o) (hL : s.AllLocks P) (hC : s.AllCVs Q)
    (hnewLock : ∀ i name id, P i (ServerLock.new name id))
    (hnewCV : ∀ j name id, Q j (ServerCV.new name id))
    (htake : ∀ i lock, s.lockAt i = some lock → P i lock → lock.available = true →
      P i { lock with available := false, owner := c.machine })
    (hqueue : ∀ i lock, s.lockAt i = some lock → accepts c s request = true →
      request.asksFor = some i → P i lock → lock.available = false →
      P i (lock.append [replyMsg n c ack]))
    (hover : ∀ i lock, s.lockAt i = some lock → P i lock → P i lock.handOver)
    (hwake : ∀ j i cv lock k, request = .signal j i ∨ request = .broadcast j i →
      s.cvAt j = some cv → s.lockAt i = some lock → Q j cv → P i lock →
      lock.owner = c.machine → cv.serverLockIndex = i →
      Q j (cv.wake k) ∧ P i (lock.append (cv.waitQueue.take k)))
    (hpark : ∀ j i cv, s.cvAt j = some cv → -1 < i → accepts c s request = true →
      request.asksFor = some i → Q j cv → (cv.serverLockIndex = i ∨ cv.serverLockIndex = -1) →
      Q j (cv.park i (replyMsg n c ack))) :
  o.state.AllLocks P ∧ o.state.AllCVs Q
  := by
  cases h with
  | other _ hlocks hcvs =>
      constructor
      · intro i lock hi
        rw [State.lockAt_congr hlocks] at hi
        apply hL i lock hi
      · intro j cv hj
        rw [State.cvAt_congr hcvs] at hj
        apply hC j cv hj
  | newLock => exact ⟨hL.append (fun i => hnewLock i _ _), hC⟩
  | newCV => exact ⟨hL, hC.append (fun j => hnewCV j _ _)⟩
  | refused => exact ⟨hL, hC⟩
  | take hi hav => exact ⟨hL.set hi (htake _ _ hi (hL _ _ hi) hav), hC⟩
  | @queue i lock hi hav =>
      have hacc : accepts c s (.acquire i) = true := by simp [accepts, hi]
      exact ⟨hL.set hi (hqueue _ _ hi hacc rfl (hL _ _ hi) hav), hC⟩
  | release hi => exact ⟨hL.set hi (hover _ _ hi (hL _ _ hi)), hC⟩
  | wake hrequest hj hi howner hbound =>
      obtain ⟨hcv, hlock⟩ :=
        hwake _ _ _ _ _ hrequest hj hi (hC _ _ hj) (hL _ _ hi) howner hbound
      exact ⟨(hL.setCV _ _).set hi hlock, hC.set hj hcv⟩
  | @wait j i cv lock hj hi howner hbound =>
      have hacc : accepts c s (.wait j i) = true := by
        simpa [accepts, ownedBy, waitable, hi, hj, howner] using hbound
      constructor
      · exact (hL.setCV _ _).set hi (hover i lock hi (hL _ _ hi))
      · apply hC.set hj
        apply hpark _ _ _ hj (State.getElem?_of_lockAt hi).1 hacc rfl (hC _ _ hj) hbound

/-- A request leaves the tables well formed. -/
theorem Served.ok (h : Served n c s request o) (hs : s.Ok) :
  o.state.Ok
  := by
  obtain ⟨hL, hC⟩ := h.preserves (P := fun _ lock => lock.Ok) (Q := fun _ cv => cv.Ok)
    (fun i lock hi => hs.lock hi) (fun j cv hj => hs.cv hj)
    (by
      intro _ name id
      constructor <;> simp [ServerLock.new])
    (by
      intro _ name id
      constructor <;> simp [ServerCV.new])
    (fun i lock _ hok hav => (hok.agree.take c.machine hav).ok hok.live)
    (fun i lock _ _ _ hok hav => (hok.agree.append hav _).ok hok.live)
    (by
      intro i lock _ hok
      apply hok.agree.handOver.ok
      rw [lock.handOver_live.1, lock.handOver_live.2]
      apply hok.live)
    (by
      intro j i cv lock k _ _ _ hcv hlock howner _
      have hne := hlock.agree.not_available howner
      exact ⟨(hcv.agree.wake k).ok hcv.live, (hlock.agree.append hne _).ok hlock.live⟩)
    (fun j i cv _ hi _ _ hok _ => (hok.agree.park hi _).ok hok.live)
  exact ⟨fun {i} {lock} hi => hL i lock hi, fun {j} {cv} hj => hC j cv hj⟩

end Preservation

/-! ### Histories -/

/-- A request that has been processed. -/
structure Entry where
  client : Client
  request : Request
  /-- The request asks for a lock, and the server will grant it. -/
  accepted : Bool
deriving DecidableEq, Repr

/-- The lock the sender of a request gives up when the request is processed. -/
def givesUp (c : Client) (s : State) : Request → Option Int
  | .release index => some index
  | .wait condIndex lockIndex =>
      if accepts c s (.wait condIndex lockIndex) then some lockIndex else none
  | _ => none

/-- The clients to whom the messages `mails` grant lock `i`, where request `k` is `log[k]`. -/
def grantees (log : List Entry) (i : Int) (mails : List Mail) : List Client :=
  mails.filterMap (fun mail => do
    let e ← log[mail.request]?
    if e.accepted ∧ e.request.asksFor = some i then some e.client else none)

/-- The replies on the queue of condition variable `j`. -/
def waitersOf (j : Int) (s : State) : List ReplyMsg :=
  match s.cvAt j with
  | some cv => cv.waitQueue
  | none => []

/-- The requests put on the queue of lock `i` in the iteration for request `n`: an `Acquire` that
is not answered, and the waiters a `Signal` or `Broadcast` takes from a condition variable. -/
def newlyQueued (n : ℕ) (s : State) (request : Request) (o : Outcome) (i : Int) : List ℕ :=
  match request with
  | .acquire index => if index = i ∧ o.answer = [] then [n] else []
  | .signal condIndex lockIndex | .broadcast condIndex lockIndex =>
      if lockIndex = i then
        ((waitersOf condIndex s).take
          ((waitersOf condIndex s).length - (waitersOf condIndex o.state).length)).map (·.request)
      else []
  | _ => []

/-- What has happened in a run. -/
structure Trace where
  state : State
  /-- The requests processed; request `k` is at position `k`. -/
  log : List Entry
  /-- The messages sent, in order. -/
  sent : List Mail
  /-- The machines of the clients that hold a lock. -/
  holders : Int → List ℕ
  /-- The client to whom a lock was granted last. -/
  lastGranted : Int → Option Client
  /-- The requests put on the queue of a lock, in order. -/
  queued : Int → List ℕ
  /-- The requests taken off the queue of a lock, in order. -/
  granted : Int → List ℕ

namespace Trace

/-- Nothing has happened. -/
def initial : Trace := ⟨State.initial, [], [], fun _ => [], fun _ => none, fun _ => [], fun _ => []⟩

/-- One more request is processed. -/
def next (cfg : Config) (t : Trace) (a : Client × Request) : Trace :=
  let o := serve cfg t.log.length a.1 a.2 t.state
  let log := t.log ++ [⟨a.1, a.2, accepts a.1 t.state a.2⟩]
  { state := o.state
    log := log
    sent := t.sent ++ o.sent
    holders := fun i =>
      (if givesUp a.1 t.state a.2 = some i then (t.holders i).filter (· != a.1.machine)
        else t.holders i) ++ (grantees log i o.sent).map (·.machine)
    lastGranted := fun i => (grantees log i o.sent).getLast?.or (t.lastGranted i)
    queued := fun i => t.queued i ++ newlyQueued t.log.length t.state a.2 o i
    granted := fun i =>
      t.granted i ++ if a.2.lockIndex = some i then o.granted.map (·.request) else [] }

/-- The reply `r` answers a request of the log that has been accepted and asks for lock `i`. -/
def WaitsFor (log : List Entry) (i : Int) (r : ReplyMsg) : Prop :=
  ∃ e, log[r.request]? = some e ∧ e.accepted = true ∧ e.request.asksFor = some i ∧
    r = replyMsg r.request e.client ack

/-- The tables are well formed, and the replies on a queue wait for the lock of the queue. -/
structure Ok (t : Trace) : Prop where
  state : t.state.Ok
  lockQueue : t.state.AllLocks (fun i lock => ∀ r ∈ lock.waitQueue, WaitsFor t.log i r)
  cvQueue : t.state.AllCVs (fun _ cv => ∀ r ∈ cv.waitQueue, WaitsFor t.log cv.serverLockIndex r)

theorem WaitsFor.snoc {log : List Entry} {i : Int} {r : ReplyMsg} (h : WaitsFor log i r)
    (e : Entry) :
  WaitsFor (log ++ [e]) i r
  := by
  obtain ⟨e', hlog, h⟩ := h
  use e'
  constructor
  · obtain ⟨hlt, -⟩ := List.getElem?_eq_some_iff.mp hlog
    rw [List.getElem?_append_left hlt, hlog]
  · apply h

/-- The reply to the request just processed waits for the lock the request asks for. -/
theorem WaitsFor.last (log : List Entry) {e : Entry} {i : Int} (hacc : e.accepted = true)
    (hask : e.request.asksFor = some i) :
  WaitsFor (log ++ [e]) i (replyMsg log.length e.client ack)
  := by
  use e
  constructor
  · simp [replyMsg]
  · exact ⟨hacc, hask, rfl⟩

theorem ok_initial :
  initial.Ok
  := by
  constructor
  · apply State.ok_initial
  · intro i lock hi
    simp [initial, State.initial, State.lockAt] at hi
  · intro j cv hj
    simp [initial, State.initial, State.cvAt] at hj

theorem handOver_waitQueue_subset (lock : ServerLock) :
  lock.handOver.waitQueue ⊆ lock.waitQueue
  := by
  unfold ServerLock.handOver
  cases hq : lock.waitQueue with
  | nil => simp
  | cons r rest => simp

variable {cfg : Config}

/-- The request processed in a step is served. -/
theorem served_next (hcfg : cfg.numServers = 1) {t : Trace} (ht : t.Ok) {a : Client × Request}
    (ha : a.2.isDestroy = false) :
  Served t.log.length a.1 t.state a.2 (serve cfg t.log.length a.1 a.2 t.state)
  := serve_served hcfg _ _ ha ht.state

/-- A request keeps the replies on the queues of the locks they wait for. -/
theorem Ok.next (hcfg : cfg.numServers = 1) {t : Trace} (ht : t.Ok) {a : Client × Request}
    (ha : a.2.isDestroy = false) :
  (t.next cfg a).Ok
  := by
  have hserved := served_next hcfg ht ha
  let e : Entry := ⟨a.1, a.2, accepts a.1 t.state a.2⟩
  obtain ⟨hL, hC⟩ := hserved.preserves
    (P := fun i lock => ∀ r ∈ lock.waitQueue, WaitsFor (t.log ++ [e]) i r)
    (Q := fun _ cv => ∀ r ∈ cv.waitQueue, WaitsFor (t.log ++ [e]) cv.serverLockIndex r)
    (fun i lock hi r hr => (ht.lockQueue i lock hi r hr).snoc e)
    (fun j cv hj r hr => (ht.cvQueue j cv hj r hr).snoc e)
    (by
      intro _ _ _ r hr
      simp [ServerLock.new] at hr)
    (by
      intro _ _ _ r hr
      simp [ServerCV.new] at hr)
    (fun _ _ _ h _ => h)
    (by
      intro i lock _ hacc hask h _ r hr
      obtain hr | hr := List.mem_append.mp hr
      · apply h r hr
      · obtain rfl := List.mem_singleton.mp hr
        apply WaitsFor.last t.log (e := e) hacc hask)
    (fun i lock _ h r hr => h r (handOver_waitQueue_subset lock hr))
    (by
      rintro j i cv lock k _ _ _ hcv hlock _ rfl
      constructor
      · intro r hr
        apply hcv r (List.mem_of_mem_drop hr)
      · intro r hr
        obtain hr | hr := List.mem_append.mp hr
        · apply hlock r hr
        · apply hcv r (List.mem_of_mem_take hr))
    (by
      intro j i cv hj hi hacc hask h hbound r hr
      obtain hold | hr := List.mem_append.mp hr
      · have hbound' : cv.serverLockIndex = i := by
          apply hbound.resolve_right
          apply (ht.state.cv hj).bound
          apply List.ne_nil_of_mem hold
        obtain rfl := hbound'
        apply h r hold
      · obtain rfl := List.mem_singleton.mp hr
        apply WaitsFor.last t.log (e := e) hacc hask)
  exact ⟨hserved.ok ht.state, hL, hC⟩

/-- The run of a server by the requests `as`. -/
def run (cfg : Config) (as : List (Client × Request)) : Trace := as.foldl (next cfg) initial

/-- What the initial trace satisfies and every request preserves holds after every run. -/
theorem run_induction {I : Trace → Prop} (hinit : I initial) {as : List (Client × Request)}
    (hstep : ∀ t a, t.Ok → I t → a ∈ as → I (t.next cfg a)) (hcfg : cfg.numServers = 1)
    (has : ∀ a ∈ as, a.2.isDestroy = false) :
  I (run cfg as)
  := by
  suffices h : (run cfg as).Ok ∧ I (run cfg as) from h.2
  apply List.foldlRecOn (motive := fun t => t.Ok ∧ I t) as (next cfg) ⟨ok_initial, hinit⟩
  rintro t ⟨hok, hI⟩ a ha
  exact ⟨hok.next hcfg (has a ha), hstep t a hok hI ha⟩

theorem ok_run (hcfg : cfg.numServers = 1) (as : List (Client × Request))
    (has : ∀ a ∈ as, a.2.isDestroy = false) :
  (run cfg as).Ok
  := by
  apply run_induction ok_initial _ hcfg has
  intro t a ht _ ha
  apply ht.next hcfg (has a ha)

end Trace

end Nachos.Server
