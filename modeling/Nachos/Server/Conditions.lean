import Nachos.Monitor.Conditions
import Nachos.Server.Trace

/-!
# Condition variables of a server and of a kernel

A condition variable of the server has the lock that was passed to the last `Wait` it has accepted
(`serverLockIndex`), and keeps it when nobody waits any more. A condition variable of the kernel then
forgets the lock (`waitingLock`).

Both accept the same waits and wake the same waiters exactly as long as every `Wait` on a condition
variable on which nobody waits passes the lock of the first `Wait` on it (`Twin.agrees_iff`).
-/

namespace Nachos.Server

open Monitor (Condition)

namespace State

/-- The replies of those who wait on condition variable `j`. -/
def cvQueue (s : State) (j : Int) : List ReplyMsg := (s.cvAt j).elim [] (·.waitQueue)

/-- `serverLockIndex` of condition variable `j`. -/
def cvLock (s : State) (j : Int) : Int := (s.cvAt j).elim (-1) (·.serverLockIndex)

/-- The replies in the queue of lock `i`. -/
def lockQueue (s : State) (i : Int) : List ReplyMsg := (s.lockAt i).elim [] (·.waitQueue)

end State

/-- Whoever calls an operation of a condition variable owns the lock, and the condition variable
exists. Nothing is destroyed. -/
def allowed (c : Client) (s : State) : Request → Bool
  | .signal j i | .broadcast j i | .wait j i => ownedBy c i s && (s.cvAt j).isSome
  | request => !request.isDestroy

/-- A server, and the condition variables of a kernel for which the same operations are called by
threads with the numbers of the clients' machines. -/
structure Twin where
  server : State
  /-- The number of requests. -/
  requests : ℕ
  kernel : ℕ → Condition
  /-- Who waits on a condition variable, with the lock that was passed. -/
  waiting : Int → List (ℕ × Int)
  /-- The lock that was passed to the first `Wait` on a condition variable. -/
  firstLock : Int → Option Int

namespace Twin

def initial : Twin := ⟨State.initial, 0, fun _ => .new, fun _ => [], fun _ => none⟩

/-- The condition variables of the kernel after an operation. -/
def kernelNext (kernel : ℕ → Condition) (c : Client) : Request → ℕ → Condition
  | .wait j i => Function.update kernel j.toNat ((kernel j.toNat).wait c.machine i.toNat)
  | .signal j i => Function.update kernel j.toNat ((kernel j.toNat).signal i.toNat)
  | .broadcast j i => Function.update kernel j.toNat ((kernel j.toNat).broadcast i.toNat)
  | _ => kernel

/-- The server after a request. -/
def serverNext (cfg : Config) (t : Twin) (a : Client × Request) : State :=
  (serve cfg t.requests a.1 a.2 t.server).state

/-- The server puts the reply to `Wait` off. -/
def Accepted (cfg : Config) (t : Twin) (c : Client) (j i : Int) : Prop :=
  (t.serverNext cfg (c, .wait j i)).cvQueue j =
    t.server.cvQueue j ++ [replyMsg t.requests c ack]

instance (cfg : Config) (t : Twin) (c : Client) (j i : Int) : Decidable (t.Accepted cfg c j i) :=
  inferInstanceAs (Decidable (_ = _))

/-- Who waits after a request: those whose replies are still in the queue. -/
def waitingNext (cfg : Config) (t : Twin) (c : Client) : Request → Int → List (ℕ × Int)
  | .wait j i =>
      if t.Accepted cfg c j i then
        Function.update t.waiting j (t.waiting j ++ [(c.machine, i)])
      else t.waiting
  | .signal j i =>
      Function.update t.waiting j ((t.waiting j).drop
        ((t.server.cvQueue j).length - ((t.serverNext cfg (c, .signal j i)).cvQueue j).length))
  | .broadcast j i =>
      Function.update t.waiting j ((t.waiting j).drop
        ((t.server.cvQueue j).length - ((t.serverNext cfg (c, .broadcast j i)).cvQueue j).length))
  | _ => t.waiting

def firstLockNext (t : Twin) : Request → Int → Option Int
  | .wait j i => Function.update t.firstLock j (some ((t.firstLock j).getD i))
  | _ => t.firstLock

def next (cfg : Config) (t : Twin) (a : Client × Request) : Twin where
  server := t.serverNext cfg a
  requests := t.requests + 1
  kernel := kernelNext t.kernel a.1 a.2
  waiting := t.waitingNext cfg a.1 a.2
  firstLock := t.firstLockNext a.2

def step (cfg : Config) (t : Twin) (a : Client × Request) : Option Twin :=
  if allowed a.1 t.server a.2 then some (t.next cfg a) else none

/-- A request leads to a server and a kernel that have woken the same waiters of `j`, and the server
has moved them to the queue of lock `i`. -/
def WakesSame (t t' : Twin) (j i : Int) : Prop :=
  ∃ woken : List ReplyMsg, t.server.cvQueue j = woken ++ t'.server.cvQueue j ∧
    t'.server.lockQueue i = t.server.lockQueue i ++ woken ∧
    (t.kernel j.toNat).waitQueue =
      woken.map (·.idToSendTo) ++ (t'.kernel j.toNat).waitQueue

/-- The server accepts a `Wait` exactly if the kernel does, which it does exactly if nobody waits with
another lock, and both wake the same waiters. -/
def Agrees (cfg : Config) (t : Twin) (a : Client × Request) : Prop :=
  allowed a.1 t.server a.2 = true →
    match a.2 with
    | .wait j i =>
        (t.Accepted cfg a.1 j i ↔ (t.kernel j.toNat).Accepts i.toNat) ∧
          ((t.kernel j.toNat).Accepts i.toNat ↔ ∀ w ∈ t.waiting j, w.2 = i)
    | .signal j i | .broadcast j i => WakesSame t (t.next cfg a) j i
    | _ => True

/-- A `Wait` on a condition variable on which nobody waits passes the lock of the first `Wait`. -/
def SameLock (t : Twin) (a : Client × Request) : Prop :=
  allowed a.1 t.server a.2 = true →
    match a.2 with
    | .wait j i => t.waiting j = [] → t.firstLock j = none ∨ t.firstLock j = some i
    | _ => True

instance (t : Twin) (a : Client × Request) : Decidable (t.SameLock a) := by
  obtain ⟨c, request⟩ := a
  cases request <;> unfold SameLock <;> infer_instance

/-! ### What the server does -/

variable {cfg : Config} {n : ℕ} {c : Client} {s : State} {j i : Int} {cv : ServerCV}
  {lock : ServerLock}

theorem exists_of_allowed (h : (ownedBy c i s && (s.cvAt j).isSome) = true) :
  ∃ lock cv, s.lockAt i = some lock ∧ lock.owner = c.machine ∧ s.cvAt j = some cv
  := by
  obtain ⟨howned, hcv⟩ := Bool.and_eq_true_iff.mp h
  obtain ⟨lock, hi, howner⟩ := exists_of_ownedBy howned
  obtain ⟨cv, hj⟩ := Option.isSome_iff_exists.mp hcv
  exact ⟨lock, cv, hi, howner, hj⟩

/-- `Wait` is accepted if the condition variable has the lock or none. -/
theorem serve_wait (hcfg : cfg.numServers = 1) (hok : s.Ok) (hi : s.lockAt i = some lock)
    (howner : lock.owner = c.machine) (hj : s.cvAt j = some cv) :
  (serve cfg n c (.wait j i) s).state =
    if cv.serverLockIndex = i ∨ cv.serverLockIndex = -1 then
      (s.setCV j (cv.park i (replyMsg n c ack))).setLock i lock.handOver
    else s
  := by
  have hserved : Served n c s (.wait j i) (serve cfg n c (.wait j i) s) :=
    serve_served hcfg n c rfl hok
  generalize serve cfg n c (.wait j i) s = o at hserved
  have howned : ownedBy c i s = true := by simp [ownedBy, hi, howner]
  cases hserved with
  | other hrequest => cases hrequest
  | refused hrefused =>
      obtain hnot | hnot := hrefused
      · rw [howned] at hnot
        cases hnot
      · rw [if_neg]
        simpa [waitable, hj] using hnot
  | wait hj' hi' _ hbound =>
      obtain rfl := Option.some.inj (hj.symm.trans hj')
      obtain rfl := Option.some.inj (hi.symm.trans hi')
      rw [if_pos hbound]
  | wake hrequest => simp at hrequest

/-- `Signal` and `Broadcast` move waiters if the condition variable has the lock. -/
theorem serve_wakes (hcfg : cfg.numServers = 1) (hok : s.Ok) {request : Request}
    (hrequest : request = .signal j i ∨ request = .broadcast j i) (hi : s.lockAt i = some lock)
    (howner : lock.owner = c.machine) (hj : s.cvAt j = some cv) :
  (serve cfg n c request s).state =
    if cv.serverLockIndex = i then s.moved j i cv lock (request.wakes cv.waitQueue.length) else s
  := by
  have hdestroy : request.isDestroy = false := by
    obtain rfl | rfl := hrequest <;> rfl
  have hserved := serve_served hcfg n c hdestroy hok
  generalize serve cfg n c request s = o at hserved
  have howned : ownedBy c i s = true := by simp [ownedBy, hi, howner]
  cases hserved with
  | refused hrefused =>
      have hnot : ownedBy c i s = false ∨ boundTo j i s = false := by
        obtain rfl | rfl := hrequest <;> exact hrefused
      obtain hnot | hnot := hnot
      · rw [howned] at hnot
        cases hnot
      · rw [if_neg]
        simpa [boundTo, hj] using hnot
  | @wake _ j' i' cv' lock' hrequest' hj' hi' _ hbound =>
      obtain ⟨rfl, rfl⟩ : j' = j ∧ i' = i := by
        obtain rfl | rfl := hrequest <;> simpa [eq_comm] using hrequest'
      obtain rfl := Option.some.inj (hj.symm.trans hj')
      obtain rfl := Option.some.inj (hi.symm.trans hi')
      rw [if_pos hbound]
  | other hlock => obtain rfl | rfl := hrequest <;> cases hlock
  | newLock | newCV | take | queue | release | wait => simp at hrequest

theorem cvQueue_of_cvAt (hj : s.cvAt j = some cv) :
  s.cvQueue j = cv.waitQueue
  := by
  rw [State.cvQueue, hj]
  rfl

theorem cvLock_of_cvAt (hj : s.cvAt j = some cv) :
  s.cvLock j = cv.serverLockIndex
  := by
  rw [State.cvLock, hj]
  rfl

/-- Every other request leaves the condition variables as they are. -/
theorem serve_other (hcfg : cfg.numServers = 1) (hok : s.Ok) {request : Request}
    (hallowed : allowed c s request = true)
    (hrequest : ∀ j i, request ≠ .wait j i ∧ request ≠ .signal j i ∧ request ≠ .broadcast j i)
    (j : Int) :
  (serve cfg n c request s).state.cvQueue j = s.cvQueue j ∧
    (serve cfg n c request s).state.cvLock j = s.cvLock j
  := by
  have hdestroy : request.isDestroy = false := by
    cases request <;> simp_all [allowed]
  have hserved := serve_served hcfg n c hdestroy hok
  generalize serve cfg n c request s = o at hserved
  have hsame : ∀ {s' : State}, s'.serverCVTable = s.serverCVTable →
      s'.cvQueue j = s.cvQueue j ∧ s'.cvLock j = s.cvLock j := by
    intro s' hcvs
    rw [State.cvQueue, State.cvLock, State.cvAt_congr hcvs]
    exact ⟨rfl, rfl⟩
  cases hserved with
  | other _ _ hcvs => exact hsame hcvs
  | newCV =>
      -- a new condition variable is one that nobody has used
      rw [State.cvQueue, State.cvLock, State.cvQueue, State.cvLock, State.cvAt, State.cvAt]
      split
      · rename_i hj
        by_cases hlt : j.toNat < s.serverCVTable.length
        · rw [List.getElem?_append_left hlt]
          exact ⟨rfl, rfl⟩
        · rw [List.getElem?_eq_none (Nat.le_of_not_lt hlt)]
          by_cases heq : j.toNat = s.serverCVTable.length
          · simp [heq, ServerCV.new]
          · rw [List.getElem?_eq_none (by simp; omega)]
            exact ⟨rfl, rfl⟩
      · exact ⟨rfl, rfl⟩
  | wake hrequest' =>
      obtain rfl | rfl := hrequest'
      · exact absurd rfl (hrequest _ _).2.1
      · exact absurd rfl (hrequest _ _).2.2
  | wait => exact absurd rfl (hrequest _ _).1
  | newLock | refused | take | queue | release => exact hsame rfl

/-! ### The condition variables agree -/

/-- A condition variable of the server, with its lock and its queue, and one of the kernel. -/
structure Alike (index : Int) (queue : List ReplyMsg) (v : Condition) (waiting : List (ℕ × Int))
    (first : Option Int) : Prop where
  waitQueue : v.waitQueue = queue.map (·.idToSendTo)
  bound : queue ≠ [] → v.waitingLock = some index.toNat
  free : queue = [] → v.waitingLock = none
  index_eq : index = first.getD (-1)
  nonneg : ∀ i ∈ first, 0 ≤ i
  used : queue ≠ [] → first ≠ none
  waiting_eq : waiting = queue.map (fun reply => (reply.idToSendTo, index))

/-- All condition variables of the server are like those of the kernel. -/
structure Ok (t : Twin) : Prop where
  server : t.server.Ok
  cv : ∀ j : ℕ, Alike (t.server.cvLock j) (t.server.cvQueue j) (t.kernel j) (t.waiting j)
    (t.firstLock j)

theorem ok_initial :
  initial.Ok
  := by
  refine ⟨State.ok_initial, ?_⟩
  intro j
  have hnone : State.initial.cvAt j = none := by simp [State.cvAt, State.initial]
  simp only [initial, State.cvLock, State.cvQueue, hnone, Option.elim_none]
  exact ⟨rfl, fun hne => absurd rfl hne, fun _ => rfl, rfl, (by simp),
    fun hne => absurd rfl hne, rfl⟩

section Alike

variable {index : Int} {queue : List ReplyMsg} {v : Condition} {waiting : List (ℕ × Int)}
  {first : Option Int}

theorem Alike.index_nonneg (h : Alike index queue v waiting first) (hne : queue ≠ []) :
  0 ≤ index
  := by
  obtain ⟨f, hf⟩ := Option.ne_none_iff_exists'.mp (h.used hne)
  rw [h.index_eq, hf]
  exact h.nonneg f hf

/-- The kernel accepts a `Wait` exactly if nobody waits with another lock. -/
theorem Alike.accepts_iff (h : Alike index queue v waiting first) (hi : 0 ≤ i) :
  v.Accepts i.toNat ↔ ∀ w ∈ waiting, w.2 = i
  := by
  rw [Condition.Accepts, h.waiting_eq]
  cases hqueue : queue with
  | nil => simp [h.free hqueue]
  | cons reply replies =>
      have hne : queue ≠ [] := by simp [hqueue]
      have hindex := h.index_nonneg hne
      rw [h.bound hne]
      simp only [reduceCtorEq, Option.some.injEq, false_or]
      constructor
      · intro heq w hw
        obtain ⟨r, -, rfl⟩ := List.mem_map.mp hw
        simp only
        omega
      · intro hall
        have heq := hall (reply.idToSendTo, index) (by simp)
        simp only at heq
        rw [heq]

/-- The server accepts the `Wait` if the kernel does, when it passes the right lock. -/
theorem Alike.accepts_iff_index (h : Alike index queue v waiting first) (hi : 0 ≤ i)
    (hsame : waiting = [] → first = none ∨ first = some i) :
  v.Accepts i.toNat ↔ index = i ∨ index = -1
  := by
  by_cases hqueue : queue = []
  · have hwaiting : waiting = [] := by rw [h.waiting_eq, hqueue, List.map_nil]
    have hindex := h.index_eq
    rw [Condition.Accepts, h.free hqueue]
    simp only [true_or, true_iff]
    obtain hnone | hsome := hsame hwaiting
    · rw [hnone] at hindex
      exact .inr hindex
    · rw [hsome] at hindex
      exact .inl hindex
  · have hindex := h.index_nonneg hqueue
    rw [Condition.Accepts, h.bound hqueue]
    simp only [reduceCtorEq, Option.some.injEq, false_or]
    omega

/-- The lock must be that of the first `Wait` for the server to accept it. -/
theorem Alike.first_of_index (h : Alike index queue v waiting first)
    (hindex : index = i ∨ index = -1) :
  first = none ∨ first = some i
  := by
  cases hfirst : first with
  | none => exact .inl rfl
  | some f =>
      right
      have hnonneg := h.nonneg f hfirst
      have heq := h.index_eq
      rw [hfirst, Option.getD_some] at heq
      rw [Option.some.injEq]
      omega

theorem Alike.wait (h : Alike index queue v waiting first) (hi : 0 ≤ i)
    (haccepts : v.Accepts i.toNat) (hindex : index = i ∨ index = -1) (reply : ReplyMsg) :
  Alike i (queue ++ [reply]) (v.wait reply.idToSendTo i.toNat) (waiting ++ [(reply.idToSendTo, i)])
    (some (first.getD i))
  := by
  have hfirst : first.getD i = i := by
    obtain rfl | rfl := h.first_of_index hindex <;> rfl
  rw [Condition.wait, if_pos haccepts, hfirst]
  constructor
  · simp [h.waitQueue]
  · exact fun _ => rfl
  · simp
  · rfl
  · intro i' hi'
    obtain rfl := Option.some.inj hi'
    exact hi
  · simp
  · rw [h.waiting_eq, List.map_append]
    congr 1
    apply List.map_congr_left
    intro r hr
    have hnonneg := h.index_nonneg (List.ne_nil_of_mem hr)
    rw [hindex.resolve_right (by omega)]

theorem Alike.refuse (h : Alike index queue v waiting first) (haccepts : ¬ v.Accepts i.toNat)
    (hindex : ¬ (index = i ∨ index = -1)) (t : ℕ) :
  Alike index queue (v.wait t i.toNat) waiting (some (first.getD i))
  := by
  have hfirst : some (first.getD i) = first := by
    cases hnone : first with
    | none =>
        have heq := h.index_eq
        rw [hnone] at heq
        exact absurd (.inr heq) hindex
    | some f => rfl
  rw [Condition.wait, if_neg haccepts, hfirst]
  exact h

/-- The first `k` waiters are woken. -/
theorem Alike.wakes (h : Alike index queue v waiting first) {k : ℕ} {v' : Condition}
    (hqueue : v'.waitQueue = v.waitQueue.drop k)
    (hbound : v'.waitQueue ≠ [] → v'.waitingLock = some index.toNat)
    (hfree : v'.waitQueue = [] → v'.waitingLock = none) :
  Alike index (queue.drop k) v' (waiting.drop (queue.length - (queue.drop k).length)) first
  := by
  have hmap : v'.waitQueue = (queue.drop k).map (·.idToSendTo) := by
    rw [hqueue, h.waitQueue, List.map_drop]
  constructor
  · exact hmap
  · intro hne
    apply hbound
    simpa [hmap] using hne
  · intro hnil
    apply hfree
    rw [hmap, hnil, List.map_nil]
  · exact h.index_eq
  · exact h.nonneg
  · intro hne
    apply h.used
    intro hnil
    rw [hnil, List.drop_nil] at hne
    exact hne rfl
  · rw [h.waiting_eq, ← List.map_drop, List.length_drop]
    by_cases hk : k ≤ queue.length
    · rw [Nat.sub_sub_self hk]
    · rw [List.drop_of_length_le (by omega), List.drop_of_length_le (by omega)]

theorem Alike.signal (h : Alike index queue v waiting first) :
  (v.signal index.toNat).waitQueue = v.waitQueue.drop 1 ∧
    ((v.signal index.toNat).waitQueue ≠ [] →
      (v.signal index.toNat).waitingLock = some index.toNat) ∧
    ((v.signal index.toNat).waitQueue = [] → (v.signal index.toNat).waitingLock = none)
  := by
  have hlock : v.waitQueue ≠ [] → v.waitingLock = some index.toNat := by
    intro hne
    apply h.bound
    rintro rfl
    exact hne h.waitQueue
  obtain ⟨hqueue, hbound, hnone⟩ := Condition.waitQueue_signal hlock
  refine ⟨hqueue, hbound, ?_⟩
  intro hnil
  by_cases hempty : v.waitQueue = []
  · rw [Condition.signal_nil hempty]
    apply h.free
    rw [h.waitQueue] at hempty
    exact List.map_eq_nil_iff.mp hempty
  · exact hnone hnil hempty

theorem Alike.broadcast (h : Alike index queue v waiting first) :
  (v.broadcast index.toNat).waitQueue = [] ∧ (v.broadcast index.toNat).waitingLock = none
  := by
  by_cases hempty : queue = []
  · have hqueue : v.waitQueue = [] := by rw [h.waitQueue, hempty, List.map_nil]
    rw [Condition.broadcast, h.free hempty, if_neg (by simp)]
    exact ⟨hqueue, h.free hempty⟩
  · have hqueue : v.waitQueue ≠ [] := by
      rw [h.waitQueue]
      simpa using hempty
    rw [Condition.broadcast, if_pos (h.bound hempty)]
    obtain ⟨hnil, hnone, -⟩ :=
      Condition.broadcastLoop_spec (Nat.le_refl _) (fun _ => h.bound hempty)
    exact ⟨hnil, hnone hqueue⟩

/-- Nobody is woken with another lock. -/
theorem Alike.ne (h : Alike index queue v waiting first) (hi : 0 ≤ i) (hne : index ≠ i) :
  v.signal i.toNat = v ∧ v.broadcast i.toNat = v
  := by
  have hlock : v.waitingLock ≠ some i.toNat := by
    intro hlock
    by_cases hempty : queue = []
    · rw [h.free hempty] at hlock
      cases hlock
    · have hindex := h.index_nonneg hempty
      rw [h.bound hempty, Option.some.injEq] at hlock
      omega
  rw [Condition.broadcast, if_neg hlock]
  exact ⟨Condition.signal_of_ne hlock, rfl⟩

end Alike

/-! ### Requests -/

variable {t : Twin}

/-- The condition variables other than `j` are as they were. -/
theorem Ok.of_update {t' : Twin} (h : t.Ok) (hserver : t'.server.Ok) {j : ℕ}
    (hcv : Alike (t'.server.cvLock j) (t'.server.cvQueue j) (t'.kernel j) (t'.waiting j)
      (t'.firstLock j))
    (hother : ∀ k : ℕ, k ≠ j → t'.server.cvLock k = t.server.cvLock k ∧
      t'.server.cvQueue k = t.server.cvQueue k ∧ t'.kernel k = t.kernel k ∧
      t'.waiting k = t.waiting k ∧ t'.firstLock k = t.firstLock k) :
  t'.Ok
  := by
  refine ⟨hserver, ?_⟩
  intro k
  by_cases hk : k = j
  · rw [hk]
    exact hcv
  · obtain ⟨hlock, hqueue, hkernel, hwaiting, hfirst⟩ := hother k hk
    rw [hlock, hqueue, hkernel, hwaiting, hfirst]
    exact h.cv k

theorem serverNext_ok (hcfg : cfg.numServers = 1) (h : t.Ok) {a : Client × Request}
    (hallowed : allowed a.1 t.server a.2 = true) :
  (t.serverNext cfg a).Ok
  := by
  have hdestroy : a.2.isDestroy = false := by
    obtain ⟨c, request⟩ := a
    cases request <;> simp_all [allowed, Request.isDestroy]
  exact (serve_served hcfg t.requests a.1 hdestroy h.server).ok h.server

/-- What is known where a client owns lock `i` and calls an operation of condition variable `j`. -/
theorem Ok.cases (h : t.Ok) (hallowed : (ownedBy c i t.server && (t.server.cvAt j).isSome) = true) :
  ∃ (k : ℕ) (lock : ServerLock) (cv : ServerCV), j = k ∧ 0 ≤ i ∧ t.server.lockAt i = some lock ∧
    lock.owner = c.machine ∧ t.server.cvAt j = some cv ∧
    Alike cv.serverLockIndex cv.waitQueue (t.kernel k) (t.waiting k) (t.firstLock k)
  := by
  obtain ⟨lock, cv, hi, howner, hj⟩ := exists_of_allowed hallowed
  have hj0 := (State.getElem?_of_cvAt hj).1
  have hi0 := (State.getElem?_of_lockAt hi).1
  obtain ⟨k, rfl⟩ := Int.eq_ofNat_of_zero_le (show 0 ≤ j by omega)
  have hcv := h.cv k
  rw [cvLock_of_cvAt hj, cvQueue_of_cvAt hj] at hcv
  exact ⟨k, lock, cv, rfl, by omega, hi, howner, hj, hcv⟩

/-- The server puts the reply off if the condition variable has the lock or none. -/
theorem accepted_iff (hcfg : cfg.numServers = 1) (h : t.Ok) (hi : t.server.lockAt i = some lock)
    (howner : lock.owner = c.machine) (hj : t.server.cvAt j = some cv) :
  t.Accepted cfg c j i ↔ cv.serverLockIndex = i ∨ cv.serverLockIndex = -1
  := by
  rw [Accepted, serverNext, serve_wait hcfg h.server hi howner hj, cvQueue_of_cvAt hj]
  by_cases hindex : cv.serverLockIndex = i ∨ cv.serverLockIndex = -1
  · simp [hindex, State.cvQueue, State.cvAt_setCV hj, ServerCV.park]
  · simp [hindex, cvQueue_of_cvAt hj]

/-- A `Wait` that passes the right lock. -/
theorem Ok.wait (hcfg : cfg.numServers = 1) (h : t.Ok)
    (hallowed : allowed c t.server (.wait j i) = true) (hsame : t.SameLock (c, .wait j i)) :
  t.Agrees cfg (c, .wait j i) ∧ (t.next cfg (c, .wait j i)).Ok
  := by
  obtain ⟨k, lock, cv, rfl, hi0, hi, howner, hj, hcv⟩ := h.cases hallowed
  have haccepted := accepted_iff hcfg h hi howner hj
  have hindex := hcv.accepts_iff_index hi0 (hsame hallowed)
  refine ⟨fun _ => ⟨haccepted.trans hindex.symm, hcv.accepts_iff hi0⟩, ?_⟩
  have hstate := serve_wait (n := t.requests) hcfg h.server hi howner hj
  have hother : ∀ k' : ℕ, k' ≠ k → (k' : Int) ≠ k := fun k' hk' => by exact_mod_cast hk'
  apply h.of_update (serverNext_ok hcfg h hallowed) (j := k)
  · simp only [next, serverNext, hstate, kernelNext, waitingNext, firstLockNext, haccepted,
      Int.toNat_natCast, Function.update_self]
    by_cases hbound : cv.serverLockIndex = i ∨ cv.serverLockIndex = -1
    · simp only [hbound, if_true, Function.update_self, State.cvLock, State.cvQueue,
        State.cvAt_setLock, State.cvAt_setCV hj, Option.elim_some, ServerCV.park]
      exact hcv.wait hi0 (hindex.mpr hbound) hbound (replyMsg t.requests c ack)
    · simp only [hbound, if_false, cvLock_of_cvAt hj, cvQueue_of_cvAt hj]
      exact hcv.refuse (fun haccepts => hbound (hindex.mp haccepts)) hbound c.machine
  · intro k' hk'
    have hne := hother k' hk'
    simp only [next, serverNext, hstate, kernelNext, waitingNext, firstLockNext, Int.toNat_natCast,
      Function.update_of_ne hk', Function.update_of_ne hne]
    refine ⟨?_, ?_, trivial, ?_, trivial⟩
    · split
      · simp [State.cvLock, State.cvAt_setCV hj, hne]
      · rfl
    · split
      · simp [State.cvQueue, State.cvAt_setCV hj, hne]
      · rfl
    · split
      · exact Function.update_of_ne hne _ _
      · rfl

/-- The condition variable of the kernel after `Signal` or `Broadcast`. -/
def wakesKernel (v : Condition) (i : Int) : Request → Condition
  | .signal _ _ => v.signal i.toNat
  | .broadcast _ _ => v.broadcast i.toNat
  | _ => v

theorem next_wakes (cfg : Config) (t : Twin) (c : Client) {request : Request} {k : ℕ}
    (hrequest : request = .signal k i ∨ request = .broadcast k i) :
  (t.next cfg (c, request)).kernel =
      Function.update t.kernel k (wakesKernel (t.kernel k) i request) ∧
    (t.next cfg (c, request)).waiting = Function.update t.waiting k ((t.waiting k).drop
      ((t.server.cvQueue k).length - ((t.serverNext cfg (c, request)).cvQueue k).length)) ∧
    (t.next cfg (c, request)).firstLock = t.firstLock
  := by
  obtain rfl | rfl := hrequest <;> exact ⟨rfl, rfl, rfl⟩

/-- The kernel wakes as many waiters as the server does. -/
theorem Alike.wakesKernel {index : Int} {queue : List ReplyMsg} {v : Condition}
    {waiting : List (ℕ × Int)} {first : Option Int} (h : Alike index queue v waiting first)
    {request : Request} (hrequest : request = .signal j i ∨ request = .broadcast j i)
    (hindex : index = i) :
  Alike index (queue.drop (request.wakes queue.length)) (wakesKernel v i request)
      (waiting.drop (queue.length - (queue.drop (request.wakes queue.length)).length)) first ∧
    v.waitQueue = (queue.take (request.wakes queue.length)).map (·.idToSendTo) ++
      (Twin.wakesKernel v i request).waitQueue
  := by
  subst hindex
  have hlength : v.waitQueue.length = queue.length := by rw [h.waitQueue, List.length_map]
  obtain rfl | rfl := hrequest
  · obtain ⟨hqueue, hbound, hfree⟩ := h.signal
    have hdrop : v.waitQueue.drop 1 = v.waitQueue.drop (min 1 queue.length) := by
      cases hv : v.waitQueue with
      | nil => simp
      | cons u us =>
          rw [hv] at hlength
          rw [← hlength]
          simp
    refine ⟨h.wakes (hqueue.trans hdrop) hbound hfree, ?_⟩
    simp only [Twin.wakesKernel, Request.wakes, hqueue, hdrop]
    rw [h.waitQueue, ← List.map_drop, ← List.map_append, List.take_append_drop]
  · obtain ⟨hnil, hnone⟩ := h.broadcast
    have hdrop : (v.broadcast index.toNat).waitQueue = v.waitQueue.drop queue.length := by
      rw [hnil, ← hlength, List.drop_length]
    refine ⟨h.wakes hdrop (fun hne => absurd hnil hne) (fun _ => hnone), ?_⟩
    simp only [Twin.wakesKernel, Request.wakes, hnil, List.take_length, List.append_nil]
    exact h.waitQueue

/-- `Signal` and `Broadcast`. -/
theorem Ok.wakes (hcfg : cfg.numServers = 1) (h : t.Ok) {request : Request}
    (hrequest : request = .signal j i ∨ request = .broadcast j i)
    (hallowed : allowed c t.server request = true) :
  WakesSame t (t.next cfg (c, request)) j i ∧ (t.next cfg (c, request)).Ok
  := by
  have hcall : (ownedBy c i t.server && (t.server.cvAt j).isSome) = true := by
    obtain rfl | rfl := hrequest <;> exact hallowed
  obtain ⟨k, lock, cv, rfl, hi0, hi, howner, hj, hcv⟩ := h.cases hcall
  obtain ⟨hkernel, hwaiting, hfirst⟩ := next_wakes cfg t c hrequest
  have hstate : t.serverNext cfg (c, request) = if cv.serverLockIndex = i then
      t.server.moved k i cv lock (request.wakes cv.waitQueue.length) else t.server :=
    serve_wakes hcfg h.server hrequest hi howner hj
  have hserver : (t.next cfg (c, request)).server = t.serverNext cfg (c, request) := rfl
  have hok := serverNext_ok hcfg h (a := (c, request)) hallowed
  by_cases hindex : cv.serverLockIndex = i
  · rw [if_pos hindex] at hstate
    obtain ⟨halike, hwoken⟩ := hcv.wakesKernel hrequest hindex
    have hmoved : ∀ k' : Int, (t.serverNext cfg (c, request)).cvAt k' =
        if k' = k then some (cv.wake (request.wakes cv.waitQueue.length))
        else t.server.cvAt k' := by
      intro k'
      rw [hstate, State.moved, State.cvAt_setLock, State.cvAt_setCV hj]
    have hself := (hmoved k).trans (if_pos rfl)
    have hlock : (t.serverNext cfg (c, request)).lockQueue i =
        lock.waitQueue ++ cv.waitQueue.take (request.wakes cv.waitQueue.length) := by
      have hi' : (t.server.setCV k (cv.wake (request.wakes cv.waitQueue.length))).lockAt i =
          some lock := hi
      rw [State.lockQueue, hstate, State.moved, State.lockAt_setLock hi', if_pos rfl]
      rfl
    constructor
    · refine ⟨cv.waitQueue.take (request.wakes cv.waitQueue.length), ?_, ?_, ?_⟩
      · rw [hserver, cvQueue_of_cvAt hj, cvQueue_of_cvAt hself, ServerCV.wake, List.take_append_drop]
      · rw [hserver, hlock, State.lockQueue, hi]
        rfl
      · rw [hkernel, Int.toNat_natCast, Function.update_self]
        exact hwoken
    · apply h.of_update hok (j := k)
      · rw [hserver, hkernel, hwaiting, hfirst, Function.update_self, Function.update_self,
          cvQueue_of_cvAt hj, cvQueue_of_cvAt hself, cvLock_of_cvAt hself]
        exact halike
      · intro k' hk'
        have hne : (k' : Int) ≠ k := by exact_mod_cast hk'
        rw [hserver, hkernel, hwaiting, hfirst, Function.update_of_ne hk',
          Function.update_of_ne hne, State.cvLock, State.cvQueue, hmoved, if_neg hne]
        exact ⟨rfl, rfl, rfl, rfl, rfl⟩
  · rw [if_neg hindex] at hstate
    have hsame : wakesKernel (t.kernel k) i request = t.kernel k := by
      obtain ⟨hsignal, hbroadcast⟩ := hcv.ne hi0 hindex
      obtain rfl | rfl := hrequest
      · exact hsignal
      · exact hbroadcast
    have hnone : (t.next cfg (c, request)).waiting = t.waiting := by
      rw [hwaiting, hstate, Nat.sub_self, List.drop_zero, Function.update_eq_self]
    rw [hsame, Function.update_eq_self] at hkernel
    constructor
    · exact ⟨[], by rw [hserver, hstate, List.nil_append],
        by rw [hserver, hstate, List.append_nil], by rw [hkernel]; rfl⟩
    · refine ⟨hserver ▸ hok, ?_⟩
      intro k'
      rw [hserver, hstate, hkernel, hnone, hfirst]
      exact h.cv k'

/-- Every other request. -/
theorem Ok.other (hcfg : cfg.numServers = 1) (h : t.Ok) {request : Request}
    (hrequest : ∀ j i, request ≠ .wait j i ∧ request ≠ .signal j i ∧ request ≠ .broadcast j i)
    (hallowed : allowed c t.server request = true) :
  (t.next cfg (c, request)).Ok
  := by
  have hsame : (t.next cfg (c, request)).kernel = t.kernel ∧
      (t.next cfg (c, request)).waiting = t.waiting ∧
      (t.next cfg (c, request)).firstLock = t.firstLock := by
    cases request with
    | wait j i => exact absurd rfl (hrequest j i).1
    | signal j i => exact absurd rfl (hrequest j i).2.1
    | broadcast j i => exact absurd rfl (hrequest j i).2.2
    | _ => exact ⟨rfl, rfl, rfl⟩
  obtain ⟨hkernel, hwaiting, hfirst⟩ := hsame
  refine ⟨serverNext_ok hcfg h hallowed, ?_⟩
  intro k
  obtain ⟨hqueue, hlock⟩ := serve_other (n := t.requests) hcfg h.server hallowed hrequest k
  have hserver : (t.next cfg (c, request)).server = (serve cfg t.requests c request t.server).state :=
    rfl
  rw [hserver, hkernel, hwaiting, hfirst, hqueue, hlock]
  exact h.cv k

/-- A request that passes the right lock. -/
theorem Ok.step (hcfg : cfg.numServers = 1) (h : t.Ok) {a : Client × Request}
    (hallowed : allowed a.1 t.server a.2 = true) (hsame : t.SameLock a) :
  t.Agrees cfg a ∧ (t.next cfg a).Ok
  := by
  obtain ⟨c, request⟩ := a
  cases request with
  | wait j i => exact h.wait hcfg hallowed hsame
  | signal j i =>
      obtain ⟨hwakes, hok⟩ := h.wakes hcfg (.inl rfl) hallowed
      exact ⟨fun _ => hwakes, hok⟩
  | broadcast j i =>
      obtain ⟨hwakes, hok⟩ := h.wakes hcfg (.inr rfl) hallowed
      exact ⟨fun _ => hwakes, hok⟩
  | _ => exact ⟨fun _ => trivial, h.other hcfg (fun _ _ => ⟨nofun, nofun, nofun⟩) hallowed⟩

/-- Where both accept the same waits, the right lock has been passed. -/
theorem Ok.sameLock (hcfg : cfg.numServers = 1) (h : t.Ok) {a : Client × Request}
    (hagrees : t.Agrees cfg a) :
  t.SameLock a
  := by
  obtain ⟨c, request⟩ := a
  cases request with
  | wait j i =>
      intro hallowed hempty
      obtain ⟨k, lock, cv, rfl, hi0, hi, howner, hj, hcv⟩ := h.cases hallowed
      obtain ⟨haccepted, haccepts⟩ := hagrees hallowed
      have hkernel := haccepts.mpr (by simp [hempty])
      exact hcv.first_of_index ((accepted_iff hcfg h hi howner hj).mp (haccepted.mpr hkernel))
  | _ => exact fun _ => trivial

/-- The server and the kernel agree in a run exactly if every `Wait` on a condition variable on which
nobody waits passes the lock of the first `Wait` on it. -/
theorem agrees_iff (hcfg : cfg.numServers = 1) (as : List (Client × Request)) :
  Transition.Along (step cfg) (Agrees cfg) initial as ↔
    Transition.Along (step cfg) SameLock initial as
  := by
  suffices hall : ∀ as {t : Twin}, t.Ok → (Transition.Along (Twin.step cfg) (Agrees cfg) t as ↔
      Transition.Along (Twin.step cfg) SameLock t as) from hall as ok_initial
  intro as
  induction as with
  | nil =>
      intro t _
      rfl
  | cons a as ih =>
      intro t h
      cases hallowed : allowed a.1 t.server a.2 with
      | false =>
          have hstep : Twin.step cfg t a = none := by rw [Twin.step, hallowed]; rfl
          have hvacuous : t.Agrees cfg a ∧ t.SameLock a := by
            constructor
            · intro htrue
              rw [hallowed] at htrue
              cases htrue
            · intro htrue
              rw [hallowed] at htrue
              cases htrue
          simp [Transition.Along, hstep, hvacuous]
      | true =>
          have hstep : Twin.step cfg t a = some (t.next cfg a) := by
            rw [Twin.step, if_pos hallowed]
          rw [Transition.along_cons hstep, Transition.along_cons hstep]
          constructor
          · rintro ⟨hagrees, halong⟩
            have hsame := h.sameLock hcfg hagrees
            exact ⟨hsame, (ih (h.step hcfg hallowed hsame).2).mp halong⟩
          · rintro ⟨hsame, halong⟩
            obtain ⟨hagrees, hok⟩ := h.step hcfg hallowed hsame
            exact ⟨hagrees, (ih hok).mpr halong⟩

/-! ### Two locks -/

/-- Two locks and a condition variable are made. The first client waits with the first lock, and the
second one wakes it and takes the second lock. -/
def alternating : List (Client × Request) :=
  [(⟨1, 0⟩, .createLock [97]), (⟨1, 0⟩, .createLock [98]), (⟨1, 0⟩, .createCV [97]),
    (⟨1, 0⟩, .acquire 0), (⟨1, 0⟩, .wait 0 0), (⟨2, 0⟩, .acquire 0), (⟨2, 0⟩, .signal 0 0),
    (⟨2, 0⟩, .acquire 1)]

theorem agrees_alternating :
  Transition.Along (step ⟨0, 1⟩) (Agrees ⟨0, 1⟩) initial (alternating ++ [(⟨2, 0⟩, .wait 0 0)])
  := (agrees_iff rfl _).mpr (by decide +kernel)

/-- When nobody waits any more, the kernel accepts a `Wait` with the second lock, and the server does
not. -/
theorem run_alternating :
  ∃ t ∈ Transition.run (step ⟨0, 1⟩) initial alternating,
    allowed ⟨2, 0⟩ t.server (.wait 0 1) = true ∧ (t.kernel 0).Accepts 1 ∧
      ¬ t.Accepted ⟨0, 1⟩ ⟨2, 0⟩ 0 1
  := by
  decide +kernel

theorem not_agrees :
  ¬ ∀ (cfg : Config) (as : List (Client × Request)), cfg.numServers = 1 →
    Transition.Along (step cfg) (Agrees cfg) initial as
  := by
  intro hall
  obtain ⟨t, hrun, hallowed, haccepts, hrefused⟩ := run_alternating
  have halong := hall ⟨0, 1⟩ (alternating ++ [(⟨2, 0⟩, .wait 0 1)]) rfl
  have hagrees := ((Transition.along_append.mp halong).2 t hrun).1
  exact hrefused ((hagrees hallowed).1.mpr haccepts)

end Twin

end Nachos.Server
