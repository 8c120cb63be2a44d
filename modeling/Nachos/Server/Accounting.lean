import Nachos.Server.Exclusion

/-!
# Every request is answered once

In every run of one server in which nothing is destroyed, each request that has been processed
is answered by one message to its sender, or its reply is on one queue, once
(`Trace.Accounted`). The replies taken off the queue of a lock are, in order, the first of those
put on it.
-/

namespace Nachos.Server

/-! ### The replies that wait -/

/-- How often the reply to request `k` occurs in `replies`. -/
def occurrences (k : ℕ) (replies : List ReplyMsg) : ℕ := (replies.map (·.request)).count k

@[simp]
theorem occurrences_nil (k : ℕ) :
  occurrences k [] = 0
  := rfl

@[simp]
theorem occurrences_append (k : ℕ) (l l' : List ReplyMsg) :
  occurrences k (l ++ l') = occurrences k l + occurrences k l'
  := by
  simp [occurrences]

@[simp]
theorem occurrences_cons (k : ℕ) (r : ReplyMsg) (l : List ReplyMsg) :
  occurrences k (r :: l) = occurrences k l + if r.request = k then 1 else 0
  := by
  simp [occurrences, List.count_cons]

namespace State

/-- The replies on the queues of all locks and all condition variables. -/
def waiting (s : State) : List ReplyMsg :=
  s.serverLockTable.flatMap (·.waitQueue) ++ s.serverCVTable.flatMap (·.waitQueue)

/-- Overwriting a lock exchanges its queue for the queue of the new one. -/
theorem occurrences_setLock {s : State} {i : Int} {lock : ServerLock}
    (h : s.lockAt i = some lock) (lock' : ServerLock) (k : ℕ) :
  occurrences k lock.waitQueue + occurrences k (s.setLock i lock').waiting
    = occurrences k lock'.waitQueue + occurrences k s.waiting
  := by
  have hperm := Queues.flatMap_set_perm (·.waitQueue) lock' (getElem?_of_lockAt h).2
  have hcount := (hperm.map (·.request)).count_eq k
  simp only [List.map_append, List.count_append] at hcount
  simp only [waiting, setLock, occurrences, List.map_append, List.count_append]
  omega

theorem occurrences_setCV {s : State} {j : Int} {cv : ServerCV} (h : s.cvAt j = some cv)
    (cv' : ServerCV) (k : ℕ) :
  occurrences k cv.waitQueue + occurrences k (s.setCV j cv').waiting
    = occurrences k cv'.waitQueue + occurrences k s.waiting
  := by
  have hperm := Queues.flatMap_set_perm (·.waitQueue) cv' (getElem?_of_cvAt h).2
  have hcount := (hperm.map (·.request)).count_eq k
  simp only [List.map_append, List.count_append] at hcount
  simp only [waiting, setCV, occurrences, List.map_append, List.count_append]
  omega

/-- Moving waiters from a condition variable to a lock keeps all replies. -/
theorem occurrences_moved {s : State} {j i : Int} {cv : ServerCV} {lock : ServerLock}
    (hj : s.cvAt j = some cv) (hi : s.lockAt i = some lock) (m k : ℕ) :
  occurrences k (s.moved j i cv lock m).waiting = occurrences k s.waiting
  := by
  have hi' : (s.setCV j (cv.wake m)).lockAt i = some lock := hi
  have hlock := occurrences_setLock hi' (lock.append (cv.waitQueue.take m)) k
  have hcv := occurrences_setCV hj (cv.wake m) k
  have hsplit : occurrences k cv.waitQueue
      = occurrences k (cv.waitQueue.take m) + occurrences k (cv.waitQueue.drop m) := by
    rw [← occurrences_append, List.take_append_drop]
  simp only [ServerLock.append, ServerCV.wake, occurrences_append] at hlock hcv
  simp only [moved, ServerLock.append, ServerCV.wake]
  omega

/-- A lock that is handed over loses the reply that is sent. -/
theorem occurrences_handOver (lock : ServerLock) (k : ℕ) :
  (lock.grant.map (·.request)).count k + occurrences k lock.handOver.waitQueue
    = occurrences k lock.waitQueue
  := by
  unfold ServerLock.handOver ServerLock.grant
  cases hq : lock.waitQueue with
  | nil => simp
  | cons r rest =>
      have hmail : r.mail.request = r.request := rfl
      simp [hmail, List.count_cons, Nat.add_comm]

end State

section Served

variable {n : ℕ} {c : Client} {s : State} {request : Request} {o : Outcome}

/-- An iteration sends the replies it takes off the queues, and it sends the reply to its own
request or puts it on a queue. -/
theorem Served.accounting (h : Served n c s request o) (k : ℕ) :
  (o.sent.map (·.request)).count k + occurrences k o.state.waiting
    = occurrences k s.waiting + if n = k then 1 else 0
  := by
  have hreply : ∀ b, ([reply n c b].map (·.request)).count k = if n = k then 1 else 0 := by
    intro b
    simp [reply, List.count_cons]
  have hmsg : (replyMsg n c ack).request = n := rfl
  cases h with
  | other _ hlocks hcvs =>
      simp only [Outcome.sent, List.nil_append, hreply, State.waiting, hlocks, hcvs]
      omega
  | newLock =>
      simp only [Outcome.sent, List.nil_append, hreply, State.waiting, List.flatMap_append,
        List.flatMap_singleton, ServerLock.new, List.append_nil]
      omega
  | newCV =>
      simp only [Outcome.sent, List.nil_append, hreply, State.waiting, List.flatMap_append,
        List.flatMap_singleton, ServerCV.new, List.append_nil]
      omega
  | refused =>
      simp only [Outcome.sent, List.nil_append, hreply]
      omega
  | @take i lock hi hav =>
      have hlock := State.occurrences_setLock hi
        { lock with available := false, owner := c.machine } k
      simp only [Outcome.sent, List.nil_append, hreply]
      simp only at hlock
      omega
  | @queue i lock hi hav =>
      have hlock := State.occurrences_setLock hi (lock.append [replyMsg n c ack]) k
      simp only [ServerLock.append, occurrences_append, occurrences_cons, occurrences_nil,
        hmsg] at hlock
      simp only [Outcome.sent, List.append_nil, List.map_nil, List.count_nil, ServerLock.append]
      omega
  | @release i lock hi howner =>
      have hlock := State.occurrences_setLock hi lock.handOver k
      have hover := State.occurrences_handOver lock k
      simp only [Outcome.sent, List.map_append, List.count_append, hreply]
      omega
  | wake _ hj hi =>
      simp only [Outcome.sent, List.nil_append, hreply, State.occurrences_moved hj hi]
      omega
  | @wait j i cv lock hj hi howner hbound =>
      have hi' : (s.setCV j (cv.park i (replyMsg n c ack))).lockAt i = some lock := hi
      have hlock := State.occurrences_setLock hi' lock.handOver k
      have hcv := State.occurrences_setCV hj (cv.park i (replyMsg n c ack)) k
      have hover := State.occurrences_handOver lock k
      simp only [ServerCV.park, occurrences_append, occurrences_cons, occurrences_nil,
        hmsg] at hcv
      simp only [Outcome.sent, List.append_nil, ServerCV.park]
      simp only [ServerCV.park] at hlock
      omega

/-- The messages of an iteration go to the sender of the request they answer. -/
theorem Served.addressed {log : List Entry} (h : Served log.length c s request o)
    (hqueue : ∀ i lock, s.lockAt i = some lock → ∀ r ∈ lock.waitQueue, Trace.WaitsFor log i r)
    {mail : Mail} (hmail : mail ∈ o.sent) :
  ∃ e, (log ++ [⟨c, request, accepts c s request⟩])[mail.request]? = some e ∧
    mail.dest = e.client
  := by
  have hreply : ∀ b, mail ∈ [reply log.length c b] →
      ∃ e, (log ++ [⟨c, request, accepts c s request⟩])[mail.request]? = some e ∧
        mail.dest = e.client := by
    intro b hb
    obtain rfl := List.mem_singleton.mp hb
    use ⟨c, request, accepts c s request⟩
    simp [reply]
  have hgrant : ∀ i lock, s.lockAt i = some lock → mail ∈ lock.grant →
      ∃ e, (log ++ [⟨c, request, accepts c s request⟩])[mail.request]? = some e ∧
        mail.dest = e.client := by
    intro i lock hi hm
    obtain ⟨r, hr, rfl⟩ := List.mem_map.mp hm
    have hr' : r ∈ lock.waitQueue := List.mem_of_mem_head? (Option.mem_toList.mp hr)
    obtain ⟨e, hlog, -, -, hreq⟩ := (hqueue i lock hi r hr').snoc ⟨c, request, accepts c s request⟩
    use e, hlog
    rw [hreq]
    rfl
  cases h with
  | other | newLock | newCV | refused | take | wake => apply hreply _ hmail
  | queue => simp [Outcome.sent] at hmail
  | @release i lock hi howner =>
      obtain hm | hm := List.mem_append.mp hmail
      · apply hgrant i lock hi hm
      · apply hreply _ hm
  | @wait j i cv lock hj hi howner hbound =>
      obtain hm | hm := List.mem_append.mp hmail
      · apply hgrant i lock hi hm
      · simp at hm

end Served

/-! ### The queue of a lock -/

/-- The replies on the queue of lock `i`. -/
def queueOf (i : Int) (s : State) : List ReplyMsg :=
  match s.lockAt i with
  | some lock => lock.waitQueue
  | none => []

theorem queueOf_of_lockAt {s : State} {i : Int} {lock : ServerLock}
    (h : s.lockAt i = some lock) :
  queueOf i s = lock.waitQueue
  := by
  simp [queueOf, h]

theorem queueOf_setLock {s : State} {i : Int} {lock : ServerLock}
    (h : s.lockAt i = some lock) (lock' : ServerLock) (k : Int) :
  queueOf k (s.setLock i lock') = if k = i then lock'.waitQueue else queueOf k s
  := by
  unfold queueOf
  rw [State.lockAt_setLock h]
  by_cases hki : k = i
  · simp [hki]
  · simp [hki]

theorem queueOf_congr {s s' : State} (h : s'.serverLockTable = s.serverLockTable) (i : Int) :
  queueOf i s' = queueOf i s
  := by
  simp [queueOf, State.lockAt_congr h]

/-- The queue of a lock that has just been created is empty. -/
theorem queueOf_newLock (s : State) (name : List Int8) (id : ℕ) (i : Int) :
  queueOf i { s with serverLockTable := s.serverLockTable ++ [ServerLock.new name id] }
    = queueOf i s
  := by
  unfold queueOf
  cases hi : s.lockAt i with
  | some lock =>
      obtain ⟨hpos, hget⟩ := State.getElem?_of_lockAt hi
      obtain ⟨hlt, -⟩ := List.getElem?_eq_some_iff.mp hget
      simp [State.lockAt, hpos, List.getElem?_append_left hlt, hget]
  | none =>
      cases hi' : State.lockAt
          { s with serverLockTable := s.serverLockTable ++ [ServerLock.new name id] } i with
      | none => rfl
      | some lock =>
          obtain ⟨hpos, hget⟩ := State.getElem?_of_lockAt hi'
          obtain hold | rfl := State.getElem?_append_toNat hget
          · simp [State.lockAt, hpos, hold] at hi
          · rfl

/-- The head of the queue of a lock is what handing it over takes off the queue. -/
theorem grant_append_handOver (lock : ServerLock) :
  lock.grant.map (·.request) ++ lock.handOver.waitQueue.map (·.request)
    = lock.waitQueue.map (·.request)
  := by
  unfold ServerLock.handOver ServerLock.grant
  cases hq : lock.waitQueue with
  | nil => simp
  | cons r rest =>
      have hmail : r.mail.request = r.request := rfl
      simp [hmail]

theorem waitersOf_of_cvAt {s : State} {j : Int} {cv : ServerCV} (h : s.cvAt j = some cv) :
  waitersOf j s = cv.waitQueue
  := by
  simp [waitersOf, h]

section Served

variable {n : ℕ} {c : Client} {s : State} {request : Request} {o : Outcome}

/-- A `Signal` or `Broadcast` puts the waiters it wakes on the queue of the lock. -/
theorem newlyQueued_wake {j k : Int} {cv : ServerCV} {lock : ServerLock} {mails : List Mail}
    (hrequest : request = .signal j k ∨ request = .broadcast j k) (hj : s.cvAt j = some cv)
    (i : Int) :
  newlyQueued n s request
      ⟨s.moved j k cv lock (request.wakes cv.waitQueue.length), [], mails⟩ i
    = if k = i then (cv.waitQueue.take (request.wakes cv.waitQueue.length)).map (·.request)
      else []
  := by
  have hcv : waitersOf j (s.moved j k cv lock (request.wakes cv.waitQueue.length))
      = cv.waitQueue.drop (request.wakes cv.waitQueue.length) := by
    simp [waitersOf, State.moved, State.cvAt_setCV hj, ServerCV.wake]
  have hle : request.wakes cv.waitQueue.length ≤ cv.waitQueue.length := by
    obtain rfl | rfl := hrequest
    · apply Nat.min_le_right
    · apply Nat.le_refl
  have hsub : cv.waitQueue.length - (cv.waitQueue.length - request.wakes cv.waitQueue.length)
      = request.wakes cv.waitQueue.length := by
    omega
  obtain rfl | rfl := hrequest
  · simp only [newlyQueued, waitersOf_of_cvAt hj, hcv, List.length_drop, hsub]
  · simp only [newlyQueued, waitersOf_of_cvAt hj, hcv, List.length_drop, hsub]

/-- In an iteration replies are taken off the front of the queue of a lock and put on at its
end. -/
theorem Served.fifo (h : Served n c s request o) (i : Int) :
  (queueOf i s).map (·.request) ++ newlyQueued n s request o i
    = (if request.lockIndex = some i then o.granted.map (·.request) else [])
      ++ (queueOf i o.state).map (·.request)
  := by
  cases h with
  | other hrequest hlocks =>
      rw [queueOf_congr hlocks]
      cases request with
      | createLock | createCV | createMV | setMV | getMV | destroyCV | destroyMV =>
          simp [newlyQueued, Request.lockIndex]
      | acquire | release | signal | broadcast | wait | destroyLock => cases hrequest
  | newLock =>
      rw [queueOf_newLock]
      simp [newlyQueued, Request.lockIndex]
  | newCV =>
      simp only [newlyQueued, Request.lockIndex, List.append_nil, reduceCtorEq, if_false,
        List.nil_append]
      rfl
  | refused hrefused =>
      cases request with
      | acquire k => simp [newlyQueued]
      | signal j k | broadcast j k => simp [newlyQueued]
      | release k | wait j k => simp [newlyQueued]
      | createLock | createCV | createMV | setMV | getMV | destroyCV | destroyMV
      | destroyLock => cases hrefused
  | @take k lock hk hav =>
      rw [queueOf_setLock hk]
      by_cases hki : i = k
      · subst hki
        simp [newlyQueued, queueOf_of_lockAt hk]
      · simp [newlyQueued, hki]
  | @queue k lock hk hav =>
      have hmsg : (replyMsg n c ack).request = n := rfl
      rw [queueOf_setLock hk]
      by_cases hki : i = k
      · subst hki
        simp [newlyQueued, queueOf_of_lockAt hk, ServerLock.append, hmsg]
      · simp [newlyQueued, hki, Ne.symm hki]
  | @release k lock hk howner =>
      rw [queueOf_setLock hk]
      by_cases hki : i = k
      · subst hki
        simp [newlyQueued, Request.lockIndex, queueOf_of_lockAt hk, grant_append_handOver]
      · simp [newlyQueued, Request.lockIndex, hki, Ne.symm hki]
  | @wake _ j k cv lock hrequest hj hk howner hbound =>
      have hk' : (s.setCV j (cv.wake (request.wakes cv.waitQueue.length))).lockAt k
          = some lock := hk
      rw [newlyQueued_wake hrequest hj, State.moved, queueOf_setLock hk']
      by_cases hki : i = k
      · subst hki
        simp [queueOf_of_lockAt hk, ServerLock.append]
      · simp [hki, Ne.symm hki]
        rfl
  | @wait j k cv lock hj hk howner hbound =>
      have hk' : (s.setCV j (cv.park k (replyMsg n c ack))).lockAt k = some lock := hk
      rw [queueOf_setLock hk']
      by_cases hki : i = k
      · subst hki
        simp [newlyQueued, Request.lockIndex, queueOf_of_lockAt hk, grant_append_handOver]
      · simp [newlyQueued, Request.lockIndex, hki, Ne.symm hki]
        rfl

end Served

/-! ### Runs -/

namespace Trace

/-- What is kept of the requests and the replies in a run. -/
structure Balanced (t : Trace) : Prop where
  /-- The reply to a request that has been processed has been sent or is on a queue, once. -/
  once : ∀ k, (t.sent.map (·.request)).count k + occurrences k t.state.waiting
    = if k < t.log.length then 1 else 0
  /-- A message is addressed to the sender of the request it answers. -/
  addressed : ∀ mail ∈ t.sent, ∃ e, t.log[mail.request]? = some e ∧ mail.dest = e.client
  /-- What has been put on the queue of a lock has been taken off it, in order, or is on it. -/
  fifo : ∀ i, t.queued i = t.granted i ++ (queueOf i t.state).map (·.request)

variable {cfg : Config}

theorem balanced_initial :
  initial.Balanced
  := by
  constructor
  · intro k
    simp [initial, State.waiting, State.initial]
  · intro mail hmail
    simp [initial] at hmail
  · intro i
    simp [initial, queueOf, State.initial, State.lockAt]

theorem Balanced.next (hcfg : cfg.numServers = 1) {t : Trace} (ht : t.Ok) (hb : t.Balanced)
    {a : Client × Request} (ha : a.2.isDestroy = false) :
  (t.next cfg a).Balanced
  := by
  have hserved := served_next hcfg ht ha
  constructor
  · intro k
    have hacc := hserved.accounting k
    have honce := hb.once k
    simp only [Trace.next, List.map_append, List.count_append, List.length_append,
      List.length_singleton]
    split at honce
    · rename_i hlt
      have hne : t.log.length ≠ k := by omega
      simp only [hne, if_false] at hacc
      rw [if_pos (by omega)]
      omega
    · by_cases hk : t.log.length = k
      · rw [if_pos hk] at hacc
        rw [if_pos (by omega)]
        omega
      · rw [if_neg hk] at hacc
        rw [if_neg (by omega)]
        omega
  · intro mail hmail
    obtain hm | hm := List.mem_append.mp hmail
    · obtain ⟨e, hlog, hdest⟩ := hb.addressed mail hm
      obtain ⟨hlt, -⟩ := List.getElem?_eq_some_iff.mp hlog
      use e
      constructor
      · simp only [Trace.next]
        rw [List.getElem?_append_left hlt, hlog]
      · apply hdest
    · apply hserved.addressed ht.lockQueue hm
  · intro i
    have hfifo := hserved.fifo i
    simp only [Trace.next, hb.fifo i, List.append_assoc]
    rw [hfifo]

theorem balanced_run (hcfg : cfg.numServers = 1) (as : List (Client × Request))
    (has : ∀ a ∈ as, a.2.isDestroy = false) :
  (run cfg as).Balanced
  := by
  apply run_induction balanced_initial _ hcfg has
  intro t a ht hb ha
  apply hb.next hcfg ht (has a ha)

/-- The log of a run lists the requests in the order of their arrival. -/
theorem log_run (as : List (Client × Request)) :
  (run cfg as).log.map (fun e => (e.client, e.request)) = as
  := by
  suffices h : ∀ t : Trace, (as.foldl (next cfg) t).log.map (fun e => (e.client, e.request))
      = t.log.map (fun e => (e.client, e.request)) ++ as by
    simpa [run, initial] using h initial
  induction as with
  | nil => simp
  | cons a as ih =>
      intro t
      rw [List.foldl_cons, ih]
      simp [next]

/-- A request is answered: one message has been sent for it, to its sender, and no queue holds
its reply. -/
def Answered (t : Trace) (k : ℕ) (c : Client) : Prop :=
  (∃ mail, t.sent.filter (·.request = k) = [mail] ∧ mail.dest = c) ∧
    occurrences k t.state.waiting = 0

/-- A request is put off: no message has been sent for it, and its reply is on one queue,
once. -/
def PutOff (t : Trace) (k : ℕ) : Prop :=
  t.sent.filter (·.request = k) = [] ∧ occurrences k t.state.waiting = 1

/-- The number of messages sent for a request. -/
theorem length_filter_request (mails : List Mail) (k : ℕ) :
  (mails.filter (·.request = k)).length = (mails.map (·.request)).count k
  := by
  rw [List.count, List.countP_map, List.countP_eq_length_filter]
  rfl

/-- Every request of the log is answered or put off. -/
theorem Balanced.answered_or_putOff {t : Trace} (hb : t.Balanced) {k : ℕ} {e : Entry}
    (hk : t.log[k]? = some e) :
  t.Answered k e.client ∨ t.PutOff k
  := by
  obtain ⟨hlt, -⟩ := List.getElem?_eq_some_iff.mp hk
  have honce := hb.once k
  rw [if_pos hlt, ← length_filter_request] at honce
  cases hsent : t.sent.filter (·.request = k) with
  | nil =>
      right
      simp only [hsent, List.length_nil] at honce
      exact ⟨hsent, by omega⟩
  | cons mail rest =>
      left
      simp only [hsent, List.length_cons] at honce
      have hrest : rest = [] := List.eq_nil_of_length_eq_zero (by omega)
      have hmail : mail ∈ t.sent.filter (·.request = k) := by simp [hsent]
      obtain ⟨hm, hreq⟩ := List.mem_filter.mp hmail
      obtain ⟨e', hlog, hdest⟩ := hb.addressed mail hm
      have hkm : mail.request = k := by simpa using hreq
      rw [hkm, hk] at hlog
      obtain rfl := Option.some.inj hlog
      constructor
      · use mail
        rw [hsent, hrest]
        exact ⟨rfl, hdest⟩
      · omega

/-- From `t` to `t'` lock `i` is handed over: to the head of its queue, whose reply is sent, or
it becomes available. -/
def HandsOver (t t' : Trace) (i : Int) (lock : ServerLock) : Prop :=
  match lock.waitQueue with
  | [] => ∃ lock', t'.state.lockAt i = some lock' ∧ lock'.available = true ∧ lock'.waitQueue = []
  | r :: rest =>
      (∃ lock', t'.state.lockAt i = some lock' ∧ lock'.available = false ∧
        lock'.owner = r.idToSendTo ∧ lock'.waitQueue = rest) ∧
      t'.granted i = t.granted i ++ [r.request] ∧ r.mail ∈ t'.sent

/-- A step in which the lock is overwritten by `handOver` and its `grant` is sent hands the lock
over. -/
theorem handsOver_of_lockAt {t t' : Trace} {i : Int} {lock : ServerLock} (hok : lock.Ok)
    (hlock : t'.state.lockAt i = some lock.handOver)
    (hgranted : t'.granted i = t.granted i ++ lock.grant.map (·.request))
    (hsent : ∀ mail ∈ lock.grant, mail ∈ t'.sent) :
  HandsOver t t' i lock
  := by
  unfold HandsOver
  split
  · rename_i hq
    use lock.handOver, hlock
    simp [ServerLock.handOver, hq]
  · rename_i r rest hq
    have hav : lock.available = false := hok.unavailable (by simp [hq])
    constructor
    · use lock.handOver, hlock
      simp [ServerLock.handOver, hq, hav]
    · simp only [ServerLock.grant, hq, List.head?_cons, Option.toList_some, List.map_cons,
        List.map_nil, List.mem_singleton, forall_eq] at hgranted hsent
      exact ⟨hgranted, hsent⟩

/-- The owner of a lock hands it over by `Release` and by a `Wait` that is accepted. -/
theorem handsOver_next {t : Trace} (ht : t.Ok) {c : Client} {request : Request} {i : Int}
    {lock : ServerLock} (hi : t.state.lockAt i = some lock)
    (hrequest : request = .release i ∧ ownedBy c i t.state = true ∨
      ∃ j, request = .wait j i ∧ accepts c t.state request = true) :
  HandsOver t (t.next cfg (c, request)) i lock
  := by
  have hok := ht.state.lock hi
  obtain ⟨rfl, how⟩ | ⟨j, rfl, hacc⟩ := hrequest
  · apply handsOver_of_lockAt hok
    · simp [next, serve, how, release_eq hi hok, State.lockAt_setLock hi]
    · simp [next, serve, how, release_eq hi hok, Request.lockIndex]
    · intro mail hmail
      simp [next, serve, how, release_eq hi hok, Outcome.sent, hmail]
  · obtain ⟨how, hwaitable⟩ : ownedBy c i t.state = true ∧ waitable j i t.state = true := by
      simpa [accepts] using hacc
    obtain ⟨cv, hj, -⟩ := exists_of_waitable hwaitable
    apply handsOver_of_lockAt hok
    · simp [next, serve, how, hwaitable, wait_eq hj hi hok.agree, appendToCV, State.cvAt_setCV hj,
        State.setLock_setCV, State.lockAt_setLock (s := State.setCV _ _ _) hi]
    · simp [next, serve, how, hwaitable, wait_eq hj hi hok.agree, Request.lockIndex]
    · intro mail hmail
      simp [next, serve, how, hwaitable, wait_eq hj hi hok.agree, Outcome.sent, hmail]

/-- In every run of one server in which nothing is destroyed: every request processed has been
answered by one message to its sender, or its reply is on one queue, once; the counters agree
with the queues; a lock with a queue is not available; what is put on the queue of a lock is
taken off it in order; and the owner of a lock hands it over to the head of its queue. -/
theorem requests_accounted (hcfg : cfg.numServers = 1) (as : List (Client × Request))
    (has : ∀ a ∈ as, a.2.isDestroy = false) :
  (run cfg as).log.map (fun e => (e.client, e.request)) = as ∧
    (∀ k e, (run cfg as).log[k]? = some e →
      (run cfg as).Answered k e.client ∨ (run cfg as).PutOff k) ∧
    (∀ i lock, (run cfg as).state.lockAt i = some lock →
      lock.numWaiters = lock.waitQueue.length ∧
        (lock.waitQueue ≠ [] → lock.available = false)) ∧
    (∀ j cv, (run cfg as).state.cvAt j = some cv → cv.numWaiters = cv.waitQueue.length) ∧
    (∀ i, (run cfg as).queued i
      = (run cfg as).granted i ++ (queueOf i (run cfg as).state).map (·.request)) ∧
    ∀ i lock c request, (run cfg as).state.lockAt i = some lock →
      (request = .release i ∧ ownedBy c i (run cfg as).state = true ∨
        ∃ j, request = .wait j i ∧ accepts c (run cfg as).state request = true) →
      HandsOver (run cfg as) ((run cfg as).next cfg (c, request)) i lock
  := by
  have hok := ok_run hcfg as has
  have hb := balanced_run hcfg as has
  use log_run as
  use fun k e hk => hb.answered_or_putOff hk
  use fun i lock hi => ⟨(hok.state.lock hi).numWaiters_eq, (hok.state.lock hi).unavailable⟩
  use fun j cv hj => (hok.state.cv hj).numWaiters_eq
  use hb.fifo
  intro i lock c request hi hrequest
  apply handsOver_next hok hi hrequest

/-- Two clients queue for a lock whose owner waits on a condition variable and is signalled. -/
def waitRequests : List (Client × Request) :=
  [(⟨1, 0⟩, .createLock [76]), (⟨1, 0⟩, .createCV [67]), (⟨1, 0⟩, .acquire 0),
    (⟨2, 0⟩, .acquire 0), (⟨3, 0⟩, .acquire 0), (⟨1, 0⟩, .wait 0 0), (⟨2, 0⟩, .signal 0 0)]

/-- The request granted from the queue is the first of those put on it, and the waiter that was
signalled is the last of them. -/
theorem requests_accounted_wait :
  (run ⟨0, 1⟩ waitRequests).granted 0 = [3] ∧ (run ⟨0, 1⟩ waitRequests).queued 0 = [3, 4, 5] ∧
    ∀ i, (run ⟨0, 1⟩ waitRequests).queued i = (run ⟨0, 1⟩ waitRequests).granted i
      ++ (queueOf i (run ⟨0, 1⟩ waitRequests).state).map (·.request)
  := ⟨by decide, by decide, (requests_accounted rfl waitRequests (by decide)).2.2.2.2.1⟩

end Trace

end Nachos.Server
