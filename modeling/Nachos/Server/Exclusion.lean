import Nachos.Server.Trace

/-!
# Mutual exclusion

A client holds a lock from the moment the server answers its `Acquire`, or completes its `Wait`,
until the server processes its `Release` or accepts its `Wait` (`Trace.holders`). In every run of
one server the clients that hold a lock are the one named by the field `owner`, if any
(`Trace.Exclusive`), whatever requests the clients send and in whatever order they arrive.
-/

namespace Nachos.Server

/-! ### Who a message grants a lock to -/

/-- The client a reply is addressed to. -/
def ReplyMsg.client (r : ReplyMsg) : Client := ⟨r.idToSendTo, r.boxToSendTo⟩

/-- The client a lock is handed over to, if somebody waits for it. -/
def ServerLock.nextOwner (lock : ServerLock) : List Client :=
  lock.waitQueue.head?.toList.map (·.client)

theorem grantees_append (log : List Entry) (i : Int) (mails mails' : List Mail) :
  grantees log i (mails ++ mails') = grantees log i mails ++ grantees log i mails'
  := List.filterMap_append

@[simp]
theorem grantees_nil (log : List Entry) (i : Int) :
  grantees log i [] = []
  := rfl

/-- The reply to the request just processed grants the lock the request asks for, if the request
is accepted. -/
theorem grantees_reply (log : List Entry) (e : Entry) (i : Int) (b : Int8) :
  grantees (log ++ [e]) i [reply log.length e.client b] =
    if e.accepted = true ∧ e.request.asksFor = some i then [e.client] else []
  := by
  simp only [grantees, reply, List.filterMap_cons, List.filterMap_nil]
  split
  · rename_i h
    simp only [List.getElem?_concat_length, Option.bind_eq_bind, Option.bind_some] at h
    split at h
    · cases h
    · rename_i hne
      simp only [hne, if_false]
  · rename_i h
    simp only [List.getElem?_concat_length, Option.bind_eq_bind, Option.bind_some] at h
    split at h
    · rename_i hacc
      obtain rfl := Option.some.inj h
      simp only [hacc, and_self, if_true]
    · cases h

/-- A reply that waits for lock `k` grants that lock to its addressee, and no other. -/
theorem grantees_mail {log : List Entry} {k : Int} {r : ReplyMsg}
    (h : Trace.WaitsFor log k r) (i : Int) :
  grantees log i [r.mail] = if k = i then [r.client] else []
  := by
  obtain ⟨e, hlog, hacc, hask, hr⟩ := h
  have hclient : r.client = e.client := by
    rw [hr]
    rfl
  have hmail : r.mail.request = r.request := rfl
  simp only [grantees, List.filterMap_cons, List.filterMap_nil, hmail, hlog, Option.bind_eq_bind,
    Option.bind_some, hacc, hask, Option.some.injEq, true_and, hclient]
  by_cases hki : k = i
  · simp [hki]
  · simp [hki]

/-- What handing a lock over grants: the lock, to the head of its queue. -/
theorem grantees_grant {log : List Entry} {k : Int} {lock : ServerLock}
    (h : ∀ r ∈ lock.waitQueue, Trace.WaitsFor log k r) (i : Int) :
  grantees log i lock.grant = if k = i then lock.nextOwner else []
  := by
  unfold ServerLock.grant ServerLock.nextOwner
  cases hq : lock.waitQueue with
  | nil => simp
  | cons r rest =>
      have hr : Trace.WaitsFor log k r := by
        apply h
        simp [hq]
      simpa using grantees_mail hr i

/-! ### The holders of a lock -/

/-- The machine a lock says it is owned by, if any. -/
def ServerLock.holder (lock : ServerLock) : List ℕ :=
  if lock.owner = -1 then [] else [lock.owner.toNat]

/-- The machine the lock at `i` is owned by, if any. -/
def State.holder (s : State) (i : Int) : List ℕ :=
  match s.lockAt i with
  | some lock => lock.holder
  | none => []

theorem State.holder_of_lockAt {s : State} {i : Int} {lock : ServerLock}
    (h : s.lockAt i = some lock) :
  s.holder i = lock.holder
  := by
  simp [holder, h]

theorem State.holder_congr {s s' : State} (h : s'.serverLockTable = s.serverLockTable) (i : Int) :
  s'.holder i = s.holder i
  := by
  simp [holder, lockAt_congr h]

/-- Overwriting lock `i` changes the holder of lock `i` only. -/
theorem State.holder_setLock {s : State} {i : Int} {lock : ServerLock}
    (h : s.lockAt i = some lock) (lock' : ServerLock) (k : Int) :
  (s.setLock i lock').holder k = if k = i then lock'.holder else s.holder k
  := by
  unfold holder
  rw [lockAt_setLock h]
  by_cases hki : k = i
  · simp [hki]
  · simp [hki]

@[simp]
theorem State.holder_setCV (s : State) (j : Int) (cv : ServerCV) (k : Int) :
  (s.setCV j cv).holder k = s.holder k
  := rfl

/-- Nobody holds a lock that has just been created. -/
theorem State.holder_newLock (s : State) (name : List Int8) (id : ℕ) (k : Int) :
  State.holder { s with serverLockTable := s.serverLockTable ++ [ServerLock.new name id] } k
    = s.holder k
  := by
  unfold holder lockAt
  by_cases hk : -1 < k
  · simp only [hk, if_true]
    by_cases hlt : k.toNat < s.serverLockTable.length
    · rw [List.getElem?_append_left hlt]
    · have hnone : s.serverLockTable[k.toNat]? = none := by simpa using hlt
      rw [List.getElem?_append_right (by omega), hnone]
      cases k.toNat - s.serverLockTable.length with
      | zero => simp [ServerLock.holder, ServerLock.new]
      | succ d => simp
  · simp [hk]

/-- At most one machine owns a lock. -/
theorem State.length_holder_le (s : State) (i : Int) :
  (s.holder i).length ≤ 1
  := by
  rw [State.holder]
  split
  · rw [ServerLock.holder]
    split <;> simp
  · simp

theorem ServerLock.holder_of_owner {lock : ServerLock} {c : Client}
    (h : lock.owner = c.machine) :
  lock.holder = [c.machine]
  := by
  have hne : lock.owner ≠ -1 := by omega
  simp [holder, h]

/-- A lock that is handed over is held by the client it is handed over to. -/
theorem ServerLock.holder_handOver (lock : ServerLock) :
  lock.handOver.holder = lock.nextOwner.map (·.machine)
  := by
  unfold ServerLock.handOver ServerLock.nextOwner
  cases hq : lock.waitQueue with
  | nil => simp [holder]
  | cons r rest =>
      have hne : (r.idToSendTo : Int) ≠ -1 := by omega
      simp [holder, ReplyMsg.client]

/-! ### Runs -/

namespace Trace

/-- The holders of each lock are the machine its field `owner` names. -/
def Exclusive (t : Trace) : Prop := ∀ i, t.holders i = t.state.holder i

variable {cfg : Config}

/-- A client that hands lock `k` over gives it up, and the head of the queue holds it then. -/
theorem holders_handOver {s : State} {k i : Int} {lock : ServerLock} {c : Client}
    {log : List Entry} (hk : s.lockAt k = some lock) (howner : lock.owner = c.machine)
    (hq : ∀ r ∈ lock.waitQueue, WaitsFor log k r) :
  (if some k = some i then (s.holder i).filter (· != c.machine) else s.holder i)
      ++ (grantees log i lock.grant).map (·.machine)
    = (s.setLock k lock.handOver).holder i
  := by
  rw [State.holder_setLock hk, grantees_grant hq, ServerLock.holder_handOver]
  by_cases hki : k = i
  · subst hki
    simp [State.holder_of_lockAt hk, ServerLock.holder_of_owner howner]
  · simp [hki, Ne.symm hki]

/-- A request that is refused is not accepted. -/
theorem not_accepts_of_refused {s : State} {c : Client} {request : Request}
    (h : Refused c s request) :
  accepts c s request = false
  := by
  cases request with
  | acquire k =>
      have hk : s.lockAt k = none := h
      simp [accepts, hk]
  | wait j k =>
      obtain h | h := h
      · simp [accepts, h]
      · simp [accepts, h]
  | _ => rfl

/-- A request that is refused leaves the holders as they are. -/
theorem holders_refused {s : State} {c : Client} {request : Request}
    (hge : ∀ k lock, request.lockIndex = some k → s.lockAt k = some lock → -1 ≤ lock.owner)
    (h : Refused c s request) (i : Int) :
  (if givesUp c s request = some i then (s.holder i).filter (· != c.machine) else s.holder i)
    = s.holder i
  := by
  cases request with
  | release k =>
      by_cases hki : k = i
      · subst hki
        have hne : ownedBy c k s = false := h
        simp only [givesUp, if_true]
        cases hk : s.lockAt k with
        | none => simp [State.holder, hk]
        | some lock =>
            rw [State.holder_of_lockAt hk, ServerLock.holder]
            split
            · simp
            · have hm : lock.owner.toNat ≠ c.machine := by
                have howner : lock.owner ≠ c.machine := by simpa [ownedBy, hk] using hne
                have hlock := hge k lock rfl hk
                omega
              simp [hm]
      · simp [givesUp, hki]
  | wait j k =>
      simp [givesUp, not_accepts_of_refused h]
  | _ => simp [givesUp]

theorem exclusive_initial :
  initial.Exclusive
  := by
  intro i
  simp [initial, State.holder, State.lockAt, State.initial]

/-- A request that is served keeps the holders of each lock what its field `owner` says, if the
fields of the lock that the request is about agree. -/
theorem holders_served {log : List Entry} {c : Client} {s : State} {request : Request} {o : Outcome}
    (h : Served log.length c s request o)
    (hlock : ∀ k lock, request.lockIndex = some k → s.lockAt k = some lock →
      -1 ≤ lock.owner ∧ (lock.available = true ↔ lock.owner = -1))
    (hqueue : ∀ k lock, request.lockIndex = some k → s.lockAt k = some lock →
      ∀ r ∈ lock.waitQueue, WaitsFor (log ++ [⟨c, request, accepts c s request⟩]) k r)
    (i : Int) :
  (if givesUp c s request = some i then (s.holder i).filter (· != c.machine) else s.holder i) ++
      (grantees (log ++ [⟨c, request, accepts c s request⟩]) i o.sent).map (·.machine) =
    o.state.holder i
  := by
  simp only [Outcome.sent, grantees_append]
  cases h with
  | other hrequest hlocks =>
      rw [grantees_reply]
      have hholder := State.holder_congr hlocks i
      cases request with
      | createLock | createCV | createMV | setMV | getMV | destroyCV | destroyMV =>
          simp [givesUp, accepts, hholder]
      | acquire | release | signal | broadcast | wait | destroyLock => cases hrequest
  | newLock =>
      rw [grantees_reply, State.holder_newLock]
      simp [givesUp, accepts]
  | newCV =>
      rw [grantees_reply]
      simp [givesUp, accepts]
      rfl
  | refused hrefused =>
      have hacc := not_accepts_of_refused hrefused
      have hge : ∀ k lock, request.lockIndex = some k → s.lockAt k = some lock → -1 ≤ lock.owner :=
        fun k lock hk hat => (hlock k lock hk hat).1
      rw [grantees_reply, holders_refused hge hrefused]
      simp [hacc]
  | @take k lock hk hav =>
      have hfree : lock.owner = -1 := (hlock k lock rfl hk).2.mp hav
      rw [grantees_reply, State.holder_setLock hk]
      by_cases hki : k = i
      · subst hki
        simp [givesUp, accepts, Request.asksFor, hk, State.holder_of_lockAt hk, hfree,
          ServerLock.holder]
      · simp [givesUp, Request.asksFor, hki, Ne.symm hki]
  | @queue k lock hk hav =>
      rw [State.holder_setLock hk]
      by_cases hki : k = i
      · subst hki
        simp [givesUp, State.holder_of_lockAt hk, ServerLock.holder, ServerLock.append]
      · simp [givesUp, Ne.symm hki]
  | @release k lock hk howner =>
      rw [grantees_reply, ← holders_handOver hk howner (hqueue k lock rfl hk)]
      simp [givesUp, accepts]
  | @wake _ j k cv lock hrequest hj hk howner hbound =>
      have hk' : (s.setCV j (cv.wake (request.wakes cv.waitQueue.length))).lockAt k
          = some lock := hk
      rw [grantees_reply, State.moved, State.holder_setLock hk']
      obtain rfl | rfl := hrequest
      · by_cases hki : k = i
        · subst hki
          simp [givesUp, accepts, State.holder_of_lockAt hk, ServerLock.holder, ServerLock.append]
        · simp [givesUp, accepts, Ne.symm hki]
      · by_cases hki : k = i
        · subst hki
          simp [givesUp, accepts, State.holder_of_lockAt hk, ServerLock.holder, ServerLock.append]
        · simp [givesUp, accepts, Ne.symm hki]
  | @wait j k cv lock hj hk howner hbound =>
      have hacc : accepts c s (.wait j k) = true := by
        simpa [accepts, ownedBy, waitable, hk, hj, howner] using hbound
      have h := holders_handOver (i := i) hk howner (hqueue k lock rfl hk)
      simp only [givesUp, hacc, if_true, grantees_nil, List.append_nil] at h ⊢
      rw [h]
      rfl

/-- A request keeps the holders of each lock what its field `owner` says. -/
theorem Exclusive.next (hcfg : cfg.numServers = 1) {t : Trace} (ht : t.Ok) (hex : t.Exclusive)
    {a : Client × Request} (ha : a.2.isDestroy = false) :
  (t.next cfg a).Exclusive
  := by
  intro i
  have hlock : ∀ k lock, a.2.lockIndex = some k → t.state.lockAt k = some lock →
      -1 ≤ lock.owner ∧ (lock.available = true ↔ lock.owner = -1) :=
    fun k lock _ hk => ⟨(ht.state.lock hk).owner_ge, (ht.state.lock hk).available_iff⟩
  have hserved := holders_served (served_next hcfg ht ha) hlock
    (fun k lock _ hk r hr => (ht.lockQueue k lock hk r hr).snoc _) i
  simp only [Trace.next, hex i]
  apply hserved

/-- In every run of one server in which nothing is destroyed at most one client holds a lock,
`available` is set exactly when `owner` is `-1`, and a lock that is not available names its
holder as the owner. -/
theorem at_most_one_holder (hcfg : cfg.numServers = 1) (as : List (Client × Request))
    (has : ∀ a ∈ as, a.2.isDestroy = false) :
  (∀ i, ((run cfg as).holders i).length ≤ 1) ∧
    ∀ i lock, (run cfg as).state.lockAt i = some lock →
      (lock.available = true ↔ lock.owner = -1) ∧
        (lock.available = false → ∃ m : ℕ, (run cfg as).holders i = [m] ∧ lock.owner = m)
  := by
  have hok := ok_run hcfg as has
  have hex : (run cfg as).Exclusive := by
    apply run_induction exclusive_initial _ hcfg has
    intro t a ht hex ha
    apply hex.next hcfg ht (has a ha)
  constructor
  · intro i
    rw [hex i]
    apply State.length_holder_le
  · intro i lock hi
    have hlock := hok.state.lock hi
    use hlock.available_iff
    intro hav
    have hne : lock.owner ≠ -1 := by
      rw [Ne, ← hlock.available_iff, hav]
      simp
    use lock.owner.toNat
    constructor
    · rw [hex i, State.holder_of_lockAt hi, ServerLock.holder, if_neg hne]
    · have hge := hlock.owner_ge
      omega

/-- A client queues for a lock, tries to release it, and gets it from its owner. -/
def handOverRequests : List (Client × Request) :=
  [(⟨1, 0⟩, .createLock [76]), (⟨1, 0⟩, .acquire 0), (⟨2, 3⟩, .acquire 0), (⟨2, 3⟩, .release 0),
    (⟨1, 0⟩, .release 0)]

theorem at_most_one_holder_handOver :
  (run ⟨0, 1⟩ handOverRequests).holders 0 = [2] ∧
    ((run ⟨0, 1⟩ handOverRequests).holders 0).length ≤ 1
  := ⟨by decide, (at_most_one_holder rfl handOverRequests (by decide)).1 0⟩

end Trace

end Nachos.Server
