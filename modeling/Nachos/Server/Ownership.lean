import Nachos.Server.Exclusion

/-!
# Ownership by machine

A server compares the machine of a request with the field `owner` of a lock, and it never sets
`ownerMailBoxNum`. So a request that uses a lock is refused when it comes from another machine
than the one the lock was granted to, but not when it comes from another thread of that machine.
A run respects the grants exactly when no such thread meddles with a lock
(`Trace.respects_grants_iff`).
-/

namespace Nachos.Server

/-- The lock a request uses as its owner. -/
def Request.uses : Request → Option Int
  | .release index => some index
  | .signal _ lockIndex | .broadcast _ lockIndex | .wait _ lockIndex => some lockIndex
  | _ => none

/-- The request of the owner of the lock would change the tables: every `Release`, a `Wait` on a
condition variable that is bound to no other lock, a `Signal` or `Broadcast` on one that is bound
to the lock and has waiters. -/
def Request.effective (s : State) : Request → Prop
  | .release _ => True
  | .wait j i => waitable j i s = true
  | .signal j i | .broadcast j i => boundTo j i s = true ∧ waitersOf j s ≠ []
  | _ => False

namespace Trace

variable {cfg : Config}

/-- The lock was granted last to a client of the machine that holds it. -/
def Recorded (t : Trace) : Prop :=
  ∀ i m, m ∈ t.holders i → ∃ c, t.lastGranted i = some c ∧ c.machine = m

theorem recorded_initial :
  initial.Recorded
  := by
  intro i m hm
  simp [initial] at hm

/-- A client that holds a lock after a request held it before or has just been granted it. -/
theorem Recorded.next {t : Trace} (h : t.Recorded) {a : Client × Request}
    (hex : ∀ i, ((t.next cfg a).holders i).length ≤ 1) :
  (t.next cfg a).Recorded
  := by
  intro i m hm
  have hle := hex i
  simp only [Trace.next] at hm hle ⊢
  generalize grantees _ i _ = g at hm hle ⊢
  cases hg : g.getLast? with
  | none =>
      obtain rfl := List.getLast?_eq_none_iff.mp hg
      have hm' : m ∈ t.holders i := by
        split at hm
        · simp only [List.map_nil, List.append_nil] at hm
          apply List.mem_of_mem_filter hm
        · simpa using hm
      simpa using h i m hm'
  | some x =>
      have hx : x.machine ∈ g.map (·.machine) := by
        apply List.mem_map_of_mem
        apply List.mem_of_getLast? hg
      use x
      constructor
      · simp
      · apply Queues.eq_of_length_le_one hle _ hm
        apply List.mem_append_right _ hx

/-- The request leaves all tables as they are, unless it comes from the client to whom the lock it
uses was granted last. -/
def RespectsGrant (cfg : Config) (t : Trace) (a : Client × Request) : Prop :=
  ∀ i, a.2.uses = some i → t.lastGranted i ≠ some a.1 → (t.next cfg a).state = t.state

/-- The request uses a lock that is not available, it comes from the machine the lock was granted
to last but from another mailbox, and it would change the tables. -/
def Meddles (t : Trace) (a : Client × Request) : Prop :=
  ∃ i c lock, a.2.uses = some i ∧ t.lastGranted i = some c ∧ c.machine = a.1.machine ∧
    c.mailBox ≠ a.1.mailBox ∧ t.state.lockAt i = some lock ∧ lock.available = false ∧
    a.2.effective t.state

/-- A request that is refused leaves the tables as they are. -/
theorem state_next_of_refused {t : Trace} {a : Client × Request}
    (h : Refused a.1 t.state a.2) :
  (t.next cfg a).state = t.state
  := by
  obtain ⟨c, request⟩ := a
  cases request with
  | acquire i =>
      have hi : t.state.lockAt i = none := h
      simp [next, serve, acquire, hi]
  | release i =>
      have how : ownedBy c i t.state = false := h
      simp [next, serve, how]
  | signal j i =>
      cases how : ownedBy c i t.state with
      | false => simp [next, serve, how]
      | true =>
          have hb : boundTo j i t.state = false := h.resolve_left (by simp [how])
          simp [next, serve, how, signal_of_not_boundTo hb]
  | broadcast j i =>
      cases how : ownedBy c i t.state with
      | false => simp [next, serve, how]
      | true =>
          have hb : boundTo j i t.state = false := h.resolve_left (by simp [how])
          simp [next, serve, how, broadcast_of_not_boundTo hb]
  | wait j i =>
      cases how : ownedBy c i t.state with
      | false => simp [next, serve, how]
      | true =>
          have hw : waitable j i t.state = false := h.resolve_left (by simp [how])
          simp [next, serve, how, hw]
  | _ => cases h

/-- A lock with an owner is not the same after it has been handed over. -/
theorem handOver_ne {lock : ServerLock} (h : lock.available = false) :
  lock.handOver ≠ lock
  := by
  intro heq
  unfold ServerLock.handOver at heq
  split at heq
  · rename_i r rest hq
    have hqueue := congrArg ServerLock.waitQueue heq
    simp [hq] at hqueue
  · have hav := congrArg ServerLock.available heq
    simp [h] at hav

/-- A request of the owner of a lock changes the tables if it is effective. -/
theorem state_next_ne {t : Trace} (ht : t.Ok) {c : Client} {request : Request} {i : Int}
    (huses : request.uses = some i) (how : ownedBy c i t.state = true)
    (heff : request.effective t.state) :
  (t.next cfg (c, request)).state ≠ t.state
  := by
  obtain ⟨lock, hi, howner⟩ := exists_of_ownedBy how
  have hok := ht.state.lock hi
  intro heq
  cases request with
  | release k =>
      obtain rfl := Option.some.inj huses
      have hlock := congrArg (State.lockAt · k) heq
      simp only [next, serve, how, if_true, release_eq hi hok, State.lockAt_setLock hi,
        hi] at hlock
      apply handOver_ne (hok.agree.not_available howner) (Option.some.inj hlock)
  | signal j k =>
      obtain rfl := Option.some.inj huses
      obtain ⟨cv, hj, hbound⟩ := exists_of_boundTo heff.1
      have hne : cv.waitQueue ≠ [] := by simpa [waitersOf, hj] using heff.2
      have hcv := congrArg (waitersOf j) heq
      simp only [next, serve, how, if_true, signal_eq hj hi (ht.state.cv hj) hbound, State.moved,
        waitersOf, State.cvAt_setLock, State.cvAt_setCV hj, hj, ServerCV.wake] at hcv
      have hlen := congrArg List.length hcv
      have hpos := List.length_pos_of_ne_nil hne
      simp only [List.length_drop] at hlen
      omega
  | broadcast j k =>
      obtain rfl := Option.some.inj huses
      obtain ⟨cv, hj, hbound⟩ := exists_of_boundTo heff.1
      have hne : cv.waitQueue ≠ [] := by simpa [waitersOf, hj] using heff.2
      have hcv := congrArg (waitersOf j) heq
      simp only [next, serve, how, if_true, broadcast_eq hj hi (ht.state.cv hj) hbound,
        State.moved, waitersOf, State.cvAt_setLock, State.cvAt_setCV hj, hj,
        ServerCV.wake] at hcv
      have hlen := congrArg List.length hcv
      have hpos := List.length_pos_of_ne_nil hne
      simp only [List.length_drop] at hlen
      omega
  | wait j k =>
      obtain rfl := Option.some.inj huses
      have hw : waitable j k t.state = true := heff
      obtain ⟨cv, hj, -⟩ := exists_of_waitable hw
      have hcv := congrArg (waitersOf j) heq
      simp only [next, serve, how, hw, if_true, wait_eq hj hi hok.agree, appendToCV, State.cvAt_setLock,
        State.cvAt_setCV hj, State.setLock_setCV, State.setCV_setCV, waitersOf, hj] at hcv
      have hlen := congrArg List.length hcv
      simp at hlen
  | _ => cases huses

/-- A request that uses a lock and is not effective leaves the tables as they are. -/
theorem state_next_of_not_effective {t : Trace} (ht : t.Ok) {c : Client} {request : Request}
    {i : Int} (huses : request.uses = some i) (how : ownedBy c i t.state = true)
    (heff : ¬ request.effective t.state) :
  (t.next cfg (c, request)).state = t.state
  := by
  obtain ⟨lock, hi, howner⟩ := exists_of_ownedBy how
  cases request with
  | release k => exact absurd trivial heff
  | signal j k =>
      obtain rfl := Option.some.inj huses
      cases hb : boundTo j k t.state with
      | false => exact state_next_of_refused (a := (c, _)) (Or.inr hb)
      | true =>
          obtain ⟨cv, hj, hbound⟩ := exists_of_boundTo hb
          have hnil : cv.waitQueue = [] := by
            by_contra hne
            apply heff ⟨hb, _⟩
            simpa [waitersOf, hj] using hne
          simp [next, serve, how, signal_eq hj hi (ht.state.cv hj) hbound, hnil,
            State.moved_zero hj hi]
  | broadcast j k =>
      obtain rfl := Option.some.inj huses
      cases hb : boundTo j k t.state with
      | false => exact state_next_of_refused (a := (c, _)) (Or.inr hb)
      | true =>
          obtain ⟨cv, hj, hbound⟩ := exists_of_boundTo hb
          have hnil : cv.waitQueue = [] := by
            by_contra hne
            apply heff ⟨hb, _⟩
            simpa [waitersOf, hj] using hne
          simp [next, serve, how, broadcast_eq hj hi (ht.state.cv hj) hbound, hnil,
            State.moved_zero hj hi]
  | wait j k =>
      obtain rfl := Option.some.inj huses
      have hw : waitable j k t.state = false := by simpa [Request.effective] using heff
      exact state_next_of_refused (a := (c, _)) (Or.inr hw)
  | _ => cases huses

/-- A request that uses a lock is refused unless it comes from the machine of the owner. -/
theorem refused_of_not_ownedBy {s : State} {c : Client} {request : Request} {i : Int}
    (huses : request.uses = some i) (how : ownedBy c i s = false) :
  Refused c s request
  := by
  cases request with
  | release k =>
      obtain rfl := Option.some.inj huses
      apply how
  | signal j k | broadcast j k | wait j k =>
      obtain rfl := Option.some.inj huses
      exact Or.inl how
  | _ => cases huses

/-- The machine of the client to whom a lock was granted last owns the lock, as long as it is not
available. -/
theorem ownedBy_lastGranted {t : Trace} (ht : t.Ok) (hex : t.Exclusive) (hrec : t.Recorded)
    {i : Int} {c : Client} {lock : ServerLock} (hlast : t.lastGranted i = some c)
    (hi : t.state.lockAt i = some lock) (hav : lock.available = false) :
  lock.owner = c.machine
  := by
  have hok := ht.state.lock hi
  have hne : lock.owner ≠ -1 := by
    rw [Ne, ← hok.available_iff, hav]
    simp
  have hmem : lock.owner.toNat ∈ t.holders i := by
    rw [hex i, State.holder_of_lockAt hi, ServerLock.holder, if_neg hne]
    apply List.mem_singleton_self
  obtain ⟨c', hlast', hm⟩ := hrec i _ hmem
  obtain rfl := Option.some.inj (hlast.symm.trans hlast')
  have hge := hok.owner_ge
  omega

/-- The owner a lock names is the machine of the client to whom it was granted last. -/
theorem exists_lastGranted {t : Trace} (hex : t.Exclusive) (hrec : t.Recorded) {i : Int}
    {c : Client} {lock : ServerLock} (hi : t.state.lockAt i = some lock)
    (howner : lock.owner = c.machine) :
  ∃ c', t.lastGranted i = some c' ∧ c'.machine = c.machine
  := by
  apply hrec i
  rw [hex i, State.holder_of_lockAt hi, ServerLock.holder_of_owner howner]
  apply List.mem_singleton_self

/-- A request respects the grant of the lock it uses exactly when it does not meddle. -/
theorem respectsGrant_iff {t : Trace} (ht : t.Ok) (hex : t.Exclusive) (hrec : t.Recorded)
    (a : Client × Request) :
  RespectsGrant cfg t a ↔ ¬ Meddles t a
  := by
  obtain ⟨c, request⟩ := a
  constructor
  · rintro h ⟨i, c', lock, huses, hlast, hmachine, hbox, hi, hav, heff⟩
    have howner := ownedBy_lastGranted ht hex hrec hlast hi hav
    have how : ownedBy c i t.state = true := by
      simp only at hmachine
      simp [ownedBy, hi, howner, hmachine]
    apply state_next_ne ht huses how heff
    apply h i huses
    rw [hlast]
    intro heq
    apply hbox
    rw [Option.some.inj heq]
  · intro h i huses hlast
    cases how : ownedBy c i t.state with
    | false => exact state_next_of_refused (refused_of_not_ownedBy huses how)
    | true =>
        obtain ⟨lock, hi, howner⟩ := exists_of_ownedBy how
        obtain ⟨c', hlast', hmachine⟩ := exists_lastGranted hex hrec hi howner
        apply state_next_of_not_effective ht huses how
        intro heff
        apply h
        use i, c', lock, huses, hlast', hmachine
        constructor
        · intro hbox
          apply hlast
          rw [hlast']
          congr 1
          obtain ⟨m, b⟩ := c'
          obtain ⟨m', b'⟩ := c
          simp only at hmachine hbox
          rw [hmachine, hbox]
        · exact ⟨hi, (ht.state.lock hi).agree.not_available howner, heff⟩

/-- Every run keeps what the grants recorded say about the owners of the locks. -/
theorem recorded_run (hcfg : cfg.numServers = 1) (as : List (Client × Request))
    (has : ∀ a ∈ as, a.2.isDestroy = false) :
  (run cfg as).Exclusive ∧ (run cfg as).Recorded
  := by
  apply run_induction (I := fun t => t.Exclusive ∧ t.Recorded)
    ⟨exclusive_initial, recorded_initial⟩ _ hcfg has
  rintro t a ht ⟨hex, hrec⟩ ha
  have hex' := hex.next hcfg ht (has a ha)
  use hex'
  apply hrec.next
  intro i
  rw [hex' i]
  apply State.length_holder_le

/-- In every run of one server in which nothing is destroyed, the requests that use a lock leave
all tables as they are unless they come from the client to whom the lock was granted last, if and
only if none of them meddles. -/
theorem respects_grants_iff (hcfg : cfg.numServers = 1) (as : List (Client × Request))
    (has : ∀ a ∈ as, a.2.isDestroy = false) :
  (∀ bs a cs, as = bs ++ a :: cs → RespectsGrant cfg (run cfg bs) a) ↔
    ∀ bs a cs, as = bs ++ a :: cs → ¬ Meddles (run cfg bs) a
  := by
  have hstep : ∀ bs a cs, as = bs ++ a :: cs →
      (RespectsGrant cfg (run cfg bs) a ↔ ¬ Meddles (run cfg bs) a) := by
    rintro bs a cs rfl
    have hbs : ∀ b ∈ bs, b.2.isDestroy = false := fun b hb => has b (List.mem_append_left _ hb)
    obtain ⟨hex, hrec⟩ := recorded_run hcfg bs hbs
    apply respectsGrant_iff (ok_run hcfg bs hbs) hex hrec
  constructor
  · intro h bs a cs has'
    apply (hstep bs a cs has').mp (h bs a cs has')
  · intro h bs a cs has'
    apply (hstep bs a cs has').mpr (h bs a cs has')

/-- Two threads of machine `1` share a lock: the one with mailbox `0` acquires it, and the one with
mailbox `5` queues for it before it is released. -/
def sharedRequests : List (Client × Request) :=
  [(⟨1, 0⟩, .createLock [76]), (⟨1, 0⟩, .acquire 0), (⟨1, 5⟩, .acquire 0), (⟨2, 0⟩, .release 0),
    (⟨1, 0⟩, .release 0)]

/-- Nobody meddles with the lock two threads of a machine share. -/
theorem not_meddles_sharedRequests (bs : List (Client × Request)) (a : Client × Request)
    (cs : List (Client × Request)) (h : sharedRequests = bs ++ a :: cs) :
  ¬ Meddles (run ⟨0, 1⟩ bs) a
  := by
  rintro ⟨i, c, lock, huses, hlast, hmachine, hbox, -⟩
  simp only [sharedRequests, List.cons_eq_append_iff, List.cons.injEq, List.nil_eq_append_iff,
    reduceCtorEq, and_false, exists_false, or_false] at h
  obtain ⟨rfl, rfl, -⟩ | ⟨_, rfl, ⟨rfl, rfl, -⟩ | ⟨_, rfl, ⟨rfl, rfl, -⟩ | ⟨_, rfl, ⟨rfl, rfl, -⟩ |
    ⟨_, rfl, ⟨rfl, rfl, -⟩⟩⟩⟩⟩ := h
  · cases huses
  · cases huses
  · cases huses
  · obtain rfl := Option.some.inj huses
    have hone : some (⟨1, 0⟩ : Client) = some c := hlast
    obtain rfl := Option.some.inj hone
    simp at hmachine
  · obtain rfl := Option.some.inj huses
    have hone : some (⟨1, 0⟩ : Client) = some c := hlast
    obtain rfl := Option.some.inj hone
    simp at hbox

theorem respects_grants_shared :
  (∀ a ∈ sharedRequests, a.2.isDestroy = false) ∧
    ∀ bs a cs, sharedRequests = bs ++ a :: cs → RespectsGrant ⟨0, 1⟩ (run ⟨0, 1⟩ bs) a
  := by
  have hdestroy : ∀ a ∈ sharedRequests, a.2.isDestroy = false := by decide
  use hdestroy
  apply (respects_grants_iff rfl sharedRequests hdestroy).mpr not_meddles_sharedRequests

/-- A thread of machine `1` acquires a lock, and another thread of that machine releases it. -/
def meddlingRequests : List (Client × Request) :=
  [(⟨1, 0⟩, .createLock [76]), (⟨1, 0⟩, .acquire 0), (⟨1, 5⟩, .release 0)]

/-- Not every run respects the grants: a lock is released by a thread to whom it was never
granted. -/
theorem not_respects_grants :
  ¬ ∀ cfg : Config, cfg.numServers = 1 → ∀ as : List (Client × Request),
    (∀ a ∈ as, a.2.isDestroy = false) →
      ∀ bs a cs, as = bs ++ a :: cs → RespectsGrant cfg (run cfg bs) a
  := by
  intro h
  have hstate := h ⟨0, 1⟩ rfl meddlingRequests (by decide)
    [(⟨1, 0⟩, .createLock [76]), (⟨1, 0⟩, .acquire 0)] (⟨1, 5⟩, .release 0) [] rfl 0 rfl (by decide)
  have hav := congrArg (fun s => (s.lockAt 0).map (·.available)) hstate
  revert hav
  decide

end Trace

end Nachos.Server
