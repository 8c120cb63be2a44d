import Nachos.Group.Basic
import Nachos.Server.Exclusion

/-!
# A group is not one server

A group of servers is transparent if the replies its clients get are those of a run of one server
by the same requests (`Group.Transparent`). A group of one server is, and no other: two servers
asked to create the same monitor variable return different handles for it
(`Group.transparent_iff`).
-/

namespace Nachos.Server

/-! ### One server -/

/-- A request with its number and its sender. -/
abbrev Numbered := ℕ × Client × Request

/-- The tables of a single server and the messages it has sent after it has processed the requests
`rs` in this order. -/
def single (rs : List Numbered) : State × List Mail :=
  rs.foldl (fun t r =>
    ((serve ⟨0, 1⟩ r.1 r.2.1 r.2.2 t.1).state, t.2 ++ (serve ⟨0, 1⟩ r.1 r.2.1 r.2.2 t.1).sent))
    (State.initial, [])

theorem single_snoc (rs : List Numbered) (r : Numbered) :
  single (rs ++ [r]) =
    ((serve ⟨0, 1⟩ r.1 r.2.1 r.2.2 (single rs).1).state,
      (single rs).2 ++ (serve ⟨0, 1⟩ r.1 r.2.1 r.2.2 (single rs).1).sent)
  := by
  simp [single, List.foldl_append]

/-! ### Addresses -/

/-- All replies on the queues go to clients that satisfy `P`. -/
def State.Addressed (P : Client → Prop) (s : State) : Prop :=
  s.AllLocks (fun _ lock => ∀ r ∈ lock.waitQueue, P r.client) ∧
    s.AllCVs (fun _ cv => ∀ r ∈ cv.waitQueue, P r.client)

section Addressed

variable {P : Client → Prop} {s : State} {n : ℕ} {c : Client}

theorem State.Addressed.setLock (h : s.Addressed P) {i : Int} {lock lock' : ServerLock}
    (hi : s.lockAt i = some lock) (hlock : ∀ r ∈ lock'.waitQueue, P r.client) :
  (s.setLock i lock').Addressed P
  := ⟨h.1.set hi hlock, h.2⟩

theorem State.Addressed.setCV (h : s.Addressed P) {j : Int} {cv cv' : ServerCV}
    (hj : s.cvAt j = some cv) (hcv : ∀ r ∈ cv'.waitQueue, P r.client) :
  (s.setCV j cv').Addressed P
  := ⟨h.1.setCV _ _, h.2.set hj hcv⟩

/-- What a lock is handed over to was on its queue. -/
theorem State.Addressed.sendToNewOwner (h : s.Addressed P) {i : Int} {lock : ServerLock}
    (hi : s.lockAt i = some lock) :
  (sendToNewOwner i lock s).1.Addressed P ∧ ∀ mail ∈ (sendToNewOwner i lock s).2, P mail.dest
  := by
  have hqueue := h.1 i lock hi
  unfold Server.sendToNewOwner
  split
  · rename_i newMsg rest hq
    constructor
    · apply h.setLock hi
      intro r hr
      apply hqueue r
      rw [hq]
      apply List.mem_cons_of_mem _ hr
    · intro mail hmail
      obtain rfl := List.mem_singleton.mp hmail
      apply hqueue newMsg
      rw [hq]
      apply List.mem_cons_self
  · use h
    intro mail hmail
    simp at hmail

theorem State.Addressed.makeAvailable (h : s.Addressed P) {i : Int} {lock : ServerLock}
    (hi : s.lockAt i = some lock) :
  (makeAvailable i lock s).1.Addressed P ∧ ∀ mail ∈ (makeAvailable i lock s).2, P mail.dest
  := by
  constructor
  · apply h.setLock hi
    apply h.1 i lock hi
  · intro mail hmail
    simp [Server.makeAvailable] at hmail

theorem State.Addressed.release (h : s.Addressed P) (i : Int) :
  (release i s).1.Addressed P ∧ ∀ mail ∈ (release i s).2, P mail.dest
  := by
  unfold Server.release
  split
  · simpa using h
  · rename_i lock hi
    split
    · apply h.sendToNewOwner hi
    · split
      · constructor
        · apply h.setLock hi
          apply h.1 i lock hi
        · simp
      · apply h.makeAvailable hi

theorem State.Addressed.wait (h : s.Addressed P) (j i : Int) :
  (wait j i s).1.Addressed P ∧ ∀ mail ∈ (wait j i s).2, P mail.dest
  := by
  unfold Server.wait
  split
  · simpa using h
  · rename_i cv hj
    have h' : (s.setCV j { cv with serverLockIndex := i }).Addressed P := by
      apply h.setCV hj
      apply h.2 j cv hj
    dsimp only
    split
    · simpa using h'
    · rename_i lock hi
      split
      · apply h'.sendToNewOwner hi
      · apply h'.makeAvailable hi

theorem State.Addressed.moveWaiter (h : s.Addressed P) (j i : Int) :
  (moveWaiter j i s).Addressed P
  := by
  unfold Server.moveWaiter
  split
  · rename_i cv lock hj hi
    split
    · rename_i newMsg rest hq
      have hcv : ∀ r ∈ newMsg :: rest, P r.client := by
        rw [← hq]
        apply h.2 j cv hj
      have h' : (s.setCV j { cv with
          numWaiters := cv.numWaiters - 1, waitQueue := rest }).Addressed P := by
        apply h.setCV hj
        intro r hr
        apply hcv r (List.mem_cons_of_mem _ hr)
      have hi' : (s.setCV j { cv with
          numWaiters := cv.numWaiters - 1, waitQueue := rest }).lockAt i = some lock := hi
      apply h'.setLock hi'
      intro r hr
      obtain hr | hr := List.mem_append.mp hr
      · apply h.1 i lock hi r hr
      · obtain rfl := List.mem_singleton.mp hr
        apply hcv r List.mem_cons_self
    · apply h
  · apply h

theorem State.Addressed.broadcastLoop (j i : Int) :
  ∀ (k : ℕ) {s : State}, s.Addressed P → (broadcastLoop j i k s).Addressed P
  | 0, _, h => h
  | k + 1, _, h => State.Addressed.broadcastLoop j i k (h.moveWaiter j i)

theorem State.Addressed.deleteCV (h : s.Addressed P) (j : Int) :
  (deleteCV j s).Addressed P
  := by
  unfold Server.deleteCV
  split
  · rename_i cv hj
    apply h.setCV hj
    apply h.2 j cv hj
  · apply h

theorem State.Addressed.signal (h : s.Addressed P) (j i : Int) :
  (signal j i s).Addressed P
  := by
  unfold Server.signal
  split
  · apply h
  · split
    · split
      · split
        · apply (h.moveWaiter j i).deleteCV
        · apply h.moveWaiter
      · split
        · apply h.deleteCV
        · apply h
    · apply h

theorem State.Addressed.broadcast (h : s.Addressed P) (j i : Int) :
  (broadcast j i s).Addressed P
  := by
  unfold Server.broadcast
  split
  · apply h
  · split
    · split
      · apply (State.Addressed.broadcastLoop j i _ h).deleteCV
      · apply State.Addressed.broadcastLoop j i _ h
    · apply h

theorem State.Addressed.acquire (h : s.Addressed P) (i : Int) :
  (acquire i s).2.Addressed P
  := by
  unfold Server.acquire
  split
  · rename_i lock hi
    split
    · apply h.setLock hi
      apply h.1 i lock hi
    · apply h
  · apply h

theorem State.Addressed.setOwner (h : s.Addressed P) (i : Int) (c : Client) :
  (setOwner i c s).Addressed P
  := by
  unfold Server.setOwner
  split
  · rename_i lock hi
    apply h.setLock hi
    apply h.1 i lock hi
  · apply h

theorem State.Addressed.appendToLock (h : s.Addressed P) (i : Int) {newMsg : ReplyMsg}
    (hnew : P newMsg.client) :
  (appendToLock i newMsg s).Addressed P
  := by
  unfold Server.appendToLock
  split
  · rename_i lock hi
    apply h.setLock hi
    intro r hr
    obtain hr | hr := List.mem_append.mp hr
    · apply h.1 i lock hi r hr
    · obtain rfl := List.mem_singleton.mp hr
      apply hnew
  · apply h

theorem State.Addressed.appendToCV (h : s.Addressed P) (j : Int) {newMsg : ReplyMsg}
    (hnew : P newMsg.client) :
  (appendToCV j newMsg s).Addressed P
  := by
  unfold Server.appendToCV
  split
  · rename_i cv hj
    apply h.setCV hj
    intro r hr
    obtain hr | hr := List.mem_append.mp hr
    · apply h.2 j cv hj r hr
    · obtain rfl := List.mem_singleton.mp hr
      apply hnew
  · apply h

theorem State.Addressed.destroyLock (h : s.Addressed P) (i : Int) :
  (destroyLock i s).Addressed P
  := by
  unfold Server.destroyLock
  split
  · apply h
  · rename_i lock hi
    split
    · apply h.setLock hi
      apply h.1 i lock hi
    · apply h.setLock hi
      apply h.1 i lock hi

theorem State.Addressed.destroyCV (h : s.Addressed P) (j : Int) :
  (destroyCV j s).Addressed P
  := by
  unfold Server.destroyCV
  split
  · apply h
  · rename_i cv hj
    split
    · apply h.setCV hj
      apply h.2 j cv hj
    · apply h.setCV hj
      apply h.2 j cv hj

/-- The replies on the queues do not depend on the monitor variables. -/
theorem State.Addressed.congr {s' : State} (h : s.Addressed P)
    (hlocks : s'.serverLockTable = s.serverLockTable)
    (hcvs : s'.serverCVTable = s.serverCVTable) :
  s'.Addressed P
  := by
  constructor
  · intro i lock hi
    rw [State.lockAt_congr hlocks] at hi
    apply h.1 i lock hi
  · intro j cv hj
    rw [State.cvAt_congr hcvs] at hj
    apply h.2 j cv hj

/-- The messages of an iteration go to its client and to clients on the queues. -/
theorem State.Addressed.serve (h : s.Addressed P) (hc : P c) (request : Request) :
  (serve ⟨0, 1⟩ n c request s).state.Addressed P ∧
    ∀ mail ∈ (serve ⟨0, 1⟩ n c request s).sent, P mail.dest
  := by
  have hreply : ∀ b, ∀ mail ∈ [reply n c b], P mail.dest := by
    intro b mail hmail
    obtain rfl := List.mem_singleton.mp hmail
    apply hc
  have hnone : ∀ mail ∈ ([] : List Mail), P mail.dest := by simp
  cases request with
  | createLock name =>
      simp only [Server.serve]
      split
      · exact ⟨h, hreply _⟩
      · exact ⟨⟨h.1.append (by simp [ServerLock.new]), h.2⟩, hreply _⟩
  | acquire i =>
      have hs := h.acquire i
      simp only [Server.serve]
      split
      · exact ⟨hs.setOwner i c, hreply _⟩
      · split
        · exact ⟨hs.appendToLock i hc, hnone⟩
        · exact ⟨hs, hreply _⟩
  | release i =>
      simp only [Server.serve]
      split
      · obtain ⟨hs, hmails⟩ := h.release i
        use hs
        intro mail hmail
        obtain hmail | hmail := List.mem_append.mp hmail
        · apply hmails mail hmail
        · apply hreply _ mail hmail
      · exact ⟨h, hreply _⟩
  | destroyLock i => exact ⟨h.destroyLock i, hreply _⟩
  | createCV name =>
      use (by
        simp only [Server.serve, Server.createCV]
        split
        · apply h
        · exact ⟨h.1, h.2.append (by simp [ServerCV.new])⟩)
      apply hreply
  | signal j i =>
      simp only [Server.serve]
      split
      · exact ⟨h.signal j i, hreply _⟩
      · exact ⟨h, hreply _⟩
  | broadcast j i =>
      simp only [Server.serve]
      split
      · exact ⟨h.broadcast j i, hreply _⟩
      · exact ⟨h, hreply _⟩
  | wait j i =>
      obtain ⟨hs, hmails⟩ := h.wait j i
      simp only [Server.serve]
      split
      · split
        · use hs.appendToCV j hc
          simpa [Outcome.sent] using hmails
        · exact ⟨h, hreply _⟩
      · exact ⟨h, hreply _⟩
  | destroyCV j => exact ⟨h.destroyCV j, hreply _⟩
  | createMV name size =>
      use (by
        simp only [Server.serve, Server.createMV]
        split
        · apply h
        · exact h.congr rfl rfl)
      apply hreply
  | setMV k i v =>
      use (by
        simp only [Server.serve, Server.setMV]
        split
        · split
          · exact h.congr rfl rfl
          · apply h
        · apply h)
      apply hreply
  | getMV k i => exact ⟨h, hreply _⟩
  | destroyMV k =>
      use (by
        simp only [Server.serve, Server.destroyMV]
        split
        · exact h.congr rfl rfl
        · apply h)
      apply hreply

end Addressed

/-! ### Transparency -/

namespace Group

/-- The requests `rs` are requests of the log of `g`, each at most once, and all those that are not
in flight. -/
structure Processed (g : Group) (rs : List Numbered) : Prop where
  nodup : (rs.map (·.1)).Nodup
  logged : ∀ r ∈ rs, ∃ e : Sent, g.log[r.1]? = some e ∧ e.client = r.2.1 ∧ e.request = r.2.2
  all : ∀ k < g.log.length, k ∈ rs.map (·.1) ∨ ∃ p ∈ g.network, p.request = k

/-- In every run of `n` servers the replies to the clients are those of a single server that
processes the same requests in some order. -/
def Transparent (n : ℕ) : Prop :=
  ∀ (as : List Action) (g : Group), run n as = some g →
    ∃ rs, g.Processed rs ∧ g.replies.Perm (single rs).2

/-- The group of one server `g` has processed the requests `rs`. -/
structure Simulates (g : Group) (rs : List Numbered) : Prop where
  state : g.servers 0 = (single rs).1
  replies : g.replies = (single rs).2
  addressed : (g.servers 0).Addressed (fun c => 1 ≤ c.machine)
  client : ∀ (k : ℕ) (e : Sent), g.log[k]? = some e → 1 ≤ e.client.machine
  packet : ∀ p ∈ g.network, p.dest = 0 ∧ ∃ e : Sent, g.log[p.request]? = some e ∧
    p.sender = e.client ∧ decode p.data = some (.client e.request)
  logged : ∀ r ∈ rs, ∃ e : Sent, g.log[r.1]? = some e ∧ e.client = r.2.1 ∧ e.request = r.2.2
  numbers : (rs.map (·.1) ++ g.network.map (·.request)).Perm (List.range g.log.length)

theorem simulates_initial :
  initial.Simulates []
  := by
  constructor
  · rfl
  · rfl
  · constructor
    · intro i lock hi
      simp [initial, State.initial, State.lockAt] at hi
    · intro j cv hj
      simp [initial, State.initial, State.cvAt] at hj
  · simp [initial]
  · simp [initial]
  · simp
  · simp [initial]

theorem Simulates.processed {g : Group} {rs : List Numbered} (h : g.Simulates rs) :
  g.Processed rs
  := by
  constructor
  · have hnodup := h.numbers.nodup_iff.mpr List.nodup_range
    apply hnodup.of_append_left
  · apply h.logged
  · intro k hk
    have hmem := h.numbers.mem_iff.mpr (List.mem_range.mpr hk)
    obtain hmem | hmem := List.mem_append.mp hmem
    · left
      apply hmem
    · right
      apply List.mem_map.mp hmem

/-- A request that is sent is not processed yet. -/
theorem Simulates.send {g : Group} {rs : List Numbered} (h : g.Simulates rs) {c : Client}
    {data : List Int8} {request : Request} (hdata : decode data = some (.client request))
    (hc : 1 ≤ c.machine) :
  Simulates { g with
    network := g.network ++ [⟨0, c, data, g.log.length⟩]
    log := g.log ++ [⟨c, 0, request⟩] } rs
  := by
  have hlog : ∀ {k : ℕ} {e : Sent}, g.log[k]? = some e →
      (g.log ++ [⟨c, 0, request⟩])[k]? = some e := by
    intro k e he
    rw [List.getElem?_append_left (List.getElem?_eq_some_iff.mp he).1, he]
  constructor
  · apply h.state
  · apply h.replies
  · apply h.addressed
  · intro k e he
    obtain hmem | hmem := List.mem_append.mp (List.mem_of_getElem? he)
    · obtain ⟨k', hk'⟩ := List.getElem?_of_mem hmem
      apply h.client k' e hk'
    · obtain rfl := List.mem_singleton.mp hmem
      apply hc
  · intro p hp
    obtain hp | hp := List.mem_append.mp hp
    · obtain ⟨hdest, e, he, hp⟩ := h.packet p hp
      exact ⟨hdest, e, hlog he, hp⟩
    · obtain rfl := List.mem_singleton.mp hp
      use rfl, ⟨c, 0, request⟩
      constructor
      · apply List.getElem?_concat_length
      · exact ⟨rfl, hdata⟩
  · intro r hr
    obtain ⟨e, he, hr⟩ := h.logged r hr
    exact ⟨e, hlog he, hr⟩
  · rw [List.map_append, List.length_append, List.length_singleton, List.range_succ,
      ← List.append_assoc]
    apply h.numbers.append_right

/-- A request that is delivered is processed as a single server does. -/
theorem Simulates.deliver {g : Group} {rs : List Numbered} (h : g.Simulates rs) {i : ℕ}
    {p : Packet} (hi : g.network[i]? = some p) {e : Sent} (he : g.log[p.request]? = some e)
    (hdest : p.dest = 0) {o : Outcome}
    (ho : serve ⟨0, 1⟩ p.request e.client e.request (g.servers 0) = o) :
  (g.after 1 i p o.state o.sent).Simulates (rs ++ [(p.request, e.client, e.request)])
  := by
  obtain ⟨haddressed, hmails⟩ :=
    h.addressed.serve (n := p.request) (h.client _ e he) e.request
  rw [ho] at haddressed hmails
  have hpackets : packets 1 p.dest o.sent = [] := by
    rw [packets, List.map_eq_nil_iff, List.filter_eq_nil_iff]
    intro mail hmail
    have hle := hmails mail hmail
    simp only [Bool.and_eq_true, decide_eq_true_eq, not_and]
    omega
  have hclients : toClients 1 o.sent = o.sent := by
    apply List.filter_eq_self.mpr
    intro mail hmail
    simpa using hmails mail hmail
  have hserver : (g.after 1 i p o.state o.sent).servers 0 = o.state := by
    rw [servers_after, if_pos hdest.symm]
  constructor
  · rw [hserver, single_snoc, ← h.state, ho]
  · rw [after, hclients, single_snoc, ← h.state, ← h.replies, ho]
  · rw [hserver]
    apply haddressed
  · apply h.client
  · intro q hq
    rw [after, hpackets, List.append_nil] at hq
    apply h.packet q (List.mem_of_mem_eraseIdx hq)
  · intro r hr
    obtain hr | hr := List.mem_append.mp hr
    · apply h.logged r hr
    · obtain rfl := List.mem_singleton.mp hr
      exact ⟨e, he, rfl, rfl⟩
  · obtain ⟨hlt, rfl⟩ := List.getElem?_eq_some_iff.mp hi
    have hperm := (List.getElem_cons_eraseIdx_perm hlt).map (·.request)
    rw [after, hpackets, List.append_nil, List.map_append, List.append_assoc]
    apply List.Perm.trans (List.Perm.append_left _ _) h.numbers
    apply hperm

/-- Every step of a group of one server is one of a single server. -/
theorem Simulates.step {g g' : Group} {rs : List Numbered} (h : g.Simulates rs) {a : Action}
    (hstep : step 1 g a = some g') :
  ∃ rs', g'.Simulates rs'
  := by
  cases a with
  | send c dest data =>
      simp only [Group.step] at hstep
      split at hstep
      · rename_i request hdata
        split at hstep
        · rename_i hsend
          obtain rfl := Option.some.inj hstep
          obtain rfl : dest = 0 := by omega
          exact ⟨rs, h.send hdata hsend.2.1⟩
        · contradiction
      · contradiction
  | deliver i response =>
      cases hi : g.network[i]? with
      | none => simp [Group.step, hi] at hstep
      | some p =>
          obtain ⟨hdest, e, he, hsender, hdata⟩ := h.packet p (List.mem_of_getElem? hi)
          simp only [Group.step, hi, hdata, handle, Option.bind_eq_bind, Option.bind_some, hdest,
            hsender] at hstep
          split at hstep
          · obtain rfl := Option.some.inj hstep
            exact ⟨_, h.deliver hi he hdest rfl⟩
          · contradiction

/-- A group of one server is transparent. -/
theorem transparent_one :
  Transparent 1
  := by
  intro as g hrun
  have hsim : ∃ rs, g.Simulates rs := by
    apply Transition.run_invariant (I := fun g : Group => ∃ rs, g.Simulates rs) _
      ⟨[], simulates_initial⟩ (Transition.along_of_forall (P := fun _ _ => True) _ _ _) hrun
    · rintro s a s' ⟨rs, h⟩ - hstep
      apply h.step hstep
    · intro _ _
      trivial
  obtain ⟨rs, h⟩ := hsim
  use rs, h.processed
  rw [h.replies]

/-! ### Two handles for one object -/

/-- The request to create a monitor variable of one element called `M`. -/
def createM : List Int8 := [9, 1, 77, 1]

theorem decode_createM :
  decode createM = some (.client (.createMV [77] 1))
  := rfl

/-- Two clients create the monitor variable `M` at two servers. -/
def createTwice (n : ℕ) : List Action :=
  [.send ⟨n, 0⟩ 0 createM, .send ⟨n, 1⟩ 1 createM, .deliver 0 (fun _ => 0),
    .deliver 0 (fun _ => 0)]

/-- The second server returns the handle `50`. -/
theorem run_createTwice {n : ℕ} (hn : 2 ≤ n) :
  ∃ g, run n (createTwice n) = some g ∧ ⟨⟨n, 1⟩, [50], 1⟩ ∈ g.replies ∧
    ∀ e ∈ g.log, e.request = .createMV [77] 1
  := by
  have hsend : ∀ dest < 2, dest < n ∧ n ≤ n ∧ dest < numBoxes ∧ createM.length ≤ bufferSize := by
    intro dest hdest
    simp only [numBoxes, bufferSize, createM, List.length_cons, List.length_nil]
    omega
  have hreply : ∀ (box : ℕ) (b : Int8) (k : ℕ), box < 2 →
      ∀ mail ∈ [reply k ⟨n, box⟩ b], sendable mail = true := by
    intro box b k hbox mail hmail
    obtain rfl := List.mem_singleton.mp hmail
    have hten : box < numBoxes := by
      simp only [numBoxes]
      omega
    simp [sendable, reply, bufferSize, hten]
  refine ⟨_, Transition.run_cons.mpr ⟨_, step_send decode_createM (hsend 0 (by omega)),
    Transition.run_cons.mpr ⟨_, step_send decode_createM (hsend 1 (by omega)),
    Transition.run_cons.mpr ⟨_, step_deliver rfl decode_createM rfl (hreply 0 _ _ (by omega)),
    Transition.run_cons.mpr ⟨_, step_deliver rfl decode_createM rfl (hreply 1 _ _ (by omega)),
    rfl⟩⟩⟩⟩, ?_, ?_⟩
  · apply List.mem_append_right
    apply List.mem_filter.mpr
    exact ⟨List.mem_singleton_self _, by simp⟩
  · intro e he
    have he' : e ∈ [⟨⟨n, 0⟩, 0, .createMV [77] 1⟩, ⟨⟨n, 1⟩, 1, .createMV [77] 1⟩] := he
    simp only [List.mem_cons, List.not_mem_nil, or_false] at he'
    obtain rfl | rfl := he'
    · rfl
    · rfl

/-- A single server returns the handle `0` to all who create `M`. -/
theorem single_createM {rs : List Numbered} (h : ∀ r ∈ rs, r.2.2 = .createMV [77] 1) :
  (∀ mv ∈ (single rs).1.serverMVTable.head?, mv.name = [77]) ∧
    ∀ mail ∈ (single rs).2, mail.data = [0]
  := by
  induction rs using List.reverseRecOn with
  | nil => simp [single, State.initial]
  | append_singleton rs r ih =>
      obtain ⟨hhead, hmails⟩ := ih (fun r' hr' => h r' (List.mem_append_left _ hr'))
      have hr : r.2.2 = .createMV [77] 1 := h r (by simp)
      rw [single_snoc, hr]
      simp only [serve, createMV, Outcome.sent]
      cases htable : (single rs).1.serverMVTable with
      | nil =>
          simp only [List.findIdx?_nil, List.nil_append, List.length_nil]
          constructor
          · simp [ServerMV.new]
          · intro mail hmail
            obtain hmail | hmail := List.mem_append.mp hmail
            · apply hmails mail hmail
            · obtain rfl := List.mem_singleton.mp hmail
              rfl
      | cons mv rest =>
          have hname : mv.name = [77] := by
            apply hhead
            simp [htable]
          have hfound : strcmp [77] mv.name = true := by
            rw [hname]
            rfl
          simp only [List.findIdx?_cons, hfound, if_true]
          constructor
          · simpa [htable] using hname
          · intro mail hmail
            obtain hmail | hmail := List.mem_append.mp hmail
            · apply hmails mail hmail
            · obtain rfl := List.mem_singleton.mp hmail
              rfl

/-- A group of two or more servers is not transparent. -/
theorem not_transparent {n : ℕ} (hn : 2 ≤ n) :
  ¬ Transparent n
  := by
  intro h
  obtain ⟨g, hrun, hreply, hlog⟩ := run_createTwice hn
  obtain ⟨rs, hrs, hperm⟩ := h _ g hrun
  have hcreate : ∀ r ∈ rs, r.2.2 = .createMV [77] 1 := by
    intro r hr
    obtain ⟨e, he, -, hrequest⟩ := hrs.logged r hr
    rw [← hrequest]
    apply hlog e (List.mem_of_getElem? he)
  have hdata := (single_createM hcreate).2 _ (hperm.mem_iff.mp hreply)
  simp at hdata

end Group

end Nachos.Server
