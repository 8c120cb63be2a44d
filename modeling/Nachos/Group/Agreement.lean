import Mathlib.Algebra.Order.Ring.Nat
import Nachos.Group.Deliveries

/-!
# Agreement on the locks of a group

When the last answer no arrives no server has the lock, and every other server that is still
asking for it has its question to this server in flight; so the lock can be created
(`Ok.after_created`). It follows that locks are created correctly in every run in which the
messages are delivered without harm (`createLock_correct`), and not in every run
(`not_createLock_correct`).
-/

namespace Nachos.Server

namespace Group

variable {n : ℕ} {g : Group} {i : ℕ} {p : Packet} {l : List Mail} {e : Sent}
  {name : List Int8} {pos : ℕ} {pr : PendingRequest}

/-! ### Creating a lock -/

/-- The tables of the server on machine `h` when it has counted the last answer no to the request
`pr` and created the lock. -/
def created (n h pos : ℕ) (pr : PendingRequest) (s : State) : State :=
  (createLock ⟨h, n⟩ pr.name (updatePendingRequestTable pos pr s)).2

/-- The lock that is created. -/
def newLock (g : Group) (h : ℕ) (name : List Int8) : ServerLock :=
  ServerLock.new name ((g.servers h).serverLockTable.length + h * 50)

theorem serverLockTable_created (hdest : p.dest = e.dest) (j : ℕ) :
  ((g.after n i p (created n p.dest pos pr (g.servers p.dest)) l).servers j).serverLockTable =
    if j = e.dest then (g.servers e.dest).serverLockTable ++ [g.newLock e.dest pr.name]
    else (g.servers j).serverLockTable
  := by
  rw [servers_after, hdest]
  split
  · rfl
  · rfl

theorem pending_created (hdest : p.dest = e.dest) (h' : ℕ) :
  (g.after n i p (created n p.dest pos pr (g.servers p.dest)) l).pending h' =
    if h' = e.dest then (g.pending e.dest).set pos { pr with noCount := pr.noCount + 1 }
    else g.pending h'
  := by
  rw [Group.pending, servers_after, hdest]
  split
  · rw [created, createLock, updatePendingRequestTable, Int.toNat_natCast]
  · rfl

/-- The locks there were before are still there. -/
theorem getElem?_created (hdest : p.dest = e.dest) {j a : ℕ} {lock : ServerLock}
    (h : (g.servers j).serverLockTable[a]? = some lock) :
  ((g.after n i p (created n p.dest pos pr (g.servers p.dest)) l).servers j).serverLockTable[a]? =
    some lock
  := by
  rw [serverLockTable_created hdest]
  split
  · rename_i hj
    subst hj
    rw [List.getElem?_append_left (List.getElem?_eq_some_iff.mp h).1, h]
  · apply h

/-- A lock is an old one or the one that has been created. -/
theorem getElem?_of_created (hdest : p.dest = e.dest) {j a : ℕ} {lock : ServerLock}
    (h : ((g.after n i p (created n p.dest pos pr
      (g.servers p.dest)) l).servers j).serverLockTable[a]? = some lock) :
  (g.servers j).serverLockTable[a]? = some lock ∨
    j = e.dest ∧ a = (g.servers e.dest).serverLockTable.length ∧ lock = g.newLock e.dest pr.name
  := by
  rw [serverLockTable_created hdest] at h
  split at h
  · rename_i hj
    subst hj
    rw [List.getElem?_append] at h
    split at h
    · left
      apply h
    · rename_i hge
      obtain ⟨hlt, hlock⟩ := List.getElem?_eq_some_iff.mp h
      rw [List.length_singleton] at hlt
      right
      use rfl
      constructor
      · omega
      · rw [← hlock, List.getElem_singleton]
  · left
    apply h

theorem has_created (hdest : p.dest = e.dest) (j : ℕ) (x : List Int8) :
  (g.after n i p (created n p.dest pos pr (g.servers p.dest)) l).Has j x ↔
    g.Has j x ∨ j = e.dest ∧ cstring pr.name = cstring x
  := by
  rw [has_iff, has_iff]
  constructor
  · rintro ⟨a, lock, hlock, hx⟩
    obtain hlock | ⟨hj, -, rfl⟩ := getElem?_of_created hdest hlock
    · left
      use a, lock
    · right
      exact ⟨hj, hx⟩
  · rintro (⟨a, lock, hlock, hx⟩ | ⟨hj, hx⟩)
    · use a, lock, getElem?_created hdest hlock
    · use (g.servers e.dest).serverLockTable.length, g.newLock e.dest pr.name
      rw [serverLockTable_created hdest, if_pos hj, List.getElem?_concat_length]
      exact ⟨rfl, hx⟩

theorem slot_created (hdest : p.dest = e.dest) (hpr : (g.pending e.dest)[pos]? = some pr)
    {h' pos' k : ℕ} (hslot : g.Slot h' pos' k) :
  (g.after n i p (created n p.dest pos pr (g.servers p.dest)) l).Slot h' pos' k
  := by
  have h := slot_counted (n := n) (i := i) (l := l) hdest hpr hslot
  rw [Slot, pending_counted hdest] at h
  rw [Slot, pending_created hdest]
  apply h

/-- No server has the lock when the last answer no arrives. -/
theorem Forwarded.absent_of_last {h c : ℕ} {has : ℕ → Prop} {t : Tally}
    (hforwarded : Forwarded n h c has t) (hle : ∀ j, t.asking j ≤ t.questions) (hnos : 0 < t.nos)
    (hc : c + 1 = n - 1) :
  (∀ j, ¬ has j) ∧ t.questions = 0 ∧ t.nos = 1 ∧ t.replies = 0
  := by
  have habsent : ∀ j, ¬ has j := by
    intro j hj
    by_cases hh : j = h
    · subst hh
      obtain ⟨-, -, hno⟩ := hforwarded.home hj
      omega
    · obtain ⟨hone, hsum⟩ := hforwarded.elsewhere j hh hj
      have hlej := hle j
      omega
  use habsent
  obtain ⟨hr, hsum, -⟩ := hforwarded.absent habsent
  omega

/-- The requests passed on are the same as before, except that the last answer no to `pr` has been
counted. -/
theorem Ok.mem_pending_created (h : g.Ok n) (he : g.log[pr.request]? = some e)
    (hdest : p.dest = e.dest) (hpr : (g.pending e.dest)[pos]? = some pr) (h' : ℕ)
    (pr' : PendingRequest) :
  pr' ∈ (g.after n i p (created n p.dest pos pr (g.servers p.dest)) l).pending h' ↔
    h' = e.dest ∧ pr' = { pr with noCount := pr.noCount + 1 } ∨
      pr' ∈ g.pending h' ∧ pr'.request ≠ pr.request
  := by
  rw [pending_created hdest]
  split
  · rename_i hh
    rw [hh, Queues.mem_set_iff (h.once e.dest) hpr]
    simp
  · rename_i hh
    constructor
    · intro hpr'
      right
      use hpr'
      intro hk
      obtain ⟨e', he', hdest', -⟩ := h.pending h' pr' hpr'
      rw [hk] at he'
      obtain rfl := Option.some.inj (he.symm.trans he')
      apply hh hdest'.symm
    · rintro (⟨hh', -⟩ | ⟨hpr', -⟩)
      · apply absurd hh' hh
      · apply hpr'

/-- The lock is created when the last answer no arrives, and the client gets its id. -/
theorem Ok.after_created (h : g.Ok n) (hi : g.network[i]? = some p)
    (he : g.log[p.request]? = some e) (hname : e.request = .createLock name)
    (hdest : p.dest = e.dest) (hpr : (g.pending e.dest)[pos]? = some pr)
    (hslot : g.Slot e.dest pos p.request)
    (hdata : decode p.data = some (.serverCreateLockAnswer 0)) (hc : pr.noCount + 1 = n - 1) :
  (g.after n i p (created n p.dest pos pr (g.servers p.dest))
    [⟨⟨pr.clientID, pr.clientMail⟩, [char (g.newLock e.dest pr.name).id], pr.request⟩]).Ok n
  := by
  obtain ⟨hlt, hmachine, -, -⟩ := h.log _ e he
  obtain ⟨pr', hpr', hk, rfl, hclient, hforwarded, honly⟩ := h.forwarded_of_slot he hname hslot
  obtain rfl := Option.some.inj (hpr.symm.trans hpr')
  have hmem := List.mem_of_getElem? hpr
  have hquestion : p.isQuestion = false := by simp [Packet.isQuestion, hdata]
  have hrequest : p.isRequest = false := by simp [Packet.isRequest, hdata]
  have hno : p.isNo = true := by simp [Packet.isNo, hdata]
  have hpos : 0 < (g.tally p.request).nos := by
    apply countP_pos_of_getElem? hi
    simp [hno]
  obtain ⟨habsent, hquestions, hnos, hreplies⟩ :=
    hforwarded.absent_of_last (asking_le_questions p.request) hpos hc
  rw [← hclient, hk]
  let mails : List Mail := [⟨e.client, [char (g.newLock e.dest pr.name).id], p.request⟩]
  change (g.after n i p (created n p.dest pos pr (g.servers p.dest)) mails).Ok n
  have hmails : ∀ mail ∈ mails, mail.request = p.request := by simp [mails]
  have hpackets : packets n p.dest mails = [] := packets_client hmachine
  have hclients : toClients n mails = mails := toClients_client hmachine
  obtain ⟨hasks', hasking', hquestions', hnos', hreplies'⟩ := tally_after_self (n := n)
    (s := created n p.dest pos pr (g.servers p.dest)) hi hmails
  simp only [hpackets, hclients, hquestion, hrequest, hno, List.countP_nil, Bool.false_and,
    Bool.false_eq_true, if_false, if_true,
    Nat.add_zero] at hasks' hasking' hquestions' hnos' hreplies'
  have hlength : mails.length = 1 := rfl
  have hmem_iff := fun h' pr' => h.mem_pending_created (i := i) (l := mails) (hk ▸ he) hdest hpr h' pr'
  -- A request for the lock that is still open has its question to this server in flight.
  have hopen : ∀ h', ∀ pr' ∈ g.pending h', pr'.request ≠ p.request →
      cstring pr.name = cstring pr'.name →
      (∀ j, ¬ g.Has j pr'.name) ∧ e.dest ≠ h' ∧ (g.tally pr'.request).asking e.dest = 1 := by
    intro h' pr' hpr' hne hnames
    obtain ⟨hdest', hasking⟩ := h.apart e.dest h' pr hmem pr' hpr' (hk ▸ hne.symm) hnames habsent
    have hle := asking_le_questions (g := g) p.request h'
    have hle' := (h.forwarded h' pr' hpr').asking_le e.dest
    rw [hk] at hasking
    constructor
    · intro j
      rw [← has_congr hnames]
      apply habsent j
    · use hdest'
      omega
  constructor
  · apply h.log
  · intro q hq
    have hq' : q ∈ g.network.eraseIdx i ++ packets n p.dest mails := hq
    rw [hpackets, List.append_nil] at hq'
    obtain ⟨e', name', he', hname', hok⟩ := h.packet q (List.mem_of_mem_eraseIdx hq')
    exact ⟨e', name', he', hname', hok.mono (fun _ _ _ hs => slot_created hdest hpr hs)⟩
  · intro h' pr' hpr'
    obtain ⟨rfl, rfl⟩ | ⟨hpr', -⟩ := (hmem_iff h' pr').mp hpr'
    · simp only [hk]
      exact ⟨e, he, rfl, hclient, hname⟩
    · apply h.pending h' pr' hpr'
  · intro h'
    rw [pending_created hdest]
    split
    · apply h.once_counted hpr
    · apply h.once
  · intro h' pr' hpr'
    simp only [has_created hdest]
    obtain ⟨rfl, rfl⟩ | ⟨hpr', hne⟩ := (hmem_iff h' pr').mp hpr'
    · simp only [hk]
      constructor
      · have hzero := hforwarded.asks_eq
        omega
      · intro j
        rw [hasking' j]
        apply hforwarded.asking_le
      · intro habsent'
        exact absurd (Or.inr ⟨rfl, trivial⟩) (habsent' e.dest)
      · rintro j hj (hhas | ⟨rfl, -⟩)
        · apply absurd hhas (habsent j)
        · contradiction
      · intro _
        omega
    · rw [hk] at hne
      rw [tally_after_ne hi hmails hne]
      have hold := h.forwarded h' pr' hpr'
      by_cases hnames : cstring pr.name = cstring pr'.name
      · obtain ⟨habsent', hdest', hone⟩ := hopen h' pr' hpr' hne hnames
        obtain ⟨hr, hsum, -⟩ := hold.absent habsent'
        constructor
        · apply hold.asks_eq
        · apply hold.asking_le
        · intro hall
          exact absurd (Or.inr ⟨rfl, hnames⟩) (hall e.dest)
        · rintro j hj (hhas | ⟨rfl, -⟩)
          · apply absurd hhas (habsent' j)
          · omega
        · rintro (hhas | ⟨rfl, -⟩)
          · apply absurd hhas (habsent' h')
          · contradiction
      · simpa [hnames] using hold
  · intro k e' he' hfree
    have hkk : k ≠ p.request := by
      rintro rfl
      obtain rfl := Option.some.inj (he.symm.trans he')
      apply hfree _ ((hmem_iff _ _).mpr (Or.inl ⟨rfl, rfl⟩)) hk
    rw [tally_after_ne hi hmails hkk]
    apply h.notForwarded k e' he'
    intro pr' hpr' hk'
    apply hfree pr' _ hk'
    apply (hmem_iff _ _).mpr
    right
    use hpr'
    rw [hk, hk']
    apply hkk
  · intro j a lock hlock
    obtain hlock | ⟨rfl, -⟩ := getElem?_of_created hdest hlock
    · apply h.located j a lock hlock
    · apply hlt
  · intro j j' a b lock lock' hlock hlock' hnames
    obtain hlock | ⟨rfl, rfl, rfl⟩ := getElem?_of_created hdest hlock
    · obtain hlock' | ⟨rfl, rfl, rfl⟩ := getElem?_of_created hdest hlock'
      · apply h.distinct j j' a b lock lock' hlock hlock' hnames
      · apply absurd (has_iff.mpr ⟨a, lock, hlock, hnames⟩) (habsent j)
    · obtain hlock' | ⟨rfl, rfl, rfl⟩ := getElem?_of_created hdest hlock'
      · apply absurd (has_iff.mpr ⟨b, lock', hlock', hnames.symm⟩) (habsent j')
      · exact ⟨rfl, rfl⟩
  · intro h₁ h₂ pr₁ hpr₁ pr₂ hpr₂ hne hnames habsent'
    simp only [has_created hdest, not_or] at habsent'
    have hnew : cstring pr.name ≠ cstring pr₁.name := fun hx => (habsent' e.dest).2 ⟨rfl, hx⟩
    obtain ⟨-, rfl⟩ | ⟨hpr₁, hne₁⟩ := (hmem_iff h₁ pr₁).mp hpr₁
    · apply absurd rfl hnew
    · obtain ⟨-, rfl⟩ | ⟨hpr₂, hne₂⟩ := (hmem_iff h₂ pr₂).mp hpr₂
      · apply absurd hnames.symm hnew
      · rw [hk] at hne₁ hne₂
        rw [tally_after_ne hi hmails hne₁, tally_after_ne hi hmails hne₂]
        apply h.apart h₁ h₂ pr₁ hpr₁ pr₂ hpr₂ hne hnames (fun j => (habsent' j).1)
  · intro r hr
    obtain hr | hr := List.mem_append.mp hr
    · obtain ⟨e', name', j, a, lock, he', hname', hdest', hlock, hr⟩ := h.replied r hr
      exact ⟨e', name', j, a, lock, he', hname', hdest', getElem?_created hdest hlock, hr⟩
    · have hr' : r ∈ toClients n mails := hr
      rw [hclients] at hr'
      obtain rfl := List.mem_singleton.mp hr'
      use e, pr.name, e.dest, (g.servers e.dest).serverLockTable.length,
        g.newLock e.dest pr.name, he, hname, rfl
      rw [serverLockTable_created hdest, if_pos rfl, List.getElem?_concat_length]
      exact ⟨rfl, rfl, rfl⟩

/-! ### Sending a request -/

/-- The group after a client has sent a request. -/
def sent (g : Group) (c : Client) (dest : ℕ) (data : List Int8) (request : Request) : Group :=
  { g with
    network := g.network ++ [⟨dest, c, data, g.log.length⟩]
    log := g.log ++ [⟨c, dest, request⟩] }

theorem getElem?_log_sent {c : Client} {dest : ℕ} {data : List Int8} {request : Request} {k : ℕ}
    (h : g.log[k]? = some e) :
  (g.sent c dest data request).log[k]? = some e
  := by
  rw [sent, List.getElem?_append_left (List.getElem?_eq_some_iff.mp h).1, h]

/-- A request of the log is an old one or the one that has just been sent. -/
theorem getElem?_of_log_sent {c : Client} {dest : ℕ} {data : List Int8} {request : Request}
    {k : ℕ} (h : (g.sent c dest data request).log[k]? = some e) :
  k ≠ g.log.length ∧ g.log[k]? = some e ∨ k = g.log.length ∧ e = ⟨c, dest, request⟩
  := by
  rw [sent, List.getElem?_append] at h
  split at h
  · rename_i hlt
    left
    exact ⟨Nat.ne_of_lt hlt, h⟩
  · rename_i hge
    obtain ⟨hlt, he⟩ := List.getElem?_eq_some_iff.mp h
    rw [List.length_singleton] at hlt
    right
    constructor
    · omega
    · rw [← he, List.getElem_singleton]

/-- The other requests do not get on when a request is sent. -/
theorem tally_sent_ne {c : Client} {dest : ℕ} {data : List Int8} {request : Request} {k : ℕ}
    (hk : k ≠ g.log.length) :
  (g.sent c dest data request).tally k = g.tally k
  := by
  have hk' : (g.log.length == k) = false := by simpa using hk.symm
  simp [tally, sent, isAsking, List.countP_append, hk', repliesTo]

/-- A request that has just been sent is in flight. -/
theorem Ok.tally_sent (h : g.Ok n) {c : Client} {dest : ℕ} {data : List Int8} {request : Request}
    (hdata : decode data = some (.client request)) :
  (g.sent c dest data request).tally g.log.length = ⟨1, fun _ => 0, 0, 0, 0⟩
  := by
  have hfresh : ∀ q ∈ g.network, ¬ q.request = g.log.length := by
    intro q hq hk
    obtain ⟨e, -, he, -⟩ := h.packet q hq
    have hlt := (List.getElem?_eq_some_iff.mp he).1
    omega
  have hreplies : g.repliesTo g.log.length = [] := by
    apply List.filter_eq_nil_iff.mpr
    intro r hr hk
    obtain ⟨e, -, -, -, -, he, -⟩ := h.replied r hr
    have hlt := (List.getElem?_eq_some_iff.mp he).1
    simp only [beq_iff_eq] at hk
    omega
  have hzero : ∀ P : Packet → Bool,
      g.network.countP (fun q => q.request == g.log.length && P q) = 0 := by
    intro P
    apply List.countP_eq_zero.mpr
    intro q hq
    simp [hfresh q hq]
  ext j
  · simp [tally, sent, List.countP_append, hzero, Packet.isRequest, hdata]
  · have hj : g.network.countP (isAsking g.log.length j) = 0 := hzero _
    simp [tally, sent, List.countP_append, hj, isAsking, Packet.isQuestion, hdata]
  · simp [tally, sent, List.countP_append, hzero, Packet.isQuestion, hdata]
  · simp [tally, sent, List.countP_append, hzero, Packet.isNo, hdata]
  · simpa [tally, sent, repliesTo] using hreplies

/-- Sending a request for a lock keeps the invariant. -/
theorem Ok.sent (h : g.Ok n) {c : Client} {dest : ℕ} {data : List Int8} (hdest : dest < n)
    (hmachine : n ≤ c.machine) (hbox : c.mailBox < numBoxes)
    (hdata : decode data = some (.client (.createLock name))) :
  (g.sent c dest data (.createLock name)).Ok n
  := by
  have hnew : (g.sent c dest data (.createLock name)).tally g.log.length =
      ⟨1, fun _ => 0, 0, 0, 0⟩ :=
    h.tally_sent hdata
  have hpending : ∀ h', ∀ pr ∈ g.pending h', pr.request ≠ g.log.length := by
    intro h' pr hpr hk
    obtain ⟨e, he, -⟩ := h.pending h' pr hpr
    have hlt := (List.getElem?_eq_some_iff.mp he).1
    omega
  constructor
  · intro k e he
    obtain ⟨-, he⟩ | ⟨-, rfl⟩ := getElem?_of_log_sent he
    · apply h.log k e he
    · exact ⟨hdest, hmachine, hbox, name, rfl⟩
  · intro q hq
    obtain hq | hq := List.mem_append.mp hq
    · obtain ⟨e, name', he, hname, hok⟩ := h.packet q hq
      exact ⟨e, name', getElem?_log_sent he, hname, hok.mono (fun _ _ _ hs => hs)⟩
    · obtain rfl := List.mem_singleton.mp hq
      use ⟨c, dest, .createLock name⟩, name
      constructor
      · apply List.getElem?_concat_length
      · exact ⟨rfl, .request rfl rfl hdata⟩
  · intro h' pr hpr
    obtain ⟨e, he, hpr⟩ := h.pending h' pr hpr
    exact ⟨e, getElem?_log_sent he, hpr⟩
  · apply h.once
  · intro h' pr hpr
    rw [tally_sent_ne (hpending h' pr hpr)]
    apply h.forwarded h' pr hpr
  · intro k e he hfree
    obtain ⟨hk, he⟩ | ⟨rfl, -⟩ := getElem?_of_log_sent he
    · rw [tally_sent_ne hk]
      apply h.notForwarded k e he hfree
    · rw [hnew]
      exact ⟨rfl, rfl, rfl⟩
  · apply h.located
  · apply h.distinct
  · intro h₁ h₂ pr₁ hpr₁ pr₂ hpr₂
    rw [tally_sent_ne (hpending h₁ pr₁ hpr₁), tally_sent_ne (hpending h₂ pr₂ hpr₂)]
    apply h.apart h₁ h₂ pr₁ hpr₁ pr₂ hpr₂
  · intro r hr
    obtain ⟨e, name', j, a, lock, he, hr⟩ := h.replied r hr
    exact ⟨e, name', j, a, lock, getElem?_log_sent he, hr⟩

/-! ### Steps -/

/-- How many more messages the messages in flight can lead to. -/
def load (n : ℕ) (g : Group) : ℕ := (g.network.map (Packet.weight n)).sum

theorem load_after {s : State} (hi : g.network[i]? = some p) :
  (g.after n i p s l).load n + p.weight n =
    g.load n + ((packets n p.dest l).map (Packet.weight n)).sum
  := by
  obtain ⟨hlt, rfl⟩ := List.getElem?_eq_some_iff.mp hi
  have hperm := ((List.getElem_cons_eraseIdx_perm hlt).map (Packet.weight n)).sum_nat
  simp only [List.map_cons, List.sum_cons] at hperm
  simp only [load, after, List.map_append, List.sum_append]
  omega

theorem weight_answer (dest : ℕ) (sender : Client) (b x : Int8) (k : ℕ) :
  Packet.weight n ⟨dest, sender, [14, b, x], k⟩ = 1
  := rfl

/-- The questions weigh less than the request on account of which they are asked. -/
theorem sum_weight_questionsFrom {h k : ℕ} {data : List Int8} {c m r : Int} {x : List Int8}
    (hlt : h < n) (hdata : decode data = some (.serverCreateLock c m r x)) :
  ((questionsFrom n h k data).map (Packet.weight n)).sum = 2 * (n - 1)
  := by
  have hconst : (questionsFrom n h k data).map (Packet.weight n) =
      (otherServers ⟨h, n⟩).map (fun _ => 2) := by
    rw [questionsFrom, List.map_map]
    apply List.map_congr_left
    intro j _
    simp [Packet.weight, Packet.isRequest, Packet.isQuestion, hdata]
  rw [hconst, List.map_const', List.sum_replicate_nat, length_otherServers hlt, Nat.mul_comm]

theorem ok_initial :
  initial.Ok n
  := by
  constructor <;> simp [initial, State.initial, Group.pending]

/-- The delivery of a message in flight is possible when it does no harm. -/
theorem Ok.deliver (hn : 2 ≤ n) (h : g.Ok n) {response : ℕ → Int8} (hi : g.network[i]? = some p)
    (hp : g.Undisturbed response p (decode p.data)) :
  ∃ g', step n g (.deliver i response) = some g' ∧ g'.Ok n ∧ g'.log = g.log ∧
    g'.load n + 1 ≤ g.load n
  := by
  obtain ⟨e, name, he, hname, hok⟩ := h.packet p (List.mem_of_getElem? hi)
  obtain ⟨hlt, hmachine, hbox, -⟩ := h.log _ e he
  have hone : ¬ n = 1 := by omega
  have hbox' : e.client.mailBox < 10 := hbox
  cases hok with
  | request hdest hsender hdata =>
      have hweight : p.weight n = 2 * n - 1 := by simp [Packet.weight, Packet.isRequest, hdata]
      by_cases hhas : g.Has p.dest name
      · have hhas' : getLockFromTable name (g.servers p.dest) ≠ -1 := hhas
        refine ⟨_, step_deliver hi hdata ?_ ?_, h.after_found hi he hname hdata hhas, rfl, ?_⟩
        · simp [handle, serve, hhas', Outcome.sent, hsender]
        · simp [reply, sendable, bufferSize, hbox]
        · have hload := load_after (n := n) (s := g.servers p.dest)
            (l := [reply p.request e.client (char (getLockFromTable name (g.servers p.dest)))]) hi
          rw [reply, packets_client hmachine] at hload
          simp only [packets_nil, List.map_nil, List.sum_nil] at hload
          rw [reply]
          omega
      · have hhas' : getLockFromTable name (g.servers p.dest) = -1 := not_not.mp hhas
        rw [hdata] at hp
        obtain ⟨h127, hlength, hsize, hfirst⟩ := hp.resolve_left hhas
        rw [hsender] at h127
        have hcode : decode (question e.client name (g.servers p.dest)) =
            some (.serverCreateLock e.client.machine e.client.mailBox
              (g.servers p.dest).pendingRequestTable.length name) :=
          decode_question h127 (by omega) hlength hsize
        rw [hdest] at hhas hsize hfirst
        refine ⟨_, step_deliver hi hdata ?_ ?_, h.after_forwarded hn hi he hname hdest hdata hhas
          h127 hlength hsize hfirst, rfl, ?_⟩
        · simp [handle, serve, hhas', Outcome.sent, hsender, hone, passedOn]
        · intro mail hmail
          obtain ⟨j, -, rfl⟩ := List.mem_map.mp hmail
          simp [sendable, question, bufferSize, numBoxes]
          omega
        · have hload := load_after (n := n)
            (s := passedOn e.client name p.request (g.servers p.dest))
            (l := (otherServers ⟨p.dest, n⟩).map (fun j =>
              ⟨⟨j, 0⟩, question e.client name (g.servers p.dest), p.request⟩)) hi
          rw [packets_question, sum_weight_questionsFrom (hdest ▸ hlt) hcode] at hload
          omega
  | question pos hdest hsender hslot hdata =>
      have hweight : p.weight n = 2 := by
        simp [Packet.weight, Packet.isRequest, Packet.isQuestion, hdata]
      rw [hdata] at hp
      simp only [Undisturbed, hsender] at hp
      by_cases hhas : g.Has p.dest name
      · have hhas' : getLockFromTable name (g.servers p.dest) ≠ -1 := hhas
        refine ⟨_, step_deliver hi hdata ?_ ?_,
          h.after_yes hi he hname hdest hslot hdata hhas, rfl, ?_⟩
        · simp [handle, hhas', hsender, toClient]
        · simp [sendable, bufferSize, hbox', numBoxes]
        · have hload := load_after (n := n) (s := g.servers p.dest)
            (l := [⟨⟨e.dest, 0⟩, [14, 1, char pos], p.request⟩,
              ⟨e.client, [char (getLockFromTable name (g.servers p.dest))], p.request⟩]) hi
          rw [packets_server hlt, packets_client hmachine] at hload
          simp only [packets_nil, List.map_cons, List.map_nil, List.sum_cons, List.sum_nil,
            weight_answer] at hload
          omega
      · have hhas' : getLockFromTable name (g.servers p.dest) = -1 := not_not.mp hhas
        refine ⟨_, step_deliver hi hdata ?_ ?_,
          h.after_no hi he hname hslot hdata hhas hp, rfl, ?_⟩
        · simp [handle, hhas', hsender]
        · simp [sendable, bufferSize, numBoxes]
        · have hload := load_after (n := n) (s := g.servers p.dest)
            (l := [⟨⟨e.dest, 0⟩, [14, 0, char pos], p.request⟩]) hi
          rw [packets_server hlt] at hload
          simp only [packets_nil, List.map_cons, List.map_nil, List.sum_cons, List.sum_nil,
            weight_answer] at hload
          omega
  | answer pos b hdest hslot hdata =>
      have hcode : decode p.data = some (.serverCreateLockAnswer b) := by
        rw [hdata]
        apply decode_answer
      have hweight : p.weight n = 1 := by
        simp [Packet.weight, Packet.isRequest, Packet.isQuestion, hcode]
      rw [hcode] at hp
      by_cases hb : b = 0
      · subst hb
        obtain ⟨pr, hpr, hk, -, hclient, -⟩ := h.forwarded_of_slot he hname hslot
        have hresponse : (response 2).toInt = pos := by
          rw [hp rfl, hdata]
          apply toInt_char hslot.1
        have hpendingAt : (g.servers e.dest).pendingAt pos = some pr := by
          rw [State.pendingAt, if_pos (by omega), Int.toNat_natCast]
          apply hpr
        by_cases hc : pr.noCount + 1 = n - 1
        · refine ⟨_, step_deliver hi hcode ?_ ?_,
            h.after_created hi he hname hdest hpr hslot hcode hc, rfl, ?_⟩
          · simp [handle, hpendingAt, hc, hresponse, created, createLock, newLock,
              updatePendingRequestTable, hdest, ServerLock.new]
          · rw [← hclient]
            simp [sendable, bufferSize, hbox]
          · have hload := load_after (n := n) (s := created n p.dest pos pr (g.servers p.dest))
              (l := [⟨⟨pr.clientID, pr.clientMail⟩, [char (g.newLock e.dest pr.name).id],
                pr.request⟩]) hi
            rw [← hclient, packets_client hmachine] at hload
            simp only [packets_nil, List.map_nil, List.sum_nil] at hload
            rw [← hclient]
            omega
        · refine ⟨_, step_deliver hi hcode ?_ ?_,
            h.after_counted hi he hname hdest hpr hslot hcode hc, rfl, ?_⟩
          · simp [handle, hdest, hpendingAt, hc, hresponse]
          · simp
          · have hload := load_after (n := n)
              (s := updatePendingRequestTable pos pr (g.servers p.dest)) (l := []) hi
            simp only [packets_nil, List.map_nil, List.sum_nil] at hload
            omega
      · refine ⟨_, step_deliver hi hcode ?_ ?_,
          h.after_ignored hi he hname hslot hcode hb, rfl, ?_⟩
        · simp [handle, hb]
        · simp
        · have hload := load_after (n := n) (s := g.servers p.dest) (l := []) hi
          simp only [packets_nil, List.map_nil, List.sum_nil] at hload
          omega

/-- An action on locks that does no harm is possible and keeps the invariant. -/
theorem Ok.step (hn : 2 ≤ n) (h : g.Ok n) {a : Action} (ha : g.CreatesLocks n a)
    (hharm : g.Harmless a) :
  ∃ g', step n g a = some g' ∧ g'.Ok n ∧
    g'.load n + (if a.isDelivery then 1 else 0) + (2 * n - 1) * g.log.length ≤
      g.load n + (2 * n - 1) * g'.log.length
  := by
  cases a with
  | send c dest data =>
      obtain ⟨hdest, hmachine, hbox, hlength, name, hdata⟩ := ha
      refine ⟨g.sent c dest data (.createLock name), ?_, h.sent hdest hmachine hbox hdata, ?_⟩
      · apply step_send hdata ⟨hdest, hmachine, hbox, hlength⟩
      · have hweight : Packet.weight n ⟨dest, c, data, g.log.length⟩ = 2 * n - 1 := by
          simp [Packet.weight, Packet.isRequest, hdata]
        simp [Action.isDelivery, load, Group.sent, hweight, Nat.mul_add]
        omega
  | deliver i response =>
      obtain ⟨p, hi⟩ : ∃ p, g.network[i]? = some p := ⟨_, List.getElem?_eq_getElem ha⟩
      obtain ⟨g', hstep, hok, hlog, hload⟩ := h.deliver hn hi (hharm p hi)
      use g', hstep, hok
      rw [hlog]
      simp only [Action.isDelivery, if_true]
      omega

/-! ### Runs -/

/-- A group that satisfies the invariant does what it should. -/
theorem Ok.correct (h : g.Ok n) :
  g.Correct
  := by
  constructor
  · intro k
    change (g.tally k).replies ≤ 1
    cases he : g.log[k]? with
    | none =>
        have hnil : g.repliesTo k = [] := by
          apply List.filter_eq_nil_iff.mpr
          intro r hr hk
          obtain ⟨e, -, -, -, -, he', -⟩ := h.replied r hr
          rw [beq_iff_eq] at hk
          rw [hk, he] at he'
          contradiction
        simp [tally, hnil]
    | some e =>
        by_cases hpr : ∃ pr ∈ g.pending e.dest, pr.request = k
        · obtain ⟨pr, hpr, rfl⟩ := hpr
          have hforwarded := h.forwarded e.dest pr hpr
          by_cases habsent : ∀ j, ¬ g.Has j pr.name
          · have hr := (hforwarded.absent habsent).1
            omega
          · simp only [not_forall, not_not] at habsent
            obtain ⟨j, hj⟩ := habsent
            by_cases hh : j = e.dest
            · subst hh
              have hr := (hforwarded.home hj).1
              omega
            · have hr := (hforwarded.elsewhere j hh hj).1
              omega
        · simp only [not_exists, not_and] at hpr
          have hr := (h.notForwarded k e he hpr).2.2
          omega
  · intro r hr
    obtain ⟨e, name, -, -, -, he, -, hdest, -⟩ := h.replied r hr
    exact ⟨e, he, hdest⟩
  · intro k hk hquiet
    change (g.tally k).replies = 1
    have he : g.log[k]? = some g.log[k] := List.getElem?_eq_getElem hk
    have hzero : ∀ P : Packet → Bool,
        g.network.countP (fun q => q.request == k && P q) = 0 := by
      intro P
      apply List.countP_eq_zero.mpr
      intro q hq
      simp [hquiet q hq]
    have hasks : (g.tally k).asks = 0 := hzero _
    have hquestions : (g.tally k).questions = 0 := hzero _
    have hnos : (g.tally k).nos = 0 := hzero _
    have hasking : ∀ j, (g.tally k).asking j = 0 := fun j => hzero _
    by_cases hpr : ∃ pr ∈ g.pending g.log[k].dest, pr.request = k
    · obtain ⟨pr, hpr, hprk⟩ := hpr
      have hforwarded := h.forwarded g.log[k].dest pr hpr
      rw [hprk] at hforwarded
      by_cases habsent : ∀ j, ¬ g.Has j pr.name
      · have hsum := (hforwarded.absent habsent).2
        omega
      · simp only [not_forall, not_not] at habsent
        obtain ⟨j, hj⟩ := habsent
        by_cases hh : j = g.log[k].dest
        · subst hh
          apply (hforwarded.home hj).1
        · have hr := (hforwarded.elsewhere j hh hj).1
          have hj := hasking j
          omega
    · simp only [not_exists, not_and] at hpr
      have hr := (h.notForwarded k g.log[k] he hpr).2.2
      omega
  · intro i j a b lock lock' hlock hlock' hnames
    apply h.distinct i j a b lock lock' hlock hlock' (strcmp_iff.mp hnames)
  · intro r hr r' hr' e e' name name' he he' hname hname' hnames
    obtain ⟨e₁, name₁, i, a, lock, he₁, hname₁, -, hlock, hcstring, hdata⟩ := h.replied r hr
    obtain ⟨e₂, name₂, j, b, lock', he₂, hname₂, -, hlock', hcstring', hdata'⟩ := h.replied r' hr'
    obtain rfl := Option.some.inj (he.symm.trans he₁)
    obtain rfl := Option.some.inj (he'.symm.trans he₂)
    obtain rfl := Request.createLock.inj (hname.symm.trans hname₁)
    obtain rfl := Request.createLock.inj (hname'.symm.trans hname₂)
    have hsame : cstring lock.name = cstring lock'.name := by
      rw [hcstring, hcstring', strcmp_iff.mp hnames]
    obtain ⟨rfl, rfl⟩ := h.distinct i j a b lock lock' hlock hlock' hsame
    obtain rfl := Option.some.inj (hlock.symm.trans hlock')
    rw [hdata, hdata']

/-- In every run of two or more servers whose clients create locks, and in which the messages are
delivered without harm, every request is answered once, no name is given to two locks, and all
requests for a name get the same answer. The clients' requests lead to a bounded number of
deliveries. -/
theorem createLock_correct (hn : 2 ≤ n) (as : List Action)
    (has : Transition.Along (step n) (fun g a => g.CreatesLocks n a ∧ g.Harmless a) initial as) :
  ∃ g, run n as = some g ∧ g.Correct ∧
    as.countP Action.isDelivery ≤ (2 * n - 1) * g.log.length
  := by
  have hstep : ∀ (g : Group) (a : Action), g.Ok n → g.CreatesLocks n a ∧ g.Harmless a →
      ∃ g', step n g a = some g' ∧ g'.Ok n ∧
        g'.load n + (if a.isDelivery then 1 else 0) + (2 * n - 1) * g.log.length ≤
          g.load n + (2 * n - 1) * g'.log.length :=
    fun g a h ha => h.step hn ha.1 ha.2
  obtain ⟨g, hrun, hok⟩ := Transition.run_total
    (fun g a h ha => (hstep g a h ha).imp (fun _ h => ⟨h.1, h.2.1⟩)) (ok_initial (n := n)) has
  have hbound := Transition.run_potential (c := Action.isDelivery) (f := load n)
    (h := fun g => (2 * n - 1) * g.log.length)
    (fun g a g' h ha hg => by
      obtain ⟨g'', hg', hok, -⟩ := hstep g a h ha
      obtain rfl := Option.some.inj (hg.symm.trans hg')
      apply hok)
    (fun g a g' h ha hg => by
      obtain ⟨g'', hg', -, hle⟩ := hstep g a h ha
      obtain rfl := Option.some.inj (hg.symm.trans hg')
      apply hle)
    (ok_initial (n := n)) has hrun
  use g, hrun, hok.correct
  have hzero : load n initial = 0 := rfl
  have hnil : initial.log.length = 0 := rfl
  simp only [hzero, hnil, Nat.mul_zero] at hbound
  omega

/-- A client creates a lock at the first of two servers, and the messages this leads to are
delivered. -/
def lockActions : List Action :=
  [.send ⟨2, 0⟩ 0 [0, 1, 76], .deliver 0 (fun _ => 0), .deliver 0 (fun _ => 0),
    .deliver 0 (fun _ => 0)]

theorem createLock_correct_lock :
  ∃ g, run 2 lockActions = some g ∧ g.Correct ∧
    lockActions.countP Action.isDelivery ≤ 3 * g.log.length
  := by
  apply createLock_correct (by decide) lockActions
  apply (Transition.along_cons rfl).mpr
  use ⟨⟨by decide, by decide, by decide, by decide, [76], rfl⟩, trivial⟩
  apply (Transition.along_cons rfl).mpr
  constructor
  · use Nat.one_pos
    intro p hp
    obtain rfl := Option.some.inj hp
    right
    exact ⟨by decide, by decide, by decide, Or.inr (fun pr hpr => absurd hpr List.not_mem_nil)⟩
  · apply (Transition.along_cons rfl).mpr
    constructor
    · use Nat.one_pos
      intro p hp
      obtain rfl := Option.some.inj hp
      right
      intro pr hpr
      exact absurd hpr List.not_mem_nil
    · apply (Transition.along_cons rfl).mpr
      constructor
      · use Nat.one_pos
        intro p hp
        obtain rfl := Option.some.inj hp
        intro _
        rfl
      · trivial

/-- Two clients create locks at the first of two servers, and every response buffer is filled with
zeros. -/
def twoLockActions : List Action :=
  [.send ⟨2, 0⟩ 0 [0, 1, 65], .send ⟨3, 0⟩ 0 [0, 1, 66]] ++
    List.replicate 6 (.deliver 0 (fun _ => 0))

/-- Not every run creates locks correctly: the answer to the second request is counted for the
first one, and the second client gets no reply. -/
theorem not_createLock_correct :
  ¬ ∀ n, 2 ≤ n → ∀ (as : List Action) (g : Group),
    (∀ c dest data, .send c dest data ∈ as →
      ∃ name, decode data = some (.client (.createLock name))) →
    run n as = some g → g.Correct
  := by
  intro h
  obtain ⟨g, hg⟩ : ∃ g, run 2 twoLockActions = some g := ⟨_, rfl⟩
  have hcorrect := h 2 (by decide) twoLockActions g
    (by
      intro c dest data hmem
      simp only [twoLockActions, List.mem_append, List.mem_cons, List.not_mem_nil, or_false,
        Action.send.injEq, List.mem_replicate, reduceCtorEq, and_false] at hmem
      obtain ⟨-, -, rfl⟩ | ⟨-, -, rfl⟩ := hmem
      · exact ⟨[65], rfl⟩
      · exact ⟨[66], rfl⟩)
    hg
  have hvalues : (run 2 twoLockActions).map
      (fun g => (g.network, g.log.length, (g.repliesTo 1).length)) = some ([], 2, 0) := by decide
  rw [hg] at hvalues
  simp only [Option.map_some, Option.some.injEq, Prod.mk.injEq] at hvalues
  obtain ⟨hnetwork, hlog, hreplies⟩ := hvalues
  have hone := hcorrect.answered 1 (by omega) (by simp [hnetwork])
  omega

end Group

end Nachos.Server
