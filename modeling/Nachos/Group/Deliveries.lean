import Nachos.Group.CreateLock

/-!
# Deliveries that create no lock

A delivery keeps the invariant of the protocol when a request is answered at once
(`Ok.after_found`) or passed on (`Ok.after_forwarded`), when a question is answered
(`Ok.after_yes`, `Ok.after_no`), and when an answer is ignored (`Ok.after_ignored`) or counted
(`Ok.after_counted`).
-/

namespace Nachos.Server

namespace Group

variable {n : ℕ} {g : Group} {i : ℕ} {p : Packet} {l : List Mail} {e : Sent}
  {name : List Int8}

/-! ### What is known of a message in flight -/

/-- At most one server has a lock. -/
theorem Ok.has_unique (h : g.Ok n) {j j' : ℕ} (hj : g.Has j name) (hj' : g.Has j' name) :
  j = j'
  := by
  obtain ⟨a, lock, hlock, hname⟩ := has_iff.mp hj
  obtain ⟨b, lock', hlock', hname'⟩ := has_iff.mp hj'
  apply (h.distinct j j' a b lock lock' hlock hlock' (hname.trans hname'.symm)).1

/-- The lock `getLockFromTable` finds. -/
theorem exists_getLockFromTable {j : ℕ} (h : g.Has j name) :
  ∃ (a : ℕ) (lock : ServerLock), (g.servers j).serverLockTable[a]? = some lock ∧
    cstring lock.name = cstring name ∧ getLockFromTable name (g.servers j) = lock.id
  := by
  rw [Has, getLockFromTable] at h
  rw [getLockFromTable]
  split
  · rename_i lock hfind
    obtain ⟨a, ha⟩ := List.getElem?_of_mem (List.mem_of_find?_eq_some hfind)
    have hname := List.find?_some hfind
    use a, lock, ha, (strcmp_iff.mp hname).symm
  · rename_i hfind
    simp [hfind] at h

theorem countP_pos_of_getElem? {P : Packet → Bool} (hi : g.network[i]? = some p) (hP : P p = true) :
  0 < g.network.countP P
  := List.countP_pos_iff.mpr ⟨p, List.mem_of_getElem? hi, hP⟩

/-- A request in flight has not been passed on or answered. -/
theorem Ok.request_not_forwarded (h : g.Ok n) (hi : g.network[i]? = some p)
    (he : g.log[p.request]? = some e) (hp : p.isRequest = true) :
  (∀ pr ∈ g.pending e.dest, pr.request ≠ p.request) ∧ (g.tally p.request).questions = 0 ∧
    (g.tally p.request).nos = 0 ∧ (g.tally p.request).asks = 1 ∧ (g.tally p.request).replies = 0
  := by
  have hasks : 0 < (g.tally p.request).asks := by
    apply countP_pos_of_getElem? hi
    simp [hp]
  have hnot : ∀ pr ∈ g.pending e.dest, pr.request ≠ p.request := by
    intro pr hpr hk
    have hzero := (h.forwarded e.dest pr hpr).asks_eq
    rw [hk] at hzero
    omega
  obtain ⟨hquestions, hnos, hsum⟩ := h.notForwarded _ e he hnot
  use hnot, hquestions, hnos
  omega

/-- A question in flight has been asked on account of a request that has been passed on. -/
theorem Ok.forwarded_of_slot (h : g.Ok n) (he : g.log[p.request]? = some e)
    (hname : e.request = .createLock name) {pos : ℕ} (hslot : g.Slot e.dest pos p.request) :
  ∃ pr, (g.pending e.dest)[pos]? = some pr ∧ pr.request = p.request ∧ pr.name = name ∧
    e.client = ⟨pr.clientID, pr.clientMail⟩ ∧
    Forwarded n e.dest pr.noCount (fun j => g.Has j name) (g.tally p.request) ∧
    ∀ pr' ∈ g.pending e.dest, pr'.request = p.request → pr' = pr
  := by
  obtain ⟨hpos, pr, hpr, hk⟩ := hslot
  have hmem := List.mem_of_getElem? hpr
  obtain ⟨e', he', -, hclient, hrequest⟩ := h.pending e.dest pr hmem
  rw [hk] at he'
  obtain rfl := Option.some.inj (he.symm.trans he')
  have hinj : Request.createLock pr.name = Request.createLock name := hrequest.symm.trans hname
  injection hinj with hinj
  have hforwarded := h.forwarded e.dest pr hmem
  rw [hk, hinj] at hforwarded
  use pr, hpr, hk, hinj, hclient, hforwarded
  intro pr' hpr' hk'
  apply List.inj_on_of_nodup_map (h.once e.dest) hpr' hmem
  rw [hk, hk']

/-! ### The cases of a delivery -/

/-- A request for a lock the server has is answered. -/
theorem Ok.after_found (h : g.Ok n) (hi : g.network[i]? = some p)
    (he : g.log[p.request]? = some e) (hname : e.request = .createLock name)
    (hdata : decode p.data = some (.client (.createLock name))) (hhas : g.Has p.dest name) :
  (g.after n i p (g.servers p.dest)
    [reply p.request e.client (char (getLockFromTable name (g.servers p.dest)))]).Ok n
  := by
  obtain ⟨-, hmachine, -, -⟩ := h.log _ e he
  have hrequest : p.isRequest = true := by simp [Packet.isRequest, hdata]
  obtain ⟨hnot, hquestions, hnos, hasks, hreplies⟩ := h.request_not_forwarded hi he hrequest
  have hmails : ∀ mail ∈ [reply p.request e.client
      (char (getLockFromTable name (g.servers p.dest)))], mail.request = p.request := by
    simp [reply]
  have hpackets : packets n p.dest [reply p.request e.client
      (char (getLockFromTable name (g.servers p.dest)))] = [] := by
    apply packets_client hmachine
  obtain ⟨hasks', -, hquestions', hnos', hreplies'⟩ :=
    tally_after_self (n := n) (s := g.servers p.dest) hi hmails
  have hquestion : p.isQuestion = false := by simp [Packet.isQuestion, hdata]
  have hno : p.isNo = false := by simp [Packet.isNo, hdata]
  simp only [hpackets, hrequest, hquestion, hno, List.countP_nil, if_true, Bool.false_eq_true,
    if_false] at hasks' hquestions' hnos'
  have hclients : toClients n [reply p.request e.client
      (char (getLockFromTable name (g.servers p.dest)))] = [reply p.request e.client
      (char (getLockFromTable name (g.servers p.dest)))] := by
    apply toClients_client hmachine
  rw [hclients, List.length_singleton] at hreplies'
  apply h.after_same hi he hname hmails
  · simp [hpackets]
  · rw [hclients]
    intro r hr
    obtain rfl := List.mem_singleton.mp hr
    obtain ⟨a, lock, hlock, hcstring, hid⟩ := exists_getLockFromTable hhas
    use rfl, p.dest, a, lock, hlock, hcstring
    rw [reply, hid]
  · intro pr hpr hk
    apply absurd hk (hnot pr hpr)
  · intro _
    omega
  · rintro ⟨pr, hpr, hk⟩
    apply absurd hk (hnot pr hpr)

/-- A server that does not have the lock says no. -/
theorem Ok.after_no (h : g.Ok n) (hi : g.network[i]? = some p)
    (he : g.log[p.request]? = some e) (hname : e.request = .createLock name) {pos : ℕ}
    (hslot : g.Slot e.dest pos p.request)
    (hdata : decode p.data =
      some (.serverCreateLock e.client.machine e.client.mailBox pos name))
    (hhas : ¬ g.Has p.dest name)
    (hquiet : (∃ j, g.Has j name) ∨ ∀ pr ∈ g.pending p.dest, cstring pr.name = cstring name →
      (g.tally pr.request).asking e.dest ≠ 0) :
  (g.after n i p (g.servers p.dest) [⟨⟨e.dest, 0⟩, [14, 0, char pos], p.request⟩]).Ok n
  := by
  obtain ⟨hlt, -, -, -⟩ := h.log _ e he
  obtain ⟨pr, hpr, hk, rfl, -, hforwarded, honly⟩ := h.forwarded_of_slot he hname hslot
  have hmem := List.mem_of_getElem? hpr
  let mails : List Mail := [⟨⟨e.dest, 0⟩, [14, 0, char pos], p.request⟩]
  have hmails : ∀ mail ∈ mails, mail.request = p.request := by simp [mails]
  have hpackets : packets n p.dest mails =
      [⟨e.dest, ⟨p.dest, 0⟩, [14, 0, char pos], p.request⟩] := by
    apply packets_server hlt
  have hclients : toClients n mails = [] := by
    apply toClients_server hlt
  obtain ⟨hasks', hasking', hquestions', hnos', hreplies'⟩ :=
    tally_after_self (n := n) (s := g.servers p.dest) hi hmails
  have hquestion : p.isQuestion = true := by simp [Packet.isQuestion, hdata]
  have hrequest : p.isRequest = false := by simp [Packet.isRequest, hdata]
  have hno : p.isNo = false := by simp [Packet.isNo, hdata]
  simp only [hpackets, hclients, hquestion, hrequest, hno, Packet.isRequest_answer,
    Packet.isQuestion_answer, Packet.isNo_answer, List.countP_cons, List.countP_nil, decide_true,
    Bool.true_and, Bool.false_and, Bool.false_eq_true, if_true, if_false, beq_iff_eq,
    List.length_nil] at hasks' hasking' hquestions' hnos' hreplies'
  apply h.after_same hi he hname hmails
  · rw [hpackets]
    intro q hq
    obtain rfl := List.mem_singleton.mp hq
    exact .answer pos 0 rfl hslot rfl
  · simp [hclients]
  · intro pr' hpr' hk'
    obtain rfl := honly pr' hpr' hk'
    have hasking_ne : ∀ j, j ≠ p.dest →
        ((g.after n i p (g.servers p.dest) mails).tally p.request).asking j =
          (g.tally p.request).asking j := by
      intro j hj
      have hj' := hasking' j
      rw [if_neg hj.symm] at hj'
      apply hj'
    constructor
    · have hzero := hforwarded.asks_eq
      omega
    · intro j
      have hle := hforwarded.asking_le j
      have hj := hasking' j
      omega
    · intro habsent
      obtain ⟨hr, hsum, hc⟩ := hforwarded.absent habsent
      omega
    · intro j hj hhasj
      have hne : j ≠ p.dest := by
        rintro rfl
        apply hhas hhasj
      obtain ⟨hone, hsum⟩ := hforwarded.elsewhere j hj hhasj
      rw [hasking_ne j hne]
      omega
    · intro hhome
      obtain ⟨hr, hq, hn⟩ := hforwarded.home hhome
      omega
  · intro hnot
    apply absurd hk (hnot pr hmem)
  · intro _ habsent h' pr' hpr' hne hnames
    obtain ⟨hdest', hasking⟩ := h.apart e.dest h' pr hmem pr' hpr'
      (by
        rw [hk]
        apply hne.symm)
      hnames.symm habsent
    use hdest'
    rw [hk] at hasking
    have hj := hasking' h'
    by_cases hh : p.dest = h'
    · subst hh
      have hquiet' := hquiet.resolve_left (not_exists.mpr habsent) pr' hpr' hnames
      omega
    · rw [if_neg hh] at hj
      omega

/-- A server that has the lock says yes and answers the client. -/
theorem Ok.after_yes (h : g.Ok n) (hi : g.network[i]? = some p)
    (he : g.log[p.request]? = some e) (hname : e.request = .createLock name) {pos : ℕ}
    (hdest : p.dest ≠ e.dest) (hslot : g.Slot e.dest pos p.request)
    (hdata : decode p.data =
      some (.serverCreateLock e.client.machine e.client.mailBox pos name))
    (hhas : g.Has p.dest name) :
  (g.after n i p (g.servers p.dest)
    [⟨⟨e.dest, 0⟩, [14, 1, char pos], p.request⟩,
      ⟨e.client, [char (getLockFromTable name (g.servers p.dest))], p.request⟩]).Ok n
  := by
  obtain ⟨hlt, hmachine, -, -⟩ := h.log _ e he
  obtain ⟨pr, hpr, hk, rfl, -, hforwarded, honly⟩ := h.forwarded_of_slot he hname hslot
  have hmem := List.mem_of_getElem? hpr
  let mails : List Mail := [⟨⟨e.dest, 0⟩, [14, 1, char pos], p.request⟩,
    ⟨e.client, [char (getLockFromTable pr.name (g.servers p.dest))], p.request⟩]
  have hmails : ∀ mail ∈ mails, mail.request = p.request := by simp [mails]
  have hpackets : packets n p.dest mails =
      [⟨e.dest, ⟨p.dest, 0⟩, [14, 1, char pos], p.request⟩] := by
    rw [packets_server hlt, packets_client hmachine, packets_nil]
  have hclients : toClients n mails =
      [⟨e.client, [char (getLockFromTable pr.name (g.servers p.dest))], p.request⟩] := by
    rw [toClients_server hlt, toClients_client hmachine, toClients_nil]
  obtain ⟨hasks', hasking', hquestions', hnos', hreplies'⟩ :=
    tally_after_self (n := n) (s := g.servers p.dest) hi hmails
  have hquestion : p.isQuestion = true := by simp [Packet.isQuestion, hdata]
  have hrequest : p.isRequest = false := by simp [Packet.isRequest, hdata]
  have hno : p.isNo = false := by simp [Packet.isNo, hdata]
  have hone : ¬ (1 : Int8) = 0 := by decide
  simp only [hpackets, hclients, hquestion, hrequest, hno, Packet.isRequest_answer,
    Packet.isQuestion_answer, Packet.isNo_answer, List.countP_cons, List.countP_nil,
    Bool.true_and, hone, Bool.false_and, Bool.false_eq_true, if_true, if_false, beq_iff_eq,
    decide_false, List.length_singleton] at hasks' hasking' hquestions' hnos' hreplies'
  apply h.after_same hi he hname hmails
  · rw [hpackets]
    intro q hq
    obtain rfl := List.mem_singleton.mp hq
    exact .answer pos 1 rfl hslot rfl
  · rw [hclients]
    intro r hr
    obtain rfl := List.mem_singleton.mp hr
    obtain ⟨a, lock, hlock, hcstring, hid⟩ := exists_getLockFromTable hhas
    use rfl, p.dest, a, lock, hlock, hcstring
    rw [hid]
  · intro pr' hpr' hk'
    obtain rfl := honly pr' hpr' hk'
    obtain ⟨hone, hsum⟩ := hforwarded.elsewhere p.dest hdest hhas
    have hdest' := hasking' p.dest
    rw [if_pos rfl] at hdest'
    constructor
    · have hzero := hforwarded.asks_eq
      omega
    · intro j
      have hle := hforwarded.asking_le j
      have hj := hasking' j
      omega
    · intro habsent
      apply absurd hhas (habsent p.dest)
    · intro j hj hhasj
      obtain rfl := h.has_unique hhas hhasj
      omega
    · intro hhome
      apply absurd (h.has_unique hhas hhome) hdest
  · intro hnot
    apply absurd hk (hnot pr hmem)
  · intro _ habsent
    apply absurd hhas (habsent p.dest)

/-- The answer yes is ignored. -/
theorem Ok.after_ignored (h : g.Ok n) (hi : g.network[i]? = some p)
    (he : g.log[p.request]? = some e) (hname : e.request = .createLock name) {pos : ℕ} {b : Int8}
    (hslot : g.Slot e.dest pos p.request) (hdata : decode p.data = some (.serverCreateLockAnswer b))
    (hb : b ≠ 0) :
  (g.after n i p (g.servers p.dest) []).Ok n
  := by
  obtain ⟨pr, hpr, hk, rfl, -, hforwarded, honly⟩ := h.forwarded_of_slot he hname hslot
  have hmem := List.mem_of_getElem? hpr
  obtain ⟨hasks', hasking', hquestions', hnos', hreplies'⟩ :=
    tally_after_self (n := n) (s := g.servers p.dest) (l := []) hi (by simp)
  have hquestion : p.isQuestion = false := by simp [Packet.isQuestion, hdata]
  have hrequest : p.isRequest = false := by simp [Packet.isRequest, hdata]
  have hno : p.isNo = false := by simp [Packet.isNo, hdata, hb]
  have hsame : (g.after n i p (g.servers p.dest) []).tally p.request = g.tally p.request := by
    simp only [hquestion, hrequest, hno, packets, toClients, List.filter_nil, List.map_nil,
      List.countP_nil, Bool.false_and, Bool.false_eq_true, if_false, Nat.add_zero,
      List.length_nil] at hasks' hasking' hquestions' hnos' hreplies'
    ext j
    · apply hasks'
    · apply hasking' j
    · apply hquestions'
    · apply hnos'
    · apply hreplies'
  apply h.after_same hi he hname (by simp)
  · simp [packets]
  · simp [toClients]
  · intro pr' hpr' hk'
    obtain rfl := honly pr' hpr' hk'
    rw [hsame]
    apply hforwarded
  · intro hnot
    apply absurd hk (hnot pr hmem)
  · intro _ habsent h' pr' hpr' hne hnames
    rw [hsame, ← hk]
    apply h.apart e.dest h' pr hmem pr' hpr' _ hnames.symm habsent
    rw [hk]
    apply hne.symm

/-- The table of pending requests after an answer no has been counted. -/
theorem pending_counted {pos : ℕ} {pr : PendingRequest} (hdest : p.dest = e.dest) (h' : ℕ) :
  (g.after n i p (updatePendingRequestTable pos pr (g.servers p.dest)) l).pending h' =
    if h' = e.dest then (g.pending e.dest).set pos { pr with noCount := pr.noCount + 1 }
    else g.pending h'
  := by
  rw [Group.pending, servers_after, hdest]
  split
  · rw [updatePendingRequestTable, Int.toNat_natCast]
  · rfl

/-- Counting an answer no leaves the requests where they are. -/
theorem slot_counted {pos : ℕ} {pr : PendingRequest} (hdest : p.dest = e.dest)
    (hpr : (g.pending e.dest)[pos]? = some pr) {h' pos' k : ℕ} (hslot : g.Slot h' pos' k) :
  (g.after n i p (updatePendingRequestTable pos pr (g.servers p.dest)) l).Slot h' pos' k
  := by
  obtain ⟨hle, pr', hpr', hk⟩ := hslot
  use hle
  rw [pending_counted hdest]
  by_cases hh : h' = e.dest
  · subst hh
    rw [if_pos rfl, List.getElem?_set]
    split
    · rename_i hpos
      subst hpos
      obtain rfl := Option.some.inj (hpr.symm.trans hpr')
      have hlt := (List.getElem?_eq_some_iff.mp hpr).1
      use { pr with noCount := pr.noCount + 1 }
      rw [if_pos hlt]
      exact ⟨rfl, hk⟩
    · use pr', hpr'
  · rw [if_neg hh]
    use pr', hpr'

/-- Counting an answer no keeps the requests different. -/
theorem Ok.once_counted (h : g.Ok n) {pos : ℕ} {pr : PendingRequest}
    (hpr : (g.pending e.dest)[pos]? = some pr) :
  (((g.pending e.dest).set pos { pr with noCount := pr.noCount + 1 }).map (·.request)).Nodup
  := by
  obtain ⟨hlt, rfl⟩ := List.getElem?_eq_some_iff.mp hpr
  have hsame : ((g.pending e.dest).set pos { (g.pending e.dest)[pos] with
      noCount := (g.pending e.dest)[pos].noCount + 1 }).map (·.request) =
      (g.pending e.dest).map (·.request) := by
    rw [List.map_set]
    apply List.ext_getElem
    · simp
    · intro j hj hj'
      rw [List.getElem_set]
      split
      · rename_i hpos
        subst hpos
        simp
      · rfl
  rw [hsame]
  apply h.once

/-- An answer no is counted when it is not the last one. -/
theorem Ok.after_counted (h : g.Ok n) (hi : g.network[i]? = some p)
    (he : g.log[p.request]? = some e) (hname : e.request = .createLock name) {pos : ℕ}
    (hdest : p.dest = e.dest) {pr : PendingRequest} (hpr : (g.pending e.dest)[pos]? = some pr)
    (hslot : g.Slot e.dest pos p.request) (hdata : decode p.data = some (.serverCreateLockAnswer 0))
    (hc : pr.noCount + 1 ≠ n - 1) :
  (g.after n i p (updatePendingRequestTable pos pr (g.servers p.dest)) []).Ok n
  := by
  obtain ⟨pr', hpr', hk, rfl, hclient, hforwarded, honly⟩ := h.forwarded_of_slot he hname hslot
  obtain rfl := Option.some.inj (hpr.symm.trans hpr')
  have hmem := List.mem_of_getElem? hpr
  have hmem_iff : ∀ pr', pr' ∈ (g.pending e.dest).set pos { pr with noCount := pr.noCount + 1 } ↔
      pr' = { pr with noCount := pr.noCount + 1 } ∨ pr' ∈ g.pending e.dest ∧
        pr'.request ≠ pr.request := fun _ => Queues.mem_set_iff (h.once e.dest) hpr
  obtain ⟨hasks', hasking', hquestions', hnos', hreplies'⟩ :=
    tally_after_self (n := n) (s := updatePendingRequestTable pos pr (g.servers p.dest))
      (l := []) hi (by simp)
  have hquestion : p.isQuestion = false := by simp [Packet.isQuestion, hdata]
  have hrequest : p.isRequest = false := by simp [Packet.isRequest, hdata]
  have hno : p.isNo = true := by simp [Packet.isNo, hdata]
  simp only [hquestion, hrequest, hno, packets, toClients, List.filter_nil, List.map_nil,
    List.countP_nil, Bool.false_and, Bool.false_eq_true, if_false, if_true, Nat.add_zero,
    List.length_nil] at hasks' hasking' hquestions' hnos' hreplies'
  apply h.after (s := updatePendingRequestTable pos pr (g.servers p.dest)) hi he hname (by simp) rfl
    (fun _ _ _ hs => slot_counted hdest hpr hs)
  · intro h' pr' hne
    rw [pending_counted hdest]
    split
    · rename_i hh
      rw [hh, hmem_iff]
      constructor
      · rintro (rfl | ⟨hpr', -⟩)
        · apply absurd hk hne
        · apply hpr'
      · intro hpr'
        right
        use hpr'
        rw [hk]
        apply hne
    · rfl
  · simp [packets]
  · simp [toClients]
  · intro h' pr' hpr' hk'
    rw [pending_counted hdest] at hpr'
    split at hpr'
    · rename_i hh
      rw [hmem_iff] at hpr'
      obtain rfl | ⟨-, hne⟩ := hpr'
      · exact ⟨hh.symm, hclient, rfl⟩
      · rw [hk] at hne
        apply absurd hk' hne
    · rename_i hh
      obtain ⟨e', he', hdest', -⟩ := h.pending h' pr' hpr'
      rw [hk'] at he'
      obtain rfl := Option.some.inj (he.symm.trans he')
      apply absurd hdest'.symm hh
  · rw [pending_counted hdest, if_pos hdest]
    apply h.once_counted hpr
  · intro pr' hpr' hk'
    rw [pending_counted hdest, if_pos rfl, hmem_iff] at hpr'
    obtain rfl | ⟨-, hne⟩ := hpr'
    · constructor
      · have hzero := hforwarded.asks_eq
        omega
      · intro j
        have hle := hforwarded.asking_le j
        have hj := hasking' j
        omega
      · intro habsent
        obtain ⟨hr, hsum, hc'⟩ := hforwarded.absent habsent
        simp only
        omega
      · intro j hj hhasj
        obtain ⟨hone, hsum⟩ := hforwarded.elsewhere j hj hhasj
        rw [hasking' j]
        simp only
        omega
      · intro hhome
        obtain ⟨hr, hq, hn⟩ := hforwarded.home hhome
        omega
    · rw [hk] at hne
      apply absurd hk' hne
  · intro hnot
    apply absurd hk
    apply hnot { pr with noCount := pr.noCount + 1 }
    rw [pending_counted hdest, if_pos rfl, hmem_iff]
    left
    rfl
  · intro _ habsent h' pr' hpr' hne hnames
    rw [hasking' h', ← hk]
    apply h.apart e.dest h' pr hmem pr' hpr' _ hnames.symm habsent
    rw [hk]
    apply hne.symm

/-! ### Passing a request on -/

theorem mem_otherServers {h j : ℕ} :
  j ∈ otherServers ⟨h, n⟩ ↔ j < n ∧ j ≠ h
  := by
  simp [otherServers]

theorem nodup_otherServers (h : ℕ) :
  (otherServers ⟨h, n⟩).Nodup
  := List.nodup_range.filter _

theorem length_otherServers {h : ℕ} (hlt : h < n) :
  (otherServers ⟨h, n⟩).length = n - 1
  := by
  rw [otherServers, ← List.nodup_range.erase_eq_filter,
    List.length_erase_of_mem (List.mem_range.mpr hlt), List.length_range]

/-- The questions of the server on machine `h`. -/
def questionsFrom (n h k : ℕ) (data : List Int8) : List Packet :=
  (otherServers ⟨h, n⟩).map (fun j => ⟨j, ⟨h, 0⟩, data, k⟩)

theorem packets_question (h k : ℕ) (data : List Int8) :
  packets n h ((otherServers ⟨h, n⟩).map (fun j => ⟨⟨j, 0⟩, data, k⟩)) = questionsFrom n h k data
  := by
  rw [packets, List.filter_eq_self.mpr, questionsFrom, List.map_map]
  · rfl
  · intro mail hmail
    obtain ⟨j, hj, rfl⟩ := List.mem_map.mp hmail
    simpa using (mem_otherServers.mp hj).1

theorem toClients_question (h k : ℕ) (data : List Int8) :
  toClients n ((otherServers ⟨h, n⟩).map (fun j => ⟨⟨j, 0⟩, data, k⟩)) = []
  := by
  apply List.filter_eq_nil_iff.mpr
  intro mail hmail
  obtain ⟨j, hj, rfl⟩ := List.mem_map.mp hmail
  have hlt := (mem_otherServers.mp hj).1
  simp only [decide_eq_true_eq]
  omega

/-- One question goes to each other server. -/
theorem countP_questionsFrom {h k : ℕ} {data : List Int8} {c m r : Int} {x : List Int8}
    (hlt : h < n) (hdata : decode data = some (.serverCreateLock c m r x)) :
  (questionsFrom n h k data).countP Packet.isRequest = 0 ∧
    (questionsFrom n h k data).countP Packet.isQuestion = n - 1 ∧
    (questionsFrom n h k data).countP Packet.isNo = 0 ∧
    ∀ j, (questionsFrom n h k data).countP (fun q => q.isQuestion && q.dest == j) =
      if j < n ∧ j ≠ h then 1 else 0
  := by
  have hquestion : ∀ q ∈ questionsFrom n h k data, q.isQuestion = true := by
    intro q hq
    obtain ⟨j, -, rfl⟩ := List.mem_map.mp hq
    simp [Packet.isQuestion, hdata]
  constructor
  · apply List.countP_eq_zero.mpr
    intro q hq
    obtain ⟨j, -, rfl⟩ := List.mem_map.mp hq
    simp [Packet.isRequest, hdata]
  · constructor
    · rw [List.countP_eq_length.mpr hquestion, questionsFrom, List.length_map,
        length_otherServers hlt]
    · constructor
      · apply List.countP_eq_zero.mpr
        intro q hq
        obtain ⟨j, -, rfl⟩ := List.mem_map.mp hq
        simp [Packet.isNo, hdata]
      · intro j
        have hcount : (questionsFrom n h k data).countP (fun q => q.isQuestion && q.dest == j) =
            (otherServers ⟨h, n⟩).count j := by
          rw [questionsFrom, List.countP_map, List.count]
          apply List.countP_congr
          intro a _
          simp [Packet.isQuestion, hdata]
        rw [hcount, (nodup_otherServers h).count]
        simp only [mem_otherServers]

/-- The tables of a server that has passed request `k` of the client `c` on. -/
def passedOn (c : Client) (name : List Int8) (k : ℕ) (s : State) : State :=
  { s with pendingRequestTable :=
      s.pendingRequestTable ++ [⟨0, 0, c.machine, c.mailBox, name, k⟩] }

theorem pending_passedOn (hdest : p.dest = e.dest) (h' : ℕ) :
  (g.after n i p (passedOn e.client name p.request (g.servers p.dest)) l).pending h' =
    if h' = e.dest then g.pending e.dest ++
      [⟨0, 0, e.client.machine, e.client.mailBox, name, p.request⟩]
    else g.pending h'
  := by
  rw [Group.pending, servers_after, hdest]
  split
  · rfl
  · rfl

/-- The requests passed on before stay where they are. -/
theorem slot_passedOn (hdest : p.dest = e.dest) {h' pos k : ℕ} (hslot : g.Slot h' pos k) :
  (g.after n i p (passedOn e.client name p.request (g.servers p.dest)) l).Slot h' pos k
  := by
  obtain ⟨hle, pr, hpr, hk⟩ := hslot
  use hle, pr
  rw [pending_passedOn hdest]
  split
  · rename_i hh
    subst hh
    rw [List.getElem?_append_left (List.getElem?_eq_some_iff.mp hpr).1]
    exact ⟨hpr, hk⟩
  · exact ⟨hpr, hk⟩

/-- A question to a server is a question. -/
theorem asking_le_questions (k j : ℕ) :
  (g.tally k).asking j ≤ (g.tally k).questions
  := by
  apply List.countP_mono_left
  intro q _ hq
  simp only [isAsking, Bool.and_eq_true] at hq ⊢
  exact ⟨hq.1, hq.2.1⟩

/-- A request for a lock the server does not have is passed on. -/
theorem Ok.after_forwarded (hn : 2 ≤ n) (h : g.Ok n) (hi : g.network[i]? = some p)
    (he : g.log[p.request]? = some e) (hname : e.request = .createLock name)
    (hdest : p.dest = e.dest) (hdata : decode p.data = some (.client (.createLock name)))
    (hhas : ¬ g.Has e.dest name) (hmachine : e.client.machine ≤ 127) (hlength : name.length ≤ 35)
    (hsize : (g.pending e.dest).length ≤ 127)
    (hfirst : (∃ j, g.Has j name) ∨ ∀ pr ∈ g.pending e.dest, cstring pr.name ≠ cstring name) :
  (g.after n i p (passedOn e.client name p.request (g.servers p.dest))
    ((otherServers ⟨p.dest, n⟩).map
      (fun j => ⟨⟨j, 0⟩, question e.client name (g.servers p.dest), p.request⟩))).Ok n
  := by
  obtain ⟨hlt, -, hbox, -⟩ := h.log _ e he
  have hrequest : p.isRequest = true := by simp [Packet.isRequest, hdata]
  have hquestion : p.isQuestion = false := by simp [Packet.isQuestion, hdata]
  have hno : p.isNo = false := by simp [Packet.isNo, hdata]
  obtain ⟨hnot, hquestions, hnos, hasks, hreplies⟩ := h.request_not_forwarded hi he hrequest
  have hasking : ∀ j, (g.tally p.request).asking j = 0 := by
    intro j
    have hle := asking_le_questions (g := g) p.request j
    omega
  have hcode : decode (question e.client name (g.servers p.dest)) = some (.serverCreateLock
      e.client.machine e.client.mailBox (g.servers p.dest).pendingRequestTable.length name) := by
    apply decode_question hmachine _ hlength
    · rw [hdest]
      apply hsize
    · simp only [numBoxes] at hbox
      omega
  have hmails : ∀ mail ∈ (otherServers ⟨p.dest, n⟩).map (fun j => (⟨⟨j, 0⟩,
      question e.client name (g.servers p.dest), p.request⟩ : Mail)),
      mail.request = p.request := by
    intro mail hmail
    obtain ⟨j, -, rfl⟩ := List.mem_map.mp hmail
    rfl
  obtain ⟨hcount, hcount', hcount'', hcountj⟩ :=
    countP_questionsFrom (k := p.request) (hdest ▸ hlt) hcode
  obtain ⟨hasks', hasking', hquestions', hnos', hreplies'⟩ := tally_after_self (n := n)
    (s := passedOn e.client name p.request (g.servers p.dest)) hi hmails
  simp only [packets_question, toClients_question, hcount, hcount', hcount'', hcountj, hrequest,
    hquestion, hno, Bool.false_and, Bool.false_eq_true, if_false, if_true,
    List.length_nil] at hasks' hasking' hquestions' hnos' hreplies'
  apply h.after (s := passedOn e.client name p.request (g.servers p.dest)) hi he hname hmails rfl
    (fun _ _ _ hs => slot_passedOn hdest hs)
  · intro h' pr hne
    rw [pending_passedOn hdest]
    split
    · rename_i hh
      rw [hh, List.mem_append, List.mem_singleton]
      constructor
      · rintro (hpr | rfl)
        · apply hpr
        · apply absurd rfl hne
      · apply Or.inl
    · rfl
  · rw [packets_question]
    intro q hq
    obtain ⟨j, hj, rfl⟩ := List.mem_map.mp hq
    apply PacketOk.question (g.servers p.dest).pendingRequestTable.length
    · rw [← hdest]
      apply (mem_otherServers.mp hj).2
    · rw [hdest]
    · constructor
      · rw [hdest]
        apply hsize
      · rw [pending_passedOn hdest, if_pos rfl, hdest, List.getElem?_concat_length]
        exact ⟨_, rfl, rfl⟩
    · apply hcode
  · rw [toClients_question]
    intro r hr
    simp at hr
  · intro h' pr hpr hk
    rw [pending_passedOn hdest] at hpr
    split at hpr
    · rename_i hh
      obtain hpr | hpr := List.mem_append.mp hpr
      · apply absurd hk (hnot pr hpr)
      · obtain rfl := List.mem_singleton.mp hpr
        exact ⟨hh.symm, rfl, rfl⟩
    · rename_i hh
      obtain ⟨e', he', hdest', -⟩ := h.pending h' pr hpr
      rw [hk] at he'
      obtain rfl := Option.some.inj (he.symm.trans he')
      apply absurd hdest'.symm hh
  · rw [pending_passedOn hdest, if_pos hdest, List.map_append]
    apply List.Nodup.append (h.once e.dest) (List.nodup_singleton _)
    intro k hk hk'
    obtain ⟨pr, hpr, rfl⟩ := List.mem_map.mp hk
    apply hnot pr hpr
    simpa using hk'
  · intro pr hpr hk
    rw [pending_passedOn hdest, if_pos rfl] at hpr
    obtain hpr | hpr := List.mem_append.mp hpr
    · apply absurd hk (hnot pr hpr)
    · obtain rfl := List.mem_singleton.mp hpr
      constructor
      · omega
      · intro j
        have hj := hasking' j
        rw [hasking j] at hj
        split at hj
        · omega
        · omega
      · intro _
        simp only
        omega
      · intro j hj hhasj
        obtain ⟨a, lock, hlock, -⟩ := has_iff.mp hhasj
        have hjn := h.located j a lock hlock
        have hj' := hasking' j
        rw [if_pos ⟨hjn, hdest ▸ hj⟩, hasking j] at hj'
        simp only
        omega
      · intro hhome
        apply absurd hhome hhas
  · intro hnot'
    apply absurd rfl
    apply hnot' ⟨0, 0, e.client.machine, e.client.mailBox, name, p.request⟩
    rw [pending_passedOn hdest, if_pos rfl]
    apply List.mem_append_right _ (List.mem_singleton_self _)
  · intro _ habsent h' pr' hpr' hne hnames
    have hne' : e.dest ≠ h' := by
      rintro rfl
      apply hfirst.resolve_left (not_exists.mpr habsent) pr' hpr' hnames
    use hne'
    obtain ⟨e', he', rfl, -⟩ := h.pending h' pr' hpr'
    have hlt' := (h.log _ e' he').1
    have hj := hasking' e'.dest
    rw [if_pos ⟨hlt', hdest ▸ hne'.symm⟩] at hj
    omega

end Group

end Nachos.Server
