import Nachos.Group.Basic
import Nachos.Library.Queues

/-!
# Creating locks in a group

A server that does not have a lock asks all other servers for it, and creates it when all of them
have said no. `Correct` is what this should achieve, and `Harmless` says when a message can be
delivered without spoiling it: the code takes the position of the request in the table of pending
requests from the wrong buffer, it sends numbers as single bytes, and it does not notice when two
servers ask each other for the same lock.

The invariant of the protocol (`Ok`) is about numbers of messages. `tally` counts, for each
request, the questions in flight, the answers no in flight and the replies; `Forwarded` relates
them to the answers no that have been counted and to the server that has the lock. A delivery that
creates no lock changes these numbers for one request only (`Ok.after`).
-/

namespace Nachos.Server

/-! ### The bytes of the messages -/

theorem toInt_char {m : ℕ} (h : m ≤ 127) :
  (char m).toInt = m
  := by
  rw [char, Int8.toInt_ofInt_of_le]
  · omega
  · omega

theorem strcmp_iff {a b : List Int8} :
  strcmp a b = true ↔ cstring a = cstring b
  := by
  rw [strcmp, beq_iff_eq]

/-- The bytes that follow the first `start` ones. -/
theorem readName_append (front name : List Int8) (h : front.length + name.length ≤ bufferSize) :
  readName (front ++ name) front.length name.length = some name
  := by
  rw [readName, if_pos (by omega)]
  congr 1
  apply List.ext_getElem
  · simp
  · intro i hi hi'
    simp [byteAt, List.getElem?_append_right, List.getElem?_eq_getElem hi']

/-- A question is read back as it was sent. -/
theorem decode_question {c : Client} {name : List Int8} {s : State} (hm : c.machine ≤ 127)
    (hb : c.mailBox ≤ 127) (hname : name.length ≤ 35) (hs : s.pendingRequestTable.length ≤ 127) :
  decode (question c name s) =
    some (.serverCreateLock c.machine c.mailBox s.pendingRequestTable.length name)
  := by
  have hread := readName_append
    [13, char c.machine, char c.mailBox, char name.length, char s.pendingRequestTable.length] name
    (by simp [bufferSize]; omega)
  simp only [List.length_cons, List.length_nil, Nat.zero_add] at hread
  have hcode : (byteAt (question c name s) 0).toInt = 13 := rfl
  have hlength : byteAt (question c name s) 3 = char name.length := rfl
  have hmachine : byteAt (question c name s) 1 = char c.machine := rfl
  have hbox : byteAt (question c name s) 2 = char c.mailBox := rfl
  have hpos : byteAt (question c name s) 4 = char s.pendingRequestTable.length := rfl
  simp only [decode, hcode, hlength, hmachine, hbox, hpos, toInt_char hm, toInt_char hb,
    toInt_char hs, toInt_char (m := name.length) (by omega)]
  rw [question, hread]
  rfl

theorem decode_answer (b x : Int8) :
  decode [14, b, x] = some (.serverCreateLockAnswer b)
  := rfl

/-! ### What is in flight -/

namespace Packet

/-- The message is a request of a client. -/
def isRequest (p : Packet) : Bool :=
  match decode p.data with
  | some (.client _) => true
  | _ => false

/-- The message is the question of a server. -/
def isQuestion (p : Packet) : Bool :=
  match decode p.data with
  | some (.serverCreateLock _ _ _ _) => true
  | _ => false

/-- The message is the answer that a server does not have the lock. -/
def isNo (p : Packet) : Bool := decode p.data = some (.serverCreateLockAnswer 0)

/-- How many more messages the message can lead to, counting itself. -/
def weight (n : ℕ) (p : Packet) : ℕ :=
  if p.isRequest then 2 * n - 1 else if p.isQuestion then 2 else 1

@[simp]
theorem isRequest_answer (dest : ℕ) (sender : Client) (b x : Int8) (k : ℕ) :
  isRequest ⟨dest, sender, [14, b, x], k⟩ = false
  := rfl

@[simp]
theorem isQuestion_answer (dest : ℕ) (sender : Client) (b x : Int8) (k : ℕ) :
  isQuestion ⟨dest, sender, [14, b, x], k⟩ = false
  := rfl

@[simp]
theorem isNo_answer (dest : ℕ) (sender : Client) (b x : Int8) (k : ℕ) :
  isNo ⟨dest, sender, [14, b, x], k⟩ = decide (b = 0)
  := by
  simp [isNo, decode_answer]

end Packet

/-- How far a request has got. -/
@[ext]
structure Tally where
  /-- The requests of the client in flight. -/
  asks : ℕ
  /-- The questions in flight to each server. -/
  asking : ℕ → ℕ
  /-- All questions in flight. -/
  questions : ℕ
  /-- The answers in flight that a server does not have the lock. -/
  nos : ℕ
  /-- The replies to the client. -/
  replies : ℕ

namespace Group

/-- The question for request `k` to the server on machine `j` is in flight. -/
def isAsking (k j : ℕ) (p : Packet) : Bool := p.request == k && (p.isQuestion && p.dest == j)

/-- How far request `k` has got. -/
def tally (g : Group) (k : ℕ) : Tally :=
  { asks := g.network.countP (fun p => p.request == k && p.isRequest)
    asking := fun j => g.network.countP (isAsking k j)
    questions := g.network.countP (fun p => p.request == k && p.isQuestion)
    nos := g.network.countP (fun p => p.request == k && p.isNo)
    replies := (g.repliesTo k).length }

/-- The server on machine `j` has a lock called `name`. -/
def Has (g : Group) (j : ℕ) (name : List Int8) : Prop :=
  getLockFromTable name (g.servers j) ≠ -1

/-- The requests the server on machine `h` has asked the other servers about. -/
abbrev pending (g : Group) (h : ℕ) : List PendingRequest := (g.servers h).pendingRequestTable

/-- The action is the `CreateLock` request of a client, or the delivery of a message in flight. -/
def CreatesLocks (n : ℕ) (g : Group) : Action → Prop
  | .send c dest data =>
      dest < n ∧ n ≤ c.machine ∧ c.mailBox < numBoxes ∧ data.length ≤ bufferSize ∧
        ∃ name, decode data = some (.client (.createLock name))
  | .deliver i _ => i < g.network.length

/-- A message can be delivered without harm.
* A request for a lock that is passed on comes from a machine with a number up to 127, the name
  has at most 35 characters, there are at most 127 requests in the table, and if no server has the
  lock then the table holds no other request for it.
* A server that is asking for a lock itself, and does not know that it exists, answers no only to
  those who have not answered it yet.
* The answer no finds in the response buffer the byte the answer carries. -/
def Undisturbed (g : Group) (response : ℕ → Int8) (p : Packet) : Option Message → Prop
  | some (.client (.createLock name)) =>
      g.Has p.dest name ∨
        p.sender.machine ≤ 127 ∧ name.length ≤ 35 ∧ (g.pending p.dest).length ≤ 127 ∧
          ((∃ j, g.Has j name) ∨ ∀ pr ∈ g.pending p.dest, cstring pr.name ≠ cstring name)
  | some (.serverCreateLock _ _ _ name) =>
      (∃ j, g.Has j name) ∨ ∀ pr ∈ g.pending p.dest, cstring pr.name = cstring name →
        (g.tally pr.request).asking p.sender.machine ≠ 0
  | some (.serverCreateLockAnswer answer) => answer = 0 → response 2 = byteAt p.data 2
  | _ => True

/-- The messages delivered can be delivered without harm. -/
def Harmless (g : Group) : Action → Prop
  | .send _ _ _ => True
  | .deliver i response =>
      ∀ p, g.network[i]? = some p → g.Undisturbed response p (decode p.data)

/-- What creating locks in a group should achieve. -/
structure Correct (g : Group) : Prop where
  /-- A request is answered at most once, -/
  answered_le : ∀ k, (g.repliesTo k).length ≤ 1
  /-- the reply goes to the client that has sent the request, -/
  addressed : ∀ r ∈ g.replies, ∃ e : Sent, g.log[r.request]? = some e ∧ r.dest = e.client
  /-- and it is there when no message is in flight on account of the request. -/
  answered : ∀ k < g.log.length, (∀ p ∈ g.network, p.request ≠ k) → (g.repliesTo k).length = 1
  /-- No two locks have the same name. -/
  distinct : ∀ (i j a b : ℕ) (lock lock' : ServerLock),
    (g.servers i).serverLockTable[a]? = some lock → (g.servers j).serverLockTable[b]? = some lock' →
    strcmp lock.name lock'.name = true → i = j ∧ a = b
  /-- The replies to all requests for a name are the same. -/
  agree : ∀ r ∈ g.replies, ∀ r' ∈ g.replies, ∀ (e e' : Sent) (name name' : List Int8),
    g.log[r.request]? = some e →
    g.log[r'.request]? = some e' → e.request = .createLock name → e'.request = .createLock name' →
    strcmp name name' = true → r.data = r'.data

/-! ### The invariant -/

/-- Where a request stands that the server on machine `h` has passed on: `c` servers have said no
so far, and `has j` is whether the server on machine `j` has the lock. -/
structure Forwarded (n h c : ℕ) (has : ℕ → Prop) (t : Tally) : Prop where
  asks_eq : t.asks = 0
  asking_le : ∀ j, t.asking j ≤ 1
  absent : (∀ j, ¬ has j) → t.replies = 0 ∧ t.questions + t.nos + c = n - 1 ∧ c < n - 1
  elsewhere : ∀ j, j ≠ h → has j →
    t.asking j + t.replies = 1 ∧ t.questions + t.nos + c + t.replies = n - 1
  home : has h → t.replies = 1 ∧ t.questions = 0 ∧ t.nos = 0

/-- Position `pos` of the table of the server on machine `h` holds request `k`. -/
def Slot (g : Group) (h pos k : ℕ) : Prop :=
  pos ≤ 127 ∧ ∃ pr, (g.pending h)[pos]? = some pr ∧ pr.request = k

/-- A message in flight is a request, the question of the server the request was sent to, or the
answer to that server. -/
inductive PacketOk (g : Group) (p : Packet) (e : Sent) (name : List Int8) : Prop where
  | request (hdest : p.dest = e.dest) (hsender : p.sender = e.client)
      (hdata : decode p.data = some (.client (.createLock name)))
  | question (pos : ℕ) (hdest : p.dest ≠ e.dest) (hsender : p.sender = ⟨e.dest, 0⟩)
      (hslot : g.Slot e.dest pos p.request)
      (hdata : decode p.data =
        some (.serverCreateLock e.client.machine e.client.mailBox pos name))
  | answer (pos : ℕ) (b : Int8) (hdest : p.dest = e.dest) (hslot : g.Slot e.dest pos p.request)
      (hdata : p.data = [14, b, char pos])

/-- The invariant of the protocol. -/
structure Ok (n : ℕ) (g : Group) : Prop where
  log : ∀ (k : ℕ) (e : Sent), g.log[k]? = some e →
    e.dest < n ∧ n ≤ e.client.machine ∧ e.client.mailBox < numBoxes ∧
      ∃ name, e.request = .createLock name
  packet : ∀ p ∈ g.network, ∃ (e : Sent) (name : List Int8), g.log[p.request]? = some e ∧
    e.request = .createLock name ∧ g.PacketOk p e name
  pending : ∀ h, ∀ pr ∈ g.pending h, ∃ e : Sent, g.log[pr.request]? = some e ∧ e.dest = h ∧
    e.client = ⟨pr.clientID, pr.clientMail⟩ ∧ e.request = .createLock pr.name
  once : ∀ h, ((g.pending h).map (·.request)).Nodup
  forwarded : ∀ h, ∀ pr ∈ g.pending h,
    Forwarded n h pr.noCount (fun j => g.Has j pr.name) (g.tally pr.request)
  notForwarded : ∀ (k : ℕ) (e : Sent), g.log[k]? = some e → (∀ pr ∈ g.pending e.dest, pr.request ≠ k) →
    (g.tally k).questions = 0 ∧ (g.tally k).nos = 0 ∧ (g.tally k).asks + (g.tally k).replies = 1
  located : ∀ (j a : ℕ) (lock : ServerLock), (g.servers j).serverLockTable[a]? = some lock → j < n
  distinct : ∀ (i j a b : ℕ) (lock lock' : ServerLock),
    (g.servers i).serverLockTable[a]? = some lock → (g.servers j).serverLockTable[b]? = some lock' →
    cstring lock.name = cstring lock'.name → i = j ∧ a = b
  apart : ∀ h h', ∀ pr ∈ g.pending h, ∀ pr' ∈ g.pending h', pr.request ≠ pr'.request →
    cstring pr.name = cstring pr'.name → (∀ j, ¬ g.Has j pr.name) →
    h ≠ h' ∧ (g.tally pr.request).asking h' + (g.tally pr'.request).asking h ≠ 0
  replied : ∀ r ∈ g.replies, ∃ (e : Sent) (name : List Int8) (j a : ℕ) (lock : ServerLock),
    g.log[r.request]? = some e ∧ e.request = .createLock name ∧ r.dest = e.client ∧
    (g.servers j).serverLockTable[a]? = some lock ∧ cstring lock.name = cstring name ∧
    r.data = [char lock.id]

/-! ### Having a lock -/

theorem has_iff {g : Group} {j : ℕ} {name : List Int8} :
  g.Has j name ↔ ∃ (a : ℕ) (lock : ServerLock),
    (g.servers j).serverLockTable[a]? = some lock ∧ cstring lock.name = cstring name
  := by
  rw [Has, getLockFromTable]
  split
  · rename_i lock hfind
    obtain ⟨a, ha⟩ := List.getElem?_of_mem (List.mem_of_find?_eq_some hfind)
    have hname := List.find?_some hfind
    constructor
    · intro _
      use a, lock, ha
      apply (strcmp_iff.mp hname).symm
    · intro _
      omega
  · rename_i hfind
    constructor
    · intro h
      contradiction
    · rintro ⟨a, lock, ha, hname⟩
      apply absurd (strcmp_iff.mpr hname.symm)
      apply List.find?_eq_none.mp hfind lock (List.mem_of_getElem? ha)

/-- Whether a server has a lock depends on the name only up to its first `NUL`. -/
theorem has_congr {g : Group} {j : ℕ} {name name' : List Int8} (h : cstring name = cstring name') :
  g.Has j name ↔ g.Has j name'
  := by
  rw [has_iff, has_iff, h]

/-! ### Delivering a message -/

section After

variable {n : ℕ} {g : Group} {i : ℕ} {p : Packet} {s : State} {l : List Mail}

theorem countP_after (hi : g.network[i]? = some p) (P : Packet → Bool) :
  (g.after n i p s l).network.countP P + (if P p then 1 else 0) =
    g.network.countP P + (packets n p.dest l).countP P
  := by
  obtain ⟨hlt, rfl⟩ := List.getElem?_eq_some_iff.mp hi
  have hperm := (List.getElem_cons_eraseIdx_perm hlt).countP_eq P
  rw [List.countP_cons] at hperm
  simp only [after, List.countP_append]
  omega

/-- The messages sent in an iteration carry the number of the request. -/
theorem request_of_mem_packets {m : ℕ} {q : Packet} {k : ℕ} (hmails : ∀ mail ∈ l, mail.request = k)
    (hq : q ∈ packets n m l) :
  q.request = k
  := by
  obtain ⟨mail, hmail, rfl⟩ := List.mem_map.mp hq
  apply hmails mail (List.mem_of_mem_filter hmail)

/-- Only the request on account of which a message was sent gets on when it is delivered. -/
theorem countP_after_ne (hi : g.network[i]? = some p)
    (hmails : ∀ mail ∈ l, mail.request = p.request) {k : ℕ} (hk : k ≠ p.request)
    {P : Packet → Bool} (hP : ∀ q, P q = true → q.request = k) :
  (g.after n i p s l).network.countP P = g.network.countP P
  := by
  have hnew : (packets n p.dest l).countP P = 0 := by
    apply List.countP_eq_zero.mpr
    intro q hq hPq
    apply hk
    rw [← hP q hPq, request_of_mem_packets hmails hq]
  have hp : ¬ P p = true := fun hp => hk (hP p hp).symm
  have h := countP_after (n := n) (s := s) (l := l) hi P
  rw [if_neg hp, hnew] at h
  apply h

theorem repliesTo_after (k : ℕ) :
  (g.after n i p s l).repliesTo k =
    g.repliesTo k ++ (toClients n l).filter (·.request == k)
  := List.filter_append _ _

theorem tally_after_ne (hi : g.network[i]? = some p)
    (hmails : ∀ mail ∈ l, mail.request = p.request) {k : ℕ} (hk : k ≠ p.request) :
  (g.after n i p s l).tally k = g.tally k
  := by
  have hreplies : (toClients n l).filter (·.request == k) = [] := by
    apply List.filter_eq_nil_iff.mpr
    intro mail hmail
    rw [hmails mail (List.mem_of_mem_filter hmail), beq_iff_eq]
    apply hk.symm
  simp only [tally, repliesTo_after, hreplies, List.append_nil, Tally.mk.injEq, and_true]
  use countP_after_ne hi hmails hk (by simp +contextual)
  constructor
  · funext j
    apply countP_after_ne hi hmails hk
    simp +contextual [isAsking]
  · use countP_after_ne hi hmails hk (by simp +contextual)
    apply countP_after_ne hi hmails hk (by simp +contextual)

theorem countP_after_self (hi : g.network[i]? = some p)
    (hmails : ∀ mail ∈ l, mail.request = p.request) (P : Packet → Bool) :
  (g.after n i p s l).network.countP (fun q => q.request == p.request && P q) +
      (if P p then 1 else 0) =
    g.network.countP (fun q => q.request == p.request && P q) +
      (packets n p.dest l).countP P
  := by
  have hnew : (packets n p.dest l).countP (fun q => q.request == p.request && P q) =
      (packets n p.dest l).countP P := by
    apply List.countP_congr
    intro q hq
    simp [request_of_mem_packets hmails hq]
  have h := countP_after (n := n) (s := s) (l := l) hi
    (fun q => q.request == p.request && P q)
  simpa [hnew] using h

/-- How far the request on account of which a message was sent gets when it is delivered. -/
theorem tally_after_self (hi : g.network[i]? = some p)
    (hmails : ∀ mail ∈ l, mail.request = p.request) :
  ((g.after n i p s l).tally p.request).asks + (if p.isRequest then 1 else 0) =
      (g.tally p.request).asks + (packets n p.dest l).countP Packet.isRequest ∧
    (∀ j, ((g.after n i p s l).tally p.request).asking j +
        (if p.isQuestion && p.dest == j then 1 else 0) =
      (g.tally p.request).asking j +
        (packets n p.dest l).countP (fun q => q.isQuestion && q.dest == j)) ∧
    ((g.after n i p s l).tally p.request).questions + (if p.isQuestion then 1 else 0) =
      (g.tally p.request).questions + (packets n p.dest l).countP Packet.isQuestion ∧
    ((g.after n i p s l).tally p.request).nos + (if p.isNo then 1 else 0) =
      (g.tally p.request).nos + (packets n p.dest l).countP Packet.isNo ∧
    ((g.after n i p s l).tally p.request).replies =
      (g.tally p.request).replies + (toClients n l).length
  := by
  have hreplies : (toClients n l).filter (·.request == p.request) = toClients n l := by
    apply List.filter_eq_self.mpr
    intro mail hmail
    rw [hmails mail (List.mem_of_mem_filter hmail), beq_self_eq_true]
  constructor
  · apply countP_after_self hi hmails
  · constructor
    · intro j
      exact countP_after_self hi hmails (fun q => q.isQuestion && q.dest == j)
    · constructor
      · apply countP_after_self hi hmails
      · constructor
        · apply countP_after_self hi hmails
        · simp only [tally, repliesTo_after, hreplies, List.length_append]

theorem serverLockTable_after (hlocks : s.serverLockTable = (g.servers p.dest).serverLockTable)
    (j : ℕ) :
  ((g.after n i p s l).servers j).serverLockTable = (g.servers j).serverLockTable
  := by
  rw [servers_after]
  split
  · rename_i hj
    rw [hj, hlocks]
  · rfl

theorem has_after (hlocks : s.serverLockTable = (g.servers p.dest).serverLockTable) (j : ℕ)
    (name : List Int8) :
  (g.after n i p s l).Has j name ↔ g.Has j name
  := by
  rw [Has, Has, getLockFromTable, getLockFromTable, serverLockTable_after hlocks]

end After

section Preservation

variable {n : ℕ} {g : Group} {i : ℕ} {p : Packet} {s : State} {l : List Mail} {e : Sent}
  {name : List Int8}

theorem PacketOk.mono {g' : Group} {q : Packet} (h : g.PacketOk q e name)
    (hslot : ∀ h pos k, g.Slot h pos k → g'.Slot h pos k) :
  g'.PacketOk q e name
  := by
  cases h with
  | request hdest hsender hdata => exact .request hdest hsender hdata
  | question pos hdest hsender hs hdata => exact .question pos hdest hsender (hslot _ _ _ hs) hdata
  | answer pos b hdest hs hdata => exact .answer pos b hdest (hslot _ _ _ hs) hdata

/-- A delivery that creates no lock keeps the invariant if it does so for the request on account
of which the message was sent. -/
theorem Ok.after (h : g.Ok n) (hi : g.network[i]? = some p) (he : g.log[p.request]? = some e)
    (hname : e.request = .createLock name)
    (hmails : ∀ mail ∈ l, mail.request = p.request)
    (hlocks : s.serverLockTable = (g.servers p.dest).serverLockTable)
    (hslot : ∀ h pos k, g.Slot h pos k → (g.after n i p s l).Slot h pos k)
    (hothers : ∀ (h' : ℕ) (pr : PendingRequest), pr.request ≠ p.request →
      (pr ∈ (g.after n i p s l).pending h' ↔ pr ∈ g.pending h'))
    (hpackets : ∀ q ∈ packets n p.dest l, (g.after n i p s l).PacketOk q e name)
    (hreplies : ∀ r ∈ toClients n l, r.dest = e.client ∧ ∃ (j a : ℕ) (lock : ServerLock),
      (g.servers j).serverLockTable[a]? = some lock ∧ cstring lock.name = cstring name ∧
      r.data = [char lock.id])
    (hpending : ∀ h', ∀ pr ∈ (g.after n i p s l).pending h', pr.request = p.request →
      e.dest = h' ∧ e.client = ⟨pr.clientID, pr.clientMail⟩ ∧ pr.name = name)
    (honce : ((g.after n i p s l).pending p.dest).map (·.request) |>.Nodup)
    (hforwarded : ∀ pr ∈ (g.after n i p s l).pending e.dest, pr.request = p.request →
      Forwarded n e.dest pr.noCount (fun j => g.Has j name)
        ((g.after n i p s l).tally p.request))
    (hnot : (∀ pr ∈ (g.after n i p s l).pending e.dest, pr.request ≠ p.request) →
      ((g.after n i p s l).tally p.request).questions = 0 ∧
      ((g.after n i p s l).tally p.request).nos = 0 ∧
      ((g.after n i p s l).tally p.request).asks +
        ((g.after n i p s l).tally p.request).replies = 1)
    (hapart : (∃ pr ∈ (g.after n i p s l).pending e.dest, pr.request = p.request) →
      (∀ j, ¬ g.Has j name) → ∀ h', ∀ pr' ∈ g.pending h', pr'.request ≠ p.request →
        cstring pr'.name = cstring name →
        e.dest ≠ h' ∧ ((g.after n i p s l).tally p.request).asking h' +
          (g.tally pr'.request).asking e.dest ≠ 0) :
  (g.after n i p s l).Ok n
  := by
  have hhas := has_after (n := n) (i := i) (l := l) hlocks
  have htables := serverLockTable_after (n := n) (i := i) (l := l) hlocks
  constructor
  · apply h.log
  · intro q hq
    obtain hq | hq := List.mem_append.mp hq
    · obtain ⟨e', name', he', hname', hok⟩ := h.packet q (List.mem_of_mem_eraseIdx hq)
      exact ⟨e', name', he', hname', hok.mono hslot⟩
    · use e, name
      rw [request_of_mem_packets hmails hq]
      exact ⟨he, hname, hpackets q hq⟩
  · intro h' pr hpr
    by_cases hk : pr.request = p.request
    · obtain ⟨hdest, hclient, rfl⟩ := hpending h' pr hpr hk
      rw [hk]
      exact ⟨e, he, hdest, hclient, hname⟩
    · apply h.pending h' pr ((hothers h' pr hk).mp hpr)
  · intro h'
    by_cases hh : h' = p.dest
    · rw [hh]
      apply honce
    · have hsame : (g.after n i p s l).pending h' = g.pending h' := by
        rw [Group.pending, servers_after, if_neg hh]
      rw [hsame]
      apply h.once
  · intro h' pr hpr
    simp only [hhas]
    by_cases hk : pr.request = p.request
    · obtain ⟨rfl, hclient, hprname⟩ := hpending h' pr hpr hk
      rw [hk, hprname]
      apply hforwarded pr hpr hk
    · rw [tally_after_ne hi hmails hk]
      apply h.forwarded h' pr ((hothers h' pr hk).mp hpr)
  · intro k e' he' hfree
    by_cases hk : k = p.request
    · subst hk
      obtain rfl := Option.some.inj (he.symm.trans he')
      apply hnot hfree
    · rw [tally_after_ne hi hmails hk]
      apply h.notForwarded k e' he'
      intro pr hpr hprk
      apply hfree pr _ hprk
      apply (hothers e'.dest pr _).mpr hpr
      rw [hprk]
      apply hk
  · intro j a lock hlock
    rw [htables] at hlock
    apply h.located j a lock hlock
  · intro a b c d lock lock' hlock hlock'
    rw [htables] at hlock hlock'
    apply h.distinct a b c d lock lock' hlock hlock'
  · intro h₁ h₂ pr hpr pr' hpr' hne hnames habsent
    simp only [hhas] at habsent
    by_cases hk : pr.request = p.request
    · have hk' : pr'.request ≠ p.request := by
        rw [← hk]
        apply hne.symm
      obtain ⟨rfl, -, rfl⟩ := hpending h₁ pr hpr hk
      rw [hk, tally_after_ne hi hmails hk']
      apply hapart ⟨pr, hpr, hk⟩ habsent h₂ pr' ((hothers h₂ pr' hk').mp hpr') hk' hnames.symm
    · by_cases hk' : pr'.request = p.request
      · obtain ⟨rfl, -, rfl⟩ := hpending h₂ pr' hpr' hk'
        have habsent' : ∀ j, ¬ g.Has j pr'.name := by
          intro j hj
          apply habsent j
          rw [has_congr hnames]
          apply hj
        obtain ⟨hdest, hasking⟩ := hapart ⟨pr', hpr', hk'⟩ habsent' h₁ pr
          ((hothers h₁ pr hk).mp hpr) hk hnames
        use hdest.symm
        rw [hk', tally_after_ne hi hmails hk, Nat.add_comm]
        apply hasking
      · rw [tally_after_ne hi hmails hk, tally_after_ne hi hmails hk']
        apply h.apart h₁ h₂ pr ((hothers h₁ pr hk).mp hpr) pr' ((hothers h₂ pr' hk').mp hpr') hne
          hnames habsent
  · intro r hr
    obtain hr | hr := List.mem_append.mp hr
    · obtain ⟨e', name', j, a, lock, hr⟩ := h.replied r hr
      use e', name', j, a, lock
      rw [htables]
      apply hr
    · obtain ⟨hdest, j, a, lock, hlock, hcstring, hdata⟩ := hreplies r hr
      use e, name, j, a, lock
      rw [htables, hmails r (List.mem_of_mem_filter hr)]
      exact ⟨he, hname, hdest, hlock, hcstring, hdata⟩

/-- The same when the tables stay as they are. -/
theorem Ok.after_same (h : g.Ok n) (hi : g.network[i]? = some p)
    (he : g.log[p.request]? = some e) (hname : e.request = .createLock name)
    (hmails : ∀ mail ∈ l, mail.request = p.request)
    (hpackets : ∀ q ∈ packets n p.dest l, g.PacketOk q e name)
    (hreplies : ∀ r ∈ toClients n l, r.dest = e.client ∧ ∃ (j a : ℕ) (lock : ServerLock),
      (g.servers j).serverLockTable[a]? = some lock ∧ cstring lock.name = cstring name ∧
      r.data = [char lock.id])
    (hforwarded : ∀ pr ∈ g.pending e.dest, pr.request = p.request →
      Forwarded n e.dest pr.noCount (fun j => g.Has j name)
        ((g.after n i p (g.servers p.dest) l).tally p.request))
    (hnot : (∀ pr ∈ g.pending e.dest, pr.request ≠ p.request) →
      ((g.after n i p (g.servers p.dest) l).tally p.request).questions = 0 ∧
      ((g.after n i p (g.servers p.dest) l).tally p.request).nos = 0 ∧
      ((g.after n i p (g.servers p.dest) l).tally p.request).asks +
        ((g.after n i p (g.servers p.dest) l).tally p.request).replies = 1)
    (hapart : (∃ pr ∈ g.pending e.dest, pr.request = p.request) →
      (∀ j, ¬ g.Has j name) → ∀ h', ∀ pr' ∈ g.pending h', pr'.request ≠ p.request →
        cstring pr'.name = cstring name →
        e.dest ≠ h' ∧ ((g.after n i p (g.servers p.dest) l).tally p.request).asking h' +
          (g.tally pr'.request).asking e.dest ≠ 0) :
  (g.after n i p (g.servers p.dest) l).Ok n
  := by
  have hservers : (g.after n i p (g.servers p.dest) l).servers = g.servers :=
    Function.update_eq_self _ _
  have hpending : ∀ h', (g.after n i p (g.servers p.dest) l).pending h' = g.pending h' := by
    intro h'
    rw [Group.pending, hservers]
  have hslot : ∀ h pos k, g.Slot h pos k →
      (g.after n i p (g.servers p.dest) l).Slot h pos k := by
    intro h' pos k hs
    rw [Slot, hpending]
    apply hs
  apply h.after hi he hname hmails rfl hslot _ _ hreplies
  · intro h' pr hpr hk
    rw [hpending] at hpr
    obtain ⟨e', he', hdest, hclient, hrequest⟩ := h.pending h' pr hpr
    rw [hk] at he'
    obtain rfl := Option.some.inj (he.symm.trans he')
    use hdest, hclient
    have hinj := hrequest.symm.trans hname
    injection hinj
  · rw [hpending]
    apply h.once
  · rw [hpending]
    apply hforwarded
  · rw [hpending]
    apply hnot
  · rw [hpending]
    apply hapart
  · intro h' pr _
    rw [hpending]
  · intro q hq
    apply (hpackets q hq).mono hslot

end Preservation

end Group

end Nachos.Server
