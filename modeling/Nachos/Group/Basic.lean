import Mathlib.Logic.Function.Basic
import Nachos.Library.Run
import Nachos.Server.Loop

/-!
# A group of lock servers

`numServers` servers run on the machines `0` to `numServers - 1`, and the clients on other
machines. A client may send a request to any server. The messages to servers are in flight until
they are delivered, in any order, and none is lost; when one is delivered the server executes one
iteration of its loop. What the response buffer of that iteration holds when it is allocated is
part of the action, since the code does not determine it.
-/

namespace Nachos.Server

/-- The number of mailboxes of a post office. -/
def numBoxes : ℕ := 10

/-- A message in flight to a server. -/
structure Packet where
  /-- The machine of the server. -/
  dest : ℕ
  sender : Client
  data : List Int8
  /-- The number of the request of a client the message is sent on account of. -/
  request : ℕ
deriving DecidableEq, Repr

/-- A request a client has sent, and the server it was sent to. -/
structure Sent where
  client : Client
  dest : ℕ
  request : Request
deriving DecidableEq, Repr

/-- The state of the group. -/
structure Group where
  servers : ℕ → State
  network : List Packet
  /-- The messages that have been sent to clients. -/
  replies : List Mail
  /-- The requests the clients have sent; request `k` is at position `k`. -/
  log : List Sent

namespace Group

/-- What can happen in a group. -/
inductive Action where
  /-- The client sends `data` to the server on machine `dest`. -/
  | send (c : Client) (dest : ℕ) (data : List Int8)
  /-- The message at position `i` of the network is delivered. -/
  | deliver (i : ℕ) (response : ℕ → Int8)

/-- The action is the delivery of a message. -/
def Action.isDelivery : Action → Bool
  | .send _ _ _ => false
  | .deliver _ _ => true

/-- No request has been sent. -/
def initial : Group := ⟨fun _ => State.initial, [], [], []⟩

/-- The assertions of `PostOffice::Send`. -/
def sendable (mail : Mail) : Bool :=
  mail.data.length ≤ bufferSize && mail.dest.mailBox < numBoxes

/-- The messages to mailbox `0` of a server, when they are sent by the server on machine `m`. -/
def packets (n m : ℕ) (mails : List Mail) : List Packet :=
  (mails.filter (fun mail => mail.dest.machine < n && mail.dest.mailBox == 0)).map
    (fun mail => ⟨mail.dest.machine, ⟨m, 0⟩, mail.data, mail.request⟩)

/-- The messages to clients. -/
def toClients (n : ℕ) (mails : List Mail) : List Mail :=
  mails.filter (fun mail => n ≤ mail.dest.machine)

/-- The group after the message `p` at position `i` has been delivered to its server, which now
has the tables `s` and has sent `mails`. -/
def after (n : ℕ) (g : Group) (i : ℕ) (p : Packet) (s : State) (mails : List Mail) : Group :=
  { servers := Function.update g.servers p.dest s
    network := g.network.eraseIdx i ++ packets n p.dest mails
    replies := g.replies ++ toClients n mails
    log := g.log }

/-- One action in a group of `n` servers. It is `none` where an assertion of the post office
fails and where the code of the server reads outside a buffer or a table. -/
def step (n : ℕ) (g : Group) : Action → Option Group
  | .send c dest data =>
      match decode data with
      | some (.client request) =>
          if dest < n ∧ n ≤ c.machine ∧ c.mailBox < numBoxes ∧ data.length ≤ bufferSize then
            some { g with
              network := g.network ++ [⟨dest, c, data, g.log.length⟩]
              log := g.log ++ [⟨c, dest, request⟩] }
          else none
      | _ => none
  | .deliver i response => do
      let p ← g.network[i]?
      let message ← decode p.data
      let out ← handle ⟨p.dest, n⟩ p.request p.sender response message (g.servers p.dest)
      if out.2.all sendable then some (g.after n i p out.1 out.2) else none

/-- A request can be sent by a client to a server. -/
theorem step_send {n dest : ℕ} {g : Group} {c : Client} {data : List Int8} {request : Request}
    (hdata : decode data = some (.client request))
    (hsend : dest < n ∧ n ≤ c.machine ∧ c.mailBox < numBoxes ∧ data.length ≤ bufferSize) :
  step n g (.send c dest data) = some { g with
    network := g.network ++ [⟨dest, c, data, g.log.length⟩]
    log := g.log ++ [⟨c, dest, request⟩] }
  := by
  simp only [step, hdata]
  rw [if_pos hsend]

/-- A message is delivered when the server can process it and send its messages. -/
theorem step_deliver {n i : ℕ} {g : Group} {p : Packet} {response : ℕ → Int8} {message : Message}
    {s : State} {mails : List Mail} (hi : g.network[i]? = some p)
    (hdata : decode p.data = some message)
    (hhandle : handle ⟨p.dest, n⟩ p.request p.sender response message (g.servers p.dest) =
      some (s, mails))
    (hsend : ∀ mail ∈ mails, sendable mail = true) :
  step n g (.deliver i response) = some (g.after n i p s mails)
  := by
  simp [step, hi, hdata, hhandle]
  apply hsend

/-- The tables of the other servers stay as they are when a message is delivered. -/
theorem servers_after {n i : ℕ} {g : Group} {p : Packet} {s : State} {mails : List Mail} (j : ℕ) :
  (g.after n i p s mails).servers j = if j = p.dest then s else g.servers j
  := Function.update_apply _ _ _ _

/-! ### Where messages go -/

@[simp]
theorem packets_nil (n m : ℕ) :
  packets n m [] = []
  := rfl

@[simp]
theorem toClients_nil (n : ℕ) :
  toClients n [] = []
  := rfl

section Routing

variable {n m : ℕ} {data : List Int8} {k : ℕ} {mails : List Mail}

/-- A message to a client is not one to a server. -/
theorem packets_client {c : Client} (h : n ≤ c.machine) :
  packets n m (⟨c, data, k⟩ :: mails) = packets n m mails
  := by
  have hnot : ¬ c.machine < n := by omega
  simp [packets, hnot]

theorem packets_server {j : ℕ} (h : j < n) :
  packets n m (⟨⟨j, 0⟩, data, k⟩ :: mails) = ⟨j, ⟨m, 0⟩, data, k⟩ :: packets n m mails
  := by
  simp [packets, h]

theorem toClients_client {c : Client} (h : n ≤ c.machine) :
  toClients n (⟨c, data, k⟩ :: mails) = ⟨c, data, k⟩ :: toClients n mails
  := by
  simp [toClients, h]

theorem toClients_server {j : ℕ} (h : j < n) :
  toClients n (⟨⟨j, 0⟩, data, k⟩ :: mails) = toClients n mails
  := by
  have hnot : ¬ n ≤ j := by omega
  simp [toClients, hnot]

end Routing

/-- The messages sent to the client in answer to request `k`. -/
def repliesTo (g : Group) (k : ℕ) : List Mail := g.replies.filter (·.request == k)

/-- The group after the actions `as`, if all of them are possible. -/
abbrev run (n : ℕ) (as : List Action) : Option Group := Transition.run (step n) initial as

end Group

end Nachos.Server
