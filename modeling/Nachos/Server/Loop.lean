import Nachos.Server.Tables

/-!
# The loop of a lock server

One iteration of the loop of `Server` in `network/nettest.cc`: a message is received into a
buffer of 40 bytes that has been filled with zeros (`decode` reads its fields), and the `switch`
on its first byte is executed (`serve` for the requests of clients, `handle` for all messages).
-/

namespace Nachos.Server

/-! ### Messages to a server -/

/-- The requests of clients, with the operation codes 0 to 12. -/
inductive Request where
  | createLock (name : List Int8)
  | acquire (index : Int)
  | release (index : Int)
  | destroyLock (index : Int)
  | createCV (name : List Int8)
  | signal (condIndex lockIndex : Int)
  | broadcast (condIndex lockIndex : Int)
  | wait (condIndex lockIndex : Int)
  | destroyCV (index : Int)
  | createMV (name : List Int8) (numElements : ℕ)
  | setMV (index arrayIndex value : Int)
  | getMV (index arrayIndex : Int)
  | destroyMV (index : Int)
deriving DecidableEq, Repr

/-- The messages a server receives: a request of a client, the question of another server
whether it has a lock (operation code 13), and the answer to such a question (operation code
14). -/
inductive Message where
  | client (request : Request)
  | serverCreateLock (clientID clientMail responseID : Int) (name : List Int8)
  | serverCreateLockAnswer (answer : Int8)
deriving DecidableEq, Repr

/-- The size of the request and response buffers, which is also `MaxMailSize`. -/
def bufferSize : ℕ := 40

/-- The byte `request[i]` after `data` has been received into the buffer. -/
def byteAt (data : List Int8) (i : ℕ) : Int8 := data.getD i 0

/-- The `length` bytes from `start` on, if they lie in the buffer. -/
def readName (data : List Int8) (start : ℕ) (length : Int) : Option (List Int8) :=
  if 0 ≤ length ∧ start + length ≤ bufferSize then
    some ((List.range length.toNat).map (fun i => byteAt data (start + i)))
  else none

/-- A number of elements a monitor variable can be allocated with. -/
def readSize (n : Int) : Option ℕ := if 0 ≤ n then some n.toNat else none

/-- The message in a buffer: `none` where the code reads outside the buffer or allocates an
array of negative size, and for a byte the `switch` has no case for. -/
def decode (data : List Int8) : Option Message :=
  let int (i : ℕ) : Int := (byteAt data i).toInt
  match (byteAt data 0).toInt with
  | 0 => (readName data 2 (int 1)).map (fun name => .client (.createLock name))
  | 1 => some (.client (.acquire (int 1)))
  | 2 => some (.client (.release (int 1)))
  | 3 => some (.client (.destroyLock (int 1)))
  | 4 => (readName data 2 (int 1)).map (fun name => .client (.createCV name))
  | 5 => some (.client (.signal (int 1) (int 2)))
  | 6 => some (.client (.broadcast (int 1) (int 2)))
  | 7 => some (.client (.wait (int 1) (int 2)))
  | 8 => some (.client (.destroyCV (int 1)))
  | 9 => do
      let name ← readName data 2 (int 1)
      if name.length + 2 < bufferSize then
        let numElements ← readSize (int (name.length + 2))
        return .client (.createMV name numElements)
      else none
  | 10 => some (.client (.setMV (int 1) (int 2) (int 3)))
  | 11 => some (.client (.getMV (int 1) (int 2)))
  | 12 => some (.client (.destroyMV (int 1)))
  | 13 => (readName data 5 (int 3)).map (.serverCreateLock (int 1) (int 2) (int 4))
  | 14 => some (.serverCreateLockAnswer (byteAt data 1))
  | _ => none

/-! ### The requests of clients -/

/-- What an iteration of the loop does. -/
structure Outcome where
  state : State
  /-- The messages `Release` and `Wait` send to the new owner of a lock. -/
  granted : List Mail
  /-- The messages the iteration sends itself. -/
  answer : List Mail

/-- All messages sent in an iteration, in order. -/
def Outcome.sent (o : Outcome) : List Mail := o.granted ++ o.answer

/-- `response[0] = 255`. -/
def ack : Int8 := char 255

/-- The lock at `lockIndex` exists and `owner == inPktHdr.from`. -/
def ownedBy (c : Client) (lockIndex : Int) (s : State) : Bool :=
  match s.lockAt lockIndex with
  | some lock => lock.owner == (c.machine : Int)
  | none => false

/-- The condition variable exists, and its `serverLockIndex` is `lockIndex` or `-1`. -/
def waitable (condIndex lockIndex : Int) (s : State) : Bool :=
  match s.cvAt condIndex with
  | some cv => cv.serverLockIndex == lockIndex || cv.serverLockIndex == -1
  | none => false

/-- `serverLockTable.at(index)->owner = outPktHdr.to`. -/
def setOwner (index : Int) (c : Client) (s : State) : State :=
  match s.lockAt index with
  | some lock => s.setLock index { lock with owner := c.machine }
  | none => s

/-- A reply appended to the queue of a lock. -/
def appendToLock (index : Int) (reply : ReplyMsg) (s : State) : State :=
  match s.lockAt index with
  | some toAcquire =>
      s.setLock index { toAcquire with
        numWaiters := toAcquire.numWaiters + 1, waitQueue := toAcquire.waitQueue ++ [reply] }
  | none => s

/-- A reply appended to the queue of a condition variable. -/
def appendToCV (condIndex : Int) (reply : ReplyMsg) (s : State) : State :=
  match s.cvAt condIndex with
  | some toWait =>
      s.setCV condIndex { toWait with
        numWaiters := toWait.numWaiters + 1, waitQueue := toWait.waitQueue ++ [reply] }
  | none => s

/-- The question sent to the other servers about a lock `name` that `c` wants. -/
def question (c : Client) (name : List Int8) (s : State) : List Int8 :=
  [13, char c.machine, char c.mailBox, char name.length, char s.pendingRequestTable.length] ++ name

/-- The machines of the other servers, in the order of the loop of case 0. -/
def otherServers (cfg : Config) : List ℕ :=
  (List.range cfg.numServers).filter (· != cfg.serverID)

/-- The iteration for request number `n`, which comes from `c`. -/
def serve (cfg : Config) (n : ℕ) (c : Client) (request : Request) (s : State) : Outcome :=
  match request with
  | .createLock name =>
      if getLockFromTable name s ≠ -1 then
        ⟨s, [], [reply n c (char (getLockFromTable name s))]⟩
      else if cfg.numServers = 1 then
        ⟨(createLock cfg name s).2, [], [reply n c (char (createLock cfg name s).1)]⟩
      else
        ⟨{ s with pendingRequestTable :=
            s.pendingRequestTable ++ [⟨0, 0, c.machine, c.mailBox, name, n⟩] },
          [], (otherServers cfg).map (fun i => ⟨⟨i, 0⟩, question c name s, n⟩)⟩
  | .acquire index =>
      let canAcquire := acquire index s
      if canAcquire.1 = 0 then ⟨setOwner index c canAcquire.2, [], [reply n c ack]⟩
      else if canAcquire.1 = 1 then
        ⟨appendToLock index (replyMsg n c ack) canAcquire.2, [], []⟩
      else ⟨canAcquire.2, [], [reply n c ack]⟩
  | .release index =>
      if ownedBy c index s then
        ⟨(release index s).1, (release index s).2, [reply n c ack]⟩
      else ⟨s, [], [reply n c ack]⟩
  | .destroyLock index => ⟨destroyLock index s, [], [reply n c ack]⟩
  | .createCV name => ⟨(createCV cfg name s).2, [], [reply n c (char (createCV cfg name s).1)]⟩
  | .signal condIndex lockIndex =>
      if ownedBy c lockIndex s then ⟨signal condIndex lockIndex s, [], [reply n c ack]⟩
      else ⟨s, [], [reply n c ack]⟩
  | .broadcast condIndex lockIndex =>
      if ownedBy c lockIndex s then ⟨broadcast condIndex lockIndex s, [], [reply n c ack]⟩
      else ⟨s, [], [reply n c ack]⟩
  | .wait condIndex lockIndex =>
      if ownedBy c lockIndex s then
        if waitable condIndex lockIndex s then
          ⟨appendToCV condIndex (replyMsg n c ack) (wait condIndex lockIndex s).1,
            (wait condIndex lockIndex s).2, []⟩
        else ⟨s, [], [reply n c ack]⟩
      else ⟨s, [], [reply n c ack]⟩
  | .destroyCV index => ⟨destroyCV index s, [], [reply n c ack]⟩
  | .createMV name numElements =>
      ⟨(createMV cfg name numElements s).2, [],
        [reply n c (char (createMV cfg name numElements s).1)]⟩
  | .setMV index arrayIndex value => ⟨setMV index arrayIndex value s, [], [reply n c 127]⟩
  | .getMV index arrayIndex => ⟨s, [], [reply n c (char (getMV index arrayIndex s))]⟩
  | .destroyMV index => ⟨destroyMV index s, [], [reply n c 127]⟩

/-! ### The messages of servers -/

/-- The pending request at `responseID`, if that is a position of the table. -/
def State.pendingAt (s : State) (responseID : Int) : Option PendingRequest :=
  if 0 ≤ responseID then s.pendingRequestTable[responseID.toNat]? else none

/-- `updatePendingRequestTable` for the entry `pr` at `responseID`. -/
def updatePendingRequestTable (responseID : Int) (pr : PendingRequest) (s : State) : State :=
  { s with pendingRequestTable :=
      s.pendingRequestTable.set responseID.toNat { pr with noCount := pr.noCount + 1 } }

/-- A message to the client whose address came in two bytes of a message. A machine or a mailbox
with a negative number does not exist. -/
def toClient (n : ℕ) (clientID clientMail : Int) (b : Int8) : List Mail :=
  if 0 ≤ clientID ∧ 0 ≤ clientMail then [⟨⟨clientID.toNat, clientMail.toNat⟩, [b], n⟩] else []

/-- The iteration for a message sent on account of request `n` by `sender`, where `response` is
what the freshly allocated response buffer holds. Case 14 takes the position in the table of
pending requests from there. It is `none` where that position is outside the table. -/
def handle (cfg : Config) (n : ℕ) (sender : Client) (response : ℕ → Int8) (message : Message)
    (s : State) : Option (State × List Mail) :=
  match message with
  | .client request =>
      some ((serve cfg n sender request s).state, (serve cfg n sender request s).sent)
  | .serverCreateLock clientID clientMail responseID name =>
      if getLockFromTable name s ≠ -1 then
        some (s, ⟨sender, [14, 1, char responseID], n⟩ ::
          toClient n clientID clientMail (char (getLockFromTable name s)))
      else some (s, [⟨sender, [14, 0, char responseID], n⟩])
  | .serverCreateLockAnswer answer =>
      if answer = 0 then do
        let responseID := (response 2).toInt
        let pr ← s.pendingAt responseID
        let s := updatePendingRequestTable responseID pr s
        if pr.noCount + 1 = cfg.numServers - 1 then
          some ((createLock cfg pr.name s).2,
            [⟨⟨pr.clientID, pr.clientMail⟩, [char (createLock cfg pr.name s).1], pr.request⟩])
        else some (s, [])
      else some (s, [])

end Nachos.Server
