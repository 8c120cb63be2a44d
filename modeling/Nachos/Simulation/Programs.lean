import Nachos.Monitor.Views
import Nachos.Threads.Lines

/-!
# The simulation of the passport office

The customers, the clerks and the manager of `threads/threadtest.cc`, and the thread that forks them
in `system_test`. There are no senators, and the test that is run is not the first, so that the
branches for senators and for `choice == 1` are left out. So is what is printed, and what happens after
the office has been closed.

A position of a thread is named after the operation at whose end it is. Up to the next operation nobody
else can run.
-/

namespace Nachos.Simulation

open Monitor Threads

/-! ### Data -/

/-- The kinds of clerks. -/
inductive Kind where
  | app
  | pic
  | pass
  | cashier
deriving DecidableEq

/-- What is given at the beginning. -/
structure Setup where
  numCustomers : ℕ
  /-- `numAppClerks`, `numPicClerks`, `numPassClerks` and `numCashiers`. -/
  numClerks : Kind → ℕ
  choice : ℕ
  /-- The random numbers that say how much money the customers have. -/
  random : ℕ → Fin 4

/-- Clerks have a kind and a number. -/
abbrev ClerkId := Kind × ℕ

structure Clerk extends Threads.Clerk where
  toFile : ℤ
  money : ℤ
  /-- Of a picture clerk. -/
  picLiked : Bool

structure CustomerData where
  arrived : Bool
  social : Bool
  picture : Bool
  passport : Bool
  paid : Bool

structure Data where
  clerk : ClerkId → Clerk
  /-- The money of a customer. -/
  money : ℕ → ℤ
  customerData : ℤ → CustomerData
  totalSpent : ℤ
  numPassports : ℤ
  /-- The variables `appMoney`, `picMoney`, `passMoney` and `cashMoney` of the manager. -/
  counted : Kind → ℤ

def Data.modifyClerk (a : ClerkId) (f : Clerk → Clerk) (d : Data) : Data :=
  { d with clerk := Function.update d.clerk a (f (d.clerk a)) }

def Data.modifyCustomer (c : ℤ) (f : CustomerData → CustomerData) (d : Data) : Data :=
  { d with customerData := Function.update d.customerData c (f (d.customerData c)) }

def Data.setState (a : ClerkId) (state : ClerkState) (d : Data) : Data :=
  d.modifyClerk a (fun k => { k with state := state })

def Data.addMoney (a : ClerkId) (m : ℤ) (d : Data) : Data :=
  d.modifyClerk a (fun k => { k with money := k.money + m })

/-- A customer spends money. -/
def Data.spend (c : ℕ) (m : ℤ) (d : Data) : Data :=
  { d with money := Function.update d.money c (d.money c - m), totalSpent := d.totalSpent + m }

/-- The clerks in the order in which the manager goes through them. -/
def Setup.clerks (S : Setup) : List ClerkId :=
  [Kind.app, .pic, .pass, .cashier].flatMap (fun K => (List.range (S.numClerks K)).map (fun i => (K, i)))

def Data.initial (S : Setup) : Data where
  clerk _ := ⟨⟨.free, 0, 0⟩, -1, 0, false⟩
  money c := 100 + (S.random c : ℕ) * 500
  customerData _ := ⟨false, false, false, false, false⟩
  totalSpent := 0
  numPassports := 0
  counted _ := 0

/-! ### Threads, locks and condition variables -/

def Kind.number : Kind → ℕ
  | .app => 0
  | .pic => 1
  | .pass => 2
  | .cashier => 3

/-- The threads, where `main` runs `system_test`. -/
inductive Thread where
  | main
  | manager
  | clerk (a : ClerkId)
  | customer (c : ℕ)

def Thread.id : Thread → ℕ
  | .main => 0
  | .manager => 1
  | .clerk a => 2 + 5 * a.2 + a.1.number
  | .customer c => 6 + 5 * c

/-- The thread with a number. -/
def Thread.ofId : ℕ → Thread
  | 0 => .main
  | 1 => .manager
  | t + 2 =>
      match t % 5 with
      | 0 => .clerk (.app, t / 5)
      | 1 => .clerk (.pic, t / 5)
      | 2 => .clerk (.pass, t / 5)
      | 3 => .clerk (.cashier, t / 5)
      | _ => .customer (t / 5)

def clerkLineLock : ℕ := 0

def moneyLock : ℕ := 1

def passPortLock : ℕ := 2

def clerkLock (a : ClerkId) : ℕ := 3 + (4 * a.2 + a.1.number)

def clerkLineCV (a : ClerkId) : ℕ := 3 * (4 * a.2 + a.1.number)

def clerkBribeLineCV (a : ClerkId) : ℕ := 3 * (4 * a.2 + a.1.number) + 1

def clerkCV (a : ClerkId) : ℕ := 3 * (4 * a.2 + a.1.number) + 2

/-- The line of a clerk. -/
def lineCV (a : ClerkId) (bribe : Bool) : ℕ := if bribe then clerkBribeLineCV a else clerkLineCV a

/-- The lock of a condition variable. -/
def guard (v : ℕ) : ℕ := if v % 3 = 2 then 3 + v / 3 else clerkLineLock

/-- Where a customer goes, one after the other. -/
inductive Stage where
  | appFirst
  | picSecond
  | picFirst
  | appSecond
  | pass
  | cashier
deriving DecidableEq

def Stage.kind : Stage → Kind
  | .appFirst | .appSecond => .app
  | .picFirst | .picSecond => .pic
  | .pass => .pass
  | .cashier => .cashier

def Stage.next : Stage → Option Stage
  | .appFirst => some .picSecond
  | .picFirst => some .appSecond
  | .picSecond | .appSecond => some .pass
  | .pass => some .cashier
  | .cashier => none

inductive CustomerPos where
  | start
  | lineLock (v : Stage)
  | moneyLock (v : Stage) (myLine : ℕ)
  | moneyUnlocked (v : Stage) (myLine : ℕ)
  | line (v : Stage) (myLine : ℕ) (bribe : Bool)
  | clerkLock (v : Stage) (myLine : ℕ)
  | lineUnlocked (v : Stage) (myLine : ℕ)
  /-- The clerk has been signalled. -/
  | given (v : Stage) (myLine : ℕ)
  /-- The clerk has been waited for. -/
  | served (v : Stage) (myLine : ℕ)
  /-- The clerk has been told whether the picture is liked. -/
  | judged (v : Stage) (myLine : ℕ) (picLiked : Bool)
  | retake (v : Stage) (myLine : ℕ) (picLiked : Bool)
  | leaving (v : Stage) (myLine : ℕ)
  | released (v : Stage)
  | left

inductive ClerkPos where
  /-- At the top of the loop. -/
  | top
  | lineLock
  | called (bribe : Bool)
  | clerkLock (bribe : Bool)
  | lineUnlocked (bribe : Bool)
  /-- The customer has been waited for. -/
  | waited (bribe : Bool)
  /-- The clerk has yielded `n` times. -/
  | working (bribe : Bool) (n : ℕ)
  /-- The picture has been taken. -/
  | taken (bribe : Bool)
  | judged (bribe : Bool)
  | told (bribe : Bool)
  | moneyLock (bribe : Bool)
  | moneyUnlocked (bribe : Bool)
  | filed
  | passPortLock
  | passPortUnlocked
  /-- The customer has been waited for, who leaves. -/
  | left
  | released
  | breaking
  | breakLock
  | onBreak

/-- What the manager wakes clerks for. -/
inductive Purpose where
  /-- In `ManagerCheckLines`, for the `k`th time. -/
  | checkLines (k : ℕ)
  /-- In `ManagerCheckClose`. -/
  | checkClose

inductive ManagerPos where
  | start
  | clerkLock (p : Purpose) (a : ClerkId) (rest : List ClerkId)
  | signalled (p : Purpose) (a : ClerkId) (rest : List ClerkId)
  | released (p : Purpose) (rest : List ClerkId)
  /-- The manager has yielded `i` times. -/
  | yielded (k i : ℕ)
  /-- In `ManagerCountMoney`. -/
  | counting
  | counted
  | closed
  /-- An assertion has failed. -/
  | failed

inductive Pos where
  /-- The threads `ts` have to be forked. -/
  | main (ts : List Thread)
  | manager (p : ManagerPos)
  | clerk (a : ClerkId) (p : ClerkPos)
  | customer (c : ℕ) (p : CustomerPos)

/-! ### Customers -/

/-- The choice of a line. -/
def choose (S : Setup) (c : ℕ) (K : Kind) (d : Data) : Choice :=
  chooseLine (fun i => (d.clerk (K, i)).toClerk) (S.numClerks K) S.numCustomers (d.money c)

/-- The signal for the clerk `a`. -/
def signalClerk (a : ClerkId) : Effect := .call (.signal (clerkCV a) (some (clerkLock a)))

def waitForClerk (a : ClerkId) : Effect := .call (.wait (clerkCV a) (some (clerkLock a)))

/-- The code of the customer `c`. The random numbers say which way the customer goes, and whether the
picture is liked. -/
def customer (S : Setup) (c : ℕ) :
    CustomerPos → Data → Bool → Option (Data × Effect × CustomerPos)
  | .start, d, random =>
      some (d.modifyCustomer c (fun u => { u with arrived := true }), .call (.acquire clerkLineLock),
        .lineLock (if random then .picFirst else .appFirst))
  | .lineLock v, d, _ =>
      match choose S c v.kind d with
      | ⟨.ofNat myLine, _, true⟩ =>
          some (d.spend c 500, .call (.acquire moneyLock), .moneyLock v myLine)
      | ⟨.ofNat myLine, _, false⟩ =>
          some (d.modifyClerk (v.kind, myLine) (fun k => { k with lineCount := k.lineCount + 1 }),
            .call (.wait (lineCV (v.kind, myLine) false) (some clerkLineLock)), .line v myLine false)
      | _ => none
  | .moneyLock v myLine, d, _ =>
      some (d.addMoney (v.kind, myLine) 500, .call (.release moneyLock), .moneyUnlocked v myLine)
  | .moneyUnlocked v myLine, d, _ =>
      some (d.modifyClerk (v.kind, myLine)
          (fun k => { k with bribeLineCount := k.bribeLineCount + 1 }),
        .call (.wait (lineCV (v.kind, myLine) true) (some clerkLineLock)), .line v myLine true)
  | .line v myLine bribe, d, _ =>
      some ((d.modifyClerk (v.kind, myLine) (fun k =>
          if bribe then { k with bribeLineCount := k.bribeLineCount - 1 }
          else { k with lineCount := k.lineCount - 1 })).setState (v.kind, myLine) .busy,
        .call (.acquire (clerkLock (v.kind, myLine))), .clerkLock v myLine)
  | .clerkLock v myLine, d, _ => some (d, .call (.release clerkLineLock), .lineUnlocked v myLine)
  | .lineUnlocked v myLine, d, _ =>
      some (d.modifyClerk (v.kind, myLine) (fun k => { k with toFile := c }),
        signalClerk (v.kind, myLine), .given v myLine)
  | .given v myLine, d, _ =>
      some (if v.kind = .cashier then d.spend c 100 else d, waitForClerk (v.kind, myLine),
        .served v myLine)
  | .served v myLine, d, random =>
      if v.kind = .pic then
        -- random is 0
        if random then some (d, signalClerk (v.kind, myLine), .judged v myLine false)
        else
          some (d.modifyClerk (v.kind, myLine) (fun k => { k with picLiked := true }),
            signalClerk (v.kind, myLine), .judged v myLine true)
      else some (d.setState (v.kind, myLine) .free, signalClerk (v.kind, myLine), .leaving v myLine)
  | .judged v myLine picLiked, d, _ =>
      some (d, waitForClerk (v.kind, myLine), .retake v myLine picLiked)
  | .retake v myLine picLiked, d, _ =>
      if picLiked then some (d, .call (.release (clerkLock (v.kind, myLine))), .released v)
      else some (d, signalClerk (v.kind, myLine), .given v myLine)
  | .leaving v myLine, d, _ =>
      some (d, .call (.release (clerkLock (v.kind, myLine))), .released v)
  | .released v, d, _ =>
      match v.next with
      | some v' => some (d, .call (.acquire clerkLineLock), .lineLock v')
      | none => some (d, .park, .left)
  | .left, _, _ => none

/-! ### Clerks -/

/-- What a clerk does from the signal for a customer on is given by `serve`. -/
def clerk (serve : ClerkId → ClerkPos → Data → Option (Data × Effect × ClerkPos)) (a : ClerkId) :
    ClerkPos → Data → Option (Data × Effect × ClerkPos)
  | .top, d => some (d, .call (.acquire clerkLineLock), .lineLock)
  | .lineLock, d =>
      if (d.clerk a).bribeLineCount > 0 then
        some (d, .call (.signal (lineCV a true) (some clerkLineLock)), .called true)
      else if (d.clerk a).lineCount > 0 then
        some (d, .call (.signal (lineCV a false) (some clerkLineLock)), .called false)
      else some (d.setState a .break, .call (.release clerkLineLock), .breaking)
  | .breaking, d => some (d, .call (.acquire (clerkLock a)), .breakLock)
  | .breakLock, d => some (d, waitForClerk a, .onBreak)
  | .onBreak, d => some (d.setState a .free, .call (.release (clerkLock a)), .top)
  | .called bribe, d =>
      some (d.setState a .busy, .call (.acquire (clerkLock a)), .clerkLock bribe)
  | .clerkLock bribe, d => some (d, .call (.release clerkLineLock), .lineUnlocked bribe)
  | .left, d => some (d, .call (.release (clerkLock a)), .released)
  | .released, d => some (d.setState a .free, .call (.acquire clerkLineLock), .lineLock)
  | p, d => serve a p d

/-- A clerk yields `yields` times and changes what is known of the customer. -/
def file (yields : ℕ) (f : CustomerData → CustomerData) (a : ClerkId) :
    ClerkPos → Data → Option (Data × Effect × ClerkPos)
  | .lineUnlocked bribe, d => some (d, waitForClerk a, .waited bribe)
  | .waited bribe, d => some (d, .call .yield, .working bribe 1)
  | .working bribe n, d =>
      if n < yields then some (d, .call .yield, .working bribe (n + 1))
      else some (d.modifyCustomer (d.clerk a).toFile f, signalClerk a, .filed)
  | .filed, d => some (d, waitForClerk a, .left)
  | _, _ => none

def applicationClerk : ClerkId → ClerkPos → Data → Option (Data × Effect × ClerkPos) :=
  clerk (file 50 (fun u => { u with social := true }))

def passportClerk : ClerkId → ClerkPos → Data → Option (Data × Effect × ClerkPos) :=
  clerk (file 50 (fun u => { u with passport := true }))

def pictureClerk : ClerkId → ClerkPos → Data → Option (Data × Effect × ClerkPos) :=
  clerk (fun a p d =>
    match p with
    | .lineUnlocked bribe =>
        some (d.modifyClerk a (fun k => { k with picLiked := false }), waitForClerk a, .waited bribe)
    | .waited bribe => some (d, .call .yield, .working bribe 1)
    | .working bribe n =>
        if n < 20 then some (d, .call .yield, .working bribe (n + 1))
        else some (d, signalClerk a, .taken bribe)
    | .taken bribe => some (d, waitForClerk a, .judged bribe)
    | .judged bribe => some (d, signalClerk a, .told bribe)
    | .told bribe =>
        if (d.clerk a).picLiked then
          some (d.modifyCustomer (d.clerk a).toFile (fun u => { u with picture := true }),
            .call (.release (clerkLock a)), .released)
        else some (d, waitForClerk a, .waited bribe)
    | _ => none)

/-- A cashier takes the money before or after the ten yields. -/
def cashier (S : Setup) : ClerkId → ClerkPos → Data → Option (Data × Effect × ClerkPos) :=
  clerk (fun a p d =>
    match p with
    | .lineUnlocked bribe => some (d, waitForClerk a, .waited bribe)
    | .waited true => some (d, .call (.acquire moneyLock), .moneyLock true)
    | .waited false => some (d, .call .yield, .working false 1)
    | .working bribe n =>
        if n < 10 then some (d, .call .yield, .working bribe (n + 1))
        else if bribe then
          some (d.modifyCustomer (d.clerk a).toFile (fun u => { u with paid := true }),
            signalClerk a, .filed)
        else some (d, .call (.acquire moneyLock), .moneyLock false)
    | .moneyLock bribe =>
        some (d.addMoney a 100, .call (.release moneyLock), .moneyUnlocked bribe)
    | .moneyUnlocked true => some (d, .call .yield, .working true 1)
    | .moneyUnlocked false =>
        some (d.modifyCustomer (d.clerk a).toFile (fun u => { u with paid := true }),
          signalClerk a, .filed)
    | .filed =>
        if S.choice = 3 then some (d, .call (.acquire passPortLock), .passPortLock)
        else some (d, waitForClerk a, .left)
    | .passPortLock =>
        some ({ d with numPassports := d.numPassports + 1 }, .call (.release passPortLock),
          .passPortUnlocked)
    | .passPortUnlocked => some (d, waitForClerk a, .left)
    | _ => none)

/-- The code of a clerk. -/
def run (S : Setup) (a : ClerkId) : ClerkPos → Data → Option (Data × Effect × ClerkPos) :=
  match a.1 with
  | .app => applicationClerk a
  | .pic => pictureClerk a
  | .pass => passportClerk a
  | .cashier => cashier S a

/-! ### The manager -/

/-- Whether the manager wakes a clerk. -/
def Purpose.wakes (d : Data) (a : ClerkId) : Purpose → Bool
  | .checkLines _ =>
      (d.clerk a).state = .break ∧ (d.clerk a).lineCount > (if a.1 = .app then 2 else 3)
  | .checkClose => (d.clerk a).lineCount > 0

/-- The rest of `ManagerCheckLines`, and the yield after it. -/
def managerCheckLines (k : ℕ) (rest : List ClerkId) (d : Data) : Data × Effect × ManagerPos :=
  match rest.dropWhile (fun a => !(Purpose.checkLines k).wakes d a) with
  | a :: rest => (d, .call (.acquire (clerkLock a)), .clerkLock (.checkLines k) a rest)
  | [] => (d, .call .yield, .yielded k 1)

/-- The rest of the loops in `ManagerCheckClose` that wake clerks, after which the manager begins
again. -/
def managerWakeClerks (S : Setup) (rest : List ClerkId) (d : Data) : Data × Effect × ManagerPos :=
  match rest.dropWhile (fun a => !Purpose.checkClose.wakes d a) with
  | a :: rest => (d, .call (.acquire (clerkLock a)), .clerkLock .checkClose a rest)
  | [] => managerCheckLines 0 S.clerks d

/-- What the manager does when a clerk has been woken. -/
def Purpose.goOn (S : Setup) (rest : List ClerkId) (d : Data) :
    Purpose → Data × Effect × ManagerPos
  | .checkLines k => managerCheckLines k rest d
  | .checkClose => managerWakeClerks S rest d

/-- The money of a clerk is counted. -/
def Data.count (d : Data) (a : ClerkId) : Data :=
  { d.addMoney a (-(d.clerk a).money) with
    counted := Function.update d.counted a.1 (d.counted a.1 + (d.clerk a).money) }

/-- The loops of `ManagerCountMoney`. -/
def managerCountMoney (S : Setup) (d : Data) : Data := S.clerks.foldl Data.count d

def Data.total (d : Data) : ℤ :=
  d.counted .app + d.counted .pic + d.counted .pass + d.counted .cashier

/-- The loop over the customers in `ManagerCheckClose`, which computes `doneFlag` and
`allHereFlag`. -/
def checkCustomers : List CustomerData → Bool × Bool
  | [] => (true, true)
  | u :: us =>
      if !u.arrived then (false, false)
      else if !u.social || !u.picture || !u.passport || !u.paid then (false, true)
      else checkCustomers us

def checkClose (S : Setup) (d : Data) : Bool × Bool :=
  checkCustomers ((List.range S.numCustomers).map (fun c : ℕ => d.customerData c))

def manager (S : Setup) : ManagerPos → Data → Option (Data × Effect × ManagerPos)
  | .start, d => some (managerCheckLines 0 S.clerks d)
  | .clerkLock p a rest, d => some (d, signalClerk a, .signalled p a rest)
  | .signalled p a rest, d => some (d, .call (.release (clerkLock a)), .released p rest)
  | .released p rest, d => some (p.goOn S rest d)
  | .yielded k i, d =>
      if i < 70 then some (d, .call .yield, .yielded k (i + 1))
      else if k + 1 < 60 then some (managerCheckLines (k + 1) S.clerks d)
      else some (d, .call (.acquire moneyLock), .counting)
  | .counting, d =>
      if S.choice = 6 ∧ (managerCountMoney S d).total ≠ d.totalSpent then
        some (managerCountMoney S d, .compute, .failed)
      else some (managerCountMoney S d, .call (.release moneyLock), .counted)
  | .counted, d =>
      if (checkClose S d).1 then
        if S.choice = 3 ∧ d.numPassports ≠ S.numCustomers then some (d, .compute, .failed)
        else some (if S.choice = 3 then { d with numPassports := 0 } else d, .park, .closed)
      else if (checkClose S d).2 ∧ S.clerks.all (fun a => (d.clerk a).state = .break) then
        some (managerWakeClerks S S.clerks d)
      else some (managerCheckLines 0 S.clerks d)
  | .closed, _ => none
  | .failed, _ => none

/-! ### The threads together -/

/-- The threads that `system_test` forks. -/
def Setup.threads (S : Setup) : List Thread :=
  .manager :: S.clerks.map .clerk ++ (List.range S.numCustomers).map .customer

/-- One step of a thread. What is random is given. -/
def next (S : Setup) (random : Bool) (d : Data) : Pos → Option (Data × Effect × Pos)
  | .main (t :: ts) =>
      if random then some (d, .call .yield, .main (t :: ts)) else some (d, .wake t.id, .main ts)
  | .main [] => some (d, .park, .main [])
  | .manager p => (manager S p d).map (fun (d, e, p) => (d, e, .manager p))
  | .clerk a p => (run S a p d).map (fun (d, e, p) => (d, e, .clerk a p))
  | .customer c p => (customer S c p d random).map (fun (d, e, p) => (d, e, .customer c p))

def code (S : Setup) : Code Data Pos Bool where
  next _ p d random := next S random d p
  masked _ := false
  interrupt _ _ := none

/-- Where a thread is when it is forked. -/
def Pos.start (S : Setup) : Thread → Pos
  | .main => .main S.threads
  | .manager => .manager .start
  | .clerk a => .clerk a .top
  | .customer c => .customer c .start

def initial (S : Setup) : Exec Data Pos :=
  ⟨Kernel.initial Thread.main.id [], [Thread.main.id], Data.initial S,
    fun t => Pos.start S (Thread.ofId t)⟩

end Nachos.Simulation
