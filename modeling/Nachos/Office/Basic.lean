import Mathlib.Algebra.Order.Ring.Int
import Nachos.Library.Programs

/-!
# The passport office

The programs of the distributed passport office share the locks, the condition variables and the
monitor variables that `Setup` creates at a server (`test/setup.h`). Creating them again finds the
ones that exist, so they are there from the beginning.
-/

namespace Nachos.Office

def NUM_CUSTOMERS : ℕ := 7

def NUM_APPCLERKS : ℕ := 3

def NUM_PICCLERKS : ℕ := 3

def NUM_PASSCLERKS : ℕ := 3

def NUM_CASHIERS : ℕ := 3

def NUM_SENATORS : ℕ := 1

/-- The kinds of clerks. -/
inductive Kind where
  | app
  | pic
  | pass
  | cashier
deriving DecidableEq

/-- The number of clerks of a kind. -/
def numClerks : Kind → ℕ
  | .app => NUM_APPCLERKS
  | .pic => NUM_PICCLERKS
  | .pass => NUM_PASSCLERKS
  | .cashier => NUM_CASHIERS

/-- The processes, in the order in which they are started. -/
inductive Process where
  | customer (n : ℕ)
  | senator (n : ℕ)
  | clerk (K : Kind) (n : ℕ)
  | manager
deriving DecidableEq

/-- The locks. The lock `indexLock K` is `appLock`, `picLock`, `passLock` or `cashLock`, and
`clerkLock K i` is `appClerkMutex[i].clerkLock` for instance. -/
inductive LockName where
  | custLock
  | senLock
  | indexLock (K : Kind)
  | lineLock
  | moneyLock
  | senatorLock
  | outsideLock
  | outputLock
  | clerkLock (K : Kind) (i : ℤ)
deriving DecidableEq

inductive ConditionName where
  | senatorCV
  | customerCV
  | lineCV (K : Kind) (i : ℤ)
  | bribeLineCV (K : Kind) (i : ℤ)
  | senatorLineCV (K : Kind) (i : ℤ)
  | clerkCV (K : Kind) (i : ℤ)
deriving DecidableEq

/-- The monitor variables. For instance `clerkState K` is `appClerkState`, `picClerkState`,
`passClerkState` or `cashierState`. -/
inductive Variable where
  | customerIndex
  | senatorIndex
  | clerkIndex (K : Kind)
  | senatorFlag
  | doneFlag
  | customerMoney
  | customerArrived
  | customerOutside
  | customerSocial
  | customerPicture
  | customerPassport
  | customerPaid
  | senatorMoney
  | senatorArrived
  | senatorSocial
  | senatorPicture
  | senatorPassport
  | senatorPaid
  | clerkMoney (K : Kind)
  | clerkLineCount (K : Kind)
  | clerkBLineCount (K : Kind)
  | clerkToFile (K : Kind)
  | clerkSenInLine (K : Kind)
  | clerkState (K : Kind)
  | picClerkPicLiked
deriving DecidableEq

def numElements : Variable → ℕ
  | .customerIndex | .senatorIndex | .clerkIndex _ | .senatorFlag | .doneFlag => 1
  | .customerMoney | .customerArrived | .customerOutside | .customerSocial | .customerPicture
  | .customerPassport | .customerPaid => NUM_CUSTOMERS
  | .senatorMoney | .senatorArrived | .senatorSocial | .senatorPicture | .senatorPassport
  | .senatorPaid => NUM_SENATORS
  | .clerkMoney K | .clerkLineCount K | .clerkBLineCount K | .clerkToFile K | .clerkSenInLine K
  | .clerkState K => numClerks K
  | .picClerkPicLiked => NUM_PICCLERKS

/-- A request to the server. -/
inductive Request where
  | acquire (lock : LockName)
  | release (lock : LockName)
  | wait (condition : ConditionName) (lock : LockName)
  | signal (condition : ConditionName) (lock : LockName)
  | broadcast (condition : ConditionName) (lock : LockName)
  | setMV (mv : Variable) (position value : ℤ)
  | getMV (mv : Variable) (position : ℤ)
deriving DecidableEq

/-- Where a program goes on when it comes to the beginning of a loop. -/
inductive Label where
  /-- The loop of `goToAppClerk` and the like. -/
  | line (K : Kind) (id : ℤ)
  /-- The second loop of `goToPicClerk`. -/
  | picture (id myLine : ℤ)
  /-- The loop of `senGoToPic`. -/
  | senPicture (id : ℤ)
  /-- The loop of `appClerkRun` and the like. -/
  | run (K : Kind) (id : ℤ)
  /-- The loop of `picClerkInteract`. -/
  | photo (id custID : ℤ) (sen : Bool)
  /-- The loop of the manager, with the totals it has counted. -/
  | manage (appMoney picMoney passMoney cashMoney : ℤ)
  /-- The program has called `Exit`. -/
  | exit

/-- A program of the passport office. -/
abbrev Program (α : Type) := Prog Request ℤ α

/-! ### System calls -/

def acquire (lock : LockName) : Program Unit := do
  let _ ← Prog.request (.acquire lock)

def release (lock : LockName) : Program Unit := do
  let _ ← Prog.request (.release lock)

def wait (condition : ConditionName) (lock : LockName) : Program Unit := do
  let _ ← Prog.request (.wait condition lock)

def signal (condition : ConditionName) (lock : LockName) : Program Unit := do
  let _ ← Prog.request (.signal condition lock)

def broadcast (condition : ConditionName) (lock : LockName) : Program Unit := do
  let _ ← Prog.request (.broadcast condition lock)

def setMV (mv : Variable) (position value : ℤ) : Program Unit := do
  let _ ← Prog.request (.setMV mv position value)

def getMV (mv : Variable) (position : ℤ) : Program ℤ :=
  Prog.request (.getMV mv position)

/-- Something is printed. What it is does not matter. -/
def output : Program Unit := do
  acquire .outputLock
  release .outputLock

end Nachos.Office
