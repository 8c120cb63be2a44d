import Mathlib.Tactic.Common
import Nachos.Office.Programs

/-!
# The phases of the processes

A process is always in a phase: the number it has, the locks it holds, the line or counter it is at.
A request takes it to the next phase (`next`), and in a phase only the requests that belong to it are
made. All programs keep to that (`keeps_code`).

While a process waits for the reply to a request, it is in the phase to which the request leads.
-/

namespace Nachos.Office

/-- What a process is doing. `id` is the number of a customer or senator, `i` that of a clerk. -/
inductive Phase where
  /-- It has no number, then the lock of the index, then it has read the index, then it has set it. -/
  | fresh
  | indexing
  | indexed (id : ℤ)
  | numbered (id : ℤ)
  /-- It holds no lock. A customer that is `rich` has got its money. -/
  | roaming (id : ℤ) (rich : Bool)
  | outside (id : ℤ) (rich : Bool)
  /-- A customer holds `lineLock`, and `money` is the amount it has read, if it has. -/
  | choosing (id : ℤ) (money : Option ℤ)
  /-- It has paid a bribe, then has `moneyLock`, then has read the money of the clerk, then has set it. -/
  | debited (id : ℤ)
  | crediting (id : ℤ)
  | creditRead (id : ℤ) (K : Kind) (j money : ℤ)
  | credited (id : ℤ)
  /-- It waits in a line, or holds `lineLock` again but has not looked at `senatorFlag`. -/
  | lined (id : ℤ) (K : Kind) (i : ℤ)
  | sentAway (id : ℤ)
  | passed (id : ℤ) (K : Kind) (i : ℤ)
  /-- It has asked for the clerk's lock, then has released `lineLock`, and so on. -/
  | arrived (id : ℤ) (K : Kind) (i : ℤ)
  | atCounter (id : ℤ) (K : Kind) (i : ℤ)
  | given (id : ℤ) (K : Kind) (i : ℤ)
  | signalled (id : ℤ) (K : Kind) (i : ℤ)
  | paying (id i money : ℤ)
  | paid (id i : ℤ)
  | served (id : ℤ) (K : Kind) (i : ℤ)
  | goodbye (id : ℤ) (K : Kind) (i : ℤ)
  | posing (id i : ℤ)
  /-- A senator has `senatorLock`, then has set `senatorFlag`, then has `outsideLock`, then waits for
  the manager or comes in. -/
  | flagging (id : ℤ)
  | raised (id : ℤ)
  | atDoor (id : ℤ)
  | entered (id : ℤ)
  | visiting (id : ℤ)
  | lining (id : ℤ)
  | summoned (id : ℤ) (K : Kind) (i : ℤ)
  | exiting (id : ℤ)
  | dismissed (id : ℤ)
  | emptied (id : ℤ)
  | lowered (id : ℤ)
  | gone (id : ℤ)
  /-- It holds the lock for the output, in one of the other phases. -/
  | printing (φ : Phase)
  /-- A clerk in its loop, then with `lineLock`, then when it has signalled a line. -/
  | free (K : Kind) (i : ℤ)
  | looking (K : Kind) (i : ℤ)
  | called (K : Kind) (i : ℤ)
  /-- It has asked for its lock, then has released `lineLock`, then waits for a number. -/
  | ready (K : Kind) (i : ℤ)
  | listening (K : Kind) (i : ℤ)
  | awaiting (K : Kind) (i : ℤ)
  | filing (K : Kind) (i custID : ℤ)
  | filed (K : Kind) (i : ℤ)
  /-- A cashier has `moneyLock`, then has read its money, then has set it, then has released the lock. -/
  | charging (i : ℤ)
  | chargeRead (i money : ℤ)
  | charged (i : ℤ)
  | accounted (i : ℤ)
  /-- It has signalled the visitor, then waits until the visitor leaves. -/
  | done (K : Kind) (i : ℤ)
  | parting (K : Kind) (i : ℤ)
  | developing (i : ℤ)
  /-- It goes on break: it has released `lineLock`, then has asked for its lock, then waits. -/
  | retiring (K : Kind) (i : ℤ)
  | resting (K : Kind) (i : ℤ)
  | asleep (K : Kind) (i : ℤ)
  /-- The manager, which has counted a total. -/
  | managing (total : ℤ)
  | waking (total : ℤ) (K : Kind) (i : ℤ)
  | atEntrance (total : ℤ)
  | counting (total : ℤ)
  /-- It has added an element of the money of the clerks, but has not set it to 0. -/
  | collected (total : ℤ) (K : Kind) (j money : ℤ)
deriving DecidableEq

/-- The lock that is needed to signal a condition variable or to wait on it. -/
def lockOf : ConditionName → LockName
  | .senatorCV | .customerCV => .outsideLock
  | .lineCV _ _ | .bribeLineCV _ _ | .senatorLineCV _ _ => .lineLock
  | .clerkCV K i => .clerkLock K i

/-- The lock that a process needs to get its number. -/
def indexLock : Process → LockName
  | .customer _ => .custLock
  | .senator _ => .senLock
  | .clerk K _ => .indexLock K
  | .manager => .custLock

/-- The monitor variable from which a process gets its number. -/
def indexOf : Process → Variable
  | .customer _ => .customerIndex
  | .senator _ => .senatorIndex
  | .clerk K _ => .clerkIndex K
  | .manager => .doneFlag

/-- The money of a customer or senator. -/
def moneyOf : Process → Variable
  | .senator _ => .senatorMoney
  | _ => .customerMoney

/-- The phase in which a process is started. -/
def Phase.first : Process → Phase
  | .manager => .managing 0
  | _ => .fresh

/-- The phase of a process that gets the number `id`. -/
def Phase.start (id : ℤ) : Process → Phase
  | .clerk K _ => .free K id
  | _ => .roaming id false

/-- The phase of a visitor that leaves a counter. -/
def Phase.back (id : ℤ) : Process → Phase
  | .senator _ => .visiting id
  | _ => .roaming id true

def isSenator : Process → Bool
  | .senator _ => true
  | _ => false

/-- The variables in which clerks of a kind file the number of a visitor. -/
def files : Kind → Variable → Bool
  | .app, .customerSocial | .app, .senatorSocial => true
  | .pass, .customerPassport | .pass, .senatorPassport => true
  | .cashier, .customerPaid | .cashier, .senatorPaid => true
  | _, _ => false

/-! ### The next phase -/

/-- The phase `φ` is the next one if the request is the right one. -/
def Phase.when (right : Prop) [Decidable right] (φ : Phase) : Option Phase :=
  if right then some φ else none

@[simp]
theorem Phase.when_eq_some {right : Prop} [Decidable right] {φ φ' : Phase} :
  φ.when right = some φ' ↔ right ∧ φ = φ'
  := by simp [Phase.when]

def onAcquire (p : Process) (φ : Phase) (l : LockName) : Option Phase :=
  match φ with
  | .fresh => Phase.indexing.when (l = indexLock p)
  | .roaming id rich =>
      match l with
      | .lineLock => (Phase.choosing id none).when rich
      | .outsideLock => some (.outside id rich)
      | .senatorLock => (Phase.flagging id).when (isSenator p ∧ ¬ rich)
      | _ => none
  | .visiting id =>
      match l with
      | .lineLock => some (.lining id)
      | .outsideLock => some (.exiting id)
      | _ => none
  | .managing t =>
      match l with
      | .moneyLock => some (.counting t)
      | .outsideLock => some (.atEntrance t)
      | .clerkLock K i => some (.waking t K i)
      | _ => none
  | .debited id => (Phase.crediting id).when (l = .moneyLock)
  | .passed id K i => (Phase.arrived id K i).when (isSenator p = false ∧ l = .clerkLock K i)
  | .summoned id K i => (Phase.arrived id K i).when (isSenator p = true ∧ l = .clerkLock K i)
  | .raised id => (Phase.atDoor id).when (l = .outsideLock)
  | .free K i => (Phase.looking K i).when (l = .lineLock)
  | .called K i => (Phase.ready K i).when (l = .clerkLock K i)
  | .retiring K i => (Phase.resting K i).when (l = .clerkLock K i)
  | .filed K i => (Phase.charging i).when (K = .cashier ∧ l = .moneyLock)
  | _ => none

def onRelease (p : Process) (φ : Phase) (l : LockName) : Option Phase :=
  match φ with
  | .numbered id => (Phase.start id p).when (l = indexLock p)
  | .outside id rich => (Phase.roaming id rich).when (l = .outsideLock)
  | .sentAway id => (Phase.roaming id true).when (l = .lineLock)
  | .credited id => (Phase.choosing id none).when (l = .moneyLock)
  | .arrived id K i => (Phase.atCounter id K i).when (l = .lineLock)
  | .goodbye id K i => (Phase.back id p).when (l = .clerkLock K i)
  | .posing id i => (Phase.back id p).when (l = .clerkLock .pic i)
  | .entered id => (Phase.visiting id).when (l = .outsideLock)
  | .dismissed id => (Phase.emptied id).when (l = .outsideLock)
  | .lowered id => (Phase.gone id).when (l = .senatorLock)
  | .looking K i => (Phase.retiring K i).when (l = .lineLock)
  | .ready K i => (Phase.listening K i).when (l = .lineLock)
  | .charged i => (Phase.accounted i).when (l = .moneyLock)
  | .parting K i | .asleep K i => (Phase.free K i).when (l = .clerkLock K i)
  | .developing i => (Phase.free .pic i).when (l = .clerkLock .pic i)
  | .waking t K i => (Phase.managing t).when (l = .clerkLock K i)
  | .atEntrance t => (Phase.managing t).when (l = .outsideLock)
  | .counting t => (Phase.managing t).when (l = .moneyLock)
  | _ => none

def onWait (φ : Phase) (c : ConditionName) : Option Phase :=
  match φ with
  | .outside id rich => (Phase.outside id rich).when (c = .senatorCV)
  | .choosing id _ =>
      match c with
      | .lineCV K i | .bribeLineCV K i => some (.lined id K i)
      | _ => none
  | .lining id =>
      match c with
      | .senatorLineCV K i => some (.summoned id K i)
      | _ => none
  | .signalled id K i => (Phase.served id K i).when (K ≠ .cashier ∧ c = .clerkCV K i)
  | .paid id i => (Phase.served id .cashier i).when (c = .clerkCV .cashier i)
  | .posing id i => (Phase.posing id i).when (c = .clerkCV .pic i)
  | .atDoor id => (Phase.entered id).when (c = .customerCV)
  | .listening K i => (Phase.awaiting K i).when (c = .clerkCV K i)
  | .done K i => (Phase.parting K i).when (c = .clerkCV K i)
  | .developing i => (Phase.developing i).when (c = .clerkCV .pic i)
  | .resting K i => (Phase.asleep K i).when (c = .clerkCV K i)
  | _ => none

def onSignal (φ : Phase) (c : ConditionName) : Option Phase :=
  match φ with
  | .given id K i =>
      (if K = .pic then Phase.posing id i else .signalled id K i).when (c = .clerkCV K i)
  | .served id K i => (Phase.goodbye id K i).when (c = .clerkCV K i)
  | .posing id i => (Phase.posing id i).when (c = .clerkCV .pic i)
  | .looking K i =>
      (Phase.called K i).when (c = .lineCV K i ∨ c = .bribeLineCV K i ∨ c = .senatorLineCV K i)
  | .filed K i => (Phase.done K i).when (K ≠ .cashier ∧ c = .clerkCV K i)
  | .accounted i => (Phase.done .cashier i).when (c = .clerkCV .cashier i)
  | .developing i => (Phase.developing i).when (c = .clerkCV .pic i)
  | .waking t K i => (Phase.waking t K i).when (c = .clerkCV K i)
  | .atEntrance t => (Phase.atEntrance t).when (c = .customerCV)
  | _ => none

def onBroadcast (φ : Phase) (c : ConditionName) : Option Phase :=
  match φ with
  | .exiting id => (Phase.dismissed id).when (c = .senatorCV)
  | .looking K i => (Phase.looking K i).when (c = .lineCV K i ∨ c = .bribeLineCV K i)
  | _ => none

/-- The variables that are set in certain phases only. -/
def guarded : Variable → Bool
  | .customerIndex | .senatorIndex | .clerkIndex _ | .senatorFlag | .customerMoney | .senatorMoney
  | .clerkMoney _ | .clerkToFile _ | .customerSocial | .senatorSocial | .customerPassport
  | .senatorPassport | .customerPaid | .senatorPaid => true
  | _ => false

def onSet (p : Process) (φ : Phase) (mv : Variable) (position value : ℤ) : Option Phase :=
  match φ with
  | .indexed id => (Phase.numbered id).when (mv = indexOf p ∧ position = 0 ∧ value = id + 1)
  | .flagging id => (Phase.raised id).when (mv = .senatorFlag ∧ position = 0 ∧ value = 1)
  | .emptied id => (Phase.lowered id).when (mv = .senatorFlag ∧ position = 0 ∧ value = 0)
  | .roaming id rich =>
      if guarded mv then
        (Phase.roaming id true).when
          (isSenator p = false ∧ ¬ rich ∧ mv = .customerMoney ∧ position = id ∧ value = 60)
      else some (.roaming id rich)
  | .choosing id money =>
      if guarded mv then
        (Phase.debited id).when
          (mv = .customerMoney ∧ position = id ∧ money = some (value + 50))
      else some (.choosing id money)
  | .creditRead id K j money =>
      (Phase.credited id).when (mv = .clerkMoney K ∧ position = j ∧ value = money + 50)
  | .chargeRead i money =>
      (Phase.charged i).when (mv = .clerkMoney .cashier ∧ position = i ∧ value = money + 10)
  | .collected t K j _ => (Phase.counting t).when (mv = .clerkMoney K ∧ position = j ∧ value = 0)
  | .paying id i money =>
      (Phase.paid id i).when (mv = moneyOf p ∧ position = id ∧ value = money - 10)
  | .atCounter id K i =>
      (Phase.given id K i).when (mv = .clerkToFile K ∧ position = i ∧ value = id)
  | .filing K i custID => (Phase.filed K i).when (files K mv ∧ position = custID ∧ value = 1)
  | φ => φ.when (guarded mv = false)

/-- The variables that are read in certain phases only. -/
def watched : Variable → Bool
  | .customerIndex | .senatorIndex | .clerkIndex _ | .customerMoney | .senatorMoney | .clerkMoney _
  | .clerkToFile _ => true
  | _ => false

def onGet (p : Process) (φ : Phase) (mv : Variable) (position value : ℤ) : Option Phase :=
  match φ with
  | .indexing => (Phase.indexed value).when (mv = indexOf p ∧ position = 0)
  | .lined id K i =>
      if mv = .senatorFlag then
        (if value = 1 then Phase.sentAway id else .passed id K i).when (position = 0)
      else (Phase.lined id K i).when (watched mv = false)
  | .choosing id money =>
      if watched mv then
        (Phase.choosing id (some value)).when (mv = .customerMoney ∧ position = id)
      else some (.choosing id money)
  | .signalled id K i =>
      if watched mv then
        (Phase.paying id i value).when (K = .cashier ∧ mv = moneyOf p ∧ position = id)
      else some (.signalled id K i)
  | .crediting id =>
      match mv with
      | .clerkMoney K =>
          (Phase.creditRead id K position value).when
            (K = .cashier ∨ 0 ≤ position ∧ position < numClerks K)
      | _ => none
  | .charging i =>
      (Phase.chargeRead i value).when (mv = .clerkMoney .cashier ∧ position = i)
  | .counting t =>
      match mv with
      | .clerkMoney K =>
          (Phase.collected (t + value) K position value).when
            (0 ≤ position ∧ position < numClerks K)
      | _ => none
  | .awaiting K i =>
      (if K = .pic then Phase.developing i else .filing K i value).when
        (mv = .clerkToFile K ∧ position = i)
  | φ => φ.when (watched mv = false)

def Phase.isPrinting : Phase → Bool
  | .printing _ => true
  | _ => false

def Phase.afterPrinting : Phase → Option Phase
  | .printing φ => φ.when (φ.isPrinting = false)
  | _ => none

/-- The phase of the process `p` after a request. -/
def next (p : Process) (φ : Phase) : Request → ℤ → Option Phase
  | .acquire l, _ =>
      if l = .outputLock then (Phase.printing φ).when (φ.isPrinting = false) else onAcquire p φ l
  | .release l, _ => if l = .outputLock then φ.afterPrinting else onRelease p φ l
  | .wait c l, _ => if l = lockOf c then onWait φ c else none
  | .signal c l, _ => if l = lockOf c then onSignal φ c else none
  | .broadcast c l, _ => if l = lockOf c then onBroadcast φ c else none
  | .setMV mv position value, _ => onSet p φ mv position value
  | .getMV mv position, v => onGet p φ mv position v

/-- What holds of every kind of request holds of all requests. -/
theorem next_cases {p : Process} {M : Phase → Request → ℤ → Phase → Prop}
    (hprinting : ∀ φ v, φ.isPrinting = false → M φ (.acquire .outputLock) v (.printing φ))
    (hprinted : ∀ φ v, φ.isPrinting = false → M (.printing φ) (.release .outputLock) v φ)
    (hacquire : ∀ φ l v φ', onAcquire p φ l = some φ' → M φ (.acquire l) v φ')
    (hrelease : ∀ φ l v φ', onRelease p φ l = some φ' → M φ (.release l) v φ')
    (hwait : ∀ φ c v φ', onWait φ c = some φ' → M φ (.wait c (lockOf c)) v φ')
    (hsignal : ∀ φ c v φ', onSignal φ c = some φ' → M φ (.signal c (lockOf c)) v φ')
    (hbroadcast : ∀ φ c v φ', onBroadcast φ c = some φ' → M φ (.broadcast c (lockOf c)) v φ')
    (hset : ∀ φ mv position value v φ', onSet p φ mv position value = some φ' →
      M φ (.setMV mv position value) v φ')
    (hget : ∀ φ mv position v φ', onGet p φ mv position v = some φ' → M φ (.getMV mv position) v φ')
    {φ φ' : Phase} {r : Request} {v : ℤ} (h : next p φ r v = some φ') :
  M φ r v φ'
  := by
  cases r with
  | acquire l =>
      rw [next] at h
      split at h
      · rename_i hl
        obtain ⟨hφ, rfl⟩ := Phase.when_eq_some.mp h
        rw [hl]
        exact hprinting φ v hφ
      · exact hacquire φ l v φ' h
  | release l =>
      rw [next] at h
      split at h
      · rename_i hl
        rw [hl]
        cases φ with
        | printing ψ =>
            obtain ⟨hψ, rfl⟩ := Phase.when_eq_some.mp h
            exact hprinted ψ v hψ
        | _ => cases h
      · exact hrelease φ l v φ' h
  | wait c l =>
      obtain ⟨rfl, hnext⟩ := Option.ite_none_right_eq_some.mp h
      exact hwait φ c v φ' hnext
  | signal c l =>
      obtain ⟨rfl, hnext⟩ := Option.ite_none_right_eq_some.mp h
      exact hsignal φ c v φ' hnext
  | broadcast c l =>
      obtain ⟨rfl, hnext⟩ := Option.ite_none_right_eq_some.mp h
      exact hbroadcast φ c v φ' hnext
  | setMV mv position value => exact hset φ mv position value v φ' h
  | getMV mv position => exact hget φ mv position v φ' h

end Nachos.Office
