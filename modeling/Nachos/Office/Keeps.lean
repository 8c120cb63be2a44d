import Mathlib.Tactic.Common
import Nachos.Office.Phases

/-!
# The programs keep to the phases

Whatever the server replies, the requests of a program are allowed in the phase in which the process
is (`keeps_code`).
-/

namespace Nachos.Office

open Prog

/-- The phases in which a program ends, or is not started. -/
def Phase.idle : Phase → Bool
  | .fresh | .roaming _ _ | .gone _ | .free _ _ | .managing _ => true
  | _ => false

/-- Where a program goes on in a phase. -/
def Good : Process → Label → Phase → Prop
  | _, .exit, φ => φ.idle
  | .customer _, .line _ id, φ => φ = .roaming id true
  | .customer _, .picture id i, φ => φ = .given id .pic i ∨ φ = .posing id i
  | .senator _, .senPicture id, φ => φ = .given id .pic 0 ∨ φ = .posing id 0
  | .clerk K _, .run K' i, φ => K' = K ∧ φ = .free K i
  | .clerk K _, .photo i _ _, φ => K = .pic ∧ φ = .developing i
  | .manager, .manage appMoney picMoney passMoney cashMoney, φ =>
      φ = .managing (appMoney + picMoney + passMoney + cashMoney)
  | _, _, _ => False

/-! ### Transitions -/

section

@[simp]
theorem acquires :
  (∀ p, onAcquire p .fresh (indexLock p) = some .indexing) ∧
    (∀ p id, onAcquire p (.roaming id true) .lineLock = some (.choosing id none)) ∧
    (∀ p id rich, onAcquire p (.roaming id rich) .outsideLock = some (.outside id rich)) ∧
    (∀ id n, onAcquire (.senator n) (.roaming id false) .senatorLock = some (.flagging id)) ∧
    (∀ p id, onAcquire p (.visiting id) .lineLock = some (.lining id)) ∧
    (∀ p id, onAcquire p (.visiting id) .outsideLock = some (.exiting id)) ∧
    (∀ p t, onAcquire p (.managing t) .moneyLock = some (.counting t)) ∧
    (∀ p t, onAcquire p (.managing t) .outsideLock = some (.atEntrance t)) ∧
    (∀ p K i t, onAcquire p (.managing t) (.clerkLock K i) = some (.waking t K i)) ∧
    (∀ p id, onAcquire p (.debited id) .moneyLock = some (.crediting id)) ∧
    (∀ K id i n, onAcquire (.customer n) (.passed id K i) (.clerkLock K i) = some (.arrived id K i)) ∧
    (∀ K id i n, onAcquire (.senator n) (.summoned id K i) (.clerkLock K i) = some (.arrived id K i)) ∧
    (∀ p id, onAcquire p (.raised id) .outsideLock = some (.atDoor id)) ∧
    (∀ p K i, onAcquire p (.free K i) .lineLock = some (.looking K i)) ∧
    (∀ p K i, onAcquire p (.called K i) (.clerkLock K i) = some (.ready K i)) ∧
    (∀ p K i, onAcquire p (.retiring K i) (.clerkLock K i) = some (.resting K i)) ∧
    (∀ p i, onAcquire p (.filed .cashier i) .moneyLock = some (.charging i))
  := by simp [onAcquire, isSenator]

@[simp]
theorem releases :
  (∀ p id, onRelease p (.numbered id) (indexLock p) = some (.start id p)) ∧
    (∀ p id rich, onRelease p (.outside id rich) .outsideLock = some (.roaming id rich)) ∧
    (∀ p id, onRelease p (.sentAway id) .lineLock = some (.roaming id true)) ∧
    (∀ p id, onRelease p (.credited id) .moneyLock = some (.choosing id none)) ∧
    (∀ p K id i, onRelease p (.arrived id K i) .lineLock = some (.atCounter id K i)) ∧
    (∀ p K id i, onRelease p (.goodbye id K i) (.clerkLock K i) = some (.back id p)) ∧
    (∀ p id i, onRelease p (.posing id i) (.clerkLock .pic i) = some (.back id p)) ∧
    (∀ p id, onRelease p (.entered id) .outsideLock = some (.visiting id)) ∧
    (∀ p id, onRelease p (.dismissed id) .outsideLock = some (.emptied id)) ∧
    (∀ p id, onRelease p (.lowered id) .senatorLock = some (.gone id)) ∧
    (∀ p K i, onRelease p (.looking K i) .lineLock = some (.retiring K i)) ∧
    (∀ p K i, onRelease p (.ready K i) .lineLock = some (.listening K i)) ∧
    (∀ p i, onRelease p (.charged i) .moneyLock = some (.accounted i)) ∧
    (∀ p K i, onRelease p (.parting K i) (.clerkLock K i) = some (.free K i)) ∧
    (∀ p K i, onRelease p (.asleep K i) (.clerkLock K i) = some (.free K i)) ∧
    (∀ p i, onRelease p (.developing i) (.clerkLock .pic i) = some (.free .pic i)) ∧
    (∀ p K i t, onRelease p (.waking t K i) (.clerkLock K i) = some (.managing t)) ∧
    (∀ p t, onRelease p (.atEntrance t) .outsideLock = some (.managing t)) ∧
    (∀ p t, onRelease p (.counting t) .moneyLock = some (.managing t))
  := by simp [onRelease]

@[simp]
theorem waits :
  (∀ id rich, onWait (.outside id rich) .senatorCV = some (.outside id rich)) ∧
    (∀ K id i m, onWait (.choosing id m) (.lineCV K i) = some (.lined id K i)) ∧
    (∀ K id i m, onWait (.choosing id m) (.bribeLineCV K i) = some (.lined id K i)) ∧
    (∀ K id i, onWait (.lining id) (.senatorLineCV K i) = some (.summoned id K i)) ∧
    (∀ id i, onWait (.signalled id .app i) (.clerkCV .app i) = some (.served id .app i)) ∧
    (∀ id i, onWait (.signalled id .pass i) (.clerkCV .pass i) = some (.served id .pass i)) ∧
    (∀ id i, onWait (.paid id i) (.clerkCV .cashier i) = some (.served id .cashier i)) ∧
    (∀ id i, onWait (.posing id i) (.clerkCV .pic i) = some (.posing id i)) ∧
    (∀ id, onWait (.atDoor id) .customerCV = some (.entered id)) ∧
    (∀ K i, onWait (.listening K i) (.clerkCV K i) = some (.awaiting K i)) ∧
    (∀ K i, onWait (.done K i) (.clerkCV K i) = some (.parting K i)) ∧
    (∀ i, onWait (.developing i) (.clerkCV .pic i) = some (.developing i)) ∧
    (∀ K i, onWait (.resting K i) (.clerkCV K i) = some (.asleep K i))
  := by simp [onWait]

@[simp]
theorem signals :
  (∀ id i, onSignal (.given id .pic i) (.clerkCV .pic i) = some (.posing id i)) ∧
    (∀ id i, onSignal (.given id .app i) (.clerkCV .app i) = some (.signalled id .app i)) ∧
    (∀ id i, onSignal (.given id .pass i) (.clerkCV .pass i) = some (.signalled id .pass i)) ∧
    (∀ id i, onSignal (.given id .cashier i) (.clerkCV .cashier i) = some (.signalled id .cashier i)) ∧
    (∀ K id i, onSignal (.served id K i) (.clerkCV K i) = some (.goodbye id K i)) ∧
    (∀ id i, onSignal (.posing id i) (.clerkCV .pic i) = some (.posing id i)) ∧
    (∀ K i, onSignal (.looking K i) (.lineCV K i) = some (.called K i)) ∧
    (∀ K i, onSignal (.looking K i) (.bribeLineCV K i) = some (.called K i)) ∧
    (∀ K i, onSignal (.looking K i) (.senatorLineCV K i) = some (.called K i)) ∧
    (∀ i, onSignal (.filed .app i) (.clerkCV .app i) = some (.done .app i)) ∧
    (∀ i, onSignal (.filed .pass i) (.clerkCV .pass i) = some (.done .pass i)) ∧
    (∀ i, onSignal (.accounted i) (.clerkCV .cashier i) = some (.done .cashier i)) ∧
    (∀ i, onSignal (.developing i) (.clerkCV .pic i) = some (.developing i)) ∧
    (∀ K i t, onSignal (.waking t K i) (.clerkCV K i) = some (.waking t K i)) ∧
    (∀ t, onSignal (.atEntrance t) .customerCV = some (.atEntrance t))
  := by simp [onSignal]

@[simp]
theorem broadcasts :
  (∀ id, onBroadcast (.exiting id) .senatorCV = some (.dismissed id)) ∧
    (∀ K i, onBroadcast (.looking K i) (.lineCV K i) = some (.looking K i)) ∧
    (∀ K i, onBroadcast (.looking K i) (.bribeLineCV K i) = some (.looking K i))
  := by simp [onBroadcast]

@[simp]
theorem sets :
  (∀ p id, onSet p (.indexed id) (indexOf p) 0 (id + 1) = some (.numbered id)) ∧
    (∀ p id, onSet p (.flagging id) .senatorFlag 0 1 = some (.raised id)) ∧
    (∀ p id, onSet p (.emptied id) .senatorFlag 0 0 = some (.lowered id)) ∧
    (∀ id n, onSet (.customer n) (.roaming id false) .customerMoney id 60 = some (.roaming id true)) ∧
    (∀ p id m,
      onSet p (.choosing id (some m)) .customerMoney id (m - 50) = some (.debited id)) ∧
    (∀ p K id i m, onSet p (.creditRead id K i m) (.clerkMoney K) i (m + 50) = some (.credited id)) ∧
    (∀ p i m, onSet p (.chargeRead i m) (.clerkMoney .cashier) i (m + 10) = some (.charged i)) ∧
    (∀ p K i t m, onSet p (.collected t K i m) (.clerkMoney K) i 0 = some (.counting t)) ∧
    (∀ id i m n, onSet (.customer n) (.paying id i m) .customerMoney id (m - 10) = some (.paid id i)) ∧
    (∀ id i m n, onSet (.senator n) (.paying id i m) .senatorMoney id (m - 10) = some (.paid id i)) ∧
    (∀ p K id i, onSet p (.atCounter id K i) (.clerkToFile K) i id = some (.given id K i))
  := by simp [onSet, moneyOf, guarded, isSenator]

@[simp]
theorem guarded_eq_false :
  guarded .doneFlag = false ∧ guarded .customerArrived = false ∧ guarded .customerOutside = false ∧
    guarded .customerPicture = false ∧ guarded .senatorArrived = false ∧
    guarded .senatorPicture = false ∧ guarded .picClerkPicLiked = false ∧
    (∀ K, guarded (.clerkLineCount K) = false) ∧ (∀ K, guarded (.clerkBLineCount K) = false) ∧
    (∀ K, guarded (.clerkSenInLine K) = false) ∧ (∀ K, guarded (.clerkState K) = false)
  := by simp [guarded]

@[simp]
theorem watched_eq_false :
  watched .senatorFlag = false ∧ watched .doneFlag = false ∧ watched .customerArrived = false ∧
    watched .customerOutside = false ∧ watched .customerSocial = false ∧
    watched .customerPicture = false ∧ watched .customerPassport = false ∧
    watched .customerPaid = false ∧ watched .senatorArrived = false ∧
    watched .senatorSocial = false ∧ watched .senatorPicture = false ∧
    watched .senatorPassport = false ∧ watched .senatorPaid = false ∧
    watched .picClerkPicLiked = false ∧
    (∀ K, watched (.clerkLineCount K) = false) ∧ (∀ K, watched (.clerkBLineCount K) = false) ∧
    (∀ K, watched (.clerkSenInLine K) = false) ∧ (∀ K, watched (.clerkState K) = false)
  := by simp [watched]

@[simp]
theorem files_eq_true :
  files .app .customerSocial = true ∧ files .app .senatorSocial = true ∧
    files .pass .customerPassport = true ∧ files .pass .senatorPassport = true ∧
    files .cashier .customerPaid = true ∧ files .cashier .senatorPaid = true
  := by simp [files]

@[simp]
theorem sets_files {p : Process} {K : Kind} {id i : ℤ} {mv : Variable} (h : files K mv = true) :
  onSet p (.filing K i id) mv id 1 = some (.filed K i)
  := by simp [onSet, h]

@[simp]
theorem sets_unguarded {mv : Variable} (h : guarded mv = false) :
  (∀ p id rich v x, onSet p (.roaming id rich) mv x v = some (.roaming id rich)) ∧
    (∀ p id rich v x, onSet p (.outside id rich) mv x v = some (.outside id rich)) ∧
    (∀ p id m v x, onSet p (.choosing id m) mv x v = some (.choosing id m)) ∧
    (∀ p K id i v x, onSet p (.lined id K i) mv x v = some (.lined id K i)) ∧
    (∀ p id i v x, onSet p (.posing id i) mv x v = some (.posing id i)) ∧
    (∀ p id v x, onSet p (.entered id) mv x v = some (.entered id)) ∧
    (∀ p id v x, onSet p (.lining id) mv x v = some (.lining id)) ∧
    (∀ p K id i v x, onSet p (.summoned id K i) mv x v = some (.summoned id K i)) ∧
    (∀ p K i v x, onSet p (.free K i) mv x v = some (.free K i)) ∧
    (∀ p K i v x, onSet p (.looking K i) mv x v = some (.looking K i)) ∧
    (∀ p K i v x, onSet p (.called K i) mv x v = some (.called K i)) ∧
    (∀ p K i v x, onSet p (.asleep K i) mv x v = some (.asleep K i)) ∧
    (∀ p i v x, onSet p (.developing i) mv x v = some (.developing i)) ∧
    (∀ p t v x, onSet p (.managing t) mv x v = some (.managing t))
  := by simp [onSet, h]

@[simp]
theorem gets :
  (∀ p v, onGet p .indexing (indexOf p) 0 v = some (.indexed v)) ∧
    (∀ p K id i v, onGet p (.lined id K i) .senatorFlag 0 v =
      some (if v = 1 then .sentAway id else .passed id K i)) ∧
    (∀ p id m v, onGet p (.choosing id m) .customerMoney id v = some (.choosing id (some v))) ∧
    (∀ id i n v, onGet (.customer n) (.signalled id .cashier i) .customerMoney id v =
      some (.paying id i v)) ∧
    (∀ id i n v, onGet (.senator n) (.signalled id .cashier i) .senatorMoney id v =
      some (.paying id i v)) ∧
    (∀ p id j v, onGet p (.crediting id) (.clerkMoney .cashier) j v = some (.creditRead id .cashier j v)) ∧
    (∀ p i v, onGet p (.charging i) (.clerkMoney .cashier) i v = some (.chargeRead i v)) ∧
    (∀ p i v, onGet p (.awaiting .app i) (.clerkToFile .app) i v = some (.filing .app i v)) ∧
    (∀ p i v, onGet p (.awaiting .pass i) (.clerkToFile .pass) i v = some (.filing .pass i v)) ∧
    (∀ p i v, onGet p (.awaiting .cashier i) (.clerkToFile .cashier) i v = some (.filing .cashier i v)) ∧
    (∀ p i v, onGet p (.awaiting .pic i) (.clerkToFile .pic) i v = some (.developing i))
  := by simp [onGet, watched, moneyOf]

@[simp]
theorem gets_clerkMoney {p : Process} {id v : ℤ} {K : Kind} {j : ℤ}
    (h : K = .cashier ∨ 0 ≤ j ∧ j < numClerks K) :
  onGet p (.crediting id) (.clerkMoney K) j v = some (.creditRead id K j v)
  := by simp [onGet, h]

@[simp]
theorem collects {p : Process} {t v : ℤ} {K : Kind} {j : ℤ} (hj : 0 ≤ j) (h : j < numClerks K) :
  onGet p (.counting t) (.clerkMoney K) j v = some (.collected (t + v) K j v)
  := by simp [onGet, hj, h]

@[simp]
theorem gets_unwatched {mv : Variable} (h : watched mv = false) :
  (∀ p id rich v x, onGet p (.roaming id rich) mv x v = some (.roaming id rich)) ∧
    (∀ p id m v x, onGet p (.choosing id m) mv x v = some (.choosing id m)) ∧
    (∀ p K i v x, onGet p (.free K i) mv x v = some (.free K i)) ∧
    (∀ p K i v x, onGet p (.looking K i) mv x v = some (.looking K i)) ∧
    (∀ p i v x, onGet p (.developing i) mv x v = some (.developing i)) ∧
    (∀ p t v x, onGet p (.managing t) mv x v = some (.managing t))
  := by simp [onGet, h]

@[simp]
theorem gets_in_line {mv : Variable} (h : watched mv = false) (hmv : mv ≠ .senatorFlag)
    {p : Process} {K : Kind} {id i v x : ℤ} :
  onGet p (.lined id K i) mv x v = some (.lined id K i)
  := by simp [onGet, h, hmv]

end

/-! ### System calls -/

variable {p : Process} {φ : Phase} 

section

variable {Q : Unit → Phase → Prop} 

@[simp]
theorem keeps_acquire {l : LockName} (hl : l ≠ .outputLock) :
  Keeps (next p) (acquire l) φ Q ↔ ∃ φ', onAcquire p φ l = some φ' ∧ Q () φ'
  := by
  have hnext : ∀ v, next p φ (.acquire l) v = onAcquire p φ l := fun v => if_neg hl
  constructor
  · intro h
    have h0 := h 0
    rwa [hnext] at h0
  · intro h v
    rw [hnext]
    exact h

@[simp]
theorem keeps_release {l : LockName} (hl : l ≠ .outputLock) :
  Keeps (next p) (release l) φ Q ↔ ∃ φ', onRelease p φ l = some φ' ∧ Q () φ'
  := by
  have hnext : ∀ v, next p φ (.release l) v = onRelease p φ l := fun v => if_neg hl
  constructor
  · intro h
    have h0 := h 0
    rwa [hnext] at h0
  · intro h v
    rw [hnext]
    exact h

@[simp]
theorem keeps_wait {c : ConditionName} {l : LockName} :
  Keeps (next p) (wait c l) φ Q ↔ l = lockOf c ∧ ∃ φ', onWait φ c = some φ' ∧ Q () φ'
  := by
  constructor
  · intro h
    obtain ⟨φ', hnext, hQ⟩ := h 0
    simp only [next, Option.ite_none_right_eq_some] at hnext
    exact ⟨hnext.1, φ', hnext.2, hQ⟩
  · rintro ⟨rfl, φ', hnext, hQ⟩ v
    exact ⟨φ', by simp [next, hnext], hQ⟩

@[simp]
theorem keeps_signal {c : ConditionName} {l : LockName} :
  Keeps (next p) (signal c l) φ Q ↔ l = lockOf c ∧ ∃ φ', onSignal φ c = some φ' ∧ Q () φ'
  := by
  constructor
  · intro h
    obtain ⟨φ', hnext, hQ⟩ := h 0
    simp only [next, Option.ite_none_right_eq_some] at hnext
    exact ⟨hnext.1, φ', hnext.2, hQ⟩
  · rintro ⟨rfl, φ', hnext, hQ⟩ v
    exact ⟨φ', by simp [next, hnext], hQ⟩

@[simp]
theorem keeps_broadcast {c : ConditionName} {l : LockName} :
  Keeps (next p) (broadcast c l) φ Q ↔ l = lockOf c ∧ ∃ φ', onBroadcast φ c = some φ' ∧ Q () φ'
  := by
  constructor
  · intro h
    obtain ⟨φ', hnext, hQ⟩ := h 0
    simp only [next, Option.ite_none_right_eq_some] at hnext
    exact ⟨hnext.1, φ', hnext.2, hQ⟩
  · rintro ⟨rfl, φ', hnext, hQ⟩ v
    exact ⟨φ', by simp [next, hnext], hQ⟩

@[simp]
theorem keeps_setMV {mv : Variable} {position value : ℤ} :
  Keeps (next p) (setMV mv position value) φ Q
    ↔ ∃ φ', onSet p φ mv position value = some φ' ∧ Q () φ'
  := by
  constructor
  · intro h
    exact h 0
  · intro h v
    exact h

@[simp]
theorem keeps_output (hφ : ∀ ψ, φ ≠ .printing ψ) :
  Keeps (next p) output φ Q ↔ Q () φ
  := by
  have hacquire : next p φ (.acquire .outputLock) 0 = some (.printing φ) := by
    cases φ with
    | printing ψ => exact absurd rfl (hφ ψ)
    | _ => rfl
  have hrelease : next p (.printing φ) (.release .outputLock) 0 = some φ := by
    cases φ with
    | printing ψ => exact absurd rfl (hφ ψ)
    | _ => rfl
  constructor
  · intro h
    obtain ⟨_, hnext, h⟩ := h 0
    obtain rfl := Option.some.inj (hacquire.symm.trans hnext)
    obtain ⟨_, hnext, h⟩ := h 0
    obtain rfl := Option.some.inj (hrelease.symm.trans hnext)
    exact h
  · intro h _
    refine ⟨.printing φ, hacquire, ?_⟩
    intro _
    exact ⟨φ, hrelease, h⟩

end

@[simp]
theorem keeps_getMV {mv : Variable} {position : ℤ} {Q : ℤ → Phase → Prop} :
  Keeps (next p) (getMV mv position) φ Q
    ↔ ∀ v, ∃ φ', onGet p φ mv position v = some φ' ∧ Q v φ'
  := Iff.rfl

@[simp]
theorem keeps_return {α : Type} {x : α} {Q : α → Phase → Prop} :
  Keeps (next p) (return x) φ Q ↔ Q x φ
  := Iff.rfl

theorem keeps_goOutside {n : ℕ} {id : ℤ} {rich : Bool} :
  Keeps (next (.customer n)) (goOutside id) (.roaming id rich) (fun _ φ => φ = .roaming id rich)
  := by
  simp [goOutside, keeps_bind, lockOf]

theorem keeps_checkSenator {n : ℕ} {id : ℤ} {rich : Bool} :
  Keeps (next (.customer n)) (checkSenator id) (.roaming id rich) (fun _ φ => φ = .roaming id rich)
  := by
  simp [checkSenator, keeps_bind, keeps_ite, keeps_goOutside]

theorem keeps_nextIndex (p : Process) (hp : p ≠ .manager) :
  Keeps (next p) (nextIndex (indexLock p) (indexOf p)) .fresh (fun id φ => φ = .start id p)
  := by
  have hlock : indexLock p ≠ .outputLock := by
    cases p <;> simp [indexLock] at hp ⊢
  simp [nextIndex, keeps_bind, hlock]

section

variable {K : Kind} {id i : ℤ} {n : ℕ}

/-- A customer that bribes a clerk chooses one that there is. -/
theorem keeps_chooseLine :
  Keeps (next (.customer n)) (chooseLine K id) (.choosing id none) (fun r φ =>
    ∃ m, φ = .choosing id m ∧ (r.2 = true → 0 ≤ r.1 ∧ r.1 < numClerks K))
  := by
  unfold chooseLine
  simp only [keeps_bind]
  apply keeps_forIn (fun (s : ℤ × ℤ × Bool) φ => ∃ m, φ = .choosing id m ∧
    (s.2.2 = true → 0 ≤ s.1 ∧ s.1 < (numClerks K : ℤ)))
  · exact ⟨none, rfl, by simp⟩
  · rintro i hi s φ ⟨m, rfl, hs⟩
    have hi : (i : ℤ) < numClerks K := by exact_mod_cast List.mem_range.mp hi
    simp only [keeps_bind, keeps_ite, keeps_getMV, keeps_return]
    simp [hi]
    grind
  · rintro ⟨myLine, lineSize, hasBribed⟩ φ ⟨m, rfl, hs⟩
    dsimp only at hs ⊢
    rw [keeps_ite]
    constructor
    · rintro rfl
      have hnot : hasBribed = false := by
        by_contra h
        have := (hs (by simpa using h)).1
        omega
      rw [keeps_bind]
      apply keeps_forIn (fun _ φ => ∃ m, φ = .choosing id m)
      · exact ⟨m, rfl⟩
      · rintro i - s φ ⟨m, rfl⟩
        simp [keeps_bind, keeps_ite]
      · rintro s φ ⟨m, rfl⟩
        simp [hnot]
    · intro h
      exact ⟨m, rfl, hs⟩

theorem keeps_bribe {bribed : ℤ} (h : K = .cashier ∨ 0 ≤ bribed ∧ bribed < numClerks K)
    {m : Option ℤ} :
  Keeps (next (.customer n)) (bribe K id bribed) (.choosing id m) (fun _ φ => φ = .choosing id none)
  := by
  simp [bribe, keeps_bind, h]

/-- A customer either has to choose again or may go to the counter. -/
theorem keeps_waitInLine {m : Option ℤ} {count : Variable} {line : ConditionName}
    (hline : count = .clerkLineCount K ∧ line = .lineCV K i
      ∨ count = .clerkBLineCount K ∧ line = .bribeLineCV K i) :
  Keeps (next (.customer n)) (waitInLine id i count line) (.choosing id m) (fun again φ =>
    if again then φ = .roaming id true else φ = .passed id K i)
  := by
  rcases hline with ⟨rfl, rfl⟩ | ⟨rfl, rfl⟩ <;>
  simp [waitInLine, goOutside, keeps_bind, keeps_ite, lockOf]

theorem keeps_giveNumber :
  Keeps (next (.customer n)) (giveNumber K id i) (.passed id K i) (fun _ φ => φ = .given id K i)
  := by
  simp [giveNumber, keeps_bind]

/-- The loop of `goToAppClerk` and the like, for what is done at the counter. -/
theorem keeps_goTo {bribed : ℤ → ℤ} (hbribed : K = .cashier ∨ ∀ i, bribed i = i)
    {counter : ℤ → Program Label}
    (hcounter : ∀ i, Keeps (next (.customer n)) (counter i) (.given id K i) (Good (.customer n))) :
  Keeps (next (.customer n)) (goTo K id bribed counter) (.roaming id true) (Good (.customer n))
  := by
  have hend : ∀ i (again : Bool) φ,
      (if again then φ = .roaming id true else φ = .passed id K i) →
      Keeps (next (.customer n)) (if again = true then return .line K id
        else do
          giveNumber K id i
          counter i) φ (Good (.customer n)) := by
    rintro i (_ | _) φ (h : φ = _)
    · obtain rfl := h
      simp only [Bool.false_eq_true, if_false, keeps_bind]
      apply keeps_giveNumber.mono
      rintro _ _ rfl
      exact hcounter i
    · exact h
  simp only [goTo, keeps_bind, keeps_acquire (l := .lineLock) (by simp)]
  refine ⟨.choosing id none, rfl, keeps_chooseLine.mono ?_⟩
  rintro ⟨i, hasBribed⟩ φ ⟨m, rfl, hi⟩
  simp only at hi ⊢
  cases hasBribed with
  | true =>
      have hrange : K = .cashier ∨ 0 ≤ bribed i ∧ bribed i < numClerks K := by
        rcases hbribed with rfl | h
        · exact .inl rfl
        · rw [h]
          exact .inr (hi rfl)
      simp only [if_true, keeps_bind]
      apply (keeps_bribe hrange).mono
      rintro _ _ rfl
      apply (keeps_waitInLine (.inr ⟨rfl, rfl⟩)).mono
      exact hend i
  | false =>
      simp only [Bool.false_eq_true, if_false, keeps_bind]
      apply (keeps_waitInLine (.inl ⟨rfl, rfl⟩)).mono
      exact hend i

theorem keeps_goToAppClerk :
  Keeps (next (.customer n)) (goToAppClerk id) (.roaming id true) (Good (.customer n))
  := by
  unfold goToAppClerk
  apply keeps_goTo (.inr fun _ => rfl)
  intro i
  simp [keeps_bind, lockOf, Phase.back]
  exact keeps_checkSenator.mono fun _ _ h => h

theorem keeps_goToPicClerk :
  Keeps (next (.customer n)) (goToPicClerk id) (.roaming id true) (Good (.customer n))
  := by
  unfold goToPicClerk
  apply keeps_goTo (.inr fun _ => rfl)
  intro i
  exact .inl rfl

theorem keeps_goToPassClerk :
  Keeps (next (.customer n)) (goToPassClerk id) (.roaming id true) (Good (.customer n))
  := by
  unfold goToPassClerk
  apply keeps_goTo (.inr fun _ => rfl)
  intro i
  simp [keeps_bind, lockOf, Phase.back]
  exact keeps_checkSenator.mono fun _ _ h => h

theorem keeps_goToCashier :
  Keeps (next (.customer n)) (goToCashier id) (.roaming id true) (Good (.customer n))
  := by
  unfold goToCashier
  apply keeps_goTo (.inl rfl)
  intro i
  simp [keeps_bind, lockOf, Phase.back, Good, Phase.idle]

theorem keeps_likePicture {φ : Phase} (h : φ = .given id .pic i ∨ φ = .posing id i) :
  Keeps (next (.customer n)) (likePicture id i) φ (Good (.customer n))
  := by
  have hcheck : Keeps (next (.customer n)) (checkSenator id) (.roaming id true)
      (fun _ φ => Good (.customer n) (.line .pass id) φ) :=
    keeps_checkSenator.mono fun _ _ h => h
  rcases h with rfl | rfl <;>
  simp [likePicture, keeps_bind, lockOf, Phase.back, hcheck]

theorem keeps_customer {l : Label} {φ : Phase} (h : Good (.customer n) l φ) :
  Keeps (next (.customer n)) (code l) φ (Good (.customer n))
  := by
  cases l with
  | line K id =>
      obtain rfl := h
      cases K with
      | app => exact keeps_goToAppClerk
      | pic => exact keeps_goToPicClerk
      | pass => exact keeps_goToPassClerk
      | cashier => exact keeps_goToCashier
  | picture id i => exact keeps_likePicture h
  | exit => exact h
  | _ => exact h.elim

/-- A senator at a clerk. -/
theorem keeps_senGoTo {n : ℕ} {K : Kind} {id : ℤ} :
  Keeps (next (.senator n)) (senGoTo K id) (.visiting id) (fun _ φ => φ = .given id K 0)
  := by
  simp [senGoTo, giveNumber, keeps_bind, lockOf]

theorem keeps_senGoToApp {n : ℕ} {id : ℤ} :
  Keeps (next (.senator n)) (senGoToApp id) (.visiting id) (fun _ φ => φ = .visiting id)
  := by
  rw [senGoToApp, keeps_bind]
  apply keeps_senGoTo.mono
  rintro _ _ rfl
  simp [keeps_bind, lockOf, Phase.back]

theorem keeps_senGoToPass {n : ℕ} {id : ℤ} :
  Keeps (next (.senator n)) (senGoToPass id) (.visiting id) (fun _ φ => φ = .visiting id)
  := by
  rw [senGoToPass, keeps_bind]
  apply keeps_senGoTo.mono
  rintro _ _ rfl
  simp [keeps_bind, lockOf, Phase.back]

theorem keeps_senGoToCashier {n : ℕ} {id : ℤ} :
  Keeps (next (.senator n)) (senGoToCashier id) (.visiting id) (fun _ φ => φ = .visiting id)
  := by
  rw [senGoToCashier, keeps_bind]
  apply keeps_senGoTo.mono
  rintro _ _ rfl
  simp [keeps_bind, lockOf, Phase.back]

theorem keeps_senatorLeaves {n : ℕ} {id : ℤ} :
  Keeps (next (.senator n)) (senatorLeaves id) (.visiting id) (Good (.senator n))
  := by
  rw [senatorLeaves, keeps_bind]
  apply keeps_senGoToPass.mono
  rintro _ _ rfl
  rw [keeps_bind]
  apply keeps_senGoToCashier.mono
  rintro _ _ rfl
  simp [keeps_bind, lockOf, Good, Phase.idle]

theorem keeps_senator {n : ℕ} {l : Label} {φ : Phase} (h : Good (.senator n) l φ) :
  Keeps (next (.senator n)) (code l) φ (Good (.senator n))
  := by
  cases l with
  | senPicture id =>
      rcases h with rfl | rfl <;>
      simp [code, senLikePicture, keeps_bind, lockOf, Phase.back, keeps_senatorLeaves]
  | exit => exact h
  | _ => exact h.elim

theorem keeps_receiveNumber {K : Kind} {i : ℤ} {n : ℕ} :
  Keeps (next (.clerk K n)) (receiveNumber K i) (.called K i) (fun custID φ =>
    φ = if K = .pic then .developing i else .filing K i custID)
  := by
  cases K <;>
  simp [receiveNumber, keeps_bind, lockOf]

theorem keeps_appClerkInteract {sen : Bool} :
  Keeps (next (.clerk .app n)) (appClerkInteract i sen) (.called .app i) (Good (.clerk .app n))
  := by
  rw [appClerkInteract, keeps_bind]
  apply keeps_receiveNumber.mono
  rintro custID _ rfl
  cases sen <;>
  simp [keeps_bind, lockOf, Good]

theorem keeps_passClerkInteract {sen : Bool} :
  Keeps (next (.clerk .pass n)) (passClerkInteract i sen) (.called .pass i) (Good (.clerk .pass n))
  := by
  rw [passClerkInteract, keeps_bind]
  apply keeps_receiveNumber.mono
  rintro custID _ rfl
  cases sen <;>
  simp [keeps_bind, lockOf, Good]

theorem keeps_cashierInteract {sen : Bool} :
  Keeps (next (.clerk .cashier n)) (cashierInteract i sen) (.called .cashier i)
    (Good (.clerk .cashier n))
  := by
  rw [cashierInteract, keeps_bind]
  apply keeps_receiveNumber.mono
  rintro custID _ rfl
  cases sen <;>
  simp [keeps_bind, lockOf, Good]

theorem keeps_picClerkInteract {sen : Bool} :
  Keeps (next (.clerk .pic n)) (picClerkInteract i sen) (.called .pic i) (Good (.clerk .pic n))
  := by
  rw [picClerkInteract, keeps_bind]
  apply keeps_receiveNumber.mono
  rintro custID _ rfl
  exact ⟨rfl, rfl⟩

theorem keeps_takePicture {custID : ℤ} {sen : Bool} :
  Keeps (next (.clerk .pic n)) (takePicture i custID sen) (.developing i) (Good (.clerk .pic n))
  := by
  cases sen <;>
  simp [takePicture, keeps_bind, keeps_ite, lockOf, Good]

theorem keeps_goOnBreak :
  Keeps (next (.clerk K n)) (goOnBreak K i) (.looking K i) (Good (.clerk K n))
  := by
  simp [goOnBreak, keeps_bind, lockOf, Good]

theorem keeps_clerkRun {interact : Bool → Program Label}
    (h : ∀ sen, Keeps (next (.clerk K n)) (interact sen) (.called K i) (Good (.clerk K n))) :
  Keeps (next (.clerk K n)) (clerkRun K i interact) (.free K i) (Good (.clerk K n))
  := by
  simp [clerkRun, keeps_bind, keeps_ite, lockOf, h, keeps_goOnBreak]
  simp [Good, Phase.idle]

theorem keeps_clerk {l : Label} {φ : Phase} (h : Good (.clerk K n) l φ) :
  Keeps (next (.clerk K n)) (code l) φ (Good (.clerk K n))
  := by
  cases l with
  | run K' i =>
      obtain ⟨rfl, rfl⟩ := h
      cases K' with
      | app => exact keeps_clerkRun fun _ => keeps_appClerkInteract
      | pic => exact keeps_clerkRun fun _ => keeps_picClerkInteract
      | pass => exact keeps_clerkRun fun _ => keeps_passClerkInteract
      | cashier => exact keeps_clerkRun fun _ => keeps_cashierInteract
  | photo i custID sen =>
      obtain ⟨rfl, rfl⟩ := h
      exact keeps_takePicture
  | exit => exact h
  | _ => exact h.elim

end


section

variable {t : ℤ}

theorem keeps_shouldWake {K : Kind} {i : ℤ} :
  Keeps (next .manager) (shouldWake K i) (.managing t) (fun _ φ => φ = .managing t)
  := by
  simp [shouldWake, keeps_bind, keeps_ite]

theorem keeps_wakeClerk {K : Kind} {i : ℤ} :
  Keeps (next .manager) (wakeClerk K i) (.managing t) (fun _ φ => φ = .managing t)
  := by
  simp [wakeClerk, keeps_bind, lockOf]

/-- A loop of the manager, each iteration of which it begins and ends without a lock. -/
theorem keeps_loop {α β : Type} {xs : List α} {x : β} {f : α → β → Program (ForInStep β)}
    (h : ∀ y z, Keeps (next .manager) (f y z) (.managing t) (fun _ φ => φ = .managing t)) :
  Keeps (next .manager) (forIn xs x f) (.managing t) (fun _ φ => φ = .managing t)
  := by
  apply keeps_forIn (fun _ φ => φ = .managing t) rfl
  · rintro y - z _ rfl
    exact h y z
  · exact fun _ _ h => h

theorem keeps_managerCheckLines :
  Keeps (next .manager) managerCheckLines (.managing t) (fun _ φ => φ = .managing t)
  := by
  rw [managerCheckLines, keeps_bind]
  apply (keeps_loop _).mono
  · rintro gone _ rfl
    rw [keeps_bind]
    apply (keeps_loop _).mono
    · rintro gone _ rfl
      simp [keeps_bind, keeps_ite, lockOf]
    · intro i gone
      simp [keeps_bind, keeps_ite]
  · intro K gone
    rw [keeps_bind]
    apply (keeps_loop _).mono
    · rintro gone _ rfl
      rfl
    · intro i gone
      rw [keeps_bind]
      apply keeps_shouldWake.mono
      rintro wake _ rfl
      cases wake
      · simp [keeps_bind, keeps_ite]
      · rw [if_pos rfl, keeps_bind]
        apply keeps_wakeClerk.mono
        rintro - _ rfl
        simp [keeps_bind, keeps_ite]

theorem keeps_collect {K : Kind} {total : ℤ} :
  Keeps (next .manager) (collect K total) (.counting t) (fun r φ => φ = .counting (t + r - total))
  := by
  rw [collect, keeps_bind]
  apply (keeps_forIn (fun r φ => φ = .counting (t + r - total)) _ _ (fun _ _ h => h)).mono
  · rintro r _ rfl
    simp [keeps_bind]
  · simp
  · rintro i hi r _ rfl
    have hi : (i : ℤ) < numClerks K := by exact_mod_cast List.mem_range.mp hi
    simp [keeps_bind, hi]
    intro v
    omega

theorem keeps_managerCountMoney {a b c d : ℤ} :
  Keeps (next .manager) (managerCountMoney a b c d) (.managing (a + b + c + d)) (fun r φ =>
    φ = .managing (r.1 + r.2.1 + r.2.2.1 + r.2.2.2))
  := by
  rw [managerCountMoney, keeps_bind, keeps_acquire (by simp)]
  refine ⟨.counting (a + b + c + d), by simp, ?_⟩
  rw [keeps_bind]
  apply keeps_collect.mono
  rintro a' _ rfl
  rw [keeps_bind]
  apply keeps_collect.mono
  rintro b' _ rfl
  rw [keeps_bind]
  apply keeps_collect.mono
  rintro c' _ rfl
  rw [keeps_bind]
  apply keeps_collect.mono
  rintro d' _ rfl
  simp [keeps_bind]
  omega

theorem keeps_managerCheckClose :
  Keeps (next .manager) managerCheckClose (.managing t) (fun _ φ => φ = .managing t)
  := by
  rw [managerCheckClose, keeps_bind]
  apply (keeps_loop _).mono
  · rintro ⟨done, allHere⟩ _ rfl
    rw [keeps_bind]
    apply (keeps_loop _).mono
    · rintro ⟨done, allHere⟩ _ rfl
      simp only [keeps_ite, keeps_bind, keeps_return, implies_true, true_and, and_true]
      rintro - -
      apply (keeps_loop _).mono
      · rintro allOnBreak _ rfl
        refine ⟨fun _ => ?_, fun _ => rfl⟩
        apply (keeps_loop _).mono
        · rintro - _ rfl
          rfl
        · intro K _
          rw [keeps_bind]
          apply (keeps_loop _).mono
          · rintro - _ rfl
            rfl
          · intro i _
            simp [keeps_bind, keeps_ite, keeps_wakeClerk]
      · intro K allOnBreak
        rw [keeps_bind]
        apply (keeps_loop _).mono
        · rintro - _ rfl
          rfl
        · intro i allOnBreak
          simp [keeps_bind, keeps_ite]
    · intro i ⟨done, allHere⟩
      simp [isUnserved, keeps_bind, keeps_ite]
  · intro i ⟨done, allHere⟩
    simp [isUnserved, keeps_bind, keeps_ite]

theorem keeps_close :
  Keeps (next .manager) close (.managing t) (fun _ φ => φ = .managing t)
  := by
  rw [close, keeps_bind, keeps_setMV]
  refine ⟨.managing t, by simp, ?_⟩
  rw [keeps_bind]
  apply (keeps_loop _).mono
  · rintro - _ rfl
    rfl
  · intro K _
    rw [keeps_bind]
    apply (keeps_loop _).mono
    · rintro - _ rfl
      rfl
    · intro i _
      simp [keeps_bind, lockOf]

theorem keeps_manager {l : Label} {φ : Phase} (h : Good .manager l φ) :
  Keeps (next .manager) (code l) φ (Good .manager)
  := by
  cases l with
  | manage a b c d =>
      obtain rfl := h
      rw [code, manage, keeps_bind]
      apply (keeps_loop _).mono
      · rintro - _ rfl
        rw [keeps_bind]
        apply keeps_managerCountMoney.mono
        rintro ⟨a', b', c', d'⟩ _ rfl
        rw [keeps_bind]
        apply keeps_managerCheckClose.mono
        rintro closes _ rfl
        cases closes
        · rfl
        · rw [if_pos rfl, keeps_bind]
          apply keeps_close.mono
          rintro - _ rfl
          rfl
      · intro k _
        rw [keeps_bind]
        apply keeps_managerCheckLines.mono
        rintro - _ rfl
        rfl
  | exit => exact h
  | _ => exact h.elim

end

/-! ### All programs -/

theorem keeps_code {l : Label} (h : Good p l φ) :
  Keeps (next p) (code l) φ (Good p)
  := by
  cases p with
  | customer n => exact keeps_customer h
  | senator n => exact keeps_senator h
  | clerk K n => exact keeps_clerk h
  | manager => exact keeps_manager h

theorem keeps_main (p : Process) :
  Keeps (next p) (main p) (.first p) (Good p)
  := by
  cases p with
  | customer n =>
      have hindex := keeps_nextIndex (.customer n) (by simp)
      simp only [main, customer, keeps_bind]
      apply hindex.mono
      rintro id _ rfl
      have hcheck : Keeps (next (.customer n)) (checkSenator id) (.start id (.customer n))
          (fun _ φ => φ = .roaming id false) := keeps_checkSenator
      apply hcheck.mono
      rintro - _ rfl
      simp [Good]
  | senator n =>
      have hindex := keeps_nextIndex (.senator n) (by simp)
      simp only [main, senator, keeps_bind]
      apply hindex.mono
      rintro id _ rfl
      have hpic : Keeps (next (.senator n)) (senGoTo .pic id) (.visiting id) (fun _ φ =>
          Good (.senator n) (.senPicture id) φ) :=
        keeps_senGoTo.mono fun _ _ h => .inl h
      have happ : Keeps (next (.senator n)) (senGoToApp id) (.visiting id) (fun _ φ =>
          Keeps (next (.senator n)) (senGoTo .pic id) φ (fun _ φ =>
            Good (.senator n) (.senPicture id) φ)) := by
        apply keeps_senGoToApp.mono
        rintro - _ rfl
        exact hpic
      simp [Phase.start, lockOf, happ]
  | clerk K n =>
      have hindex := keeps_nextIndex (.clerk K n) (by simp)
      simp only [main, clerk, keeps_bind]
      apply hindex.mono
      rintro id _ rfl
      exact ⟨rfl, rfl⟩
  | manager => rfl

end Nachos.Office
