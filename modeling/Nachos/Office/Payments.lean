import Mathlib.Tactic.Common
import Nachos.Office.Stages

/-!
# The payments of the passport office

A customer is given 60 when it comes. It pays bribes of 50 to clerks and 10 to the cashier, and the
manager collects what the clerks have. Each payment is a debit and a credit, which are made by different
requests and, at the cashier, by different processes. What a process has debited and not credited, or
the other way round, is told by its phase.
-/

namespace Nachos.Office

/-- The variables that hold money. -/
def isMoney : Variable → Bool
  | .customerMoney | .senatorMoney | .clerkMoney _ => true
  | _ => false

/-- What has been debited and has not been credited yet. It is negative when it has been credited first:
the cashier accounts for the money of a visitor as long as the visitor waits, and the manager adds an
element to its total before it sets the element to 0. -/
def Phase.transit (waiting : Bool) : Phase → ℤ
  | .debited _ | .crediting _ | .creditRead _ _ _ _ => 50
  | .paid _ _ => 10
  | .served _ K _ => if waiting ∧ K = .cashier then 10 else 0
  | .charged _ | .accounted _ => -10
  | .collected _ _ _ money => -money
  | .printing φ => φ.transit waiting
  | _ => 0

/-- What the manager has collected. -/
def Phase.takings : Phase → ℤ
  | .managing t | .waking t _ _ | .atEntrance t | .counting t | .collected t _ _ _ => t
  | .printing φ => φ.takings
  | _ => 0

/-- A customer has been given its money. -/
def Phase.rich (p : Process) : Phase → Bool
  | .roaming _ rich | .outside _ rich => rich
  | .choosing _ _ | .debited _ | .crediting _ | .creditRead _ _ _ _ | .credited _ | .lined _ _ _
  | .sentAway _ | .passed _ _ _ => true
  | .arrived _ _ _ | .atCounter _ _ _ | .given _ _ _ | .signalled _ _ _ | .paying _ _ _ | .paid _ _
  | .served _ _ _ | .goodbye _ _ _ | .posing _ _ => !isSenator p
  | .printing φ => φ.rich p
  | _ => false

/-- A customer is given its money. -/
def isGift : Request → Bool
  | .setMV mv _ value => mv = .customerMoney ∧ value = 60
  | _ => false

/-- What the manager gets when it makes a request. -/
def gain (r : Request) (v : ℤ) : ℤ :=
  match r with
  | .getMV (.clerkMoney _) _ => v
  | _ => 0

/-- What a process stands for in the balance of the office. -/
def Phase.weight (p : Process) (waiting : Bool) (φ : Phase) : ℤ :=
  φ.transit waiting + φ.takings - if φ.rich p then 60 else 0

/-- The element that a process has read and is going to set, and what it has read. -/
def Phase.remembers (p : Process) : Phase → Option (Variable × ℤ × ℤ)
  | .choosing id (some money) => some (.customerMoney, id, money)
  | .paying id _ money => some (moneyOf p, id, money)
  | .creditRead _ K j money | .collected _ K j money => some (.clerkMoney K, j, money)
  | .chargeRead i money => some (.clerkMoney .cashier, i, money)
  | .printing φ => φ.remembers p
  | _ => none

section

variable {p : Process} {φ φ' : Phase} {r : Request} {v : ℤ}

theorem isMoney_moneyOf :
  isMoney (moneyOf p) = true
  := by cases p <;> rfl

theorem isMoney_of_guarded {mv : Variable} (h : guarded mv = false) :
  isMoney mv = false
  := by
  revert h
  cases mv <;> simp [isMoney, guarded]

theorem isMoney_indexOf :
  isMoney (indexOf p) = false
  := by cases p <;> rfl

theorem isMoney_of_files {K : Kind} {mv : Variable} (h : files K mv = true) :
  isMoney mv = false
  := by
  revert h
  fun_cases files K mv <;> simp [isMoney]

/-- The requests that change money. -/
theorem onSet_money {mv : Variable} {position value : ℤ} (hmv : isMoney mv = true)
    (h : onSet p φ mv position value = some φ') :
  (isSenator p = false ∧ φ = .roaming position false ∧ φ' = .roaming position true ∧
      mv = .customerMoney ∧ value = 60) ∨
    (φ = .choosing position (some (value + 50)) ∧ φ' = .debited position ∧ mv = .customerMoney) ∨
    (∃ id K, φ = .creditRead id K position (value - 50) ∧ φ' = .credited id ∧
      mv = .clerkMoney K) ∨
    (∃ i, φ = .paying position i (value + 10) ∧ φ' = .paid position i ∧ mv = moneyOf p) ∨
    (φ = .chargeRead position (value - 10) ∧ φ' = .charged position ∧
      mv = .clerkMoney .cashier) ∨
    ∃ t K money, φ = .collected t K position money ∧ φ' = .counting t ∧ mv = .clerkMoney K ∧
      value = 0
  := by
  have hguarded : guarded mv = true := by
    revert hmv
    cases mv <;> simp [isMoney, guarded]
  cases φ with
  | roaming id rich =>
      rw [onSet, if_pos hguarded] at h
      obtain ⟨⟨hp, hrich, rfl, rfl, rfl⟩, rfl⟩ := Phase.when_eq_some.mp h
      obtain rfl : rich = false := by simpa using hrich
      exact .inl ⟨hp, rfl, rfl, rfl, rfl⟩
  | choosing id money =>
      rw [onSet, if_pos hguarded] at h
      obtain ⟨⟨rfl, rfl, rfl⟩, rfl⟩ := Phase.when_eq_some.mp h
      exact .inr (.inl ⟨rfl, rfl, rfl⟩)
  | creditRead id K j money =>
      obtain ⟨⟨rfl, rfl, rfl⟩, rfl⟩ := Phase.when_eq_some.mp h
      exact .inr (.inr (.inl ⟨id, K, by rw [add_sub_cancel_right], rfl, rfl⟩))
  | paying id i money =>
      obtain ⟨⟨rfl, rfl, rfl⟩, rfl⟩ := Phase.when_eq_some.mp h
      exact .inr (.inr (.inr (.inl ⟨i, by rw [sub_add_cancel], rfl, rfl⟩)))
  | chargeRead i money =>
      obtain ⟨⟨rfl, rfl, rfl⟩, rfl⟩ := Phase.when_eq_some.mp h
      exact .inr (.inr (.inr (.inr (.inl ⟨by rw [add_sub_cancel_right], rfl, rfl⟩))))
  | collected t K j money =>
      obtain ⟨⟨rfl, rfl, rfl⟩, rfl⟩ := Phase.when_eq_some.mp h
      exact .inr (.inr (.inr (.inr (.inr ⟨t, K, money, rfl, rfl, rfl, rfl⟩))))
  | indexed =>
      obtain ⟨⟨rfl, -⟩, -⟩ := Phase.when_eq_some.mp h
      rw [isMoney_indexOf] at hmv
      cases hmv
  | flagging | emptied | atCounter =>
      obtain ⟨⟨rfl, -⟩, -⟩ := Phase.when_eq_some.mp h
      cases hmv
  | filing =>
      obtain ⟨⟨hfiles, -⟩, -⟩ := Phase.when_eq_some.mp h
      rw [isMoney_of_files hfiles] at hmv
      cases hmv
  | _ =>
      obtain ⟨hnot, -⟩ := Phase.when_eq_some.mp h
      rw [hguarded] at hnot
      cases hnot

theorem Phase.transit_start (id : ℤ) (b : Bool) :
  (Phase.start id p).transit b = 0
  := by cases p <;> rfl

theorem Phase.transit_back (id : ℤ) (b : Bool) :
  (Phase.back id p).transit b = 0
  := by cases p <;> rfl

theorem Phase.takings_start (id : ℤ) :
  (Phase.start id p).takings = 0
  := by cases p <;> rfl

theorem Phase.takings_back (id : ℤ) :
  (Phase.back id p).takings = 0
  := by cases p <;> rfl

theorem Phase.rich_start (id : ℤ) :
  (Phase.start id p).rich p = false
  := by cases p <;> rfl

theorem Phase.rich_back (id : ℤ) :
  (Phase.back id p).rich p = !isSenator p
  := by cases p <;> rfl

theorem Phase.remembers_start (id : ℤ) :
  (Phase.start id p).remembers p = none
  := by cases p <;> rfl

theorem Phase.remembers_back (id : ℤ) :
  (Phase.back id p).remembers p = none
  := by cases p <;> rfl

/-- A request that does not change money. -/
def Request.free : Request → Prop
  | .setMV mv _ _ => isMoney mv = false
  | _ => True

theorem transit_next (hfree : r.free) (hr : r.quiet = true) (h : next p φ r v = some φ') :
  φ'.transit false + φ'.takings = φ.transit false + φ.takings
  := by
  revert hfree hr
  refine next_cases (M := fun φ r _ φ' => r.free → r.quiet = true →
    φ'.transit false + φ'.takings = φ.transit false + φ.takings)
    ?_ ?_ ?_ ?_ ?_ ?_ ?_ ?_ ?_ h
  · exact fun _ _ _ _ _ => rfl
  · exact fun _ _ _ _ _ => rfl
  · intro φ l v φ'
    fun_cases onAcquire p φ l <;> intro h <;> simp at h <;> grind [Phase.transit, Phase.takings]
  · intro φ l v φ'
    fun_cases onRelease p φ l <;> intro h <;> simp at h <;>
      grind [Phase.transit, Phase.takings, Phase.transit_start, Phase.transit_back,
        Phase.takings_start, Phase.takings_back]
  · exact fun _ _ _ _ _ _ hr => by cases hr
  · exact fun _ _ _ _ _ _ hr => by cases hr
  · exact fun _ _ _ _ _ _ hr => by cases hr
  · intro φ mv position value v φ'
    fun_cases onSet p φ mv position value <;> intro h <;> simp at h <;>
      grind [Phase.transit, Phase.takings, Request.free, isMoney, isMoney_moneyOf]
  · intro φ mv position v φ'
    fun_cases onGet p φ mv position v <;> intro h <;> simp at h <;>
      grind [Phase.transit, Phase.takings]

theorem gain_of_watched {mv : Variable} (h : watched mv = false) (position : ℤ) :
  gain (.getMV mv position) v = 0
  := by cases mv <;> first | rfl | cases h

theorem takings_next (hsuits : φ.suits .manager = true) (h : next .manager φ r v = some φ') :
  φ'.takings = φ.takings + gain r v
  := by
  revert hsuits
  refine next_cases (M := fun φ r v φ' => φ.suits .manager = true →
    φ'.takings = φ.takings + gain r v)
    ?_ ?_ ?_ ?_ ?_ ?_ ?_ ?_ ?_ h
  · exact fun _ _ _ _ => (add_zero _).symm
  · exact fun _ _ _ _ => (add_zero _).symm
  · intro φ l v φ'
    fun_cases onAcquire .manager φ l <;> intro h <;> simp at h <;> grind [Phase.takings, gain]
  · intro φ l v φ'
    fun_cases onRelease .manager φ l <;> intro h <;> simp at h <;>
      grind [Phase.takings, gain, Phase.takings_start, Phase.takings_back]
  · intro φ c v φ'
    fun_cases onWait φ c <;> intro h <;> simp at h <;> grind [Phase.takings, gain]
  · intro φ c v φ'
    fun_cases onSignal φ c <;> intro h <;> simp at h <;> grind [Phase.takings, gain]
  · intro φ c v φ'
    fun_cases onBroadcast φ c <;> intro h <;> simp at h <;> grind [Phase.takings, gain]
  · intro φ mv position value v φ'
    fun_cases onSet .manager φ mv position value <;> intro h <;> simp at h <;>
      grind [Phase.takings, gain]
  · intro φ mv position v φ'
    fun_cases onGet .manager φ mv position v <;> intro h <;> simp at h <;>
      grind [Phase.takings, gain, gain_of_watched, Phase.suits, isVisitor, isClerk]

theorem takings_of_suits (hsuits : φ.suits p = true) (hp : p ≠ .manager) :
  φ.takings = 0
  := by
  induction φ with
  | printing φ ih => exact ih hsuits
  | managing | waking | atEntrance | counting | collected => exact absurd (of_decide_eq_true hsuits) hp
  | _ => rfl

/-- A customer becomes rich when it is given its money, and stays so. -/
theorem rich_next (h : next p φ r v = some φ') :
  φ'.rich p = true ↔ φ.rich p = true ∨ isGift r = true
  := by
  refine next_cases (M := fun φ r _ φ' => φ'.rich p = true ↔ φ.rich p = true ∨ isGift r = true)
    ?_ ?_ ?_ ?_ ?_ ?_ ?_ ?_ ?_ h
  · exact fun _ _ _ => by simp [Phase.rich, isGift]
  · exact fun _ _ _ => by simp [Phase.rich, isGift]
  · intro φ l v φ'
    fun_cases onAcquire p φ l <;> intro h <;> simp at h <;> grind [Phase.rich, isGift]
  · intro φ l v φ'
    fun_cases onRelease p φ l <;> intro h <;> simp at h <;>
      grind [Phase.rich, isGift, Phase.rich_start, Phase.rich_back]
  · intro φ c v φ'
    fun_cases onWait φ c <;> intro h <;> simp at h <;> grind [Phase.rich, isGift]
  · intro φ c v φ'
    fun_cases onSignal φ c <;> intro h <;> simp at h <;> grind [Phase.rich, isGift]
  · intro φ c v φ'
    fun_cases onBroadcast φ c <;> intro h <;> simp at h <;> grind [Phase.rich, isGift]
  · intro φ mv position value v φ' h
    by_cases hmv : mv = .customerMoney
    · subst hmv
      rcases onSet_money rfl h with ⟨-, rfl, rfl, -, rfl⟩ | ⟨rfl, rfl, -⟩ | ⟨id, K, -, -, hmv⟩ |
          ⟨i, rfl, rfl, hmv⟩ | ⟨-, -, hmv⟩ | ⟨t, K, money, -, -, hmv, -⟩
      · simp [Phase.rich, isGift]
      · simp [Phase.rich, isGift]
      · cases hmv
      · cases p <;> simp [Phase.rich, moneyOf, isSenator, isGift] at hmv ⊢
      · cases hmv
      · cases hmv
    · revert h
      fun_cases onSet p φ mv position value <;> intro h <;> simp at h <;> grind [Phase.rich, isGift]
  · intro φ mv position v φ'
    fun_cases onGet p φ mv position v <;> intro h <;> simp at h <;> grind [Phase.rich, isGift]

/-- What a process remembers is what it has read, and it forgets it when it changes money. -/
theorem remembers_next (h : next p φ r v = some φ') :
  φ'.remembers p = none ∨ φ'.remembers p = φ.remembers p ∧ r.free ∨
    ∃ mv position, r = .getMV mv position ∧ φ'.remembers p = some (mv, position, v)
  := by
  refine next_cases (M := fun φ r v φ' => φ'.remembers p = none ∨
    φ'.remembers p = φ.remembers p ∧ r.free ∨
    ∃ mv position, r = .getMV mv position ∧ φ'.remembers p = some (mv, position, v))
    ?_ ?_ ?_ ?_ ?_ ?_ ?_ ?_ ?_ h
  · exact fun _ _ _ => .inr (.inl ⟨rfl, trivial⟩)
  · exact fun _ _ _ => .inr (.inl ⟨rfl, trivial⟩)
  · intro φ l v φ'
    fun_cases onAcquire p φ l <;> intro h <;> simp at h <;> grind [Phase.remembers, Request.free]
  · intro φ l v φ'
    fun_cases onRelease p φ l <;> intro h <;> simp at h <;>
      grind [Phase.remembers, Phase.remembers_start, Phase.remembers_back]
  · intro φ c v φ'
    fun_cases onWait φ c <;> intro h <;> simp at h <;> grind [Phase.remembers]
  · intro φ c v φ'
    fun_cases onSignal φ c <;> intro h <;> simp at h <;> grind [Phase.remembers]
  · intro φ c v φ'
    fun_cases onBroadcast φ c <;> intro h <;> simp at h <;> grind [Phase.remembers]
  · intro φ mv position value v φ'
    fun_cases onSet p φ mv position value <;> intro h <;> simp at h <;>
      grind [Phase.remembers, Request.free, isMoney_of_guarded]
  · intro φ mv position v φ'
    fun_cases onGet p φ mv position v <;> intro h <;> simp at h <;>
      grind [Phase.remembers, Request.free]

/-- Money that is changed has been read before, except when a customer is given its money. What the
process stands for changes the other way round. -/
theorem weight_money {mv : Variable} {position value : ℤ} (hmv : isMoney mv = true)
    (h : onSet p φ mv position value = some φ') :
  (isSenator p = false ∧ φ = .roaming position false ∧ mv = .customerMoney ∧ value = 60 ∧
      φ'.weight p false + 60 = φ.weight p false) ∨
    ∃ money, φ.remembers p = some (mv, position, money) ∧
      φ'.weight p false + value = φ.weight p false + money
  := by
  rcases onSet_money hmv h with ⟨hp, rfl, rfl, rfl, rfl⟩ | ⟨rfl, rfl, rfl⟩ | ⟨id, K, rfl, rfl, rfl⟩ |
      ⟨i, rfl, rfl, rfl⟩ | ⟨rfl, rfl, rfl⟩ | ⟨t, K, money, rfl, rfl, rfl, rfl⟩
  · exact .inl ⟨hp, rfl, rfl, rfl, rfl⟩
  · exact .inr ⟨value + 50, rfl, by simp [Phase.weight, Phase.transit, Phase.takings, Phase.rich]; omega⟩
  · exact .inr ⟨value - 50, rfl, by simp [Phase.weight, Phase.transit, Phase.takings, Phase.rich]; omega⟩
  · exact .inr ⟨value + 10, rfl, by simp [Phase.weight, Phase.transit, Phase.takings, Phase.rich]; omega⟩
  · exact .inr ⟨value - 10, rfl, by simp [Phase.weight, Phase.transit, Phase.takings, Phase.rich]; omega⟩
  · exact .inr ⟨money, rfl, by simp [Phase.weight, Phase.transit, Phase.takings, Phase.rich]⟩

theorem weight_next (hfree : r.free) (hr : r.quiet = true) (h : next p φ r v = some φ') :
  φ'.weight p false = φ.weight p false
  := by
  have hrich : φ'.rich p = φ.rich p := by
    rw [Bool.eq_iff_iff, rich_next h, or_iff_left]
    intro hgift
    cases r with
    | setMV mv position value =>
        obtain ⟨rfl, -⟩ := of_decide_eq_true hgift
        cases hfree
    | _ => cases hgift
  rw [Phase.weight, Phase.weight, transit_next hfree hr h, hrich]

/-- A visitor that has paid waits for the cashier. -/
theorem weight_onWait {c : ConditionName} (h : onWait φ c = some φ') :
  φ'.weight p true = φ.weight p false
  := by
  revert h
  fun_cases onWait φ c <;> intro h <;> simp at h <;>
    grind [Phase.weight, Phase.transit, Phase.takings, Phase.rich]

/-- The cashier has the money when it signals the visitor. -/
theorem weight_onSignal {c : ConditionName} (h : onSignal φ c = some φ') :
  φ'.weight p false = φ.weight p false ∨ ∃ i, φ = .accounted i ∧ φ' = .done .cashier i ∧
    c = .clerkCV .cashier i ∧ φ'.weight p false = φ.weight p false + 10
  := by
  revert h
  fun_cases onSignal φ c <;> intro h <;> simp at h <;>
    grind [Phase.weight, Phase.transit, Phase.takings, Phase.rich]

theorem weight_onBroadcast {c : ConditionName} (h : onBroadcast φ c = some φ') :
  φ'.weight p false = φ.weight p false
  := by
  revert h
  fun_cases onBroadcast φ c <;> intro h <;> simp at h <;>
    grind [Phase.weight, Phase.transit, Phase.takings, Phase.rich]

/-- Only for a visitor of a cashier it matters whether it waits. -/
theorem weight_of_waits {c : ConditionName} (h : φ.waits c) :
  φ.weight p true = φ.weight p false ∨ ∃ id i, φ = .served id .cashier i ∧ c = .clerkCV .cashier i ∧
    φ.weight p true = φ.weight p false + 10
  := by
  cases φ with
  | served id K i =>
      obtain rfl := h
      by_cases hK : K = .cashier
      · right
        subst hK
        refine ⟨id, i, rfl, rfl, ?_⟩
        simp [Phase.weight, Phase.transit]
        omega
      · left
        simp [Phase.weight, Phase.transit, hK]
  | printing => cases h
  | _ => exact .inl rfl

/-! ### Who can change which money -/

/-- The money of the clerks is read and changed with `moneyLock`. -/
theorem remembers_clerkMoney {K : Kind} {position money : ℤ}
    (h : φ.remembers p = some (.clerkMoney K, position, money)) :
  .moneyLock ∈ held p φ ∧ φ.asking p ≠ some .moneyLock
  := by
  induction φ with
  | printing φ ih => exact ⟨List.mem_cons_of_mem _ (ih h).1, nofun⟩
  | choosing id money => cases money <;> cases h
  | paying => cases p <;> cases h
  | creditRead | collected | chargeRead => exact ⟨List.mem_cons_self, nofun⟩
  | _ => cases h

/-- The money of a visitor is read and changed by the visitor itself. -/
theorem remembers_moneyOf (hsuits : φ.suits p = true) {mv : Variable} {position money : ℤ}
    (h : φ.remembers p = some (mv, position, money)) :
  (∃ K, mv = .clerkMoney K) ∨ isVisitor p = true ∧ mv = moneyOf p ∧ φ.number = some position
  := by
  induction φ with
  | printing φ ih => exact ih hsuits h
  | choosing id money =>
      cases money with
      | none => cases h
      | some money =>
          obtain ⟨rfl, rfl, rfl⟩ : .customerMoney = mv ∧ id = position ∧ _ := by
            simpa [Phase.remembers] using h
          right
          cases p <;> simp [Phase.suits, isVisitor, isSenator, moneyOf, Phase.number] at hsuits ⊢
  | paying id i money =>
      obtain ⟨rfl, rfl, rfl⟩ : moneyOf p = mv ∧ id = position ∧ _ := by
        simpa [Phase.remembers] using h
      exact .inr ⟨hsuits, rfl, rfl⟩
  | creditRead | collected | chargeRead =>
      left
      simp only [Phase.remembers, Option.some.injEq, Prod.mk.injEq] at h
      exact ⟨_, h.1.symm⟩
  | _ => cases h

theorem isMoney_of_remembers {mv : Variable} {position money : ℤ}
    (h : φ.remembers p = some (mv, position, money)) :
  isMoney mv = true
  := by
  induction φ with
  | printing φ ih => exact ih h
  | choosing id money =>
      cases money with
      | none => cases h
      | some money => cases h; rfl
  | paying => cases h; exact isMoney_moneyOf
  | creditRead | collected | chargeRead => cases h; rfl
  | _ => cases h

theorem rich_of_remembers {position money : ℤ}
    (h : φ.remembers p = some (.customerMoney, position, money)) :
  φ.rich p = true
  := by
  induction φ with
  | printing φ ih => exact ih h
  | choosing => rfl
  | paying => cases p <;> simp [Phase.remembers, moneyOf, Phase.rich, isSenator] at h ⊢
  | _ => cases h

/-- The process has the element of money for itself: it has `moneyLock`, or the money is its own. -/
def Phase.Keeps (p : Process) (mv : Variable) (position : ℤ) (φ : Phase) : Prop :=
  (∃ K, mv = .clerkMoney K) ∧ .moneyLock ∈ held p φ ∧ φ.asking p ≠ some .moneyLock ∨
    isVisitor p = true ∧ mv = moneyOf p ∧ φ.number = some position

theorem keeps_of_remembers (hsuits : φ.suits p = true) {mv : Variable} {position money : ℤ}
    (h : φ.remembers p = some (mv, position, money)) :
  φ.Keeps p mv position
  := by
  obtain ⟨K, rfl⟩ | hvisitor := remembers_moneyOf hsuits h
  · exact .inl ⟨⟨K, rfl⟩, remembers_clerkMoney h⟩
  · exact .inr hvisitor

theorem keeps_of_set (hsuits : φ.suits p = true) {mv : Variable} {position value : ℤ}
    (hmv : isMoney mv = true) (h : onSet p φ mv position value = some φ') :
  φ.Keeps p mv position
  := by
  rcases weight_money hmv h with ⟨hp, rfl, rfl, -⟩ | ⟨money, hmoney, -⟩
  · right
    cases p <;> simp [Phase.suits, isVisitor, isSenator, moneyOf, Phase.number] at hsuits hp ⊢
  · exact keeps_of_remembers hsuits hmoney

end

end Nachos.Office
