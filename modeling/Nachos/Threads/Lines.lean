import Mathlib.Data.Int.ConditionallyCompleteOrder
import Mathlib.Order.ConditionallyCompleteLattice.Basic
import Nachos.Library.Least

/-!
# Choosing a line

In the passport office of `threads/threadtest.cc` a customer who goes to a clerk chooses a line, and
whether to bribe. `goToAppClerk`, `goToPicClerk`, `goToPassClerk` and `goToCashier` do so in the same
way, each for its own clerks.

A customer chooses the first line of least cost (`chooseLine_spec`), and never spends the last 100
dollars on a bribe (`le_bribed`).
-/

namespace Nachos.Threads

inductive ClerkState where
  | free
  | busy
  | «break»
  deriving DecidableEq

structure Clerk where
  state : ClerkState
  lineCount : ℤ
  bribeLineCount : ℤ

/-- The variables of the loops. -/
structure Choice where
  myLine : ℤ
  lineSize : ℤ
  hasBribed : Bool
  deriving DecidableEq

section Choosing

variable (clerk : ℕ → Clerk)

/-- Whether the regular line of clerk `i` is better. -/
def tryLine (c : Choice) (i : ℕ) : Choice :=
  if (clerk i).state = .free ∧ (clerk i).lineCount < c.lineSize then
    ⟨i, (clerk i).lineCount, false⟩
  else if (clerk i).state = .busy ∧ (clerk i).lineCount + 1 < c.lineSize then
    ⟨i, (clerk i).lineCount + 1, false⟩
  else if (clerk i).lineCount + 2 < c.lineSize then
    ⟨i, (clerk i).lineCount + 2, false⟩
  else c

/-- Whether bribing clerk `i` is worth it. -/
def tryBribe (money : ℤ) (c : Choice) (i : ℕ) : Choice :=
  if (clerk i).state ≠ .break ∧ money ≥ 500 ∧ (clerk i).bribeLineCount < c.lineSize then
    ⟨i, (clerk i).bribeLineCount, true⟩
  else c

/-- The loop over the `n` clerks. -/
def bestLine (n : ℕ) (numCustomers money : ℤ) : Choice :=
  (List.range n).foldl (fun c i => tryBribe clerk money (tryLine clerk c i) i)
    ⟨-1, numCustomers + 1, false⟩

/-- The loop in case every clerk was on break and had all customers in line. -/
def shortestLine (n : ℕ) (c : Choice) : Choice :=
  (List.range n).foldl (fun c i =>
    if (clerk i).lineCount < c.lineSize then
      { c with myLine := i, lineSize := (clerk i).lineCount }
    else c) c

/-- The choice of a line, up to where the customer gets in it. -/
def chooseLine (n : ℕ) (numCustomers money : ℤ) : Choice :=
  if (bestLine clerk n numCustomers money).myLine = -1 then
    shortestLine clerk n (bestLine clerk n numCustomers money)
  else bestLine clerk n numCustomers money

end Choosing

/-- The global variables. -/
structure Office where
  numCustomers : ℤ
  numAppClerks : ℕ
  numPicClerks : ℕ
  numPassClerks : ℕ
  numCashiers : ℕ
  appClerk : ℕ → Clerk
  picClerk : ℕ → Clerk
  passClerk : ℕ → Clerk
  cashier : ℕ → Clerk

namespace Customer

/-- The choice in `goToAppClerk`. -/
def goToAppClerk (o : Office) (money : ℤ) : Choice :=
  chooseLine o.appClerk o.numAppClerks o.numCustomers money

/-- The choice in `goToPicClerk`. -/
def goToPicClerk (o : Office) (money : ℤ) : Choice :=
  chooseLine o.picClerk o.numPicClerks o.numCustomers money

/-- The choice in `goToPassClerk`. -/
def goToPassClerk (o : Office) (money : ℤ) : Choice :=
  chooseLine o.passClerk o.numPassClerks o.numCustomers money

/-- The choice in `goToCashier`. -/
def goToCashier (o : Office) (money : ℤ) : Choice :=
  chooseLine o.cashier o.numCashiers o.numCustomers money

end Customer

/-! ### The lines a customer may choose -/

/-- A line: the clerk, and whether it is the one for bribes. -/
structure Candidate where
  clerk : ℕ
  bribe : Bool
  deriving DecidableEq

section Choosing

variable (clerk : ℕ → Clerk)

/-- How much longer a regular line counts. -/
def ClerkState.penalty : ClerkState → ℤ
  | .free => 0
  | .busy => 1
  | .break => 2

def cost (k : Candidate) : ℤ :=
  if k.bribe then (clerk k.clerk).bribeLineCount
  else (clerk k.clerk).lineCount + (clerk k.clerk).state.penalty

/-- The lines of clerk `i`. -/
def lines (money : ℤ) (i : ℕ) : List Candidate :=
  ⟨i, false⟩ :: if (clerk i).state ≠ .break ∧ money ≥ 500 then [⟨i, true⟩] else []

def candidates (n : ℕ) (money : ℤ) : List Candidate := (List.range n).flatMap (lines clerk money)

/-- The variables of the loops when the best line so far is known. -/
def chosen (numCustomers : ℤ) : Option Candidate → Choice
  | none => ⟨-1, numCustomers + 1, false⟩
  | some k => ⟨k.clerk, cost clerk k, k.bribe⟩

variable {clerk} {n : ℕ} {numCustomers money : ℤ}

theorem lineSize_chosen (best : Option Candidate) :
  (chosen clerk numCustomers best).lineSize = Least.bound (cost clerk) (numCustomers + 1) best
  := by
  cases best with
  | none => rfl
  | some k => rfl

theorem tryLine_chosen (best : Option Candidate) (i : ℕ) :
  tryLine clerk (chosen clerk numCustomers best) i =
    chosen clerk numCustomers (Least.better (cost clerk) (numCustomers + 1) best ⟨i, false⟩)
  := by
  have hchosen : chosen clerk numCustomers (some ⟨i, false⟩) =
    ⟨i, (clerk i).lineCount + (clerk i).state.penalty, false⟩ := rfl
  have hcost : cost clerk ⟨i, false⟩ = (clerk i).lineCount + (clerk i).state.penalty := rfl
  rw [tryLine, Least.better, apply_ite (chosen clerk numCustomers), hchosen, hcost, lineSize_chosen]
  generalize Least.bound (cost clerk) (numCustomers + 1) best = size
  cases hstate : (clerk i).state with
  | free =>
      -- what is left of the chain asks for a line that is shorter still
      by_cases hlt : (clerk i).lineCount < size
      · simp [ClerkState.penalty, hlt]
      · have hnot : ¬ (clerk i).lineCount + 2 < size := by omega
        simp [ClerkState.penalty, hlt, hnot]
  | busy =>
      by_cases hlt : (clerk i).lineCount + 1 < size
      · simp [ClerkState.penalty, hlt]
      · have hnot : ¬ (clerk i).lineCount + 2 < size := by omega
        simp [ClerkState.penalty, hlt, hnot]
  | «break» =>
      by_cases hlt : (clerk i).lineCount + 2 < size
      · simp [ClerkState.penalty, hlt]
      · simp [ClerkState.penalty, hlt]

theorem tryBribe_chosen (best : Option Candidate) (i : ℕ)
    (hoffered : (clerk i).state ≠ .break ∧ money ≥ 500) :
  tryBribe clerk money (chosen clerk numCustomers best) i =
    chosen clerk numCustomers (Least.better (cost clerk) (numCustomers + 1) best ⟨i, true⟩)
  := by
  have hchosen : chosen clerk numCustomers (some ⟨i, true⟩) =
    ⟨i, (clerk i).bribeLineCount, true⟩ := rfl
  have hcost : cost clerk ⟨i, true⟩ = (clerk i).bribeLineCount := rfl
  rw [tryBribe, Least.better, apply_ite (chosen clerk numCustomers), hchosen, hcost, lineSize_chosen]
  simp only [hoffered, ne_eq, not_false_eq_true, true_and]

/-- The loop finds the first line of least cost. -/
theorem bestLine_eq :
  bestLine clerk n numCustomers money =
    chosen clerk numCustomers (Least.least (cost clerk) (numCustomers + 1)
      (candidates clerk n money))
  := by
  induction n with
  | zero => rfl
  | succ n ih =>
      have hcandidates : candidates clerk (n + 1) money =
          candidates clerk n money ++ lines clerk money n := by
        rw [candidates, List.range_succ, List.flatMap_append, List.flatMap_singleton, candidates]
      rw [bestLine, List.range_succ, List.foldl_append, ← bestLine, ih, hcandidates,
        Least.least_append]
      simp only [List.foldl_cons, List.foldl_nil, tryLine_chosen]
      generalize Least.least (cost clerk) (numCustomers + 1) (candidates clerk n money) = best
      rw [lines]
      by_cases hoffered : (clerk n).state ≠ .break ∧ money ≥ 500
      · rw [if_pos hoffered, tryBribe_chosen _ _ hoffered]
        rfl
      · rw [if_neg hoffered, tryBribe, if_neg (fun h => hoffered ⟨h.1, h.2.1⟩)]
        rfl

/-- The second loop finds the first clerk with the fewest in line. -/
theorem shortestLine_eq :
  shortestLine clerk n ⟨-1, numCustomers + 1, false⟩ =
    match Least.least (fun i => (clerk i).lineCount) (numCustomers + 1) (List.range n) with
    | none => ⟨-1, numCustomers + 1, false⟩
    | some i => ⟨i, (clerk i).lineCount, false⟩
  := by
  induction n with
  | zero => rfl
  | succ n ih =>
      rw [shortestLine, List.range_succ, List.foldl_append, ← shortestLine, ih, Least.least_append]
      cases Least.least (fun i => (clerk i).lineCount) (numCustomers + 1) (List.range n) with
      | none =>
          by_cases hlt : (clerk n).lineCount < numCustomers + 1
          · simp [Least.better, Least.bound, hlt]
          · simp [Least.better, Least.bound, hlt]
      | some i =>
          by_cases hlt : (clerk n).lineCount < (clerk i).lineCount
          · simp [Least.better, Least.bound, hlt]
          · simp [Least.better, Least.bound, hlt]

theorem mem_candidates {k : Candidate} (h : k ∈ candidates clerk n money) :
  k.clerk < n ∧ (k.bribe = true → money ≥ 500)
  := by
  obtain ⟨i, hi, hk⟩ := List.mem_flatMap.mp h
  rw [lines, List.mem_cons] at hk
  obtain rfl | hk := hk
  · exact ⟨List.mem_range.mp hi, fun hbribe => Bool.noConfusion hbribe⟩
  · split at hk
    · rename_i hoffered
      obtain rfl := List.mem_singleton.mp hk
      exact ⟨List.mem_range.mp hi, fun _ => hoffered.2⟩
    · cases hk

end Choosing

/-- What is chosen among `n` clerks: the first line of least cost if there is one that costs at most
`numCustomers`, and else the regular line of the first clerk with the fewest in line. -/
structure Optimal (clerk : ℕ → Clerk) (n : ℕ) (numCustomers money : ℤ) (c : Choice) : Prop where
  index : ∃ i < n, c.myLine = i
  cheapest : (∃ k ∈ candidates clerk n money, cost clerk k ≤ numCustomers) →
    ∃ k ∈ (candidates clerk n money).argmin (cost clerk), c.myLine = k.clerk ∧ c.hasBribed = k.bribe
  shortest : (∀ k ∈ candidates clerk n money, numCustomers < cost clerk k) →
    c.hasBribed = false ∧
      ∃ i ∈ (List.range n).argmin (fun i => (clerk i).lineCount), c.myLine = i

/-- A customer bribes with money only. -/
theorem money_of_hasBribed {clerk : ℕ → Clerk} {n : ℕ} {numCustomers money : ℤ}
    (h : (chooseLine clerk n numCustomers money).hasBribed = true) :
  money ≥ 500
  := by
  rw [chooseLine, bestLine_eq] at h
  cases hbest : Least.least (cost clerk) (numCustomers + 1) (candidates clerk n money) with
  | none =>
      rw [hbest, chosen, if_pos rfl, shortestLine_eq] at h
      split at h <;> cases h
  | some k =>
      have hmem := Least.mem_of_least hbest
      have hne : ¬ (k.clerk : ℤ) = -1 := by omega
      rw [hbest, chosen, if_neg hne] at h
      exact (mem_candidates hmem).2 h

/-- A clerk that is chosen exists. -/
theorem lt_of_myLine {clerk : ℕ → Clerk} {n : ℕ} {numCustomers money : ℤ} {j : ℕ}
    (h : (chooseLine clerk n numCustomers money).myLine = j) :
  j < n
  := by
  rw [chooseLine, bestLine_eq] at h
  cases hbest : Least.least (cost clerk) (numCustomers + 1) (candidates clerk n money) with
  | none =>
      rw [hbest, chosen, if_pos rfl, shortestLine_eq] at h
      split at h
      · exact absurd h (by simp)
      · rename_i i hleast
        obtain rfl : i = j := Int.ofNat.inj h
        exact List.mem_range.mp (Least.mem_of_least hleast)
  | some k =>
      have hmem := Least.mem_of_least hbest
      have hne : ¬ (k.clerk : ℤ) = -1 := by omega
      rw [hbest, chosen, if_neg hne] at h
      obtain rfl : k.clerk = j := Int.ofNat.inj h
      exact (mem_candidates hmem).1

/-- The choice is optimal when no line has more than all customers. -/
theorem chooseLine_spec {clerk : ℕ → Clerk} {n : ℕ} {numCustomers : ℤ} (money : ℤ) (hn : 0 < n)
    (hlines : ∀ i < n, (clerk i).lineCount ≤ numCustomers) :
  Optimal clerk n numCustomers money (chooseLine clerk n numCustomers money)
  := by
  rw [chooseLine, bestLine_eq]
  by_cases hcheap : ∃ k ∈ candidates clerk n money, cost clerk k < numCustomers + 1
  · have hbest := Least.least_eq_argmin hcheap
    cases hargmin : (candidates clerk n money).argmin (cost clerk) with
    | none =>
        rw [List.argmin_eq_none] at hargmin
        rw [hargmin] at hcheap
        obtain ⟨k, hk, -⟩ := hcheap
        cases hk
    | some k =>
        have hne : ¬ (k.clerk : ℤ) = -1 := by omega
        rw [hbest, hargmin, chosen, if_neg hne]
        constructor
        · exact ⟨k.clerk, (mem_candidates (List.argmin_mem hargmin)).1, rfl⟩
        · exact fun _ => ⟨k, hargmin, rfl, rfl⟩
        · intro hdear
          obtain ⟨k', hk', hlt⟩ := hcheap
          have hgt := hdear k' hk'
          omega
  · have hnone : Least.least (cost clerk) (numCustomers + 1) (candidates clerk n money) = none := by
      apply Least.least_eq_none_iff.mpr
      intro k hk
      by_contra hlt
      exact hcheap ⟨k, hk, not_le.mp hlt⟩
    rw [hnone, chosen, if_pos rfl, shortestLine_eq]
    have hshort : ∃ i ∈ List.range n, (clerk i).lineCount < numCustomers + 1 :=
      ⟨0, List.mem_range.mpr hn, by have := hlines 0 hn; omega⟩
    rw [Least.least_eq_argmin hshort]
    cases hargmin : (List.range n).argmin (fun i => (clerk i).lineCount) with
    | none =>
        rw [List.argmin_eq_none, List.range_eq_nil] at hargmin
        omega
    | some i =>
        constructor
        · exact ⟨i, List.mem_range.mp (List.argmin_mem hargmin), rfl⟩
        · rintro ⟨k, hk, hle⟩
          exact absurd ⟨k, hk, by omega⟩ hcheap
        · exact fun _ => ⟨rfl, i, hargmin, rfl⟩

/-! ### The customers -/

/-- Where a customer goes. -/
inductive Visit where
  | goToAppClerk
  | goToPicClerk
  | goToPassClerk
  | goToCashier
  deriving DecidableEq

namespace Visit

def choose : Visit → Office → ℤ → Choice
  | goToAppClerk => Customer.goToAppClerk
  | goToPicClerk => Customer.goToPicClerk
  | goToPassClerk => Customer.goToPassClerk
  | goToCashier => Customer.goToCashier

def clerk : Visit → Office → ℕ → Clerk
  | goToAppClerk => Office.appClerk
  | goToPicClerk => Office.picClerk
  | goToPassClerk => Office.passClerk
  | goToCashier => Office.cashier

def numClerks : Visit → Office → ℕ
  | goToAppClerk => Office.numAppClerks
  | goToPicClerk => Office.numPicClerks
  | goToPassClerk => Office.numPassClerks
  | goToCashier => Office.numCashiers

theorem choose_eq (v : Visit) (o : Office) (money : ℤ) :
  v.choose o money = chooseLine (v.clerk o) (v.numClerks o) o.numCustomers money
  := by
  cases v <;> rfl

end Visit

/-- The money of a customer who has chosen a line. -/
def pay (money : ℤ) (c : Choice) : ℤ := if c.hasBribed then money - 500 else money

/-- The money of a customer who has chosen lines, each in the passport office as it was then. -/
def bribed (money : ℤ) (choices : List (Visit × Office)) : ℤ :=
  choices.foldl (fun money choice => pay money (choice.1.choose choice.2 money)) money

/-- A customer who starts with 100 dollars and a multiple of 500 keeps these 100 dollars. -/
theorem le_bribed (k : ℕ) (choices : List (Visit × Office)) :
  100 ≤ bribed (100 + 500 * k) choices
  := by
  induction choices generalizing k with
  | nil =>
      rw [bribed, List.foldl_nil]
      omega
  | cons choice choices ih =>
      rw [bribed, List.foldl_cons, ← bribed, pay]
      split
      · rename_i hbribed
        rw [Visit.choose_eq] at hbribed
        have hmoney := money_of_hasBribed hbribed
        obtain ⟨k, rfl⟩ : ∃ j, k = j + 1 := ⟨k - 1, by omega⟩
        have hleft : (100 : ℤ) + 500 * (k + 1 : ℕ) - 500 = 100 + 500 * k := by
          push_cast
          omega
        rw [hleft]
        exact ih k
      · exact ih k

/-- Every line that is chosen is optimal, and no number of choices costs a customer more than can be
spared. -/
theorem lines_spec :
  (∀ (v : Visit) (o : Office) (money : ℤ), 0 < v.numClerks o →
    (∀ i < v.numClerks o, 0 ≤ (v.clerk o i).lineCount ∧ (v.clerk o i).lineCount ≤ o.numCustomers ∧
      0 ≤ (v.clerk o i).bribeLineCount ∧ (v.clerk o i).bribeLineCount ≤ o.numCustomers) →
    Optimal (v.clerk o) (v.numClerks o) o.numCustomers money (v.choose o money)) ∧
  ∀ (k : ℕ) (choices : List (Visit × Office)), 100 ≤ bribed (100 + 500 * k) choices
  := by
  refine ⟨?_, le_bribed⟩
  intro v o money hn hlines
  rw [Visit.choose_eq]
  exact chooseLine_spec money hn (fun i hi => (hlines i hi).2.1)

/-- The passport office of `t1_shortest_line`, with a customer at the first application clerk. -/
def shortest : Office where
  numCustomers := 2
  numAppClerks := 2
  numPicClerks := 1
  numPassClerks := 1
  numCashiers := 1
  appClerk i := ⟨if i = 0 then .busy else .free, 0, 0⟩
  picClerk _ := ⟨.free, 0, 0⟩
  passClerk _ := ⟨.free, 0, 0⟩
  cashier _ := ⟨.free, 0, 0⟩

theorem lines_shortest :
  Optimal shortest.appClerk 2 2 600 (Customer.goToAppClerk shortest 600) ∧
    100 ≤ bribed (100 + 500 * (1 : ℕ)) [(.goToAppClerk, shortest)]
  := by
  constructor
  · exact lines_spec.1 .goToAppClerk shortest 600 (by decide) (by decide)
  · exact lines_spec.2 1 [(.goToAppClerk, shortest)]

end Nachos.Threads
