import Nachos.Simulation.Programs

/-!
# The monitors of the simulation

Which locks a thread of the simulation holds at a position, and what it does up to the next one.
-/

namespace Nachos.Simulation

open Monitor Threads

/-! ### Data -/

@[simp]
theorem Data.clerk_modifyClerk_self (a : ClerkId) (f : Clerk → Clerk) (d : Data) :
  (d.modifyClerk a f).clerk a = f (d.clerk a)
  := Function.update_self _ _ _

theorem Data.clerk_modifyClerk_of_ne {a b : ClerkId} (h : b ≠ a) (f : Clerk → Clerk) (d : Data) :
  (d.modifyClerk a f).clerk b = d.clerk b
  := Function.update_of_ne h _ _

/-! ### Locks and condition variables -/

theorem Kind.number_lt (K : Kind) :
  K.number < 4
  := by
  cases K <;> decide

theorem Kind.number_injective {K K' : Kind} (h : K.number = K'.number) :
  K = K'
  := by
  cases K <;> cases K' <;> first | rfl | cases h

/-- The locks are different. -/
@[simp]
theorem clerkLock_ne (a : ClerkId) :
  clerkLock a ≠ clerkLineLock ∧ clerkLock a ≠ moneyLock ∧ clerkLock a ≠ passPortLock
  := by
  simp only [clerkLock, clerkLineLock, moneyLock, passPortLock]
  omega

theorem eq_of_code {a b : ClerkId} (h : 4 * a.2 + a.1.number = 4 * b.2 + b.1.number) :
  a = b
  := by
  have ha := a.1.number_lt
  have hb := b.1.number_lt
  exact Prod.ext (Kind.number_injective (by omega)) (by omega)

theorem clerkLock_inj {a b : ClerkId} :
  clerkLock a = clerkLock b ↔ a = b
  := by
  constructor
  · intro h
    apply eq_of_code
    simp only [clerkLock] at h
    omega
  · rintro rfl
    rfl

theorem clerkCV_inj {a b : ClerkId} :
  clerkCV a = clerkCV b ↔ a = b
  := by
  constructor
  · intro h
    apply eq_of_code
    simp only [clerkCV] at h
    omega
  · rintro rfl
    rfl

theorem lineCV_inj {a b : ClerkId} {bribe bribe' : Bool} :
  lineCV a bribe = lineCV b bribe' ↔ a = b ∧ bribe = bribe'
  := by
  constructor
  · intro h
    have hcode : 4 * a.2 + a.1.number = 4 * b.2 + b.1.number ∧ bribe = bribe' := by
      cases bribe <;> cases bribe' <;>
        simp [lineCV, clerkLineCV, clerkBribeLineCV] at h ⊢ <;> omega
    exact ⟨eq_of_code hcode.1, hcode.2⟩
  · rintro ⟨rfl, rfl⟩
    rfl

theorem lineCV_ne_clerkCV (a b : ClerkId) (bribe : Bool) :
  lineCV a bribe ≠ clerkCV b
  := by
  cases bribe <;> simp [lineCV, clerkLineCV, clerkBribeLineCV, clerkCV] <;> omega

@[simp]
theorem guard_clerkCV (a : ClerkId) :
  guard (clerkCV a) = clerkLock a
  := by
  have hmod : (3 * (4 * a.2 + a.1.number) + 2) % 3 = 2 := by omega
  rw [guard, clerkCV, clerkLock, if_pos hmod]
  omega

@[simp]
theorem guard_lineCV (a : ClerkId) (bribe : Bool) :
  guard (lineCV a bribe) = clerkLineLock
  := by
  have hmod : lineCV a bribe % 3 ≠ 2 := by
    cases bribe <;> simp only [lineCV, clerkLineCV, clerkBribeLineCV] <;> grind
  rw [guard, if_neg hmod]

/-! ### Threads -/

theorem Thread.ofId_id (t : Thread) :
  Thread.ofId t.id = t
  := by
  cases t with
  | main | manager => rfl
  | clerk a =>
      obtain ⟨K, i⟩ := a
      have hdiv : ∀ m < 5, (5 * i + m) % 5 = m ∧ (5 * i + m) / 5 = i := by
        intro m hm
        omega
      have hid : Thread.id (.clerk (K, i)) = (5 * i + K.number) + 2 := by
        simp only [Thread.id]
        omega
      have hlt := K.number_lt
      rw [hid, Thread.ofId, (hdiv _ (by omega)).1, (hdiv _ (by omega)).2]
      cases K <;> rfl
  | customer c =>
      have hid : Thread.id (.customer c) = (5 * c + 4) + 2 := by
        simp only [Thread.id]
        omega
      have hmod : (5 * c + 4) % 5 = 4 ∧ (5 * c + 4) / 5 = c := by omega
      rw [hid, Thread.ofId, hmod.1, hmod.2]
      rfl

theorem Thread.id_ofId (t : ℕ) :
  (Thread.ofId t).id = t
  := by
  match t with
  | 0 => rfl
  | 1 => rfl
  | t + 2 =>
      have hmod : t % 5 = 0 ∨ t % 5 = 1 ∨ t % 5 = 2 ∨ t % 5 = 3 ∨ t % 5 = 4 := by omega
      obtain h | h | h | h | h := hmod
      all_goals
        simp only [Thread.ofId, h, Thread.id, Kind.number]
        omega

theorem Thread.id_injective {t u : Thread} (h : t.id = u.id) :
  t = u
  := by
  rw [← Thread.ofId_id t, h, Thread.ofId_id]

/-! ### What threads hold -/

/-- The locks that a customer holds. -/
def CustomerPos.held : CustomerPos → List ℕ
  | .lineLock _ | .moneyUnlocked _ _ | .line _ _ _ => [clerkLineLock]
  | .moneyLock _ _ => [clerkLineLock, Simulation.moneyLock]
  | .clerkLock v myLine => [clerkLineLock, Simulation.clerkLock (v.kind, myLine)]
  | .lineUnlocked v myLine | .given v myLine | .served v myLine | .judged v myLine _
  | .retake v myLine _ | .leaving v myLine => [Simulation.clerkLock (v.kind, myLine)]
  | .start | .released _ | .left => []

def ClerkPos.held (a : ClerkId) : ClerkPos → List ℕ
  | .lineLock | .called _ => [clerkLineLock]
  | .clerkLock _ => [clerkLineLock, Simulation.clerkLock a]
  | .moneyLock _ => [Simulation.clerkLock a, Simulation.moneyLock]
  | .passPortLock => [Simulation.clerkLock a, Simulation.passPortLock]
  | .lineUnlocked _ | .waited _ | .working _ _ | .taken _ | .judged _ | .told _ | .moneyUnlocked _
  | .filed | .passPortUnlocked | .left | .breakLock | .onBreak => [Simulation.clerkLock a]
  | .top | .released | .breaking => []

def ManagerPos.held : ManagerPos → List ℕ
  | .clerkLock _ a _ | .signalled _ a _ => [Simulation.clerkLock a]
  | .counting => [moneyLock]
  | _ => []

def Pos.held : Pos → List ℕ
  | .main _ => []
  | .manager p => p.held
  | .clerk a p => p.held a
  | .customer _ p => p.held

/-- The operations in which a thread may wait for a lock. -/
def CustomerPos.last : CustomerPos → Option Kernel.Action
  | .lineLock _ => some (.acquire clerkLineLock)
  | .moneyLock _ _ => some (.acquire Simulation.moneyLock)
  | .line v myLine bribe => some (.wait (lineCV (v.kind, myLine) bribe) (some clerkLineLock))
  | .clerkLock v myLine => some (.acquire (Simulation.clerkLock (v.kind, myLine)))
  | .served v myLine | .retake v myLine _ =>
      some (.wait (clerkCV (v.kind, myLine)) (some (Simulation.clerkLock (v.kind, myLine))))
  | _ => none

def ClerkPos.last (a : ClerkId) : ClerkPos → Option Kernel.Action
  | .lineLock => some (.acquire clerkLineLock)
  | .clerkLock _ | .breakLock => some (.acquire (Simulation.clerkLock a))
  | .waited _ | .judged _ | .left | .onBreak =>
      some (.wait (clerkCV a) (some (Simulation.clerkLock a)))
  | .moneyLock _ => some (.acquire Simulation.moneyLock)
  | .passPortLock => some (.acquire Simulation.passPortLock)
  | _ => none

def ManagerPos.last : ManagerPos → Option Kernel.Action
  | .clerkLock _ a _ => some (.acquire (Simulation.clerkLock a))
  | .counting => some (.acquire moneyLock)
  | _ => none

def Pos.last : Pos → Option Kernel.Action
  | .main _ => none
  | .manager p => p.last
  | .clerk a p => p.last a
  | .customer _ p => p.last

def Pos.holds (p : Pos) (L : ℕ) : Prop := L ∈ p.held

/-! ### The steps -/

/-- The steps of the customer `c`. -/
inductive CustomerStep (S : Setup) (c : ℕ) (d : Data) : CustomerPos → Data → Effect → CustomerPos → Prop where
  | arrive {v : Stage} (hv : v ≠ .cashier) :
      CustomerStep S c d .start (d.modifyCustomer c (fun u => { u with arrived := true }))
        (.call (.acquire clerkLineLock)) (.lineLock v)
  | bribe {v : Stage} {j : ℕ} (hj : j < S.numClerks v.kind) :
      CustomerStep S c d (.lineLock v) (d.spend c 500) (.call (.acquire moneyLock)) (.moneyLock v j)
  | getInLine (v : Stage) (j : ℕ) :
      CustomerStep S c d (.lineLock v)
        (d.modifyClerk (v.kind, j) (fun k => { k with lineCount := k.lineCount + 1 }))
        (.call (.wait (lineCV (v.kind, j) false) (some clerkLineLock))) (.line v j false)
  | pay (v : Stage) (j : ℕ) :
      CustomerStep S c d (.moneyLock v j) (d.addMoney (v.kind, j) 500) (.call (.release moneyLock))
        (.moneyUnlocked v j)
  | getInBribeLine (v : Stage) (j : ℕ) :
      CustomerStep S c d (.moneyUnlocked v j)
        (d.modifyClerk (v.kind, j) (fun k => { k with bribeLineCount := k.bribeLineCount + 1 }))
        (.call (.wait (lineCV (v.kind, j) true) (some clerkLineLock))) (.line v j true)
  | leaveLine (v : Stage) (j : ℕ) (bribe : Bool) :
      CustomerStep S c d (.line v j bribe)
        ((d.modifyClerk (v.kind, j) (fun k =>
          if bribe then { k with bribeLineCount := k.bribeLineCount - 1 }
          else { k with lineCount := k.lineCount - 1 })).setState (v.kind, j) .busy)
        (.call (.acquire (clerkLock (v.kind, j)))) (.clerkLock v j)
  | enter (v : Stage) (j : ℕ) :
      CustomerStep S c d (.clerkLock v j) d (.call (.release clerkLineLock)) (.lineUnlocked v j)
  | give (v : Stage) (j : ℕ) :
      CustomerStep S c d (.lineUnlocked v j)
        (d.modifyClerk (v.kind, j) (fun k => { k with toFile := c })) (signalClerk (v.kind, j))
        (.given v j)
  | wait {v : Stage} (j : ℕ) (hv : v ≠ .cashier) :
      CustomerStep S c d (.given v j) d (waitForClerk (v.kind, j)) (.served v j)
  | spend (j : ℕ) :
      CustomerStep S c d (.given .cashier j) (d.spend c 100) (waitForClerk (.cashier, j))
        (.served .cashier j)
  | judge {v : Stage} (j : ℕ) (picLiked : Bool) {d' : Data} (hv : v.kind = .pic) (hd : d' = d ∨
        d' = d.modifyClerk (v.kind, j) (fun k => { k with picLiked := true })) :
      CustomerStep S c d (.served v j) d' (signalClerk (v.kind, j)) (.judged v j picLiked)
  | leave (v : Stage) (j : ℕ) :
      CustomerStep S c d (.served v j) (d.setState (v.kind, j) .free) (signalClerk (v.kind, j))
        (.leaving v j)
  | waitAgain (v : Stage) (j : ℕ) (picLiked : Bool) :
      CustomerStep S c d (.judged v j picLiked) d (waitForClerk (v.kind, j)) (.retake v j picLiked)
  | retake (v : Stage) (j : ℕ) (picLiked : Bool) :
      CustomerStep S c d (.retake v j picLiked) d (signalClerk (v.kind, j)) (.given v j)
  | release {p : CustomerPos} (v : Stage) (j : ℕ) (hp : p = .leaving v j ∨ p = .retake v j true) :
      CustomerStep S c d p d (.call (.release (clerkLock (v.kind, j)))) (.released v)
  | goOn {v v' : Stage} (hv : v.next = some v') :
      CustomerStep S c d (.released v) d (.call (.acquire clerkLineLock)) (.lineLock v')
  | finish {v : Stage} (hv : v.next = none) : CustomerStep S c d (.released v) d .park .left

variable {S : Setup} {d d' : Data} {e : Effect}

theorem customer_step {c : ℕ} {p p' : CustomerPos} {random : Bool}
    (h : customer S c p d random = some (d', e, p')) :
  CustomerStep S c d p d' e p'
  := by
  cases p with
  | start =>
      obtain ⟨rfl, rfl, rfl⟩ := by simpa [customer] using h
      cases random with
      | true | false => exact .arrive (by decide)
  | lineLock v =>
      simp only [customer] at h
      split at h
      · rename_i j size hchoose
        obtain ⟨rfl, rfl, rfl⟩ := by simpa using h
        exact .bribe (lt_of_myLine (congrArg Choice.myLine hchoose))
      · obtain ⟨rfl, rfl, rfl⟩ := by simpa using h
        exact .getInLine _ _
      · cases h
  | moneyLock v j =>
      obtain ⟨rfl, rfl, rfl⟩ := by simpa [customer] using h
      exact .pay v j
  | moneyUnlocked v j =>
      obtain ⟨rfl, rfl, rfl⟩ := by simpa [customer] using h
      exact .getInBribeLine v j
  | line v j bribe =>
      obtain ⟨rfl, rfl, rfl⟩ := by simpa [customer] using h
      exact .leaveLine v j bribe
  | clerkLock v j =>
      obtain ⟨rfl, rfl, rfl⟩ := by simpa [customer] using h
      exact .enter v j
  | lineUnlocked v j =>
      obtain ⟨rfl, rfl, rfl⟩ := by simpa [customer] using h
      exact .give v j
  | given v j =>
      obtain ⟨rfl, rfl, rfl⟩ := by simpa [customer] using h
      by_cases hv : v = .cashier
      · subst hv
        exact .spend j
      · have hkind : v.kind ≠ .cashier := by
          cases v <;> first | exact absurd rfl hv | decide
        rw [if_neg hkind]
        exact .wait j hv
  | served v j =>
      simp only [customer] at h
      split at h
      · rename_i hv
        split at h
        · obtain ⟨rfl, rfl, rfl⟩ := by simpa using h
          exact .judge j false hv (.inl rfl)
        · obtain ⟨rfl, rfl, rfl⟩ := by simpa using h
          exact .judge j true hv (.inr rfl)
      · obtain ⟨rfl, rfl, rfl⟩ := by simpa using h
        exact .leave v j
  | judged v j picLiked =>
      obtain ⟨rfl, rfl, rfl⟩ := by simpa [customer] using h
      exact .waitAgain v j picLiked
  | retake v j picLiked =>
      cases picLiked with
      | true =>
          obtain ⟨rfl, rfl, rfl⟩ := by simpa [customer] using h
          exact .release v j (.inr rfl)
      | false =>
          obtain ⟨rfl, rfl, rfl⟩ := by simpa [customer] using h
          exact .retake v j false
  | leaving v j =>
      obtain ⟨rfl, rfl, rfl⟩ := by simpa [customer] using h
      exact .release v j (.inl rfl)
  | released v =>
      simp only [customer] at h
      split at h
      · rename_i v' hv
        obtain ⟨rfl, rfl, rfl⟩ := by simpa using h
        exact .goOn hv
      · rename_i hv
        obtain ⟨rfl, rfl, rfl⟩ := by simpa using h
        exact .finish hv
  | left => cases h

/-- The steps of the clerk `a`. -/
inductive ClerkStep (S : Setup) (a : ClerkId) (d : Data) :
    ClerkPos → Data → Effect → ClerkPos → Prop where
  | top : ClerkStep S a d .top d (.call (.acquire clerkLineLock)) .lineLock
  | call (bribe : Bool) :
      ClerkStep S a d .lineLock d (.call (.signal (lineCV a bribe) (some clerkLineLock)))
        (.called bribe)
  | rest : ClerkStep S a d .lineLock (d.setState a .break) (.call (.release clerkLineLock)) .breaking
  | breaking : ClerkStep S a d .breaking d (.call (.acquire (clerkLock a))) .breakLock
  | breakLock : ClerkStep S a d .breakLock d (waitForClerk a) .onBreak
  | onBreak :
      ClerkStep S a d .onBreak (d.setState a .free) (.call (.release (clerkLock a))) .top
  | called (bribe : Bool) :
      ClerkStep S a d (.called bribe) (d.setState a .busy) (.call (.acquire (clerkLock a)))
        (.clerkLock bribe)
  | clerkLock (bribe : Bool) :
      ClerkStep S a d (.clerkLock bribe) d (.call (.release clerkLineLock)) (.lineUnlocked bribe)
  | left : ClerkStep S a d .left d (.call (.release (clerkLock a))) .released
  | released :
      ClerkStep S a d .released (d.setState a .free) (.call (.acquire clerkLineLock)) .lineLock
  | wait (bribe : Bool) {d' : Data}
      (hd : d' = d ∨ d' = d.modifyClerk a (fun k => { k with picLiked := false })) :
      ClerkStep S a d (.lineUnlocked bribe) d' (waitForClerk a) (.waited bribe)
  | begin {bribe : Bool} (hbribe : a.1 = .cashier → bribe = false) :
      ClerkStep S a d (.waited bribe) d (.call .yield) (.working bribe 1)
  | work (bribe : Bool) (n : ℕ) :
      ClerkStep S a d (.working bribe n) d (.call .yield) (.working bribe (n + 1))
  | file (bribe : Bool) (n : ℕ) (ha : a.1 ≠ .cashier) {f : CustomerData → CustomerData}
      (hf : ∀ u, (f u).paid = u.paid) :
      ClerkStep S a d (.working bribe n) (d.modifyCustomer (d.clerk a).toFile f) (signalClerk a) .filed
  | filed (hcount : ¬ (a.1 = .cashier ∧ S.choice = 3)) :
      ClerkStep S a d .filed d (waitForClerk a) .left
  | take (bribe : Bool) (n : ℕ) (ha : a.1 = .pic) :
      ClerkStep S a d (.working bribe n) d (signalClerk a) (.taken bribe)
  | taken (bribe : Bool) (ha : a.1 = .pic) :
      ClerkStep S a d (.taken bribe) d (waitForClerk a) (.judged bribe)
  | judged (bribe : Bool) (ha : a.1 = .pic) :
      ClerkStep S a d (.judged bribe) d (signalClerk a) (.told bribe)
  | liked (bribe : Bool) (ha : a.1 = .pic) :
      ClerkStep S a d (.told bribe)
        (d.modifyCustomer (d.clerk a).toFile (fun u => { u with picture := true }))
        (.call (.release (Simulation.clerkLock a))) .released
  | again (bribe : Bool) (ha : a.1 = .pic) :
      ClerkStep S a d (.told bribe) d (waitForClerk a) (.waited bribe)
  | moneyLock {p : ClerkPos} (bribe : Bool) (ha : a.1 = .cashier)
      (hp : p = .waited true ∧ bribe = true ∨ ∃ n, p = .working false n ∧ bribe = false) :
      ClerkStep S a d p d (.call (.acquire Simulation.moneyLock)) (.moneyLock bribe)
  | addMoney (bribe : Bool) (ha : a.1 = .cashier) :
      ClerkStep S a d (.moneyLock bribe) (d.addMoney a 100) (.call (.release Simulation.moneyLock))
        (.moneyUnlocked bribe)
  | provide (ha : a.1 = .cashier) :
      ClerkStep S a d (.moneyUnlocked true) d (.call .yield) (.working true 1)
  | paid {p : ClerkPos} (ha : a.1 = .cashier)
      (hp : p = .moneyUnlocked false ∨ ∃ n, p = .working true n) :
      ClerkStep S a d p
        (d.modifyCustomer (d.clerk a).toFile (fun u => { u with paid := true })) (signalClerk a) .filed
  | passPortLock (ha : a.1 = .cashier) (hcount : S.choice = 3) :
      ClerkStep S a d .filed d (.call (.acquire Simulation.passPortLock)) .passPortLock
  | count (ha : a.1 = .cashier) :
      ClerkStep S a d .passPortLock { d with numPassports := d.numPassports + 1 }
        (.call (.release Simulation.passPortLock)) .passPortUnlocked
  | passPortUnlocked (ha : a.1 = .cashier) :
      ClerkStep S a d .passPortUnlocked d (waitForClerk a) .left

section

variable {a : ClerkId} {p p' : ClerkPos}

/-- What a clerk of any kind does. -/
theorem clerk_step {serve : ClerkId → ClerkPos → Data → Option (Data × Effect × ClerkPos)}
    (hserve : serve a p d = some (d', e, p') → ClerkStep S a d p d' e p')
    (h : clerk serve a p d = some (d', e, p')) :
  ClerkStep S a d p d' e p'
  := by
  cases p with
  | top =>
      obtain ⟨rfl, rfl, rfl⟩ := by simpa [clerk] using h
      exact .top
  | lineLock =>
      simp only [clerk] at h
      split at h
      · obtain ⟨rfl, rfl, rfl⟩ := by simpa using h
        exact .call true
      · split at h
        · obtain ⟨rfl, rfl, rfl⟩ := by simpa using h
          exact .call false
        · obtain ⟨rfl, rfl, rfl⟩ := by simpa using h
          exact .rest
  | breaking =>
      obtain ⟨rfl, rfl, rfl⟩ := by simpa [clerk] using h
      exact .breaking
  | breakLock =>
      obtain ⟨rfl, rfl, rfl⟩ := by simpa [clerk] using h
      exact .breakLock
  | onBreak =>
      obtain ⟨rfl, rfl, rfl⟩ := by simpa [clerk] using h
      exact .onBreak
  | called bribe =>
      obtain ⟨rfl, rfl, rfl⟩ := by simpa [clerk] using h
      exact .called bribe
  | clerkLock bribe =>
      obtain ⟨rfl, rfl, rfl⟩ := by simpa [clerk] using h
      exact .clerkLock bribe
  | left =>
      obtain ⟨rfl, rfl, rfl⟩ := by simpa [clerk] using h
      exact .left
  | released =>
      obtain ⟨rfl, rfl, rfl⟩ := by simpa [clerk] using h
      exact .released
  | lineUnlocked | waited | working | taken | judged | told | moneyLock | moneyUnlocked | filed
  | passPortLock | passPortUnlocked => exact hserve h

theorem file_step {yields : ℕ} {f : CustomerData → CustomerData} (ha : a.1 ≠ .cashier)
    (hf : ∀ u, (f u).paid = u.paid) (h : file yields f a p d = some (d', e, p')) :
  ClerkStep S a d p d' e p'
  := by
  cases p with
  | lineUnlocked bribe =>
      obtain ⟨rfl, rfl, rfl⟩ := by simpa [file] using h
      exact .wait bribe (.inl rfl)
  | waited bribe =>
      obtain ⟨rfl, rfl, rfl⟩ := by simpa [file] using h
      exact .begin (fun heq => absurd heq ha)
  | working bribe n =>
      simp only [file] at h
      split at h
      · obtain ⟨rfl, rfl, rfl⟩ := by simpa using h
        exact .work bribe n
      · obtain ⟨rfl, rfl, rfl⟩ := by simpa using h
        exact .file bribe n ha hf
  | filed =>
      obtain ⟨rfl, rfl, rfl⟩ := by simpa [file] using h
      exact .filed (fun hcount => ha hcount.1)
  | top | lineLock | breaking | breakLock | onBreak | called | clerkLock | left | released | taken
  | judged | told | moneyLock | moneyUnlocked | passPortLock | passPortUnlocked => cases h

theorem picture_step (ha : a.1 = .pic) (h : pictureClerk a p d = some (d', e, p')) :
  ClerkStep S a d p d' e p'
  := by
  apply clerk_step _ h
  intro h
  cases p with
  | lineUnlocked bribe =>
      obtain ⟨rfl, rfl, rfl⟩ := by simpa using h
      exact .wait bribe (.inr rfl)
  | waited bribe =>
      obtain ⟨rfl, rfl, rfl⟩ := by simpa using h
      exact .begin (fun heq => by rw [ha] at heq; cases heq)
  | working bribe n =>
      simp only at h
      split at h
      · obtain ⟨rfl, rfl, rfl⟩ := by simpa using h
        exact .work bribe n
      · obtain ⟨rfl, rfl, rfl⟩ := by simpa using h
        exact .take bribe n ha
  | taken bribe =>
      obtain ⟨rfl, rfl, rfl⟩ := by simpa using h
      exact .taken bribe ha
  | judged bribe =>
      obtain ⟨rfl, rfl, rfl⟩ := by simpa using h
      exact .judged bribe ha
  | told bribe =>
      simp only at h
      split at h
      · obtain ⟨rfl, rfl, rfl⟩ := by simpa using h
        exact .liked bribe ha
      · obtain ⟨rfl, rfl, rfl⟩ := by simpa using h
        exact .again bribe ha
  | top | lineLock | breaking | breakLock | onBreak | called | clerkLock | left | released | filed
  | moneyLock | moneyUnlocked | passPortLock | passPortUnlocked => cases h

theorem cashier_step (ha : a.1 = .cashier) (h : cashier S a p d = some (d', e, p')) :
  ClerkStep S a d p d' e p'
  := by
  apply clerk_step _ h
  intro h
  cases p with
  | lineUnlocked bribe =>
      obtain ⟨rfl, rfl, rfl⟩ := by simpa using h
      exact .wait bribe (.inl rfl)
  | waited bribe =>
      cases bribe with
      | true =>
          obtain ⟨rfl, rfl, rfl⟩ := by simpa using h
          exact .moneyLock true ha (.inl ⟨rfl, rfl⟩)
      | false =>
          obtain ⟨rfl, rfl, rfl⟩ := by simpa using h
          exact .begin (fun _ => rfl)
  | working bribe n =>
      simp only at h
      split at h
      · obtain ⟨rfl, rfl, rfl⟩ := by simpa using h
        exact .work bribe n
      · cases bribe with
        | true =>
            obtain ⟨rfl, rfl, rfl⟩ := by simpa using h
            exact .paid ha (.inr ⟨n, rfl⟩)
        | false =>
            obtain ⟨rfl, rfl, rfl⟩ := by simpa using h
            exact .moneyLock false ha (.inr ⟨n, rfl, rfl⟩)
  | moneyLock bribe =>
      obtain ⟨rfl, rfl, rfl⟩ := by simpa using h
      exact .addMoney bribe ha
  | moneyUnlocked bribe =>
      cases bribe with
      | true =>
          obtain ⟨rfl, rfl, rfl⟩ := by simpa using h
          exact .provide ha
      | false =>
          obtain ⟨rfl, rfl, rfl⟩ := by simpa using h
          exact .paid ha (.inl rfl)
  | filed =>
      simp only at h
      split at h
      · rename_i hcount
        obtain ⟨rfl, rfl, rfl⟩ := by simpa using h
        exact .passPortLock ha hcount
      · rename_i hcount
        obtain ⟨rfl, rfl, rfl⟩ := by simpa using h
        exact .filed (fun h => hcount h.2)
  | passPortLock =>
      obtain ⟨rfl, rfl, rfl⟩ := by simpa using h
      exact .count ha
  | passPortUnlocked =>
      obtain ⟨rfl, rfl, rfl⟩ := by simpa using h
      exact .passPortUnlocked ha
  | top | lineLock | breaking | breakLock | onBreak | called | clerkLock | left | released | taken
  | judged | told => cases h

theorem run_step (h : run S a p d = some (d', e, p')) :
  ClerkStep S a d p d' e p'
  := by
  rw [run] at h
  cases ha : a.1 with
  | app =>
      rw [ha] at h
      apply clerk_step _ h
      exact file_step (by rw [ha]; decide) (fun _ => rfl)
  | pass =>
      rw [ha] at h
      apply clerk_step _ h
      exact file_step (by rw [ha]; decide) (fun _ => rfl)
  | pic =>
      rw [ha] at h
      exact picture_step ha h
  | cashier =>
      rw [ha] at h
      exact cashier_step ha h

end

/-- The steps of the manager. -/
inductive ManagerStep (S : Setup) (d : Data) :
    ManagerPos → Data → Effect → ManagerPos → Prop where
  | wake {p : ManagerPos} (q : Purpose) (a : ClerkId) (rest : List ClerkId) (hp : p ≠ .closed) :
      ManagerStep S d p d (.call (.acquire (clerkLock a))) (.clerkLock q a rest)
  | yield {p : ManagerPos} (k i : ℕ) (hp : p ≠ .closed) :
      ManagerStep S d p d (.call .yield) (.yielded k i)
  | signal (q : Purpose) (a : ClerkId) (rest : List ClerkId) :
      ManagerStep S d (.clerkLock q a rest) d (signalClerk a) (.signalled q a rest)
  | release (q : Purpose) (a : ClerkId) (rest : List ClerkId) :
      ManagerStep S d (.signalled q a rest) d (.call (.release (clerkLock a))) (.released q rest)
  | count (k i : ℕ) : ManagerStep S d (.yielded k i) d (.call (.acquire moneyLock)) .counting
  | fail (h : S.choice = 6 ∧ (managerCountMoney S d).total ≠ d.totalSpent) :
      ManagerStep S d .counting (managerCountMoney S d) .compute .failed
  | counted (h : ¬ (S.choice = 6 ∧ (managerCountMoney S d).total ≠ d.totalSpent)) :
      ManagerStep S d .counting (managerCountMoney S d) (.call (.release moneyLock)) .counted
  | failClose (hdone : (checkClose S d).1 = true)
      (h : S.choice = 3 ∧ d.numPassports ≠ S.numCustomers) :
      ManagerStep S d .counted d .compute .failed
  | close (hdone : (checkClose S d).1 = true)
      (h : ¬ (S.choice = 3 ∧ d.numPassports ≠ S.numCustomers)) :
      ManagerStep S d .counted (if S.choice = 3 then { d with numPassports := 0 } else d) .park .closed

section

variable {p p' : ManagerPos}

theorem checkLines_step {k : ℕ} {rest : List ClerkId} (hp : p ≠ .closed)
    (h : managerCheckLines k rest d = (d', e, p')) :
  ManagerStep S d p d' e p'
  := by
  rw [managerCheckLines] at h
  split at h
  · obtain ⟨rfl, rfl, rfl⟩ := by simpa using h
    exact .wake _ _ _ hp
  · obtain ⟨rfl, rfl, rfl⟩ := by simpa using h
    exact .yield _ _ hp

theorem wakeClerks_step {rest : List ClerkId} (hp : p ≠ .closed)
    (h : managerWakeClerks S rest d = (d', e, p')) :
  ManagerStep S d p d' e p'
  := by
  rw [managerWakeClerks] at h
  split at h
  · obtain ⟨rfl, rfl, rfl⟩ := by simpa using h
    exact .wake _ _ _ hp
  · exact checkLines_step hp h

theorem manager_step (h : manager S p d = some (d', e, p')) :
  ManagerStep S d p d' e p'
  := by
  cases p with
  | start => exact checkLines_step (by simp) (Option.some.inj h)
  | clerkLock q a rest =>
      obtain ⟨rfl, rfl, rfl⟩ := by simpa [manager] using h
      exact .signal q a rest
  | signalled q a rest =>
      obtain ⟨rfl, rfl, rfl⟩ := by simpa [manager] using h
      exact .release q a rest
  | released q rest =>
      have hgoOn : q.goOn S rest d = (d', e, p') := Option.some.inj h
      cases q with
      | checkLines k => exact checkLines_step (by simp) hgoOn
      | checkClose => exact wakeClerks_step (by simp) hgoOn
  | yielded k i =>
      simp only [manager] at h
      split at h
      · obtain ⟨rfl, rfl, rfl⟩ := by simpa using h
        exact .yield _ _ (by simp)
      · split at h
        · exact checkLines_step (by simp) (Option.some.inj h)
        · obtain ⟨rfl, rfl, rfl⟩ := by simpa using h
          exact .count k i
  | counting =>
      simp only [manager] at h
      split at h
      · rename_i hfail
        obtain ⟨rfl, rfl, rfl⟩ := by simpa using h
        exact .fail hfail
      · rename_i hfail
        obtain ⟨rfl, rfl, rfl⟩ := by simpa using h
        exact .counted hfail
  | counted =>
      simp only [manager] at h
      split at h
      · rename_i hdone
        split at h
        · rename_i hfail
          obtain ⟨rfl, rfl, rfl⟩ := by simpa using h
          exact .failClose hdone hfail
        · rename_i hfail
          obtain ⟨rfl, rfl, rfl⟩ := by simpa using h
          exact .close hdone hfail
      · split at h
        · exact wakeClerks_step (by simp) (Option.some.inj h)
        · exact checkLines_step (by simp) (Option.some.inj h)
  | closed | failed => cases h

end

/-! ### Locks are held where they are used -/

/-- A step from a position where the locks `held` are held to one where `held'` are held and the
operation `last'` has been called. -/
structure Obeys (held : List ℕ) (e : Effect) (held' : List ℕ) (last' : Option Kernel.Action) :
    Prop where
  respects : ∀ L ∈ held', e = .call (.acquire L) ∨ L ∈ held ∧ e ≠ .call (.release L)
  acquires : ∀ L, e = .call (.acquire L) → last' = some (.acquire L)
  waits : ∀ v M, e = .call (.wait v M) →
    last' = some (.wait v M) ∧ M = some (guard v) ∧ guard v ∈ held
  signals : ∀ v M, e = .call (.signal v M) → M = some (guard v) ∧ guard v ∈ held
  broadcasts : ∀ v M, e ≠ .call (.broadcast v M)

variable {held held' : List ℕ} {last' : Option Kernel.Action} {L v : ℕ}

theorem obeys_acquire (hheld : ∀ M ∈ held', M = L ∨ M ∈ held) (hlast : last' = some (.acquire L)) :
  Obeys held (.call (.acquire L)) held' last'
  := by
  refine ⟨?_, ?_, by simp, by simp, by simp⟩
  · intro M hM
    obtain rfl | hM := hheld M hM
    · exact .inl rfl
    · exact .inr ⟨hM, by simp⟩
  · intro M hM
    obtain rfl := by simpa using hM
    exact hlast

theorem obeys_release (hheld : ∀ M ∈ held', M ∈ held ∧ M ≠ L) :
  Obeys held (.call (.release L)) held' last'
  := by
  refine ⟨?_, by simp, by simp, by simp, by simp⟩
  intro M hM
  obtain ⟨hM, hne⟩ := hheld M hM
  exact .inr ⟨hM, by simpa using hne.symm⟩

theorem obeys_wait (hheld : ∀ M ∈ held', M ∈ held) (hL : L = guard v) (hmem : L ∈ held)
    (hlast : last' = some (.wait v (some L))) :
  Obeys held (.call (.wait v (some L))) held' last'
  := by
  subst hL
  refine ⟨fun M hM => .inr ⟨hheld M hM, by simp⟩, by simp, ?_, by simp, by simp⟩
  intro w M hw
  obtain ⟨rfl, rfl⟩ := by simpa using hw
  exact ⟨hlast, rfl, hmem⟩

theorem obeys_signal (hheld : ∀ M ∈ held', M ∈ held) (hL : L = guard v) (hmem : L ∈ held) :
  Obeys held (.call (.signal v (some L))) held' last'
  := by
  subst hL
  refine ⟨fun M hM => .inr ⟨hheld M hM, by simp⟩, by simp, by simp, ?_, by simp⟩
  intro w M hw
  obtain ⟨rfl, rfl⟩ := by simpa using hw
  exact ⟨rfl, hmem⟩

/-- A step that uses neither a lock nor a condition variable. -/
theorem obeys_plain (hheld : ∀ M ∈ held', M ∈ held)
    (he : e = .call .yield ∨ e = .compute ∨ e = .park ∨ ∃ u, e = .wake u) :
  Obeys held e held' last'
  := by
  obtain rfl | rfl | rfl | ⟨u, rfl⟩ := he
  all_goals exact ⟨fun M hM => .inr ⟨hheld M hM, by simp⟩, by simp, by simp, by simp, by simp⟩

theorem CustomerStep.obeys {c : ℕ} {p p' : CustomerPos} (h : CustomerStep S c d p d' e p') :
  Obeys p.held e p'.held p'.last
  := by
  have hne := fun a => clerkLock_ne a
  have hmoney : clerkLineLock ≠ moneyLock := by decide
  cases h with
  | arrive | goOn | bribe | leaveLine =>
      exact obeys_acquire (by simp [CustomerPos.held]) rfl
  | getInLine | getInBribeLine =>
      exact obeys_wait (by simp [CustomerPos.held]) (guard_lineCV _ _).symm (by simp [CustomerPos.held])
        rfl
  | pay => exact obeys_release (by simp [CustomerPos.held, hmoney])
  | enter v j => exact obeys_release (by simp [CustomerPos.held, (hne _).1])
  | give v j | judge j | leave v j | retake v j =>
      exact obeys_signal (by simp [CustomerPos.held]) (guard_clerkCV _).symm (by simp [CustomerPos.held])
  | wait j | spend j | waitAgain v j =>
      exact obeys_wait (by simp [CustomerPos.held, Stage.kind]) (guard_clerkCV _).symm
        (by simp [CustomerPos.held, Stage.kind]) rfl
  | release v j hp => exact obeys_release (by simp [CustomerPos.held])
  | finish => exact obeys_plain (by simp [CustomerPos.held]) (by simp)

theorem ClerkStep.obeys {a : ClerkId} {p p' : ClerkPos} (h : ClerkStep S a d p d' e p') :
  Obeys (p.held a) e (p'.held a) (p'.last a)
  := by
  obtain ⟨hline, hmoney, hpassPort⟩ := clerkLock_ne a
  cases h with
  | top | breaking | called | released =>
      exact obeys_acquire (by simp [ClerkPos.held]) rfl
  | call bribe =>
      exact obeys_signal (by simp [ClerkPos.held]) (guard_lineCV _ _).symm (by simp [ClerkPos.held])
  | rest | onBreak | left => exact obeys_release (by simp [ClerkPos.held])
  | liked => exact obeys_release (by simp [ClerkPos.held])
  | clerkLock => exact obeys_release (by simp [ClerkPos.held, hline])
  | breakLock | wait | filed | taken | again | passPortUnlocked =>
      exact obeys_wait (by simp [ClerkPos.held]) (guard_clerkCV a).symm (by simp [ClerkPos.held]) rfl
  | begin | work | provide => exact obeys_plain (by simp [ClerkPos.held]) (by simp)
  | file | take | judged =>
      exact obeys_signal (by simp [ClerkPos.held]) (guard_clerkCV a).symm (by simp [ClerkPos.held])
  | moneyLock bribe ha hp =>
      obtain ⟨rfl, rfl⟩ | ⟨n, rfl, rfl⟩ := hp
      all_goals exact obeys_acquire (by simp [ClerkPos.held, or_comm]) rfl
  | addMoney => exact obeys_release (by simp [ClerkPos.held, hmoney])
  | paid ha hp =>
      obtain rfl | ⟨n, rfl⟩ := hp
      all_goals
        exact obeys_signal (by simp [ClerkPos.held]) (guard_clerkCV a).symm (by simp [ClerkPos.held])
  | passPortLock => exact obeys_acquire (by simp [ClerkPos.held, or_comm]) rfl
  | count => exact obeys_release (by simp [ClerkPos.held, hpassPort])

theorem ManagerStep.obeys {p p' : ManagerPos} (h : ManagerStep S d p d' e p') :
  Obeys p.held e p'.held p'.last
  := by
  cases h with
  | wake | count => exact obeys_acquire (by simp [ManagerPos.held]) rfl
  | yield | fail | failClose | close => exact obeys_plain (by simp [ManagerPos.held]) (by simp)
  | signal =>
      exact obeys_signal (by simp [ManagerPos.held]) (guard_clerkCV _).symm (by simp [ManagerPos.held])
  | release | counted => exact obeys_release (by simp [ManagerPos.held])

/-- One step of a thread. -/
inductive ThreadStep (S : Setup) (d : Data) : Pos → Data → Effect → Pos → Prop where
  | wake (t : Thread) (ts : List Thread) : ThreadStep S d (.main (t :: ts)) d (.wake t.id) (.main ts)
  | yield (ts : List Thread) : ThreadStep S d (.main ts) d (.call .yield) (.main ts)
  | park : ThreadStep S d (.main []) d .park (.main [])
  | manager {p p' : ManagerPos} {d' : Data} {e : Effect} (h : ManagerStep S d p d' e p') :
      ThreadStep S d (.manager p) d' e (.manager p')
  | clerk {a : ClerkId} {p p' : ClerkPos} {d' : Data} {e : Effect} (h : ClerkStep S a d p d' e p') :
      ThreadStep S d (.clerk a p) d' e (.clerk a p')
  | customer {c : ℕ} {p p' : CustomerPos} {d' : Data} {e : Effect}
      (h : CustomerStep S c d p d' e p') :
      ThreadStep S d (.customer c p) d' e (.customer c p')

variable {p p' : Pos}

theorem next_step {random : Bool} (h : next S random d p = some (d', e, p')) :
  ThreadStep S d p d' e p'
  := by
  cases p with
  | main ts =>
      cases ts with
      | nil =>
          obtain ⟨rfl, rfl, rfl⟩ := by simpa [next] using h
          exact .park
      | cons t ts =>
          simp only [next] at h
          split at h
          · obtain ⟨rfl, rfl, rfl⟩ := by simpa using h
            exact .yield _
          · obtain ⟨rfl, rfl, rfl⟩ := by simpa using h
            exact .wake t ts
  | manager p =>
      obtain ⟨⟨d', e, p'⟩, hstep, heq⟩ := Option.map_eq_some_iff.mp h
      obtain ⟨rfl, rfl, rfl⟩ := by simpa using heq
      exact .manager (manager_step hstep)
  | clerk a p =>
      obtain ⟨⟨d', e, p'⟩, hstep, heq⟩ := Option.map_eq_some_iff.mp h
      obtain ⟨rfl, rfl, rfl⟩ := by simpa using heq
      exact .clerk (run_step hstep)
  | customer c p =>
      obtain ⟨⟨d', e, p'⟩, hstep, heq⟩ := Option.map_eq_some_iff.mp h
      obtain ⟨rfl, rfl, rfl⟩ := by simpa using heq
      exact .customer (customer_step hstep)

theorem ThreadStep.obeys (h : ThreadStep S d p d' e p') :
  Obeys p.held e p'.held p'.last
  := by
  cases h with
  | wake | yield | park => exact obeys_plain (by simp [Pos.held]) (by simp)
  | manager h => exact h.obeys
  | clerk h => exact h.obeys
  | customer h => exact h.obeys

/-- The simulation uses monitors. -/
theorem code_monitored (S : Setup) :
  (code S).Monitored Pos.holds Pos.last guard
  := by
  have hobeys : ∀ {t p d random d' e p'}, (code S).next t p d random = some (d', e, p') →
      Obeys p.held e p'.held p'.last := fun hnext => (next_step hnext).obeys
  constructor
  · exact fun t p d random d' e p' hnext => (hobeys hnext).respects
  · rintro t p d random d' a p' hnext ⟨L, hL⟩
    cases a with
    | acquire M => exact (hobeys hnext).acquires M rfl
    | wait v M => exact ((hobeys hnext).waits v M rfl).1
    | release | signal | broadcast | yield | preempt | proceed =>
        exact absurd hL (by simp [Kernel.Action.Acquires])
  · exact fun t p d random d' v M p' hnext => ((hobeys hnext).waits v M rfl).2
  · exact fun t p d random d' v M p' hnext => (hobeys hnext).signals v M rfl
  · exact fun t p d random d' v M p' hnext => (hobeys hnext).broadcasts v M rfl
  · exact fun _ _ => rfl

end Nachos.Simulation
