import Mathlib.Logic.Function.Basic
import Mathlib.Data.Nat.Find
import Mathlib.Data.List.GetD
import Mathlib.Data.List.Nodup
import Nachos.Library.Run

/-!
# Threads that take locks

Threads make calls. A call is a list of statements, which acquire and release locks and change shared
data. A lock has an owner and a queue; a thread that acquires a lock which another thread owns is put
into the queue, and the owner hands the lock to the first thread in the queue. Between statements any
other thread may go on.

* The locks that a thread holds when a call has returned depend on the call, and on the locks that it
  held before (`Run.held_of_returned`).
* If every call acquires locks in the order of their ranks and releases all of them, then in a fair run
  every thread that waits for a lock obtains it (`Run.obtains`).
-/

namespace Locks

inductive Statement (σ : Type) where
  | acquire (L : ℕ)
  | release (L : ℕ)
  /-- The thread changes the data. -/
  | compute (f : ℕ → σ → σ)

structure Lock where
  owner : Option ℕ
  queue : List ℕ

/-- The state of threads that share data in `σ` and make calls in `κ`. -/
structure State (κ σ : Type) where
  locks : ℕ → Lock
  data : σ
  /-- The call that a thread has made last. -/
  call : ℕ → Option κ
  /-- What a thread has still to execute of it. -/
  rest : ℕ → List (Statement σ)
  /-- The lock in whose queue a thread is. -/
  waits : ℕ → Option ℕ
  /-- The locks that a thread has acquired and not released. It may be waiting for one of them. -/
  held : ℕ → List ℕ
  /-- The locks that it held when it made the call. -/
  before : ℕ → List ℕ

inductive Action (κ : Type) where
  | call (t : ℕ) (c : κ)
  /-- The thread executes the next statement. -/
  | go (t : ℕ)
  | idle

/-- The actions of the thread `t`. -/
def Action.isOf {κ : Type} (t : ℕ) : Action κ → Prop
  | .call u _ | .go u => u = t
  | .idle => False

/-- The locks that a thread holds after a statement. -/
def Statement.after {σ : Type} (held : List ℕ) : Statement σ → List ℕ
  | .acquire L => L :: held
  | .release L => held.filter (fun M => M ≠ L)
  | .compute _ => held

/-- The locks that a thread holds after statements. -/
def finish {σ : Type} (held : List ℕ) (ps : List (Statement σ)) : List ℕ :=
  ps.foldl Statement.after held

/-- A thread that holds some locks acquires others in the order of their ranks, and holds none in the
end. -/
def Ordered {σ : Type} (rank : ℕ → ℕ) : List ℕ → List (Statement σ) → Prop
  | held, [] => held = []
  | held, .acquire L :: ps => (∀ M ∈ held, rank M < rank L) ∧ Ordered rank (L :: held) ps
  | held, .release L :: ps => Ordered rank (held.filter (fun M => M ≠ L)) ps
  | held, .compute _ :: ps => Ordered rank held ps

variable {κ σ : Type}

namespace State

def acquire (t L : ℕ) (s : State κ σ) : State κ σ :=
  if (s.locks L).owner = some t then s
  else if (s.locks L).owner = none then
    { s with locks := Function.update s.locks L ⟨some t, (s.locks L).queue⟩ }
  else
    { s with
      locks := Function.update s.locks L ⟨(s.locks L).owner, (s.locks L).queue ++ [t]⟩
      waits := Function.update s.waits t (some L) }

def release (t L : ℕ) (s : State κ σ) : State κ σ :=
  if (s.locks L).owner = some t then
    match (s.locks L).queue with
    | [] => { s with locks := Function.update s.locks L ⟨none, []⟩ }
    | u :: us =>
        { s with
          locks := Function.update s.locks L ⟨some u, us⟩
          waits := Function.update s.waits u none }
  else s

def execute (t : ℕ) (s : State κ σ) : Statement σ → State κ σ
  | .acquire L => s.acquire t L
  | .release L => s.release t L
  | .compute f => { s with data := f t s.data }

/-- The thread has executed the first of the statements `p :: ps`. -/
def advance (t : ℕ) (p : Statement σ) (ps : List (Statement σ)) (s : State κ σ) : State κ σ :=
  { s.execute t p with
    rest := Function.update s.rest t ps
    held := Function.update s.held t (p.after (s.held t)) }

def start (t : ℕ) (c : κ) (ps : List (Statement σ)) (s : State κ σ) : State κ σ :=
  { s with
    call := Function.update s.call t (some c)
    rest := Function.update s.rest t ps
    before := Function.update s.before t (s.held t) }

/-- An action, where the call `c` consists of the statements `body c`. -/
def step (body : κ → List (Statement σ)) (s : State κ σ) : Action κ → Option (State κ σ)
  | .call t c =>
      match s.waits t, s.rest t with
      | none, [] => some (s.start t c (body c))
      | _, _ => none
  | .go t =>
      match s.waits t, s.rest t with
      | none, p :: ps => some (s.advance t p ps)
      | _, _ => none
  | .idle => some s

def initial (d : σ) : State κ σ where
  locks _ := ⟨none, []⟩
  data := d
  call _ := none
  rest _ := []
  waits _ := none
  held _ := []
  before _ := []

/-! ### The invariant -/

/-- The locks that threads hold are those that they own or wait for. -/
structure Ok (s : State κ σ) : Prop where
  mem_held : ∀ t L, L ∈ s.held t ↔ (s.locks L).owner = some t ∨ s.waits t = some L
  waiting : ∀ t L, t ∈ (s.locks L).queue ↔ s.waits t = some L
  nodup : ∀ L, (s.locks L).queue.Nodup
  owned : ∀ L, (s.locks L).owner = none → (s.locks L).queue = []
  notOwner : ∀ t L, s.waits t = some L → (s.locks L).owner ≠ some t

variable {s s' : State κ σ} {t u L M : ℕ} {body : κ → List (Statement σ)}

/-- A thread that acquires a lock owns it then, or waits for it. -/
theorem Ok.acquire (h : s.Ok) (hwaits : s.waits t = none) (L : ℕ) :
  { s.acquire t L with held := Function.update s.held t (L :: s.held t) }.Ok
  := by
  obtain ⟨hheld, hwaiting, hnodup, howned, hnotOwner⟩ := h
  rw [State.acquire]
  split
  · constructor <;> grind [Function.update_apply]
  · split
    · constructor <;> grind [Function.update_apply]
    · constructor <;> grind [Function.update_apply]

theorem Ok.release (h : s.Ok) (hwaits : s.waits t = none) (L : ℕ) :
  { s.release t L with held := Function.update s.held t ((s.held t).filter (fun M => M ≠ L)) }.Ok
  := by
  obtain ⟨hheld, hwaiting, hnodup, howned, hnotOwner⟩ := h
  rw [State.release]
  split
  · split
    · constructor <;> grind [Function.update_apply]
    · rename_i u us hqueue
      -- the new owner was waiting for this lock and no other
      have hu : s.waits u = some L := (hwaiting u L).mp (by simp [hqueue])
      have hus : (u :: us).Nodup := hqueue ▸ hnodup L
      have hmem : ∀ v, v ∈ u :: us ↔ s.waits v = some L := fun v => hqueue ▸ hwaiting v L
      constructor <;> grind [Function.update_apply]
  · constructor <;> grind [Function.update_apply]

theorem Ok.advance (h : s.Ok) (hwaits : s.waits t = none) (p : Statement σ)
    (ps : List (Statement σ)) :
  (s.advance t p ps).Ok
  := by
  cases p with
  | acquire L =>
      obtain ⟨hheld, hwaiting, hnodup, howned, hnotOwner⟩ := h.acquire hwaits L
      exact ⟨hheld, hwaiting, hnodup, howned, hnotOwner⟩
  | release L =>
      obtain ⟨hheld, hwaiting, hnodup, howned, hnotOwner⟩ := h.release hwaits L
      exact ⟨hheld, hwaiting, hnodup, howned, hnotOwner⟩
  | compute f =>
      refine ⟨?_, h.waiting, h.nodup, h.owned, h.notOwner⟩
      have hsame : (s.advance t (.compute f) ps).held = s.held := Function.update_eq_self t s.held
      rw [hsame]
      exact h.mem_held

/-- What an action does. -/
theorem step_cases {a : Action κ} (hstep : s.step body a = some s') :
  (∃ t c, a = .call t c ∧ s.waits t = none ∧ s.rest t = [] ∧ s' = s.start t c (body c)) ∨
    (∃ t p ps, a = .go t ∧ s.waits t = none ∧ s.rest t = p :: ps ∧ s' = s.advance t p ps) ∨
    a = .idle ∧ s' = s
  := by
  cases a with
  | call t c =>
      simp only [step] at hstep
      split at hstep
      · rename_i hwaits hrest
        exact .inl ⟨t, c, rfl, hwaits, hrest, (Option.some.inj hstep).symm⟩
      · cases hstep
  | go t =>
      simp only [step] at hstep
      split at hstep
      · rename_i p ps hwaits hrest
        exact .inr (.inl ⟨t, p, ps, rfl, hwaits, hrest, (Option.some.inj hstep).symm⟩)
      · cases hstep
  | idle => exact .inr (.inr ⟨rfl, (Option.some.inj hstep).symm⟩)

theorem Ok.step (h : s.Ok) {a : Action κ} (hstep : s.step body a = some s') :
  s'.Ok
  := by
  obtain ⟨t, c, -, -, -, rfl⟩ | ⟨t, p, ps, -, hwaits, -, rfl⟩ | ⟨-, rfl⟩ := step_cases hstep
  · exact ⟨h.mem_held, h.waiting, h.nodup, h.owned, h.notOwner⟩
  · exact h.advance hwaits p ps
  · exact h

theorem ok_initial (d : σ) :
  (initial d : State κ σ).Ok
  := by
  constructor <;> simp [initial]

/-! ### What other threads do -/

/-- Nothing that other threads do changes where the thread `t` is, except that it may obtain the lock
for which it waits. -/
structure Same (t : ℕ) (s s' : State κ σ) : Prop where
  call : s'.call t = s.call t
  rest : s'.rest t = s.rest t
  held : s'.held t = s.held t
  before : s'.before t = s.before t
  waits : s'.waits t = s.waits t ∨ s'.waits t = none

theorem Same.refl (t : ℕ) (s : State κ σ) :
  Same t s s
  := ⟨rfl, rfl, rfl, rfl, .inl rfl⟩

theorem Same.trans {s₁ s₂ s₃ : State κ σ} (h : Same t s₁ s₂) (h' : Same t s₂ s₃) :
  Same t s₁ s₃
  where
  call := h'.call.trans h.call
  rest := h'.rest.trans h.rest
  held := h'.held.trans h.held
  before := h'.before.trans h.before
  waits := by
    obtain hwaits | hwaits := h'.waits
    · rw [hwaits]
      exact h.waits
    · exact .inr hwaits

theorem waits_execute (hut : u ≠ t) (p : Statement σ) :
  (s.execute t p).waits u = s.waits u ∨ (s.execute t p).waits u = none
  := by
  cases p with
  | acquire L =>
      rw [execute, State.acquire]
      split
      · exact .inl rfl
      · split
        · exact .inl rfl
        · exact .inl (Function.update_of_ne hut _ _)
  | release L =>
      rw [execute, State.release]
      split
      · split
        · exact .inl rfl
        · rename_i v vs _
          by_cases huv : u = v
          · subst huv
            exact .inr (Function.update_self _ _ _)
          · exact .inl (Function.update_of_ne huv _ _)
      · exact .inl rfl
  | compute f => exact .inl rfl

theorem fields_execute (t : ℕ) (p : Statement σ) (s : State κ σ) :
  (s.execute t p).call = s.call ∧ (s.execute t p).before = s.before
  := by
  cases p with
  | acquire L =>
      rw [execute, State.acquire]
      split
      · exact ⟨rfl, rfl⟩
      · split <;> exact ⟨rfl, rfl⟩
  | release L =>
      rw [execute, State.release]
      split
      · split <;> exact ⟨rfl, rfl⟩
      · exact ⟨rfl, rfl⟩
  | compute f => exact ⟨rfl, rfl⟩

theorem same_of_step {a : Action κ} (hstep : s.step body a = some s') (ha : ¬ a.isOf u) :
  Same u s s'
  := by
  obtain ⟨t, c, rfl, -, -, rfl⟩ | ⟨t, p, ps, rfl, -, -, rfl⟩ | ⟨rfl, rfl⟩ := step_cases hstep
  · have hut : u ≠ t := fun heq => ha heq.symm
    exact ⟨Function.update_of_ne hut _ _, Function.update_of_ne hut _ _, rfl,
      Function.update_of_ne hut _ _, .inl rfl⟩
  · have hut : u ≠ t := fun heq => ha heq.symm
    obtain ⟨hcall, hbefore⟩ := fields_execute t p s
    exact ⟨congrFun hcall u, Function.update_of_ne hut _ _, Function.update_of_ne hut _ _,
      congrFun hbefore u, waits_execute hut p⟩
  · exact .refl u _

/-- While a thread is in the queue of a lock nobody comes in front of it, and one thread leaves when
the lock changes its owner. -/
theorem Ok.idxOf_step (h : s.Ok) {a : Action κ} (hstep : s.step body a = some s')
    (hu : s.waits u = some L) (hu' : s'.waits u = some L) :
  (s'.locks L).queue.idxOf u ≤ (s.locks L).queue.idxOf u ∧
    ((s'.locks L).owner ≠ (s.locks L).owner →
      (s'.locks L).queue.idxOf u < (s.locks L).queue.idxOf u)
  := by
  obtain ⟨t, c, -, -, -, rfl⟩ | ⟨t, p, ps, -, hwaits, -, rfl⟩ | ⟨-, rfl⟩ := step_cases hstep
  · exact ⟨Nat.le_refl _, fun hne => absurd rfl hne⟩
  · have hmem : u ∈ (s.locks L).queue := (h.waiting u L).mpr hu
    have howner : (s.locks L).owner ≠ none := by
      intro hnone
      rw [h.owned L hnone] at hmem
      cases hmem
    have hsame : ∀ {s' : State κ σ}, s'.locks L = s.locks L →
        (s'.locks L).queue.idxOf u ≤ (s.locks L).queue.idxOf u ∧
          ((s'.locks L).owner ≠ (s.locks L).owner →
            (s'.locks L).queue.idxOf u < (s.locks L).queue.idxOf u) := by
      intro s' heq
      rw [heq]
      exact ⟨Nat.le_refl _, fun hne => absurd rfl hne⟩
    cases p with
    | compute f => exact hsame rfl
    | acquire M =>
        simp only [State.advance, execute, State.acquire]
        split
        · exact hsame rfl
        · split
          · rename_i hfree
            apply hsame
            apply Function.update_of_ne
            rintro rfl
            exact howner hfree
          · by_cases hML : L = M
            · subst hML
              simp only [Function.update_self, List.idxOf_append_of_mem hmem]
              exact ⟨Nat.le_refl _, fun hne => absurd rfl hne⟩
            · exact hsame (Function.update_of_ne hML _ _)
    | release M =>
        simp only [State.advance, execute, State.release] at hu' ⊢
        split
        · rename_i hown
          rw [if_pos hown] at hu'
          split
          · rename_i hempty
            apply hsame
            apply Function.update_of_ne
            rintro rfl
            rw [hempty] at hmem
            cases hmem
          · rename_i v vs hqueue
            simp only [hqueue] at hu'
            by_cases hML : L = M
            · subst hML
              have huv : v ≠ u := by
                rintro rfl
                rw [Function.update_self] at hu'
                cases hu'
              simp only [Function.update_self, hqueue, List.idxOf_cons_ne _ huv]
              exact ⟨Nat.le_succ _, fun _ => Nat.lt_succ_self _⟩
            · exact hsame (Function.update_of_ne hML _ _)
        · exact hsame rfl
  · exact ⟨Nat.le_refl _, fun hne => absurd rfl hne⟩

/-! ### Calls -/

/-- The statements of a call that have been executed account for the locks that the thread holds. -/
def Follows (body : κ → List (Statement σ)) (s : State κ σ) : Prop :=
  ∀ t, (s.call t = none → s.rest t = [] ∧ s.held t = []) ∧
    ∀ c, s.call t = some c → ∃ ps, body c = ps ++ s.rest t ∧ s.held t = finish (s.before t) ps

theorem Follows.step (h : s.Follows body) {a : Action κ} (hstep : s.step body a = some s') :
  s'.Follows body
  := by
  intro u
  by_cases ha : a.isOf u
  · obtain ⟨t, c, rfl, -, -, rfl⟩ | ⟨t, p, ps, rfl, -, hrest, rfl⟩ | ⟨rfl, rfl⟩ := step_cases hstep
    · obtain rfl : t = u := ha
      constructor
      · intro hnone
        simp [start] at hnone
      · intro d hd
        have hcd : c = d := by simpa [start] using hd
        subst hcd
        exact ⟨[], by simp [start], by simp [start, finish]⟩
    · obtain rfl : t = u := ha
      obtain ⟨hcall, hbefore⟩ := fields_execute t p s
      have hcall' : (s.advance t p ps).call t = s.call t := congrFun hcall t
      rw [hcall']
      constructor
      · intro hnone
        rw [((h t).1 hnone).1] at hrest
        cases hrest
      · intro c hc
        obtain ⟨qs, hqs, hheld⟩ := (h t).2 c hc
        refine ⟨qs ++ [p], ?_, ?_⟩
        · rw [hqs, hrest]
          simp [advance]
        · have hbefore' : (s.advance t p ps).before t = s.before t := congrFun hbefore t
          rw [hbefore', finish, List.foldl_append]
          simp only [advance, Function.update_self, hheld]
          rfl
    · cases ha
  · obtain ⟨hcall, hrest, hheld, hbefore, -⟩ := same_of_step hstep ha
    rw [hcall, hrest, hheld, hbefore]
    exact h u

theorem follows_initial (d : σ) :
  (initial d : State κ σ).Follows body
  := by
  intro t
  simp [initial]

/-! ### Calls that take locks in order -/

variable {rank : ℕ → ℕ}

structure Orderly (rank : ℕ → ℕ) (s : State κ σ) : Prop where
  ordered : ∀ t, Ordered rank (s.held t) (s.rest t)
  /-- The lock for which a thread is waiting comes after those that it holds. -/
  last : ∀ t L, s.waits t = some L → ∀ M ∈ s.held t, M ≠ L → rank M < rank L

theorem Orderly.step (h : s.Orderly rank) {a : Action κ} (hstep : s.step body a = some s')
    (ha : ∀ t c, a = .call t c → Ordered rank [] (body c)) :
  s'.Orderly rank
  := by
  have hother : ∀ u, ¬ a.isOf u → Ordered rank (s'.held u) (s'.rest u) ∧
      ∀ L, s'.waits u = some L → ∀ M ∈ s'.held u, M ≠ L → rank M < rank L := by
    intro u hu
    obtain ⟨-, hrest, hheld, -, hwaits⟩ := same_of_step hstep hu
    rw [hrest, hheld]
    refine ⟨h.ordered u, ?_⟩
    intro L hL
    obtain hwaits | hwaits := hwaits
    · exact h.last u L (hwaits.symm.trans hL)
    · cases hwaits.symm.trans hL
  suffices hall : ∀ u, Ordered rank (s'.held u) (s'.rest u) ∧
      ∀ L, s'.waits u = some L → ∀ M ∈ s'.held u, M ≠ L → rank M < rank L from
    ⟨fun u => (hall u).1, fun u => (hall u).2⟩
  intro u
  by_cases hu : a.isOf u
  · obtain ⟨t, c, rfl, hwaits, hrest, rfl⟩ | ⟨t, p, ps, rfl, hwaits, hrest, rfl⟩ | ⟨rfl, rfl⟩ :=
      step_cases hstep
    · obtain rfl : t = u := hu
      have hnone := h.ordered t
      rw [hrest] at hnone
      constructor
      · simp only [start, Function.update_self]
        rw [show s.held t = [] from hnone]
        exact ha t c rfl
      · intro L hL
        cases hwaits.symm.trans hL
    · obtain rfl : t = u := hu
      have hordered := h.ordered t
      rw [hrest] at hordered
      simp only [advance, Function.update_self]
      cases p with
      | acquire L =>
          obtain ⟨hlt, hps⟩ := hordered
          refine ⟨hps, ?_⟩
          intro M hM N hN hne
          have hML : M = L := by
            simp only [execute, State.acquire] at hM
            split at hM
            · cases hwaits.symm.trans hM
            · split at hM
              · cases hwaits.symm.trans hM
              · simpa using hM.symm
          subst hML
          exact hlt N ((List.mem_cons.mp hN).resolve_left hne)
      | release L =>
          refine ⟨hordered, ?_⟩
          intro M hM
          have hnone : ((s.release t L).waits t) = none := by
            rw [State.release]
            split
            · split
              · exact hwaits
              · rename_i v vs _
                by_cases htv : t = v
                · rw [htv]
                  exact Function.update_self _ _ _
                · exact (Function.update_of_ne htv _ _).trans hwaits
            · exact hwaits
          cases hnone.symm.trans hM
      | compute f =>
          refine ⟨hordered, ?_⟩
          intro M hM
          cases hwaits.symm.trans hM
    · cases hu
  · exact hother u hu

theorem orderly_initial (d : σ) :
  (initial d : State κ σ).Orderly rank
  := by
  constructor
  · exact fun _ => rfl
  · intro t L hL
    cases hL

end State

/-! ### Runs -/

/-- What threads do, one action after another, from the start. -/
structure Run (body : κ → List (Statement σ)) (d : σ) where
  state : ℕ → State κ σ
  action : ℕ → Action κ
  start : state 0 = State.initial d
  step : ∀ n, (state n).step body (action n) = some (state (n + 1))

namespace Run

variable {body : κ → List (Statement σ)} {d : σ} {r : Run body d} {n m t L : ℕ}

/-- A thread that is in a call and not waiting for a lock is not passed over for ever. -/
def Fair (r : Run body d) : Prop :=
  ∀ n t, (r.state n).rest t ≠ [] → (r.state n).waits t = none → ∃ m ≥ n, r.action m = .go t

/-- An invariant of the actions holds in every state. -/
theorem invariant {I : State κ σ → Prop} (r : Run body d) (hinitial : I (State.initial d))
    (hstep : ∀ n, I (r.state n) → I (r.state (n + 1))) (n : ℕ) :
  I (r.state n)
  := by
  induction n with
  | zero =>
      rw [r.start]
      exact hinitial
  | succ n ih => exact hstep n ih

theorem ok (r : Run body d) (n : ℕ) :
  (r.state n).Ok
  := r.invariant (State.ok_initial d) (fun n h => h.step (r.step n)) n

theorem follows (r : Run body d) (n : ℕ) :
  (r.state n).Follows body
  := r.invariant (State.follows_initial d) (fun n h => h.step (r.step n)) n

theorem orderly {rank : ℕ → ℕ} (r : Run body d) (n : ℕ)
    (hcalls : ∀ k < n, ∀ t c, r.action k = .call t c → Ordered rank [] (body c)) :
  (r.state n).Orderly rank
  := by
  induction n with
  | zero =>
      rw [r.start]
      exact State.orderly_initial d
  | succ n ih =>
      exact (ih (fun k hk => hcalls k (Nat.lt_succ_of_lt hk))).step (r.step n)
        (hcalls n (Nat.lt_succ_self n))

/-- The call that a thread has made last has been made. -/
theorem exists_call {c : κ} (r : Run body d) (n : ℕ) (hcall : (r.state n).call t = some c) :
  ∃ k < n, r.action k = .call t c
  := by
  induction n with
  | zero =>
      rw [r.start] at hcall
      cases hcall
  | succ n ih =>
      by_cases hof : (r.action n).isOf t
      · obtain ⟨u, e, hu, -, -, hnext⟩ | ⟨u, p, ps, hu, -, -, hnext⟩ | ⟨hidle, -⟩ :=
          State.step_cases (r.step n)
        · rw [hu] at hof
          obtain rfl : u = t := hof
          rw [hnext] at hcall
          obtain rfl : e = c := by simpa [State.start] using hcall
          exact ⟨n, Nat.lt_succ_self n, hu⟩
        · rw [hnext] at hcall
          have hsame : ((r.state n).advance u p ps).call t = (r.state n).call t :=
            congrFun (State.fields_execute u p (r.state n)).1 t
          obtain ⟨k, hk, hcalled⟩ := ih (hsame.symm.trans hcall)
          exact ⟨k, Nat.lt_succ_of_lt hk, hcalled⟩
        · rw [hidle] at hof
          cases hof
      · have hsame := (State.same_of_step (r.step n) hof).call
        obtain ⟨k, hk, hcalled⟩ := ih (hsame.symm.trans hcall)
        exact ⟨k, Nat.lt_succ_of_lt hk, hcalled⟩

/-- A thread makes no call in a call, and does nothing while it waits. -/
theorem not_call (hrest : (r.state n).rest t ≠ [] ∨ (r.state n).waits t ≠ none)
    (ha : r.action n ≠ .go t ∨ (r.state n).waits t ≠ none) :
  ¬ (r.action n).isOf t
  := by
  intro hof
  have hstep := r.step n
  obtain ⟨u, c, hu, hwaits, hnil, -⟩ | ⟨u, p, ps, hu, hwaits, -, -⟩ | ⟨hidle, -⟩ :=
    State.step_cases hstep
  · rw [hu] at hof
    obtain rfl : u = t := hof
    exact hrest.elim (fun h => h hnil) (fun h => h hwaits)
  · rw [hu] at hof
    obtain rfl : u = t := hof
    exact ha.elim (fun h => h hu) (fun h => h hwaits)
  · rw [hidle] at hof
    exact hof

/-- As long as a thread does nothing, it may only obtain the lock for which it waits. -/
theorem same (hnm : n ≤ m) (hnone : ∀ k, n ≤ k → k < m → State.Same t (r.state n) (r.state k) →
    ¬ (r.action k).isOf t) :
  State.Same t (r.state n) (r.state m)
  := by
  induction hnm with
  | refl => exact .refl t _
  | @step m hnm ih =>
      have hbefore := ih (fun k hk hkm => hnone k hk (Nat.lt_succ_of_lt hkm))
      apply hbefore.trans
      exact State.same_of_step (r.step m) (hnone m hnm (Nat.lt_succ_self m) hbefore)

theorem exists_first {p : ℕ → Prop} (h : ∃ m ≥ n, p m) :
  ∃ m ≥ n, p m ∧ ∀ k, n ≤ k → k < m → ¬ p k
  := by
  classical
  obtain ⟨hm, hp⟩ := Nat.find_spec h
  exact ⟨Nat.find h, hm, hp, fun k hk hlt hpk => Nat.find_min h hlt ⟨hk, hpk⟩⟩

/-- A thread in a call executes its next statement. -/
theorem next_go (hfair : r.Fair) (hrest : (r.state n).rest t ≠ [])
    (hwaits : (r.state n).waits t = none) :
  ∃ m ≥ n, r.action m = .go t ∧ State.Same t (r.state n) (r.state m)
  := by
  obtain ⟨m, hm, hgo, hfirst⟩ := exists_first (hfair n t hrest hwaits)
  refine ⟨m, hm, hgo, same hm ?_⟩
  intro k hk hkm hsame
  apply not_call (.inl _) (.inl (hfirst k hk hkm))
  rw [hsame.rest]
  exact hrest

/-- A thread that waits for a lock does nothing before it obtains it. -/
theorem next_obtained (hobtains : ∃ m ≥ n, (r.state m).waits t = none) :
  ∃ m ≥ n, (r.state m).waits t = none ∧ State.Same t (r.state n) (r.state m)
  := by
  obtain ⟨m, hm, hnone, hfirst⟩ := exists_first hobtains
  refine ⟨m, hm, hnone, same hm ?_⟩
  intro k hk hkm _
  exact not_call (.inr (hfirst k hk hkm)) (.inr (hfirst k hk hkm))

/-- The statement that a thread executes. -/
theorem go_spec (hgo : r.action n = .go t) :
  ∃ p, (r.state n).rest t = p :: (r.state (n + 1)).rest t ∧ (r.state n).waits t = none ∧
    (r.state (n + 1)).call t = (r.state n).call t ∧
    (r.state (n + 1)).before t = (r.state n).before t
  := by
  have hstep := r.step n
  rw [hgo] at hstep
  obtain ⟨u, c, hu, -⟩ | ⟨u, p, ps, hu, hwaits, hrest, hnext⟩ | ⟨hidle, -⟩ :=
    State.step_cases hstep
  · cases hu
  · obtain rfl := Action.go.inj hu
    obtain ⟨hcall, hbefore⟩ := State.fields_execute t p (r.state n)
    refine ⟨p, ?_, hwaits, ?_, ?_⟩
    · rw [hrest, hnext]
      simp [State.advance]
    · rw [hnext]
      exact congrFun hcall t
    · rw [hnext]
      exact congrFun hbefore t
  · cases hidle

/-- What a thread has still to do in its call. -/
def measure (s : State κ σ) (t : ℕ) : ℕ :=
  2 * (s.rest t).length + if s.waits t = none then 0 else 1

theorem measure_lt_of_go (hgo : r.action n = .go t) :
  measure (r.state (n + 1)) t < measure (r.state n) t
  := by
  obtain ⟨p, hrest, hwaits, -⟩ := go_spec hgo
  rw [measure, measure, hrest, hwaits, List.length_cons]
  split <;> simp <;> omega

theorem measure_lt_of_obtained {s s' : State κ σ} (hsame : State.Same t s s')
    (hwaits : s.waits t ≠ none) (hnone : s'.waits t = none) :
  measure s' t < measure s t
  := by
  rw [measure, measure, hsame.rest, hnone, if_neg hwaits]
  simp

/-- A lock that a thread owns changes its owner, if threads obtain the locks that come after it. -/
theorem released {rank : ℕ → ℕ} (hfair : r.Fair) (horderly : ∀ n, (r.state n).Orderly rank)
    (hobtains : ∀ M, rank L < rank M → ∀ n t, (r.state n).waits t = some M →
      ∃ m ≥ n, (r.state m).waits t = none)
    (howner : ((r.state n).locks L).owner = some t) :
  ∃ m ≥ n, ((r.state m).locks L).owner ≠ some t
  := by
  generalize hk : measure (r.state n) t = k
  induction k using Nat.strong_induction_on generalizing n with
  | h k ih =>
      have hmem : L ∈ (r.state n).held t := ((r.ok n).mem_held t L).mpr (.inl howner)
      cases hwaits : (r.state n).waits t with
      | none =>
          have hrest : (r.state n).rest t ≠ [] := by
            intro hnil
            have hordered := (horderly n).ordered t
            rw [hnil] at hordered
            rw [show (r.state n).held t = [] from hordered] at hmem
            cases hmem
          obtain ⟨m, hm, hgo, hsame⟩ := next_go hfair hrest hwaits
          by_cases hstill : ((r.state (m + 1)).locks L).owner = some t
          · have hlt : measure (r.state (m + 1)) t < k := by
              have hm' : measure (r.state m) t ≤ k := by
                rw [← hk, measure, measure, hsame.rest]
                obtain ⟨p, -, hwaits', -⟩ := go_spec hgo
                simp [hwaits', hwaits]
              exact Nat.lt_of_lt_of_le (measure_lt_of_go hgo) hm'
            obtain ⟨m', hm', hout⟩ := ih _ hlt hstill rfl
            exact ⟨m', by omega, hout⟩
          · exact ⟨m + 1, by omega, hstill⟩
      | some M =>
          have hne : L ≠ M := by
            rintro rfl
            exact (r.ok n).notOwner t L hwaits howner
          have hlt := (horderly n).last t M hwaits L hmem hne
          obtain ⟨m, hm, hnone, hsame⟩ := next_obtained (hobtains M hlt n t hwaits)
          by_cases hstill : ((r.state m).locks L).owner = some t
          · have hlt' : measure (r.state m) t < k :=
              hk ▸ measure_lt_of_obtained hsame (by simp [hwaits]) hnone
            obtain ⟨m', hm', hout⟩ := ih _ hlt' hstill rfl
            exact ⟨m', by omega, hout⟩
          · exact ⟨m, hm, hstill⟩

/-- As long as a thread waits nobody comes in front of it. -/
theorem idxOf_le (hnm : n ≤ m) (hwaits : ∀ k, n ≤ k → k ≤ m → (r.state k).waits t = some L) :
  ((r.state m).locks L).queue.idxOf t ≤ ((r.state n).locks L).queue.idxOf t ∧
    (((r.state m).locks L).owner ≠ ((r.state n).locks L).owner →
      ((r.state m).locks L).queue.idxOf t < ((r.state n).locks L).queue.idxOf t)
  := by
  induction hnm with
  | refl => exact ⟨Nat.le_refl _, fun hne => absurd rfl hne⟩
  | @step m hnm ih =>
      obtain ⟨hle, hlt⟩ := ih (fun k hk hkm => hwaits k hk (Nat.le_succ_of_le hkm))
      obtain ⟨hle', hlt'⟩ := (r.ok m).idxOf_step (r.step m) (hwaits m hnm (Nat.le_succ m))
        (hwaits (m + 1) (Nat.le_succ_of_le hnm) (Nat.le_refl _))
      refine ⟨Nat.le_trans hle' hle, ?_⟩
      intro hne
      by_cases heq : ((r.state (m + 1)).locks L).owner = ((r.state m).locks L).owner
      · exact Nat.lt_of_le_of_lt hle' (hlt (fun h => hne (heq.trans h)))
      · exact Nat.lt_of_lt_of_le (hlt' heq) hle

theorem still_waits (hwaits : (r.state n).waits t = some L)
    (hnever : ¬ ∃ m ≥ n, (r.state m).waits t = none) (hnm : n ≤ m) :
  (r.state m).waits t = some L
  := by
  induction hnm with
  | refl => exact hwaits
  | @step m hnm ih =>
      have hnone : (r.state m).waits t ≠ none := by simp [ih]
      have hsame := State.same_of_step (r.step m) (not_call (.inr hnone) (.inr hnone))
      obtain heq | hnone' := hsame.waits
      · exact heq.trans ih
      · exact absurd ⟨m + 1, Nat.le_succ_of_le hnm, hnone'⟩ hnever

/-- A thread that waits for a lock obtains it if its owners release it. -/
theorem obtained (hreleased : ∀ n t, ((r.state n).locks L).owner = some t →
      ∃ m ≥ n, ((r.state m).locks L).owner ≠ some t)
    (hwaits : (r.state n).waits t = some L) :
  ∃ m ≥ n, (r.state m).waits t = none
  := by
  generalize hk : ((r.state n).locks L).queue.idxOf t = k
  induction k using Nat.strong_induction_on generalizing n with
  | h k ih =>
      by_contra hnever
      have hstill : ∀ m ≥ n, (r.state m).waits t = some L := fun m => still_waits hwaits hnever
      have howner : ((r.state n).locks L).owner ≠ none := by
        intro hnone
        have hmem := ((r.ok n).waiting t L).mpr hwaits
        rw [(r.ok n).owned L hnone] at hmem
        cases hmem
      obtain ⟨u, hu⟩ := Option.ne_none_iff_exists'.mp howner
      obtain ⟨m, hm, hout⟩ := hreleased n u hu
      have hlt := (idxOf_le hm (fun k hk _ => hstill k hk)).2 (fun heq => hout (heq.trans hu))
      obtain ⟨m', hm', hnone⟩ := ih _ (hk ▸ hlt) (hstill m hm) rfl
      exact hnever ⟨m', Nat.le_trans hm hm', hnone⟩

/-- If all calls take locks in order then every thread that waits for a lock obtains it. -/
theorem obtains {rank : ℕ → ℕ} {b : ℕ} (hfair : r.Fair) (hrank : ∀ L, rank L ≤ b)
    (hcalls : ∀ n t c, r.action n = .call t c → Ordered rank [] (body c))
    (hwaits : (r.state n).waits t = some L) :
  ∃ m ≥ n, (r.state m).waits t = none ∧ ((r.state m).locks L).owner = some t
  := by
  have horderly := fun n => r.orderly n (fun k _ => hcalls k)
  have hall : ∀ k L, b - rank L = k → ∀ n t, (r.state n).waits t = some L →
      ∃ m ≥ n, (r.state m).waits t = none := by
    intro k
    induction k using Nat.strong_induction_on with
    | h k ih =>
        intro L hL n t hwaits
        apply obtained _ hwaits
        intro n t howner
        apply released hfair horderly _ howner
        intro M hlt n t hM
        have hle := hrank M
        exact ih (b - rank M) (by omega) M rfl n t hM
  obtain ⟨m, hm, hnone, hsame⟩ := next_obtained (hall _ L rfl n t hwaits)
  refine ⟨m, hm, hnone, ?_⟩
  have hmem := ((r.ok n).mem_held t L).mpr (.inr hwaits)
  rw [← hsame.held] at hmem
  obtain howner | hwaits' := ((r.ok m).mem_held t L).mp hmem
  · exact howner
  · cases hnone.symm.trans hwaits'

/-- A call returns if the thread obtains the locks for which it waits in it. -/
theorem returns {c : κ} {held : List ℕ} (hfair : r.Fair)
    (hobtains : ∀ k L, (r.state k).call t = some c → (r.state k).before t = held →
      (r.state k).waits t = some L → ∃ m ≥ k, (r.state m).waits t = none)
    (hcall : (r.state n).call t = some c) (hbefore : (r.state n).before t = held) :
  ∃ m ≥ n, (r.state m).rest t = [] ∧ (r.state m).waits t = none ∧
    (r.state m).call t = some c ∧ (r.state m).before t = held
  := by
  generalize hk : measure (r.state n) t = k
  induction k using Nat.strong_induction_on generalizing n with
  | h k ih =>
      cases hwaits : (r.state n).waits t with
      | some L =>
          obtain ⟨m, hm, hnone, hsame⟩ := next_obtained (hobtains n L hcall hbefore hwaits)
          have hlt : measure (r.state m) t < k :=
            hk ▸ measure_lt_of_obtained hsame (by simp [hwaits]) hnone
          obtain ⟨m', hm', hreturned⟩ :=
            ih _ hlt (hsame.call.trans hcall) (hsame.before.trans hbefore) rfl
          exact ⟨m', Nat.le_trans hm hm', hreturned⟩
      | none =>
          by_cases hrest : (r.state n).rest t = []
          · exact ⟨n, Nat.le_refl n, hrest, hwaits, hcall, hbefore⟩
          · obtain ⟨m, hm, hgo, hsame⟩ := next_go hfair hrest hwaits
            obtain ⟨p, -, hwaits', hcall', hbefore'⟩ := go_spec hgo
            have hlt : measure (r.state (m + 1)) t < k := by
              have hm' : measure (r.state m) t = k := by
                rw [← hk, measure, measure, hsame.rest, hwaits, hwaits']
              exact hm' ▸ measure_lt_of_go hgo
            obtain ⟨m', hm', hreturned⟩ := ih _ hlt (hcall'.trans (hsame.call.trans hcall))
              (hbefore'.trans (hsame.before.trans hbefore)) rfl
            exact ⟨m', by omega, hreturned⟩

/-- What a thread holds when its call has returned. -/
theorem held_of_returned {c : κ} (hcall : (r.state n).call t = some c)
    (hrest : (r.state n).rest t = []) :
  (r.state n).held t = finish ((r.state n).before t) (body c)
  := by
  obtain ⟨ps, hps, hheld⟩ := (r.follows n t).2 c hcall
  rw [hrest, List.append_nil] at hps
  rw [hheld, hps]

/-! ### Runs that end -/

/-- The state after some actions. -/
def ending (body : κ → List (Statement σ)) (d : σ) (as : List (Action κ)) : State κ σ :=
  as.foldl (fun s a => (s.step body a).getD s) (State.initial d)

/-- Some actions, after which nothing happens. -/
def ofList (body : κ → List (Statement σ)) (d : σ) (as : List (Action κ))
    (h : ∀ n < as.length, ((ending body d (as.take n)).step body (as.getD n .idle)).isSome = true) :
    Run body d where
  state n := ending body d (as.take n)
  action n := as.getD n .idle
  start := rfl
  step n := by
    by_cases hn : n < as.length
    · obtain ⟨s, hs⟩ := Option.isSome_iff_exists.mp (h n hn)
      have hnext : as.take (n + 1) = as.take n ++ [as.getD n .idle] := by
        rw [List.take_add_one, List.getD_eq_getElem _ _ hn, List.getElem?_eq_getElem hn]
        rfl
      have hlast : ending body d (as.take (n + 1)) = s := by
        rw [hnext, ending, List.foldl_append]
        change ((ending body d (as.take n)).step body (as.getD n .idle)).getD _ = s
        rw [hs, Option.getD_some]
      rw [hs, hlast]
    · have hle : as.length ≤ n := Nat.le_of_not_lt hn
      rw [List.getD_eq_default _ _ hle, List.take_of_length_le hle,
        List.take_of_length_le (Nat.le_succ_of_le hle)]
      rfl

/-- Such a run is fair if every thread that has made a call has returned, or waits for a lock. -/
theorem fair_ofList {as : List (Action κ)}
    (h : ∀ n < as.length, ((ending body d (as.take n)).step body (as.getD n .idle)).isSome = true)
    (hend : ∀ t c, .call t c ∈ as →
      (ending body d as).rest t = [] ∨ (ending body d as).waits t ≠ none) :
  (ofList body d as h).Fair
  := by
  intro n t hrest hwaits
  by_contra hnever
  have hsame : State.Same t ((ofList body d as h).state n)
      ((ofList body d as h).state (n + as.length)) := by
    apply same (Nat.le_add_right n as.length)
    intro k hk _ hsame
    apply not_call (.inl _) (.inl (fun hgo => hnever ⟨k, hk, hgo⟩))
    rw [hsame.rest]
    exact hrest
  have hlast : (ofList body d as h).state (n + as.length) = ending body d as := by
    change ending body d (as.take (n + as.length)) = _
    rw [List.take_of_length_le (Nat.le_add_left _ _)]
  have hnone : (ending body d as).waits t = none := by
    obtain heq | hnone := hsame.waits
    · rw [← hlast, heq, hwaits]
    · rw [← hlast, hnone]
  have hrest' : (ending body d as).rest t ≠ [] := by
    rw [← hlast, hsame.rest]
    exact hrest
  have hfollows := (ofList body d as h).follows (n + as.length) t
  rw [hlast] at hfollows
  cases hcall : (ending body d as).call t with
  | none => exact hrest' (hfollows.1 hcall).1
  | some c =>
      obtain ⟨k, -, hk⟩ := (ofList body d as h).exists_call (c := c) (n + as.length)
        ((congrArg (fun s => s.call t) hlast).trans hcall)
      have hk' : as.getD k .idle = .call t c := hk
      have hmem : Action.call t c ∈ as := by
        by_cases hlt : k < as.length
        · rw [List.getD_eq_getElem _ _ hlt] at hk'
          rw [← hk']
          exact List.getElem_mem hlt
        · rw [List.getD_eq_default _ _ (Nat.le_of_not_lt hlt)] at hk'
          cases hk'
      exact (hend t c hmem).elim hrest' (fun hne => hne hnone)

end Run

end Locks
