import Mathlib.Algebra.Order.Ring.Nat
import Nachos.Library.Events
import Nachos.Library.Run

/-!
# Interrupts

The simulation of hardware interrupts (`machine/interrupt.cc`), with the sorted list of the interrupts
that are pending (`threads/list.cc`) and the ticks (`machine/stats.h`), which are 64-bit integers.

What a handler does may depend on anything; it is given for every interrupt that fires. A handler
calls `Schedule`, and `YieldOnReturn`.

The interrupts are events in the sense of `Nachos.Library.Events`, as long as no sum of ticks is too
large for 64 bits (`Interrupt.simulation_correct`).
-/

namespace Nachos.Interrupts

/-! ### Lists -/

structure ListElement (α : Type) where
  item : α
  key : ℤ

def sortedInsert {α : Type} (item : α) (sortKey : ℤ) : List (ListElement α) → List (ListElement α)
  | [] => [⟨item, sortKey⟩]
  | ptr :: rest =>
      if sortKey < ptr.key then ⟨item, sortKey⟩ :: ptr :: rest
      else ptr :: sortedInsert item sortKey rest

def sortedRemove {α : Type} : List (ListElement α) → Option (ListElement α × List (ListElement α))
  | [] => none
  | element :: rest => some (element, rest)

/-! ### The data -/

inductive IntStatus where
  | intOff
  | intOn
deriving DecidableEq

inductive MachineStatus where
  | idleMode
  | systemMode
  | userMode
deriving DecidableEq

inductive IntType where
  | timerInt
  | diskInt
  | consoleWriteInt
  | consoleReadInt
  | networkSendInt
  | networkRecvInt
deriving DecidableEq

/-- An interrupt that is to fire. The objects are numbered in the order in which they are made; `id` is
not part of the code. -/
structure PendingInterrupt (η : Type) where
  handler : η
  arg : ℤ
  when : ℤ
  type : IntType
  id : ℕ

structure Statistics where
  totalTicks : ℤ
  idleTicks : ℤ
  systemTicks : ℤ
  userTicks : ℤ

def userTick : ℤ := 1

def systemTick : ℤ := 10

/-- The value of a 64-bit integer. -/
def int64 (n : ℤ) : ℤ := n.bmod (2 ^ 64)

/-- The arguments of `Schedule`, which asserts that `fromNow` is positive. -/
structure Request (η : Type) where
  handler : η
  arg : ℤ
  fromNow : ℤ
  type : IntType
  pos : 0 < fromNow
  lt : fromNow < 2 ^ 63

/-- What a handler does. -/
structure Reaction (η : Type) where
  requests : List (Request η)
  yields : Bool

/-- The last three fields are not part of the code: the times for which interrupts have been scheduled,
those that have fired, and whether a sum was too large. -/
structure Interrupt (η : Type) where
  level : IntStatus
  pending : List (ListElement (PendingInterrupt η))
  yieldOnReturn : Bool
  status : MachineStatus
  stats : Statistics
  halted : Bool
  scheduled : List ℤ
  fired : List (Events.Occurred ℤ)
  overflowed : Bool

namespace Interrupt

variable {η : Type}

def changeLevel (now : IntStatus) (s : Interrupt η) : Interrupt η := { s with level := now }

def schedule (r : Request η) (s : Interrupt η) : Interrupt η :=
  let when := int64 (s.stats.totalTicks + r.fromNow)
  let toOccur : PendingInterrupt η := ⟨r.handler, r.arg, when, r.type, s.scheduled.length⟩
  { s with
    pending := sortedInsert toOccur when s.pending
    scheduled := s.scheduled ++ [s.stats.totalTicks + r.fromNow]
    overflowed := s.overflowed || decide (2 ^ 63 ≤ s.stats.totalTicks + r.fromNow) }

/-- The interrupt is put back. -/
def putBack (toOccur : PendingInterrupt η) (when : ℤ) (s : Interrupt η) : Interrupt η :=
  { s with pending := sortedInsert toOccur when s.pending }

/-- The clock is advanced to the time of an interrupt. -/
def advanceTo (when : ℤ) (s : Interrupt η) : Interrupt η :=
  if s.stats.totalTicks < when then
    { s with
      stats :=
        { s.stats with
          idleTicks := int64 (s.stats.idleTicks + int64 (when - s.stats.totalTicks))
          totalTicks := when } }
  else s

/-- The handler of an interrupt is called. The function `react` says what the handlers do, when `n`
interrupts have fired before. -/
def fire (react : ℕ → η → ℤ → Reaction η) (toOccur : PendingInterrupt η) (when : ℤ)
    (s : Interrupt η) : Interrupt η :=
  let old := s.status
  let reaction := react s.fired.length toOccur.handler toOccur.arg
  let s : Interrupt η := { s with
    status := .systemMode
    fired := s.fired ++ [⟨⟨when, toOccur.id⟩, s.stats.totalTicks⟩] }
  let s := reaction.requests.foldl (fun s r => s.schedule r) s
  { s with yieldOnReturn := s.yieldOnReturn || reaction.yields, status := old }

/-- `CheckIfDue`, once the interrupt is removed and the clock advanced: with nothing else to do the
machine does not fire the timer. -/
def fireUnlessDone (react : ℕ → η → ℤ → Reaction η) (toOccur : PendingInterrupt η) (when : ℤ)
    (s : Interrupt η) : Interrupt η × Bool :=
  if s.status = .idleMode ∧ toOccur.type = .timerInt ∧ s.pending = [] then
    (s.putBack toOccur when, false)
  else (s.fire react toOccur when, true)

def checkIfDue (react : ℕ → η → ℤ → Reaction η) (advanceClock : Bool) (s : Interrupt η) :
    Interrupt η × Bool :=
  match sortedRemove s.pending with
  | none => (s, false)
  | some (⟨toOccur, when⟩, pending) =>
      let s := { s with pending := pending }
      if advanceClock then (s.advanceTo when).fireUnlessDone react toOccur when
      else if s.stats.totalTicks < when then (s.putBack toOccur when, false)
      else s.fireUnlessDone react toOccur when

/-- The loop `while (CheckIfDue(FALSE))`, as far as `n` calls go, and whether it has ended. -/
def whileDue (react : ℕ → η → ℤ → Reaction η) : ℕ → Interrupt η → Interrupt η × Bool
  | 0, s => (s, false)
  | n + 1, s =>
      match s.checkIfDue react false with
      | (s, true) => whileDue react n s
      | (s, false) => (s, true)

/-- Simulated time is advanced. -/
def tick (s : Interrupt η) : Interrupt η :=
  if s.status = .systemMode then
    { s with
      stats :=
        { s.stats with
          totalTicks := int64 (s.stats.totalTicks + systemTick)
          systemTicks := int64 (s.stats.systemTicks + systemTick) }
      overflowed := s.overflowed || decide (2 ^ 63 ≤ s.stats.totalTicks + systemTick) }
  else
    { s with
      stats :=
        { s.stats with
          totalTicks := int64 (s.stats.totalTicks + userTick)
          userTicks := int64 (s.stats.userTicks + userTick) }
      overflowed := s.overflowed || decide (2 ^ 63 ≤ s.stats.totalTicks + userTick) }

/-- `OneTick`, up to the call of `Yield`; when the thread runs again it sets the status to what it
was. -/
def oneTick (react : ℕ → η → ℤ → Reaction η) (fuel : ℕ) (s : Interrupt η) : Option (Interrupt η) :=
  match (s.tick.changeLevel .intOff).whileDue react fuel with
  | (_, false) => none
  | (s, true) =>
      let s := s.changeLevel .intOn
      if s.yieldOnReturn then some { s with yieldOnReturn := false, status := .systemMode }
      else some s

/-- `SetLevel`, when no handler is running. -/
def setLevel (react : ℕ → η → ℤ → Reaction η) (fuel : ℕ) (now : IntStatus) (s : Interrupt η) :
    Option (Interrupt η) :=
  let old := s.level
  let s := s.changeLevel now
  if now = .intOn ∧ old = .intOff then s.oneTick react fuel else some s

/-- `Idle`. If nothing is to fire then the machine halts. -/
def idle (react : ℕ → η → ℤ → Reaction η) (fuel : ℕ) (s : Interrupt η) : Option (Interrupt η) :=
  if s.level = .intOff then
    match { s with status := .idleMode }.checkIfDue react true with
    | (s, false) => some { s with halted := true }
    | (s, true) =>
        match s.whileDue react fuel with
        | (_, false) => none
        | (s, true) => some { s with yieldOnReturn := false, status := .systemMode }
  else none

/-! ### Runs -/

inductive Action (η : Type) where
  | schedule (r : Request η)
  | setLevel (now : IntStatus)
  | oneTick
  | idle
  /-- The machine goes on in user mode, or in the kernel. -/
  | setStatus (user : Bool)

def step (react : ℕ → η → ℤ → Reaction η) (fuel : ℕ) (s : Interrupt η) (a : Action η) :
    Option (Interrupt η) :=
  if s.halted then none
  else
    match a with
    | .schedule r => some (s.schedule r)
    | .setLevel now => s.setLevel react fuel now
    | .oneTick => s.oneTick react fuel
    | .idle => s.idle react fuel
    | .setStatus user => some { s with status := if user then .userMode else .systemMode }

def initial : Interrupt η where
  level := .intOff
  pending := []
  yieldOnReturn := false
  status := .systemMode
  stats := ⟨0, 0, 0, 0⟩
  halted := false
  scheduled := []
  fired := []
  overflowed := false

/-! ### Interrupts as events -/

variable {react : ℕ → η → ℤ → Reaction η} {s s' : Interrupt η} {toOccur : PendingInterrupt η}
  {when : ℤ} {rest : List (ListElement (PendingInterrupt η))} {fuel : ℕ}

def event (e : ListElement (PendingInterrupt η)) : Events.Event ℤ := ⟨e.key, e.item.id⟩

def events (s : Interrupt η) : Events.State ℤ where
  now := s.stats.totalTicks
  scheduled := s.scheduled
  pending := s.pending.map event
  occurred := s.fired

theorem map_sortedInsert (toOccur : PendingInterrupt η) (when : ℤ)
    (es : List (ListElement (PendingInterrupt η))) :
  (sortedInsert toOccur when es).map event =
    Events.insert (event ⟨toOccur, when⟩) (es.map event)
  := by
  induction es with
  | nil => rfl
  | cons e es ih =>
      by_cases hlt : when < e.key
      · rw [sortedInsert, if_pos hlt]
        exact (if_pos hlt).symm
      · rw [sortedInsert, if_neg hlt, List.map_cons, ih]
        exact (if_neg hlt).symm

theorem perm_sortedInsert (toOccur : PendingInterrupt η) (when : ℤ)
    (es : List (ListElement (PendingInterrupt η))) :
  (sortedInsert toOccur when es).Perm (⟨toOccur, when⟩ :: es)
  := by
  induction es with
  | nil => exact .refl _
  | cons e es ih =>
      rw [sortedInsert]
      split
      · exact .refl _
      · exact (ih.cons e).trans (.swap _ _ _)

theorem int64_of_lt {n : ℤ} (hle : 0 ≤ n) (hlt : n < 2 ^ 63) :
  int64 n = n
  := by
  apply Int.bmod_eq_of_le <;> omega

/-- The invariant, as long as no sum has been too large. -/
structure Ok (s : Interrupt η) : Prop where
  events : s.events.Ok
  ticks : s.stats.totalTicks = s.stats.idleTicks + s.stats.systemTicks + s.stats.userTicks
  idle : 0 ≤ s.stats.idleTicks
  system : 0 ≤ s.stats.systemTicks
  user : 0 ≤ s.stats.userTicks
  lt : s.stats.totalTicks < 2 ^ 63
  keys : ∀ e ∈ s.pending, e.key < 2 ^ 63

/-- What an operation does, unless a sum is too large. -/
structure Advances (s s' : Interrupt η) : Prop where
  fits : s'.overflowed = false → s.overflowed = false
  ok : s'.overflowed = false → s.Ok → s'.Ok
  ticks : s'.overflowed = false → s.Ok → s.stats.totalTicks ≤ s'.stats.totalTicks

theorem Advances.trans {s₁ s₂ s₃ : Interrupt η} (h : Advances s₁ s₂) (h' : Advances s₂ s₃) :
  Advances s₁ s₃
  where
  fits hfits := h.fits (h'.fits hfits)
  ok hfits hok := h'.ok hfits (h.ok (h'.fits hfits) hok)
  ticks hfits hok :=
    (h.ticks (h'.fits hfits) hok).trans (h'.ticks hfits (h.ok (h'.fits hfits) hok))

/-- The list of the interrupts that are pending may change its order, and the level and the status may
change. -/
theorem advances_of_same (hpending : s'.pending.Perm s.pending)
    (hsorted : s.events.Ok → s'.events.pending.Pairwise (fun e f => e.due ≤ f.due))
    (hscheduled : s'.scheduled = s.scheduled) (hfired : s'.fired = s.fired)
    (hstats : s'.stats = s.stats) (hoverflowed : s'.overflowed = s.overflowed) :
  Advances s s'
  := by
  constructor
  · rw [hoverflowed]
    exact id
  · intro _ h
    constructor
    · have hevents : s'.events = { s.events with pending := s'.events.pending } := by
        simp only [events, hscheduled, hfired, hstats]
      rw [hevents]
      exact h.events.reorder (hpending.map event) (hsorted h.events)
    · rw [hstats]
      apply h.ticks
    · rw [hstats]
      apply h.idle
    · rw [hstats]
      apply h.system
    · rw [hstats]
      apply h.user
    · rw [hstats]
      apply h.lt
    · intro e he
      exact h.keys e (hpending.mem_iff.mp he)
  · rw [hstats]
    intros
    exact le_rfl

/-- A state that differs only in what `Advances` does not depend on. -/
theorem advances_of_eq (hpending : s'.pending = s.pending) (hscheduled : s'.scheduled = s.scheduled)
    (hfired : s'.fired = s.fired) (hstats : s'.stats = s.stats)
    (hoverflowed : s'.overflowed = s.overflowed) :
  Advances s s'
  := by
  apply advances_of_same (.of_eq hpending) _ hscheduled hfired hstats hoverflowed
  intro h
  rw [events, hpending]
  exact h.sorted

theorem Ok.events_schedule (h : s.Ok) {r : Request η}
    (hlt : s.stats.totalTicks + r.fromNow < 2 ^ 63) :
  (s.schedule r).events = s.events.schedule (s.stats.totalTicks + r.fromNow) ∧
    int64 (s.stats.totalTicks + r.fromNow) = s.stats.totalTicks + r.fromNow
  := by
  have hwhen : int64 (s.stats.totalTicks + r.fromNow) = s.stats.totalTicks + r.fromNow := by
    have hpos := r.pos
    obtain ⟨hidle, hsystem, huser⟩ := And.intro h.idle (And.intro h.system h.user)
    have hticks := h.ticks
    apply int64_of_lt (by omega) hlt
  refine ⟨?_, hwhen⟩
  rw [Interrupt.events, schedule, hwhen, map_sortedInsert]
  rfl

theorem fits_schedule {r : Request η} (hfits : (s.schedule r).overflowed = false) :
  s.overflowed = false ∧ s.stats.totalTicks + r.fromNow < 2 ^ 63
  := by
  obtain ⟨hs, hr⟩ := Bool.or_eq_false_iff.mp hfits
  exact ⟨hs, not_le.mp (of_decide_eq_false hr)⟩

theorem advances_schedule (r : Request η) (s : Interrupt η) :
  Advances s (s.schedule r)
  := by
  constructor
  · intro hfits
    exact (fits_schedule hfits).1
  · intro hfits h
    obtain ⟨-, hlt⟩ := fits_schedule hfits
    obtain ⟨hevents, hwhen⟩ := h.events_schedule hlt
    constructor
    · rw [hevents]
      apply h.events.schedule
      exact Int.lt_add_of_pos_right _ r.pos
    · apply h.ticks
    · apply h.idle
    · apply h.system
    · apply h.user
    · apply h.lt
    · intro e he
      obtain rfl | he := List.mem_cons.mp ((perm_sortedInsert _ _ _).mem_iff.mp he)
      · rw [hwhen]
        exact hlt
      · exact h.keys e he
  · intros
    exact le_rfl

theorem advances_foldl (rs : List (Request η)) (s : Interrupt η) :
  Advances s (rs.foldl (fun s r => s.schedule r) s)
  := by
  induction rs generalizing s with
  | nil => exact advances_of_eq rfl rfl rfl rfl rfl
  | cons r rs ih => exact (advances_schedule r s).trans (ih (s.schedule r))

/-- An interrupt is taken out of the list, and put back. -/
theorem advances_putBack (hpending : s.pending = ⟨toOccur, when⟩ :: rest) :
  Advances s ({ s with pending := rest }.putBack toOccur when)
  := by
  have hperm := perm_sortedInsert toOccur when rest
  rw [← hpending] at hperm
  refine advances_of_same hperm ?_ rfl rfl rfl rfl
  intro h
  have hsorted := h.sorted
  rw [events, hpending] at hsorted
  rw [events, putBack, map_sortedInsert]
  exact Events.insert_sorted _ (List.pairwise_cons.mp hsorted).2

theorem advances_advanceTo (hpending : s.pending = ⟨toOccur, when⟩ :: rest) :
  Advances s (s.advanceTo when)
  := by
  rw [advanceTo]
  split
  · rename_i hlt
    constructor
    · exact id
    · intro _ h
      have hwhen : when < 2 ^ 63 := h.keys ⟨toOccur, when⟩ (by simp [hpending])
      obtain ⟨hidle, hsystem, huser⟩ := And.intro h.idle (And.intro h.system h.user)
      have hticks := h.ticks
      have hdiff : int64 (when - s.stats.totalTicks) = when - s.stats.totalTicks :=
        int64_of_lt (by omega) (by omega)
      have hsum : int64 (s.stats.idleTicks + (when - s.stats.totalTicks)) =
          s.stats.idleTicks + (when - s.stats.totalTicks) :=
        int64_of_lt (by omega) (by omega)
      constructor
      · exact h.events.advance hlt.le
      · simp only [hdiff, hsum]
        omega
      · simp only [hdiff, hsum]
        omega
      · exact hsystem
      · exact huser
      · exact hwhen
      · exact h.keys
    · intro _ _
      exact hlt.le
  · exact advances_of_eq rfl rfl rfl rfl rfl

/-- The first interrupt fires, before its handler is called. -/
theorem advances_fired (hpending : s.pending = ⟨toOccur, when⟩ :: rest)
    (hdue : when ≤ s.stats.totalTicks) :
  Advances s { s with
    pending := rest
    status := .systemMode
    fired := s.fired ++ [⟨⟨when, toOccur.id⟩, s.stats.totalTicks⟩] }
  := by
  constructor
  · exact id
  · intro _ h
    constructor
    · have hevents : s.events.pending = event ⟨toOccur, when⟩ :: rest.map event := by
        rw [events, hpending]
        rfl
      exact h.events.occur hevents hdue
    · apply h.ticks
    · apply h.idle
    · apply h.system
    · apply h.user
    · apply h.lt
    · intro e he
      apply h.keys e
      rw [hpending]
      exact List.mem_cons_of_mem _ he
  · intros
    exact le_rfl

theorem advances_fire (react : ℕ → η → ℤ → Reaction η)
    (hpending : s.pending = ⟨toOccur, when⟩ :: rest) (hdue : when ≤ s.stats.totalTicks) :
  Advances s ({ s with pending := rest }.fire react toOccur when)
  := by
  apply ((advances_fired hpending hdue).trans (advances_foldl _ _)).trans
  apply advances_of_eq <;> rfl

theorem advances_fireUnlessDone (react : ℕ → η → ℤ → Reaction η)
    (hpending : s.pending = ⟨toOccur, when⟩ :: rest) (hdue : when ≤ s.stats.totalTicks) :
  Advances s ({ s with pending := rest }.fireUnlessDone react toOccur when).1
  := by
  rw [fireUnlessDone]
  split
  · exact advances_putBack hpending
  · exact advances_fire react hpending hdue

/-- Advancing the clock does not depend on the list. -/
theorem advanceTo_pending (when : ℤ) (rest : List (ListElement (PendingInterrupt η)))
    (s : Interrupt η) :
  { s with pending := rest }.advanceTo when = { s.advanceTo when with pending := rest } ∧
    (s.advanceTo when).pending = s.pending ∧ when ≤ (s.advanceTo when).stats.totalTicks
  := by
  rw [advanceTo, advanceTo]
  split
  · exact ⟨rfl, rfl, le_rfl⟩
  · rename_i hge
    exact ⟨rfl, rfl, not_lt.mp hge⟩

theorem advances_checkIfDue (react : ℕ → η → ℤ → Reaction η) (advanceClock : Bool)
    (s : Interrupt η) :
  Advances s (s.checkIfDue react advanceClock).1
  := by
  rw [checkIfDue]
  cases hpending : s.pending with
  | nil => exact advances_of_eq rfl rfl rfl rfl rfl
  | cons e rest =>
      obtain ⟨toOccur, when⟩ := e
      simp only [sortedRemove]
      split
      · obtain ⟨heq, hsame, hdue⟩ := advanceTo_pending when rest s
        rw [heq]
        exact (advances_advanceTo hpending).trans
          (advances_fireUnlessDone react (hsame.trans hpending) hdue)
      · split
        · exact advances_putBack hpending
        · rename_i hdue
          exact advances_fireUnlessDone react hpending (not_lt.mp hdue)

theorem advances_whileDue (react : ℕ → η → ℤ → Reaction η) (n : ℕ) (s : Interrupt η) :
  Advances s (s.whileDue react n).1
  := by
  induction n generalizing s with
  | zero => exact advances_of_eq rfl rfl rfl rfl rfl
  | succ n ih =>
      have hcheck := advances_checkIfDue react false s
      rw [whileDue]
      split
      · rename_i s₁ heq
        rw [heq] at hcheck
        exact hcheck.trans (ih s₁)
      · rename_i s₁ heq
        rw [heq] at hcheck
        exact hcheck

theorem advances_tick (s : Interrupt η) :
  Advances s s.tick
  := by
  have hnot : ∀ {n : ℤ}, (s.overflowed || decide (2 ^ 63 ≤ n)) = false →
      s.overflowed = false ∧ n < 2 ^ 63 := by
    intro n hfits
    obtain ⟨hs, hn⟩ := Bool.or_eq_false_iff.mp hfits
    exact ⟨hs, not_le.mp (of_decide_eq_false hn)⟩
  have hsum : ∀ {n t : ℤ}, 0 ≤ n → n ≤ s.stats.totalTicks → 0 ≤ t →
      s.stats.totalTicks + t < 2 ^ 63 → int64 (n + t) = n + t :=
    fun hn hle ht hlt => int64_of_lt (by omega) (by omega)
  rw [tick]
  split
  · have ht : 0 ≤ systemTick := by decide
    constructor
    · exact fun hfits => (hnot hfits).1
    · intro hfits h
      obtain ⟨-, hlt⟩ := hnot hfits
      obtain ⟨hidle, hsystem, huser⟩ := And.intro h.idle (And.intro h.system h.user)
      have hticks := h.ticks
      have htotal := hsum (by omega) le_rfl ht hlt
      have hsystem' := hsum hsystem (by omega) ht hlt
      constructor
      · apply h.events.advance
        exact (Int.le_add_of_nonneg_right ht).trans_eq htotal.symm
      all_goals simp only [htotal, hsystem']
      · omega
      · exact hidle
      · omega
      · exact huser
      · exact hlt
      · exact h.keys
    · intro hfits h
      obtain ⟨hidle, hsystem, huser⟩ := And.intro h.idle (And.intro h.system h.user)
      have hticks := h.ticks
      have htotal := hsum (by omega) le_rfl ht (hnot hfits).2
      exact (Int.le_add_of_nonneg_right ht).trans_eq htotal.symm
  · have ht : 0 ≤ userTick := by decide
    constructor
    · exact fun hfits => (hnot hfits).1
    · intro hfits h
      obtain ⟨-, hlt⟩ := hnot hfits
      obtain ⟨hidle, hsystem, huser⟩ := And.intro h.idle (And.intro h.system h.user)
      have hticks := h.ticks
      have htotal := hsum (by omega) le_rfl ht hlt
      have huser' := hsum huser (by omega) ht hlt
      constructor
      · apply h.events.advance
        exact (Int.le_add_of_nonneg_right ht).trans_eq htotal.symm
      all_goals simp only [htotal, huser']
      · omega
      · exact hidle
      · exact hsystem
      · omega
      · exact hlt
      · exact h.keys
    · intro hfits h
      obtain ⟨hidle, hsystem, huser⟩ := And.intro h.idle (And.intro h.system h.user)
      have hticks := h.ticks
      have htotal := hsum (by omega) le_rfl ht (hnot hfits).2
      exact (Int.le_add_of_nonneg_right ht).trans_eq htotal.symm

/-! ### The loop -/

theorem fire_status (react : ℕ → η → ℤ → Reaction η) (toOccur : PendingInterrupt η) (when : ℤ)
    (s : Interrupt η) :
  (s.fireUnlessDone react toOccur when).1.status = s.status
  := by
  rw [fireUnlessDone]
  split <;> rfl

theorem checkIfDue_status (react : ℕ → η → ℤ → Reaction η) (s : Interrupt η) :
  (s.checkIfDue react false).1.status = s.status
  := by
  rw [checkIfDue]
  split
  · rfl
  · simp only [Bool.false_eq_true, if_false]
    split
    · rfl
    · apply fire_status

theorem whileDue_status (react : ℕ → η → ℤ → Reaction η) (n : ℕ) (s : Interrupt η) :
  (s.whileDue react n).1.status = s.status
  := by
  induction n generalizing s with
  | zero => rfl
  | succ n ih =>
      have hsame := checkIfDue_status react s
      rw [whileDue]
      split
      · rename_i s₁ heq
        rw [heq] at hsame
        exact (ih s₁).trans hsame
      · rename_i s₁ heq
        rw [heq] at hsame
        exact hsame

/-- Unless the machine is idle, no interrupt is due when the loop ends. -/
theorem Ok.not_due (h : s.Ok) (hstatus : s.status ≠ .idleMode)
    (hcheck : s.checkIfDue react false = (s', false)) :
  ∀ e ∈ s'.pending, s'.stats.totalTicks < e.key
  := by
  rw [checkIfDue] at hcheck
  cases hpending : s.pending with
  | nil =>
      rw [hpending] at hcheck
      obtain ⟨rfl, -⟩ := Prod.mk.inj hcheck
      simp [hpending]
  | cons e rest =>
      obtain ⟨toOccur, when⟩ := e
      simp only [hpending, sortedRemove, Bool.false_eq_true, if_false] at hcheck
      split at hcheck
      · rename_i hwhen
        obtain ⟨rfl, -⟩ := Prod.mk.inj hcheck
        intro e he
        have hevents : s.events.pending = event ⟨toOccur, when⟩ :: rest.map event := by
          rw [Interrupt.events, hpending]
          rfl
        have he' : event e ∈ s.events.pending := by
          rw [Interrupt.events, hpending]
          exact List.mem_map_of_mem ((perm_sortedInsert toOccur when rest).mem_iff.mp he)
        exact h.events.not_due hevents hwhen he'
      · rw [fireUnlessDone, if_neg (fun hdone => hstatus hdone.1)] at hcheck
        cases hcheck

theorem Ok.due_foldl (h : s.Ok) {rs : List (Request η)}
    (hfits : (rs.foldl (fun s r => s.schedule r) s).overflowed = false) :
  (rs.foldl (fun s r => s.schedule r) s).events.due = s.events.due
  := by
  induction rs generalizing s with
  | nil => rfl
  | cons r rs ih =>
      have hfits' := (advances_foldl rs (s.schedule r)).fits hfits
      have hlt := (fits_schedule hfits').2
      rw [List.foldl_cons, ih ((advances_schedule r s).ok hfits' h) hfits,
        (h.events_schedule hlt).1]
      exact Events.State.due_schedule (Int.lt_add_of_pos_right _ r.pos)

/-- An interrupt that fires is not due any longer, and those that its handler schedules are not due
yet. -/
theorem Ok.due_lt (h : s.Ok) (hcheck : s.checkIfDue react false = (s', true))
    (hfits : s'.overflowed = false) :
  s'.events.due < s.events.due
  := by
  rw [checkIfDue] at hcheck
  cases hpending : s.pending with
  | nil =>
      rw [hpending] at hcheck
      cases hcheck
  | cons e rest =>
      obtain ⟨toOccur, when⟩ := e
      simp only [hpending, sortedRemove, Bool.false_eq_true, if_false] at hcheck
      split at hcheck
      · cases hcheck
      · rename_i hwhen
        rw [fireUnlessDone] at hcheck
        split at hcheck
        · cases hcheck
        · obtain ⟨rfl, -⟩ := Prod.mk.inj hcheck
          have hdue := not_lt.mp hwhen
          have hfired := advances_fired hpending hdue
          have hfits' := (advances_foldl _ _).fits hfits
          have hfoldl := (hfired.ok hfits' h).due_foldl hfits
          have hevents : s.events.pending = event ⟨toOccur, when⟩ :: rest.map event := by
            rw [Interrupt.events, hpending]
            rfl
          have hoccur := Events.State.due_occur hevents hdue
          refine Nat.lt_of_lt_of_eq (Nat.lt_succ_of_le (Nat.le_of_eq ?_)) hoccur
          exact hfoldl

/-- The loop ends, unless a sum is too large. -/
theorem Ok.whileDue_ends (h : s.Ok) {n : ℕ} (hn : s.events.due < n)
    (hfits : (s.whileDue react n).1.overflowed = false) :
  (s.whileDue react n).2 = true
  := by
  induction n generalizing s with
  | zero => omega
  | succ n ih =>
      have hcheck := advances_checkIfDue react false s
      rw [whileDue] at hfits ⊢
      split
      · rename_i s₁ heq
        rw [heq] at hcheck hfits
        have hfits₁ := (advances_whileDue react n s₁).fits hfits
        apply ih (hcheck.ok hfits₁ h) _ hfits
        exact Nat.lt_of_lt_of_le (h.due_lt heq hfits₁) (Nat.le_of_lt_succ hn)
      · rfl

/-- When the loop has ended, no interrupt is due. -/
theorem Ok.whileDue_not_due (h : s.Ok) (hstatus : s.status ≠ .idleMode) {n : ℕ}
    (hended : s.whileDue react n = (s', true)) (hfits : s'.overflowed = false) :
  ∀ e ∈ s'.pending, s'.stats.totalTicks < e.key
  := by
  induction n generalizing s with
  | zero => cases hended
  | succ n ih =>
      have hcheck := advances_checkIfDue react false s
      have hsame := checkIfDue_status react s
      rw [whileDue] at hended
      split at hended
      · rename_i s₁ heq
        rw [heq] at hcheck hsame
        have hfits₁ : s₁.overflowed = false := by
          have hloop := (advances_whileDue react n s₁).fits
          rw [hended] at hloop
          exact hloop hfits
        apply ih (hcheck.ok hfits₁ h) _ hended
        rw [hsame]
        exact hstatus
      · rename_i s₁ heq
        obtain ⟨rfl, -⟩ := Prod.mk.inj hended
        exact h.not_due hstatus heq

/-! ### Operations -/

theorem tick_status (s : Interrupt η) :
  s.tick.status = s.status
  := by
  rw [tick]
  split <;> rfl

/-- `OneTick` advances the clock, and when it returns no interrupt is due. -/
theorem oneTick_spec (h : s.oneTick react fuel = some s') :
  Advances s s' ∧ (s.status ≠ .idleMode → s'.status ≠ .idleMode) ∧
    (s.status ≠ .idleMode → s'.overflowed = false → s.Ok →
      ∀ e ∈ s'.pending, s'.stats.totalTicks < e.key)
  := by
  have hticked : Advances s (s.tick.changeLevel .intOff) :=
    (advances_tick s).trans (advances_of_eq rfl rfl rfl rfl rfl)
  have hloop := advances_whileDue react fuel (s.tick.changeLevel .intOff)
  have hstatus : (s.tick.changeLevel .intOff).status = s.status := tick_status s
  rw [oneTick] at h
  split at h
  · cases h
  · rename_i s₁ hended
    rw [hended] at hloop
    have hsame₁ := whileDue_status react fuel (s.tick.changeLevel .intOff)
    rw [hended, hstatus] at hsame₁
    have hdone : s.status ≠ .idleMode → s₁.overflowed = false → s.Ok →
        ∀ e ∈ s₁.pending, s₁.stats.totalTicks < e.key := by
      intro hne hfits hok
      have hok' := hticked.ok (hloop.fits hfits) hok
      apply hok'.whileDue_not_due (hstatus ▸ hne) hended hfits
    simp only at h
    split at h
    · obtain rfl := Option.some.inj h
      refine ⟨(hticked.trans hloop).trans (advances_of_eq rfl rfl rfl rfl rfl), ?_, hdone⟩
      intro _ hidle
      cases hidle
    · obtain rfl := Option.some.inj h
      refine ⟨(hticked.trans hloop).trans (advances_of_eq rfl rfl rfl rfl rfl), ?_, hdone⟩
      intro hne
      rw [changeLevel, hsame₁]
      exact hne

theorem idle_spec (h : s.idle react fuel = some s') :
  Advances s s' ∧ (s'.halted = false → s'.status ≠ .idleMode)
  := by
  rw [idle] at h
  split at h
  · have hidle : Advances s { s with status := .idleMode } := advances_of_eq rfl rfl rfl rfl rfl
    have hcheck := hidle.trans (advances_checkIfDue react true { s with status := .idleMode })
    split at h
    · rename_i s₁ heq
      rw [heq] at hcheck
      obtain rfl := Option.some.inj h
      refine ⟨hcheck.trans (advances_of_eq rfl rfl rfl rfl rfl), ?_⟩
      intro hhalted
      cases hhalted
    · rename_i s₁ heq
      rw [heq] at hcheck
      have hloop := hcheck.trans (advances_whileDue react fuel s₁)
      split at h
      · cases h
      · rename_i s₂ hended
        rw [hended] at hloop
        obtain rfl := Option.some.inj h
        refine ⟨hloop.trans (advances_of_eq rfl rfl rfl rfl rfl), ?_⟩
        intro _ hidle
        cases hidle
  · cases h

/-- The thread enables interrupts that were disabled, or has executed an instruction. -/
def Ticks (s : Interrupt η) (a : Action η) : Prop :=
  a = .oneTick ∨ a = .setLevel .intOn ∧ s.level = .intOff

theorem step_spec {a : Action η} (hstep : s.step react fuel a = some s')
    (hstatus : s.halted = false → s.status ≠ .idleMode) :
  Advances s s' ∧ (s'.halted = false → s'.status ≠ .idleMode) ∧
    (s.Ticks a → s'.overflowed = false → s.Ok → ∀ e ∈ s'.pending, s'.stats.totalTicks < e.key)
  := by
  rw [step.eq_def] at hstep
  split at hstep
  · cases hstep
  · rename_i hhalted
    have hne := hstatus (Bool.eq_false_of_not_eq_true hhalted)
    cases a with
    | schedule r =>
        obtain rfl := Option.some.inj hstep
        refine ⟨advances_schedule r s, fun _ => hne, ?_⟩
        rintro (hticks | ⟨hticks, -⟩) <;> cases hticks
    | setLevel now =>
        simp only [setLevel] at hstep
        split at hstep
        · obtain ⟨hadvances, hmode, hdone⟩ := oneTick_spec hstep
          have hlevel : Advances s (s.changeLevel now) := advances_of_eq rfl rfl rfl rfl rfl
          refine ⟨hlevel.trans hadvances, fun _ => hmode hne, ?_⟩
          intro _ hfits hok
          exact hdone hne hfits (hlevel.ok (hadvances.fits hfits) hok)
        · rename_i hno
          obtain rfl := Option.some.inj hstep
          refine ⟨advances_of_eq rfl rfl rfl rfl rfl, fun _ => hne, ?_⟩
          rintro (hticks | ⟨hticks, hlevel⟩)
          · cases hticks
          · exact absurd ⟨Action.setLevel.inj hticks, hlevel⟩ hno
    | oneTick =>
        obtain ⟨hadvances, hmode, hdone⟩ := oneTick_spec hstep
        exact ⟨hadvances, fun _ => hmode hne, fun _ => hdone hne⟩
    | idle =>
        obtain ⟨hadvances, hmode⟩ := idle_spec hstep
        refine ⟨hadvances, hmode, ?_⟩
        rintro (hticks | ⟨hticks, -⟩) <;> cases hticks
    | setStatus user =>
        obtain rfl := Option.some.inj hstep
        refine ⟨advances_of_eq rfl rfl rfl rfl rfl, ?_, ?_⟩
        · intro _
          cases user <;> simp
        · rintro (hticks | ⟨hticks, -⟩) <;> cases hticks

theorem ok_initial :
  (initial : Interrupt η).Ok
  := by
  constructor
  · exact Events.State.ok_new 0
  all_goals simp [initial]

/-! ### All runs -/

/-- What is claimed of the interrupts that have been scheduled. -/
structure Correct (s : Interrupt η) : Prop where
  /-- The list is sorted by due time. -/
  sorted : s.pending.Pairwise (fun e f => e.key ≤ f.key)
  /-- Each interrupt that has been scheduled has fired once, or is pending. -/
  accounted : (s.fired.map (·.event.id) ++ s.pending.map (·.item.id)).Perm
    (List.range s.scheduled.length)
  /-- An interrupt has the due time for which it has been scheduled. -/
  due : ∀ e ∈ s.pending, s.scheduled[e.item.id]? = some e.key
  /-- It has not fired before that. -/
  reached : ∀ o ∈ s.fired, s.scheduled[o.event.id]? = some o.event.due ∧ o.event.due ≤ o.time ∧
    o.time ≤ s.stats.totalTicks
  /-- Interrupts have fired in the order of their due times. -/
  ordered : s.fired.Pairwise (fun o o' => o.event.due ≤ o'.event.due)
  ticks : s.stats.totalTicks = s.stats.idleTicks + s.stats.systemTicks + s.stats.userTicks

/-- The loop ends, unless a sum is too large. -/
def LoopEnds (react : ℕ → η → ℤ → Reaction η) (s : Interrupt η) : Prop :=
  ∃ n, ∀ m ≥ n, (s.whileDue react m).1.overflowed = false → (s.whileDue react m).2 = true

theorem Ok.correct (h : s.Ok) :
  s.Correct
  := by
  have hpending : ∀ e ∈ s.pending, event e ∈ s.events.occurred.map (·.event) ++ s.events.pending :=
    fun e he => List.mem_append_right _ (List.mem_map_of_mem he)
  have hfired : ∀ o ∈ s.fired, o.event ∈ s.events.occurred.map (·.event) ++ s.events.pending :=
    fun o ho => List.mem_append_left _ (List.mem_map_of_mem ho)
  constructor
  · exact (List.pairwise_map (f := event)).mp h.events.sorted
  · have hperm := h.events.nodup
    rw [Interrupt.events, List.map_map] at hperm
    exact hperm
  · exact fun e he => h.events.scheduled (hpending e he)
  · exact fun o ho => ⟨h.events.scheduled (hfired o ho), h.events.reached o ho⟩
  · exact h.events.ordered
  · exact h.ticks

theorem Ok.loopEnds (h : s'.overflowed = false → s'.Ok) (react : ℕ → η → ℤ → Reaction η) :
  LoopEnds react s'
  := by
  use s'.events.due + 1
  intro m hm hfits
  apply (h ((advances_whileDue react m s').fits hfits)).whileDue_ends _ hfits
  omega

/-- In every run in which no sum of ticks is too large for 64 bits, the list of the pending interrupts
is sorted, each interrupt fires at most once and not early, and interrupts fire in the order of their
due times. The ticks are accounted for. The clock is never put back, no interrupt is due when `OneTick`
has been called, and the loops in `OneTick` and `Idle` end. -/
theorem simulation_correct {react : ℕ → η → ℤ → Reaction η} {fuel : ℕ} {as : List (Action η)}
    {s : Interrupt η} (hrun : Transition.run (step react fuel) initial as = some s)
    (hfits : s.overflowed = false) :
  s.Correct ∧
    (∀ a s', s.step react fuel a = some s' → s'.overflowed = false →
      s.stats.totalTicks ≤ s'.stats.totalTicks ∧
        (s.Ticks a → ∀ e ∈ s'.pending, s'.stats.totalTicks < e.key)) ∧
    LoopEnds react (s.tick.changeLevel .intOff) ∧
    LoopEnds react ({ s with status := .idleMode }.checkIfDue react true).1
  := by
  have hinvariant : (s.overflowed = false → s.Ok) ∧ (s.halted = false → s.status ≠ .idleMode) := by
    apply Transition.run_invariant (P := fun _ _ => True) _ _
      (Transition.along_of_forall (fun _ _ => trivial) _ _) hrun
    · rintro s a s' ⟨hok, hstatus⟩ - hstep
      obtain ⟨hadvances, hmode, -⟩ := step_spec hstep hstatus
      exact ⟨fun hfits => hadvances.ok hfits (hok (hadvances.fits hfits)), hmode⟩
    · exact ⟨fun _ => ok_initial, fun _ hidle => by cases hidle⟩
  obtain ⟨hok, hstatus⟩ := hinvariant
  have h := hok hfits
  refine ⟨h.correct, ?_, ?_, ?_⟩
  · intro a s' hstep hfits'
    obtain ⟨hadvances, -, hdone⟩ := step_spec hstep hstatus
    exact ⟨hadvances.ticks hfits' h, fun hticks => hdone hticks hfits' h⟩
  · apply Ok.loopEnds
    intro hfits'
    have hticked : Advances s (s.tick.changeLevel .intOff) :=
      (advances_tick s).trans (advances_of_eq rfl rfl rfl rfl rfl)
    exact hticked.ok hfits' h
  · apply Ok.loopEnds
    intro hfits'
    have hidle : Advances s { s with status := .idleMode } := advances_of_eq rfl rfl rfl rfl rfl
    exact (hidle.trans (advances_checkIfDue react true _)).ok hfits' h

/-- The first handler schedules the next interrupt and asks for a switch. -/
def timerReact (n : ℕ) (handler : Unit) (arg : ℤ) : Reaction Unit :=
  if n = 0 then ⟨[⟨handler, arg, 100, .timerInt, by decide, by decide⟩], true⟩ else ⟨[], false⟩

/-- Two interrupts are scheduled, one fires in `OneTick`, and the other one and the next in `Idle`. -/
def timerActions : List (Action Unit) :=
  [.schedule ⟨(), 0, 10, .timerInt, by decide, by decide⟩,
    .schedule ⟨(), 1, 40, .diskInt, by decide, by decide⟩, .setLevel .intOn, .setStatus true, .oneTick,
    .setStatus false, .setLevel .intOff, .idle]

theorem simulation_correct_timer :
  ∃ s, Transition.run (step timerReact 3) initial timerActions = some s ∧
    s.fired.map (fun o => (o.event.id, o.event.due, o.time)) = [(0, 10, 10), (1, 40, 40)] ∧
    s.pending.map (fun e => (e.item.id, e.key)) = [(2, 110)] ∧ s.Correct
  := by
  have hsome : (Transition.run (step timerReact 3) initial timerActions).map
      (fun s => (s.fired.map (fun o => (o.event.id, o.event.due, o.time)),
        s.pending.map (fun e => (e.item.id, e.key)), s.overflowed)) =
      some ([(0, 10, 10), (1, 40, 40)], [(2, 110)], false) := by
    decide
  obtain ⟨s, hrun, hs⟩ := Option.map_eq_some_iff.mp hsome
  simp only [Prod.mk.injEq] at hs
  obtain ⟨hfired, hpending, hfits⟩ := hs
  exact ⟨s, hrun, hfired, hpending, (simulation_correct hrun hfits).1⟩

/-- An interrupt is scheduled for the largest time from now that is possible. -/
def overflowingActions : List (Action Unit) :=
  [.schedule ⟨(), 0, 5, .diskInt, by decide, by decide⟩, .oneTick,
    .schedule ⟨(), 0, 2 ^ 63 - 1, .diskInt, by decide, by decide⟩, .oneTick]

theorem not_simulation_correct :
  ¬ ∀ (react : ℕ → Unit → ℤ → Reaction Unit) (fuel : ℕ) (as : List (Action Unit))
      (s : Interrupt Unit), Transition.run (step react fuel) initial as = some s → s.Correct
  := by
  intro hall
  have hsome : (Transition.run (step (fun _ _ _ => ⟨[], false⟩) 3) initial overflowingActions).map
      (fun s => s.fired.map (fun o => o.event.due)) = some [5, -2 ^ 63 + 9] := by
    decide
  obtain ⟨s, hrun, hfired⟩ := Option.map_eq_some_iff.mp hsome
  have hordered := List.pairwise_map.mpr (hall _ 3 overflowingActions s hrun).ordered
  rw [hfired] at hordered
  exact absurd hordered (by decide)

end Interrupt

end Nachos.Interrupts
