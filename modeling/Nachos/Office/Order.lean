import Mathlib.Data.Fintype.EquivFin
import Mathlib.Order.Fin.Basic
import Nachos.Library.Waiting
import Nachos.Office.Numbers

/-!
# The order of the locks

Locks have ranks. A process that waits for a lock holds only locks of lower ranks. A process that waits on
a condition variable holds nothing else than `senatorLock`, and nobody waits for that one because there is
room for one senator. So the processes do not wait in a circle for locks that they hold, and whoever waits
for a lock does so for a process that does not wait (`locks_ordered`).
-/

namespace Nachos.Office

/-! ### Ranks -/

/-- Locks are acquired in the order of their ranks. -/
def rank : LockName → Fin 5
  | .senatorLock => 0
  | .custLock | .senLock | .indexLock _ | .lineLock | .outsideLock => 1
  | .clerkLock _ _ => 2
  | .moneyLock => 3
  | .outputLock => 4

theorem rank_eq_zero {l : LockName} :
  rank l = 0 ↔ l = .senatorLock
  := by cases l <;> simp [rank]

theorem rank_lt_outputLock {l : LockName} (h : l ≠ .outputLock) :
  rank l < rank .outputLock
  := by cases l <;> simp [rank] at h ⊢

section

variable {p : Process} {φ : Phase} {l l' : LockName}

/-- A process has locks of lower ranks when it asks for a lock. -/
theorem rank_of_asking (h : φ.asking p = some l) (hl : l' ∈ held p φ) (hne : l' ≠ l) :
  rank l' < rank l
  := by
  cases φ with
  | printing φ =>
      obtain rfl := Option.some.inj h
      exact rank_lt_outputLock hne
  | indexing | choosing | looking | lined | flagging | outside | atEntrance | counting | awaiting
  | parting | resting | asleep | waking | developing =>
      obtain rfl := Option.some.inj h
      simp [held, hne] at hl
  | lining | summoned | crediting | charging | atDoor | entered | exiting | arrived | served | ready
  | posing =>
      obtain rfl := Option.some.inj h
      simp [held, visitorLocks, hne] at hl
      grind [rank]
  | _ => cases h

theorem held_of_waits {c : ConditionName} (h : φ.waits c) (hl : l ∈ held p φ) :
  l = lockOf c ∨ l = .senatorLock
  := by
  cases φ with
  | outside | lined | summoned | served | awaiting | parting | asleep | posing | developing
  | entered =>
      grind [held, visitorLocks, Phase.waits, lockOf]
  | _ => cases h

theorem isSenator_of_held (hsuits : φ.suits p = true) (hl : .senatorLock ∈ held p φ) :
  isSenator p = true
  := by
  induction φ with
  | printing φ ih =>
      obtain h | h := List.mem_cons.mp hl
      · cases h
      · exact ih hsuits h
  | indexing | indexed | numbered => cases p <;> simp [held, indexLock] at hl
  | arrived | atCounter | given | signalled | served | goodbye | paying | paid | posing =>
      simpa [held, visitorLocks] using hl
  | flagging | raised | visiting | emptied | lowered | atDoor | entered | exiting | dismissed
  | lining | summoned => exact hsuits
  | _ => simp [held] at hl

theorem held_of_idle (h : φ.idle = true) :
  held p φ = []
  := by cases φ <;> first | rfl | cases h

end

/-- The lock in whose queue a process is. -/
def Status.queue : Status → Option LockName
  | .atLock l => some l
  | _ => none

theorem Status.queue_eq_some {t : Status} {l : LockName} :
  t.queue = some l ↔ t = .atLock l
  := by cases t <;> simp [queue]

namespace State

/-- The process `p` waits for a lock that the process `q` owns. -/
def WaitsFor (s : State) : Process → Process → Prop :=
  Waiting.WaitsFor (fun p => (s.tasks p).status.queue) (fun l => (s.locks l).owner)

variable (machine : Process → ℕ) {s : State} {p q : Process} {l : LockName}

theorem Ok.ranked (h : Ok s) :
  Waiting.Ranked (fun p => (s.tasks p).status.queue) (fun l => (s.locks l).owner) rank
  := by
  intro p l m hqueue howner
  have hstatus := Status.queue_eq_some.mp hqueue
  obtain ⟨hheld, hne⟩ := (h.locked.owner m p).mp howner
  rw [hstatus] at hne
  apply rank_of_asking (h.asking (by rw [hstatus]; rfl)) hheld
  rintro rfl
  exact hne rfl

theorem Ok.owned (h : Ok s) (hqueue : (s.tasks p).status.queue = some l) :
  (s.locks l).owner ≠ none
  := by
  intro hnone
  have hmem := (h.locked.lockQueue l p).mpr (Status.queue_eq_some.mp hqueue)
  rw [h.locked.free l hnone] at hmem
  exact List.not_mem_nil hmem

/-- A process that owns a lock has not called `Exit`. -/
theorem Ok.goesOn (h : Ok s) (howner : (s.locks l).owner = some p) :
  (s.tasks p).program ≠ .pure .exit
  := by
  intro hexit
  have hidle := h.followed.keeps p
  rw [hexit] at hidle
  obtain ⟨hheld, -⟩ := (h.locked.owner l p).mp howner
  rw [held_of_idle hidle] at hheld
  exact List.not_mem_nil hheld

/-- A process that waits on a condition variable has no lock but `senatorLock`. -/
theorem Ok.owner_atCondition (h : Ok s) {c : ConditionName}
    (hstatus : (s.tasks p).status = .atCondition c) (howner : (s.locks l).owner = some p) :
  l = .senatorLock
  := by
  obtain ⟨hheld, hne⟩ := (h.locked.owner l p).mp howner
  rw [hstatus] at hne
  obtain rfl | hsenator := held_of_waits (h.waits hstatus) hheld
  · exact absurd rfl hne
  · exact hsenator

/-- There is one process that can have `senatorLock` or wait for it. -/
theorem Ok.senator (h : Ok s) (hheld : .senatorLock ∈ held p (s.phase p))
    (hstatus : (s.tasks p).status ≠ .ready) :
  p = .senator 0
  := by
  have hsenator := isSenator_of_held (h.suits p) hheld
  obtain ⟨r, v, history, heq, -⟩ := h.waiting p hstatus
  have hfits : State.fits p = true := h.fits (e := (r, v)) (heq ▸ List.mem_cons_self)
  cases p with
  | senator n =>
      have hn : n < 1 := of_decide_eq_true hfits
      obtain rfl : n = 0 := by omega
      rfl
  | _ => cases hsenator

/-- The processes do not wait for each other's locks: a process that waits for a lock does so, by way of the
owners, for a process that goes on. -/
theorem locks_ordered (started : Process → Bool) (ps : List Process) (s : State)
    (hrun : Transition.run (State.step machine) (initial started) ps = some s) :
  (∀ p, ¬ Relation.TransGen s.WaitsFor p p) ∧
    ∀ p l, (s.tasks p).status = .atLock l →
      ∃ q, Relation.TransGen s.WaitsFor p q ∧ (s.tasks q).status = .ready ∧
        (s.tasks q).program ≠ .pure .exit
  := by
  have h := ok_run machine hrun
  use fun p => h.ranked.not_waits_self
  intro p l hstatus
  obtain ⟨q, m, hwaits, hqueue, howner, hle⟩ :=
    h.ranked.exists_last (fun _ _ => h.owned) (Status.queue_eq_some.mpr hstatus)
  refine ⟨q, hwaits, ?_, h.goesOn howner⟩
  cases hq : (s.tasks q).status with
  | ready => rfl
  | atLock l' =>
      rw [hq] at hqueue
      cases hqueue
  | atCondition c =>
      obtain rfl := h.owner_atCondition hq howner
      -- The process `p` waits for `senatorLock`, so it is the process `q`.
      obtain rfl := rank_eq_zero.mp (le_antisymm hle (Fin.zero_le _))
      have hpheld := h.locked.asked .senatorLock p (by rw [hstatus]; rfl)
      obtain ⟨hqheld, -⟩ := (h.locked.owner .senatorLock q).mp howner
      obtain rfl := h.senator hpheld (by rw [hstatus]; simp)
      obtain rfl := h.senator hqheld (by rw [hq]; simp)
      rw [hstatus] at hq
      cases hq

/-- A clerk waits for another one, which looks at its lines. -/
theorem locks_ordered_contending :
  ∃ s, Transition.run (State.step fun _ => 0) (initial fun _ => true)
      (List.replicate 7 (.clerk .app 0) ++ List.replicate 7 (.clerk .app 1) ++
        List.replicate 4 (.clerk .app 0)) = some s ∧
    (s.tasks (.clerk .app 1)).status = .atLock .lineLock ∧
    ¬ Relation.TransGen s.WaitsFor (.clerk .app 1) (.clerk .app 1) ∧
    ∃ q, Relation.TransGen s.WaitsFor (.clerk .app 1) q ∧ (s.tasks q).status = .ready ∧
      (s.tasks q).program ≠ .pure .exit
  := by
  have hdata : (Transition.run (State.step fun _ => 0) (initial fun _ => true)
      (List.replicate 7 (.clerk .app 0) ++ List.replicate 7 (.clerk .app 1) ++
        List.replicate 4 (.clerk .app 0))).map
      (fun s => (s.tasks (.clerk .app 1)).status) = some (.atLock .lineLock) := by decide +kernel
  obtain ⟨s, hrun, hstatus⟩ := Option.map_eq_some_iff.mp hdata
  obtain ⟨hacyclic, hready⟩ := locks_ordered _ _ _ _ hrun
  exact ⟨s, hrun, hstatus, hacyclic _, hready _ _ hstatus⟩

end State

end Nachos.Office
