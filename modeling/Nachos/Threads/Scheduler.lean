import Mathlib.Data.List.Nodup
import Mathlib.Data.Nat.Notation
import Mathlib.Logic.Function.Basic
import Nachos.Library.Run

/-!
# Threads that finish

`Fork`, `Yield`, `Sleep` and `Finish` (`threads/thread.cc`) and `Scheduler::Run`
(`threads/scheduler.cc`). A thread that finishes is left to the thread that runs next, which deletes
it when it returns from `SWITCH`. A thread that runs for the first time does not return from `SWITCH`
but starts at `ThreadRoot`, and deletes nothing. If it finishes before another thread has returned
from `SWITCH`, the thread that was to be deleted is forgotten.

This does not happen exactly in the runs in which a thread returns from `SWITCH` between any two
threads that finish (`Scheduler.finish_iff`).
-/

namespace Nachos.Threads

namespace Scheduler

/-- The threads, and the history. -/
structure State where
  currentThread : ℕ
  readyList : List ℕ
  threadToBeDestroyed : Option ℕ
  /-- `Sleep` has found no thread that is ready. -/
  idle : Bool
  threads : List ℕ
  /-- The thread has been running, so that it returns from `SWITCH` when it runs again. -/
  started : ℕ → Bool
  /-- The threads that wait for something other than the processor. -/
  asleep : List ℕ
  finished : List ℕ
  deleted : List ℕ
  /-- A thread has returned from `SWITCH` since a thread has finished. -/
  returned : Bool

inductive Action where
  | fork (u : ℕ)
  | yield
  | sleep
  /-- A thread that is asleep is put on the ready list, by the running thread or by the handler of an
  interrupt. -/
  | wake (u : ℕ)
  /-- `Sleep` finds a thread that is ready, after it has been idle. -/
  | resume
  | finish
deriving DecidableEq

/-- `Scheduler::Run`, and what the next thread does first. -/
def run (nextThread : ℕ) (s : State) : State :=
  if s.started nextThread then
    { s with currentThread := nextThread
             deleted := s.deleted ++ s.threadToBeDestroyed.toList
             threadToBeDestroyed := none
             returned := true }
  else
    { s with currentThread := nextThread
             started := Function.update s.started nextThread true }

/-- `Sleep`. -/
def sleep (s : State) : State :=
  match s.readyList with
  | [] => { s with idle := true }
  | nextThread :: readyList => run nextThread { s with idle := false, readyList := readyList }

/-- `Yield`. -/
def yield (s : State) : State :=
  match s.readyList with
  | [] => s
  | nextThread :: readyList => run nextThread { s with readyList := readyList ++ [s.currentThread] }

/-- `Finish`. -/
def finish (s : State) : State :=
  sleep { s with threadToBeDestroyed := some s.currentThread
                 finished := s.finished ++ [s.currentThread]
                 returned := false }

def step (s : State) : Action → Option State
  | .fork u =>
      if s.idle = false ∧ u ∉ s.threads then
        some { s with readyList := s.readyList ++ [u], threads := u :: s.threads }
      else none
  | .yield => if s.idle then none else some (yield s)
  | .sleep => if s.idle then none else some (sleep { s with asleep := s.currentThread :: s.asleep })
  | .wake u =>
      if u ∈ s.asleep then
        some { s with readyList := s.readyList ++ [u], asleep := s.asleep.erase u }
      else none
  | .resume => if s.idle ∧ s.readyList ≠ [] then some (sleep s) else none
  | .finish => if s.idle then none else some (finish s)

/-- The thread `t` is running. -/
def initial (t : ℕ) : State where
  currentThread := t
  readyList := []
  threadToBeDestroyed := none
  idle := false
  threads := [t]
  started u := decide (u = t)
  asleep := []
  finished := []
  deleted := []
  returned := false

/-- `Finish` finds that no thread is to be deleted. -/
def Vacant (s : State) (a : Action) : Prop := a = .finish → s.threadToBeDestroyed = none

/-- A thread that finishes is the first one to do so, or a thread has returned from `SWITCH` since. -/
def Separated (s : State) (a : Action) : Prop := a = .finish → s.finished = [] ∨ s.returned = true

instance (s : State) (a : Action) : Decidable (Vacant s a) :=
  inferInstanceAs (Decidable (a = .finish → s.threadToBeDestroyed = none))

instance (s : State) (a : Action) : Decidable (Separated s a) :=
  inferInstanceAs (Decidable (a = .finish → s.finished = [] ∨ s.returned = true))

/-- What is claimed of the threads that have finished. -/
structure Destroyed (s : State) : Prop where
  /-- They have been deleted, or are going to be when another thread runs. -/
  all : s.finished = s.deleted ++ s.threadToBeDestroyed.toList
  once : s.finished.Nodup
  /-- They have been deleted while another thread was running. -/
  later : s.currentThread ∉ s.deleted

/-- The threads that have finished and have not been forgotten. -/
def State.handled (s : State) : List ℕ := s.deleted ++ s.threadToBeDestroyed.toList

/-! ### The invariant -/

/-- The invariant, except that the thread that was running need not be able to run. -/
structure Parked (s : State) : Prop where
  nodup : (s.readyList ++ s.asleep ++ s.finished).Nodup
  mem : ∀ u ∈ s.readyList ++ s.asleep ++ s.finished, u ∈ s.threads
  current : s.currentThread ∈ s.readyList ++ s.asleep ∨ s.threadToBeDestroyed = some s.currentThread
  handled : s.handled.Sublist s.finished
  returned : s.threadToBeDestroyed = none ↔ s.finished = [] ∨ s.returned = true

/-- The invariant. -/
structure Ok (s : State) : Prop where
  nodup : (s.readyList ++ s.asleep ++ s.finished).Nodup
  mem : ∀ u ∈ s.readyList ++ s.asleep ++ s.finished, u ∈ s.threads
  idle : s.idle = true →
    s.currentThread ∈ s.readyList ++ s.asleep ∨ s.threadToBeDestroyed = some s.currentThread
  running : s.idle = false →
    s.currentThread ∉ s.readyList ++ s.asleep ++ s.finished ∧ s.currentThread ∈ s.threads
  handled : s.handled.Sublist s.finished
  returned : s.threadToBeDestroyed = none ↔ s.finished = [] ∨ s.returned = true

variable {s s' : State} {a : Action} {t u : ℕ} {as : List Action}

theorem run_frame (u : ℕ) (s : State) :
  (run u s).currentThread = u ∧ (run u s).readyList = s.readyList ∧ (run u s).idle = s.idle ∧
    (run u s).threads = s.threads ∧ (run u s).asleep = s.asleep ∧
    (run u s).finished = s.finished ∧ (run u s).handled = s.handled
  := by
  rw [run]
  split
  · simp [State.handled]
  · simp [State.handled]

/-- The next thread runs, or none does. -/
theorem Parked.sleep (h : Parked s) :
  Ok (sleep s) ∧ (sleep s).handled = s.handled ∧ (sleep s).finished = s.finished
  := by
  rw [Scheduler.sleep]
  split
  · exact ⟨⟨h.nodup, h.mem, fun _ => h.current, by simp, h.handled, h.returned⟩, rfl, rfl⟩
  · rename_i u us hready
    have hnodup := h.nodup
    have hmem := h.mem
    simp only [hready, List.cons_append, List.nodup_cons] at hnodup
    simp only [hready, List.cons_append, List.mem_cons, forall_eq_or_imp] at hmem
    obtain ⟨hcurrent, hus, hidle, hthreads, hasleep, hfinished, hhandled⟩ :=
      run_frame u { s with idle := false, readyList := us }
    refine ⟨⟨?_, ?_, ?_, ?_, ?_, ?_⟩, hhandled, hfinished⟩
    · simp only [hus, hasleep, hfinished]
      exact hnodup.2
    · simp only [hus, hasleep, hfinished, hthreads]
      exact hmem.2
    · simp [hidle]
    · intro _
      simp only [hcurrent, hus, hasleep, hfinished, hthreads]
      exact ⟨hnodup.1, hmem.1⟩
    · simp only [hhandled, hfinished]
      exact h.handled
    · rw [run]
      split
      · simp
      · exact h.returned

/-- `Yield` puts the running thread at the end of the ready list, and the first one runs. -/
theorem yield_eq (hidle : s.idle = false) (hready : s.readyList ≠ []) :
  yield s = sleep { s with readyList := s.readyList ++ [s.currentThread] }
  := by
  obtain ⟨u, us, hready⟩ := List.exists_cons_of_ne_nil hready
  simp [yield, sleep, hready, ← hidle]

/-- The running thread is put on the ready list, or goes to sleep. -/
theorem Ok.parked (h : Ok s) (hidle : s.idle = false) {ready asleep : List ℕ}
    (hperm : (ready ++ asleep).Perm (s.currentThread :: (s.readyList ++ s.asleep))) :
  Parked { s with readyList := ready, asleep := asleep }
  := by
  obtain ⟨hnot, hthread⟩ := h.running hidle
  have hall := hperm.append_right s.finished
  refine ⟨?_, ?_, ?_, h.handled, h.returned⟩
  · exact hall.nodup_iff.mpr (List.nodup_cons.mpr ⟨hnot, h.nodup⟩)
  · intro u hu
    obtain rfl | hu := List.mem_cons.mp (hall.mem_iff.mp hu)
    · exact hthread
    · exact h.mem u hu
  · left
    exact hperm.mem_iff.mpr List.mem_cons_self

/-- The running thread finishes. -/
theorem Ok.finish (h : Ok s) (hidle : s.idle = false) :
  Ok (finish s) ∧ (finish s).handled = s.deleted ++ [s.currentThread] ∧
    (finish s).finished = s.finished ++ [s.currentThread]
  := by
  obtain ⟨hnot, hthread⟩ := h.running hidle
  have hdeleted : s.deleted.Sublist s.finished := (List.sublist_append_left _ _).trans h.handled
  have hperm : (s.readyList ++ s.asleep ++ (s.finished ++ [s.currentThread])).Perm
      (s.currentThread :: (s.readyList ++ s.asleep ++ s.finished)) := by
    rw [← List.append_assoc]
    exact List.perm_append_singleton _ _
  have hparked : Parked
      { s with threadToBeDestroyed := some s.currentThread
               finished := s.finished ++ [s.currentThread]
               returned := false } := by
    refine ⟨?_, ?_, .inr rfl, ?_, by simp⟩
    · exact hperm.nodup_iff.mpr (List.nodup_cons.mpr ⟨hnot, h.nodup⟩)
    · intro u hu
      obtain rfl | hu := List.mem_cons.mp (hperm.mem_iff.mp hu)
      · exact hthread
      · exact h.mem u hu
    · exact hdeleted.append (List.Sublist.refl _)
  exact hparked.sleep

/-- Every action keeps the invariant. Only `Finish` changes which threads have finished and which of
them have not been forgotten. -/
theorem Ok.step (h : Ok s) (hstep : step s a = some s') :
  Ok s' ∧ (a ≠ .finish ∧ s'.handled = s.handled ∧ s'.finished = s.finished ∨
    a = .finish ∧ s'.handled = s.deleted ++ [s.currentThread] ∧
      s'.finished = s.finished ++ [s.currentThread])
  := by
  cases a with
  | fork u =>
      simp only [Scheduler.step, Option.ite_none_right_eq_some, Option.some.injEq] at hstep
      obtain ⟨⟨hidle, hu⟩, rfl⟩ := hstep
      obtain ⟨hnot, hthread⟩ := h.running hidle
      have hnew : u ∉ s.readyList ++ s.asleep ++ s.finished := fun hmem => hu (h.mem u hmem)
      have hne : s.currentThread ≠ u := by
        rintro rfl
        contradiction
      have hperm : (s.readyList ++ [u] ++ s.asleep ++ s.finished).Perm
          (u :: (s.readyList ++ s.asleep ++ s.finished)) := by
        simp only [List.append_assoc, List.singleton_append]
        exact List.perm_middle
      refine ⟨⟨?_, ?_, by simp [hidle], ?_, h.handled, h.returned⟩, .inl ⟨by simp, rfl, rfl⟩⟩
      · exact hperm.nodup_iff.mpr (List.nodup_cons.mpr ⟨hnew, h.nodup⟩)
      · intro v hv
        obtain rfl | hv := List.mem_cons.mp (hperm.mem_iff.mp hv)
        · exact List.mem_cons_self
        · exact List.mem_cons_of_mem _ (h.mem v hv)
      · intro _
        refine ⟨?_, List.mem_cons_of_mem _ hthread⟩
        intro hmem
        obtain heq | hmem := List.mem_cons.mp (hperm.mem_iff.mp hmem)
        · exact hne heq
        · exact hnot hmem
  | yield =>
      simp only [Scheduler.step, Option.ite_none_left_eq_some, Option.some.injEq] at hstep
      obtain ⟨hidle, rfl⟩ := hstep
      rw [Bool.not_eq_true] at hidle
      by_cases hready : s.readyList = []
      · have heq : Scheduler.yield s = s := by simp [Scheduler.yield, hready]
        rw [heq]
        exact ⟨h, .inl ⟨by simp, rfl, rfl⟩⟩
      · rw [yield_eq hidle hready]
        have hparked := @Ok.parked _ h hidle (s.readyList ++ [s.currentThread]) s.asleep
          (by simp)
        obtain ⟨hok, hsame⟩ := hparked.sleep
        exact ⟨hok, .inl ⟨by simp, hsame⟩⟩
  | sleep =>
      simp only [Scheduler.step, Option.ite_none_left_eq_some, Option.some.injEq] at hstep
      obtain ⟨hidle, rfl⟩ := hstep
      rw [Bool.not_eq_true] at hidle
      have hparked := @Ok.parked _ h hidle s.readyList (s.currentThread :: s.asleep)
        List.perm_middle
      obtain ⟨hok, hsame⟩ := hparked.sleep
      exact ⟨hok, .inl ⟨by simp, hsame⟩⟩
  | wake u =>
      simp only [Scheduler.step, Option.ite_none_right_eq_some, Option.some.injEq] at hstep
      obtain ⟨hu, rfl⟩ := hstep
      have hperm : (s.readyList ++ [u] ++ s.asleep.erase u).Perm (s.readyList ++ s.asleep) := by
        rw [List.append_assoc]
        exact (List.perm_cons_erase hu).symm.append_left s.readyList
      have hall := hperm.append_right s.finished
      refine ⟨⟨?_, ?_, ?_, ?_, h.handled, h.returned⟩, .inl ⟨by simp, rfl, rfl⟩⟩
      · exact hall.nodup_iff.mpr h.nodup
      · exact fun v hv => h.mem v (hall.mem_iff.mp hv)
      · exact fun hidle => (h.idle hidle).imp_left hperm.mem_iff.mpr
      · intro hidle
        obtain ⟨hnot, hthread⟩ := h.running hidle
        exact ⟨fun hmem => hnot (hall.mem_iff.mp hmem), hthread⟩
  | resume =>
      simp only [Scheduler.step, Option.ite_none_right_eq_some, Option.some.injEq] at hstep
      obtain ⟨⟨hidle, -⟩, rfl⟩ := hstep
      have hparked : Parked s := ⟨h.nodup, h.mem, h.idle hidle, h.handled, h.returned⟩
      obtain ⟨hok, hsame⟩ := hparked.sleep
      exact ⟨hok, .inl ⟨by simp, hsame⟩⟩
  | finish =>
      simp only [Scheduler.step, Option.ite_none_left_eq_some, Option.some.injEq] at hstep
      obtain ⟨hidle, rfl⟩ := hstep
      obtain ⟨hok, hsame⟩ := h.finish (by simpa using hidle)
      exact ⟨hok, .inr ⟨rfl, hsame⟩⟩

theorem ok_initial (t : ℕ) :
  Ok (initial t)
  := by
  refine ⟨?_, ?_, ?_, ?_, ?_, ?_⟩
  · simp [initial]
  · simp [initial]
  · simp [initial]
  · simp [initial]
  · simp [initial, State.handled]
  · simp [initial]

/-- The running thread has not been deleted. -/
theorem Ok.later (h : Ok s) :
  s.currentThread ∉ s.deleted
  := by
  intro hmem
  have hfinished : s.currentThread ∈ s.finished :=
    h.handled.subset (List.mem_append_left _ hmem)
  cases hidle : s.idle with
  | false => exact (h.running hidle).1 (List.mem_append_right _ hfinished)
  | true =>
      obtain hlive | hpending := h.idle hidle
      · exact (List.nodup_append'.mp h.nodup).2.2 hlive hfinished
      · have hnodup : s.handled.Nodup := h.handled.nodup (List.nodup_append'.mp h.nodup).2.1
        simp only [State.handled, hpending, Option.toList_some] at hnodup
        exact (List.nodup_append'.mp hnodup).2.2 hmem List.mem_cons_self

/-! ### Runs -/

/-- Whether `Finish` finds a thread that is to be deleted depends on whether a thread has returned from
`SWITCH`. -/
theorem Ok.vacant_iff (h : Ok s) (a : Action) :
  Vacant s a ↔ Separated s a
  := by
  rw [Vacant, Separated, h.returned]

/-- No thread had been forgotten before an action if none is afterwards. Then the action has not made
one forgotten. -/
theorem Ok.all_step (h : Ok s) (hstep : Scheduler.step s a = some s') :
  s'.finished = s'.handled ↔ s.finished = s.handled ∧ Separated s a
  := by
  rw [← h.vacant_iff]
  obtain ⟨-, ⟨ha, hhandled, hfinished⟩ | ⟨rfl, hhandled, hfinished⟩⟩ := h.step hstep
  · rw [hhandled, hfinished]
    simp [Vacant, ha]
  · rw [hhandled, hfinished, List.append_left_inj]
    have hlength := h.handled.length_le
    cases hpending : s.threadToBeDestroyed with
    | none => simp [Vacant, State.handled, hpending]
    | some v =>
        simp only [Vacant, State.handled, hpending, Option.toList_some] at hlength ⊢
        constructor
        · intro heq
          rw [heq, List.length_append, List.length_singleton] at hlength
          omega
        · simp

/-- The same for runs. -/
theorem Ok.all_run (h : Ok s) (hrun : Transition.run Scheduler.step s as = some s') :
  s'.finished = s'.handled ↔
    s.finished = s.handled ∧ Transition.Along Scheduler.step Separated s as
  := by
  induction as generalizing s with
  | nil =>
      obtain rfl := Option.some.inj hrun
      simp [Transition.Along]
  | cons a as ih =>
      obtain ⟨s₁, hstep, hrun⟩ := Transition.run_cons.mp hrun
      rw [ih (h.step hstep).1 hrun, h.all_step hstep, Transition.along_cons hstep, and_assoc]

theorem Ok.along_vacant_iff (h : Ok s) (as : List Action) :
  Transition.Along Scheduler.step Vacant s as ↔ Transition.Along Scheduler.step Separated s as
  := by
  induction as generalizing s with
  | nil => rfl
  | cons a as ih =>
      simp only [Transition.Along, h.vacant_iff a]
      apply and_congr_right
      intro _
      constructor
      · exact fun hall s' hstep => (ih (h.step hstep).1).mp (hall s' hstep)
      · exact fun hall s' hstep => (ih (h.step hstep).1).mpr (hall s' hstep)

theorem Ok.of_run (h : Ok s) (hrun : Transition.run Scheduler.step s as = some s') :
  Ok s'
  := @Transition.run_invariant _ _ _ Ok (fun _ _ => True)
    (fun _ _ _ hs _ hstep => (hs.step hstep).1) _ _ _ h
    (Transition.along_of_forall (fun _ _ => trivial) _ _) hrun

/-- `Finish` always finds that no thread is to be deleted, and every thread that has finished has been
deleted once, exactly in the runs in which a thread returns from `SWITCH` between any two threads that
finish. -/
theorem finish_iff {t : ℕ} (hrun : Transition.run step (initial t) as = some s) :
  (Transition.Along step Vacant (initial t) as ↔ Transition.Along step Separated (initial t) as) ∧
    (Destroyed s ↔ Transition.Along step Separated (initial t) as)
  := by
  have hok := (ok_initial t).of_run hrun
  have hall := (ok_initial t).all_run hrun
  refine ⟨(ok_initial t).along_vacant_iff as, ?_⟩
  constructor
  · intro hdestroyed
    exact (hall.mp hdestroyed.all).2
  · intro hseparated
    exact ⟨hall.mpr ⟨rfl, hseparated⟩, (List.nodup_append'.mp hok.nodup).2.1, hok.later⟩

/-- A thread yields to a thread that it has forked, and deletes it when it has finished. -/
theorem finish_iff_fork :
  ∃ s, Transition.run step (initial 0) [.fork 1, .yield, .finish] = some s ∧
    s.deleted = [1] ∧ Destroyed s
  := by
  have hdeleted : (Transition.run step (initial 0) [.fork 1, .yield, .finish]).map State.deleted =
      some [1] := by decide
  obtain ⟨s, hs, heq⟩ := Option.map_eq_some_iff.mp hdeleted
  exact ⟨s, hs, heq, (finish_iff hs).2.mpr (by decide)⟩

/-- Two threads that have been forked finish one after the other. The first of them is forgotten. -/
theorem not_vacant :
  ¬ ∀ (t : ℕ) (as : List Action) (s : State), Transition.run step (initial t) as = some s →
    Transition.Along step Vacant (initial t) as ∧ Destroyed s
  := by
  intro hall
  have hrun : (Transition.run step (initial 0) [.fork 1, .fork 2, .yield, .finish, .finish]).map
      (fun s => (s.finished, s.deleted, s.threadToBeDestroyed, s.currentThread)) =
      some ([1, 2], [2], none, 0) := by decide
  obtain ⟨s, hs, -⟩ := Option.map_eq_some_iff.mp hrun
  have hvacant := (hall 0 _ s hs).1
  revert hvacant
  decide

end Scheduler

end Nachos.Threads
