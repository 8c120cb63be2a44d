import Nachos.Monitor.Conditions

/-!
# Synchronized lists

A `SynchList` (`threads/synchlist.cc`) is a list with a lock and a condition variable. Any number of
threads call `Append` and `Remove`, and also use other locks and condition variables. The items come
out in the order in which they go in, `Remove` does not find the list empty after it has left its
loop, and no item stays in the list for which a thread should have been woken
(`SynchList.synchList_linearizable`).
-/

namespace Nachos.Monitor

/-- The lock `L` or the condition variable `c` is used. -/
def Kernel.Action.uses (L c : ℕ) : Kernel.Action → Bool
  | .acquire M | .release M => M == L
  | .wait d M | .signal d M | .broadcast d M => d == c || M == some L
  | _ => false

namespace SynchList

variable {α : Type}

/-- Where a thread is in `Append` or `Remove`. -/
inductive Pos (α : Type) where
  | outside
  /-- At the end of `lock->Acquire()` in `Append`, or in it. -/
  | appending (item : α)
  /-- At the end of `list->Append(item)`. -/
  | appended
  /-- At the end of `listEmpty->Signal(lock)`, or in it. -/
  | signalled
  /-- At the end of `lock->Acquire()` in `Remove`, or in it. -/
  | removing
  /-- At the end of `listEmpty->Wait(lock)`, or in it. -/
  | waiting
  /-- At the end of the loop, whether or not the thread has been in `Wait`. -/
  | taking (waited : Bool)
  /-- At the end of `item = list->Remove()`. -/
  | taken (item : α)
  /-- The assertion `item != NULL` has failed. -/
  | failed

/-- The list, and the items that have been put into it and taken out of it. -/
structure Data (α : Type) where
  list : List α
  appended : List α
  removed : List α

/-- What a thread does when it is neither in `Append` nor in `Remove`. -/
inductive Choice (α : Type) where
  | append (item : α)
  | remove
  | other (a : Kernel.Action)

/-- The code of `Append` and `Remove`, with the lock `L` and the condition variable `c`. -/
def next (L c : ℕ) : Pos α → Data α → Choice α → Option (Data α × Effect × Pos α)
  | .outside, s, .append item => some (s, .call (.acquire L), .appending item)
  | .outside, s, .remove => some (s, .call (.acquire L), .removing)
  | .outside, s, .other a => if a.uses L c then none else some (s, .call a, .outside)
  | .appending item, s, _ =>
      some ({ s with list := s.list ++ [item], appended := s.appended ++ [item] }, .compute, .appended)
  | .appended, s, _ => some (s, .call (.signal c (some L)), .signalled)
  | .signalled, s, _ => some (s, .call (.release L), .outside)
  | .removing, s, _ =>
      if s.list.isEmpty then some (s, .call (.wait c (some L)), .waiting)
      else some (s, .compute, .taking false)
  | .waiting, s, _ =>
      if s.list.isEmpty then some (s, .call (.wait c (some L)), .waiting)
      else some (s, .compute, .taking true)
  | .taking _, s, _ =>
      match s.list with
      | item :: list =>
          some ({ s with list := list, removed := s.removed ++ [item] }, .compute, .taken item)
      | [] => some (s, .compute, .failed)
  | .taken _, s, _ => some (s, .call (.release L), .outside)
  | .failed, _, _ => none

/-- Threads may be interrupted everywhere. -/
def code (L c : ℕ) : Code (Data α) (Pos α) (Choice α) where
  next _ := next L c
  masked _ := false
  interrupt _ _ := none

/-- The thread has been in `Wait` and has not taken an item since. -/
def Pos.hasWaited : Pos α → Bool
  | .waiting => true
  | .taking waited => waited
  | _ => false

/-- The thread has appended its item and not yet called `Signal`. -/
def Pos.isAppended : Pos α → Bool
  | .appended => true
  | _ => false

/-- The removers that `Signal` has taken out of the queue of `c` and that have since neither taken an
item nor gone back to waiting. -/
def woken (c : ℕ) (x : Exec (Data α) (Pos α)) : List ℕ :=
  x.threads.filter (fun t => (x.pos t).hasWaited && !decide (t ∈ (x.kernel.conditions c).waitQueue))

/-- What is claimed of a synchronized list. -/
structure Linearizable (c : ℕ) (x : Exec (Data α) (Pos α)) : Prop where
  /-- The items taken out, followed by those in the list, are those put into it. -/
  fifo : x.data.appended = x.data.removed ++ x.data.list
  /-- No assertion has failed. -/
  safe : ∀ t, x.pos t ≠ .failed
  /-- No wakeup is lost. -/
  wakeup : (x.kernel.conditions c).waitQueue ≠ [] → (∀ t, x.pos t ≠ .appended) →
    x.data.list.length ≤ (woken c x).length

end SynchList

/-! ### The invariant -/

namespace SynchList

variable {α : Type} {L c : ℕ} {x x' : Exec (Data α) (Pos α)} {m : Move (Choice α)} {t : ℕ}

/-- A thread in `Append` or `Remove` holds the lock. -/
def holds (L : ℕ) (p : Pos α) (M : ℕ) : Prop := M = L ∧ p ≠ .outside

/-- The thread has found an item in the list. -/
def isTaking (p : Pos α) : Prop := ∃ waited, p = .taking waited

theorem code_respects (L c : ℕ) :
  Code.Respects (code L c : Code (Data α) (Pos α) (Choice α)) (holds L)
  := by
  rintro t p s i s' e p' hnext M ⟨rfl, hp'⟩
  simp only [code] at hnext
  cases p with
  | outside =>
      cases i with
      | append item | remove =>
          obtain ⟨-, rfl, -⟩ := Prod.mk.inj (Option.some.inj hnext)
          exact .inl rfl
      | other a =>
          simp only [next] at hnext
          split at hnext
          · cases hnext
          · simp only [Option.some.injEq, Prod.mk.injEq] at hnext
            exact absurd hnext.2.2.symm hp'
  | appending item | appended =>
      simp only [next, Option.some.injEq, Prod.mk.injEq] at hnext
      obtain ⟨-, rfl, -⟩ := hnext
      exact .inr ⟨⟨rfl, by simp⟩, by simp⟩
  | signalled | taken item =>
      simp only [next, Option.some.injEq, Prod.mk.injEq] at hnext
      exact absurd hnext.2.2.symm hp'
  | removing | waiting =>
      simp only [next] at hnext
      split at hnext
      · simp only [Option.some.injEq, Prod.mk.injEq] at hnext
        obtain ⟨-, rfl, -⟩ := hnext
        exact .inr ⟨⟨rfl, by simp⟩, by simp⟩
      · simp only [Option.some.injEq, Prod.mk.injEq] at hnext
        obtain ⟨-, rfl, -⟩ := hnext
        exact .inr ⟨⟨rfl, by simp⟩, by simp⟩
  | taking waited =>
      simp only [next] at hnext
      split at hnext
      · simp only [Option.some.injEq, Prod.mk.injEq] at hnext
        obtain ⟨-, rfl, -⟩ := hnext
        exact .inr ⟨⟨rfl, by simp⟩, by simp⟩
      · simp only [Option.some.injEq, Prod.mk.injEq] at hnext
        obtain ⟨-, rfl, -⟩ := hnext
        exact .inr ⟨⟨rfl, by simp⟩, by simp⟩
  | failed => cases hnext

theorem code_settles (L c : ℕ) :
  Code.Settles (code L c : Code (Data α) (Pos α) (Choice α)) isTaking
  := by
  rintro t p s i s' e p' hnext ⟨waited, rfl⟩
  simp only [code] at hnext
  cases p with
  | outside =>
      cases i with
      | append | remove => cases hnext
      | other a =>
          simp only [next] at hnext
          split at hnext <;> cases hnext
  | appending | appended | signalled | taken | failed => cases hnext
  | removing | waiting =>
      simp only [next] at hnext
      split at hnext
      · cases hnext
      · simp only [Option.some.injEq, Prod.mk.injEq] at hnext
        obtain ⟨-, rfl, -⟩ := hnext
        exact ⟨by simp, by simp⟩
  | taking =>
      simp only [next] at hnext
      split at hnext <;> cases hnext

theorem code_plain (L c : ℕ) :
  Code.Plain (code L c : Code (Data α) (Pos α) (Choice α))
  := by
  refine ⟨?_, fun _ _ => rfl⟩
  rintro t p s i s' e p' hnext u rfl
  simp only [code] at hnext
  cases p with
  | outside =>
      cases i with
      | append | remove => cases hnext
      | other a =>
          simp only [next] at hnext
          split at hnext <;> cases hnext
  | appending | appended | signalled | taken | failed => cases hnext
  | removing | waiting | taking =>
      simp only [next] at hnext
      split at hnext <;> cases hnext

/-- The number of threads that have been woken and not taken an item since, of which those are left
out that are waiting. -/
def numWoken (c : ℕ) (x : Exec (Data α) (Pos α)) : ℕ :=
  x.threads.countP
    (fun t => (x.pos t).hasWaited && !decide (t ∈ (x.kernel.conditions c).waitQueue))

/-- The number of threads that are going to call `Signal`. -/
def numAppended (x : Exec (Data α) (Pos α)) : ℕ := x.threads.countP (fun t => (x.pos t).isAppended)

/-- The invariant of a synchronized list. -/
structure Ok (L c : ℕ) (x : Exec (Data α) (Pos α)) : Prop where
  exec : x.Ok (holds L)
  settled : ∀ t, isTaking (x.pos t) → x.kernel.Settled t
  bound : x.kernel.Bound c L
  quiet : ∀ t M, x.kernel.pc t ≠ .inBroadcast c M
  fifo : x.data.appended = x.data.removed ++ x.data.list
  safe : ∀ t, x.pos t ≠ .failed
  found : ∀ t, isTaking (x.pos t) → x.data.list ≠ []
  queued : ∀ t ∈ (x.kernel.conditions c).waitQueue, x.pos t = .waiting
  wakeup : (x.kernel.conditions c).waitQueue ≠ [] →
    x.data.list.length ≤ numWoken c x + numAppended x

/-- Only one thread has found an item, or can make a step in `Append` or `Remove`. -/
theorem Ok.not_isTaking (h : Ok L c x) {u : ℕ} (hpc : x.kernel.pc t = .outside)
    (ht : x.pos t ≠ .outside) (hut : u ≠ t) :
  ¬ isTaking (x.pos u)
  := by
  rintro ⟨waited, hu⟩
  have howner := h.exec.owner hpc ⟨rfl, ht⟩
  have howner' := h.exec.owner_of_settled (L := L) (h.settled u ⟨waited, hu⟩) ⟨rfl, by simp [hu]⟩
  exact hut (Option.some.inj (howner'.symm.trans howner))

/-- A move that changes neither the list nor where the threads are in `Append` and `Remove`. -/
theorem Ok.kernel (h : Ok L c x) {a : Kernel.Action} {k : Kernel}
    (ha : a = .yield ∨ a = .preempt ∨ a = .proceed) (hk : x.kernel.step a = some k)
    (hexec : Exec.Ok (holds L) { x with kernel := k })
    (hsettled : ∀ t, isTaking (x.pos t) → k.Settled t) :
  Ok L c { x with kernel := k }
  := by
  have hcondition : a.condition = none := by
    obtain rfl | rfl | rfl := ha <;> rfl
  obtain ⟨hsame, hquiet⟩ := Kernel.conditions_step h.quiet hcondition hk
  refine ⟨hexec, hsettled, ?_, hquiet, h.fifo, h.safe, h.found, ?_, ?_⟩
  · apply h.bound.step h.exec.kernel _ hk
    obtain rfl | rfl | rfl := ha <;> trivial
  · simp only [hsame]
    exact h.queued
  · simp only [numWoken, numAppended, hsame]
    exact h.wakeup

/-- A running thread is one of the threads, and does not wait. -/
theorem Ok.running (h : Ok L c x) (hrun : x.kernel.currentThread = some t) :
  t ∈ x.threads ∧ t ∉ (x.kernel.conditions c).waitQueue
  := by
  constructor
  · apply (h.exec.kernel.places.mem_iff t).mpr
    use .running
    simp [Kernel.queue, hrun]
  · exact h.exec.kernel.not_mem hrun (p := .condition c) (by simp)

/-- A thread makes a step that does not change the condition variable. -/
theorem Ok.advance (h : Ok L c x) (hrun : x.kernel.currentThread = some t)
    (hpc : x.kernel.pc t = .outside) {kernel : Kernel} {data : Data α} {p : Pos α}
    (hexec : Exec.Ok (holds L) ⟨kernel, x.threads, data, Function.update x.pos t p⟩)
    (hsettled : ∀ u, isTaking (Function.update x.pos t p u) → kernel.Settled u)
    (hbound : kernel.Bound c L) (hquiet : ∀ t M, kernel.pc t ≠ .inBroadcast c M)
    (hsame : kernel.conditions c = x.kernel.conditions c)
    (hfifo : data.appended = data.removed ++ data.list) (hsafe : p ≠ .failed)
    (hfound : isTaking p → data.list ≠ [])
    (hothers : x.pos t = .outside → data.list = x.data.list)
    (hcount : data.list.length + (x.pos t).hasWaited.toNat + (x.pos t).isAppended.toNat ≤
      x.data.list.length + p.hasWaited.toNat + p.isAppended.toNat) :
  Ok L c ⟨kernel, x.threads, data, Function.update x.pos t p⟩
  := by
  obtain ⟨hmem, hnot⟩ := h.running hrun
  refine ⟨hexec, hsettled, hbound, hquiet, hfifo, ?_, ?_, ?_, ?_⟩
  · intro u
    by_cases hut : u = t
    · simpa [hut] using hsafe
    · simpa [hut] using h.safe u
  · intro u hu
    by_cases hut : u = t
    · simp only [hut, Function.update_self] at hu
      exact hfound hu
    · simp only [Function.update_of_ne hut] at hu
      by_cases hout : x.pos t = .outside
      · simp only [hothers hout]
        exact h.found u hu
      · exact absurd hu (h.not_isTaking hpc hout hut)
  · intro u hu
    simp only [hsame] at hu
    have hut : u ≠ t := by
      rintro rfl
      exact hnot hu
    simpa [hut] using h.queued u hu
  · intro hne
    simp only [hsame] at hne
    have hwakeup := h.wakeup hne
    have hwoken := Places.countP_of_agree h.exec.nodup hmem
      (fun u => (x.pos u).hasWaited && !decide (u ∈ (x.kernel.conditions c).waitQueue))
      (fun u => (Function.update x.pos t p u).hasWaited &&
        !decide (u ∈ (x.kernel.conditions c).waitQueue))
      (by
        intro u _ hut
        simp [hut])
    have happended := Places.countP_of_agree h.exec.nodup hmem (fun u => (x.pos u).isAppended)
      (fun u => (Function.update x.pos t p u).isAppended)
      (by
        intro u _ hut
        simp [hut])
    simp only [Function.update_self, hnot, decide_false, Bool.not_false, Bool.and_true] at hwoken
    simp only [Function.update_self] at happended
    simp only [numWoken, numAppended, hsame] at hwakeup ⊢
    omega

/-- A call that does not use the condition variable. -/
theorem Ok.call (h : Ok L c x) (hrun : x.kernel.currentThread = some t)
    (hpc : x.kernel.pc t = .outside) {a : Kernel.Action} {k : Kernel}
    (ha : a.condition ≠ some c) (hcall : x.kernel.call t a = some k) :
  k.Bound c L ∧ (∀ t M, k.pc t ≠ .inBroadcast c M) ∧ k.conditions c = x.kernel.conditions c
  := by
  refine ⟨?_, ?_, Kernel.conditions_call ha hcall⟩
  · apply h.bound.call h.exec.kernel hrun hpc _ hcall
    cases a with
    | wait d M | signal d M | broadcast d M => exact fun hd => absurd (congrArg some hd) ha
    | acquire | release | yield | preempt | proceed => trivial
  · intro u M hu
    exact h.quiet u M (Kernel.inBroadcast_call ha hcall hu)

/-- A thread that holds the lock may use the condition variable. -/
theorem Ok.guarded (h : Ok L c x) (hrun : x.kernel.currentThread = some t)
    (hpc : x.kernel.pc t = .outside) (ht : x.pos t ≠ .outside) :
  x.kernel.Guarded L (some L)
  := by
  have howner := h.exec.owner hpc ⟨rfl, ht⟩
  exact ⟨rfl, by simp [hrun], howner.trans hrun.symm⟩

/-- A thread that has appended its item calls `Signal`. -/
theorem Ok.signal (h : Ok L c x) (hrun : x.kernel.currentThread = some t)
    (hpc : x.kernel.pc t = .outside) (ht : x.pos t = .appended) {k : Kernel}
    (hcall : x.kernel.call t (.signal c (some L)) = some k)
    (hexec : Exec.Ok (holds L) ⟨k, x.threads, x.data, Function.update x.pos t .signalled⟩)
    (hsettled : ∀ u, isTaking (Function.update x.pos t .signalled u) → k.Settled u) :
  Ok L c ⟨k, x.threads, x.data, Function.update x.pos t .signalled⟩
  := by
  obtain ⟨hmem, hnot⟩ := h.running hrun
  have hguarded := h.guarded hrun hpc (by simp [ht])
  have hdisc : x.kernel.Disciplined c L (.signal c (some L)) := fun _ => hguarded
  have hbound : k.Bound c L := h.bound.call h.exec.kernel hrun hpc hdisc hcall
  have hk : (x.kernel.signal c (some L)).setPc t (.leaving none) = k := Option.some.inj hcall
  have hquiet : ∀ u M, k.pc u ≠ .inBroadcast c M := by
    intro u M hu
    rw [← hk] at hu
    by_cases hut : u = t
    · simp [Kernel.setPc, hut] at hu
    · simp only [Kernel.setPc, Function.update_of_ne hut, (x.kernel.signal_frame c (some L)).2.1] at hu
      exact h.quiet u M hu
  have hother : ∀ {u}, u ≠ t → Function.update x.pos t .signalled u = x.pos u :=
    fun hut => Function.update_of_ne hut _ _
  have hsafe : ∀ u, Function.update x.pos t .signalled u ≠ .failed := by
    intro u
    by_cases hut : u = t
    · simp [hut]
    · rw [hother hut]
      exact h.safe u
  have hfound : ∀ u, isTaking (Function.update x.pos t .signalled u) → x.data.list ≠ [] := by
    intro u hu
    by_cases hut : u = t
    · obtain ⟨waited, hu⟩ := hu
      simp [hut] at hu
    · rw [hother hut] at hu
      exact h.found u hu
  cases hqueue : (x.kernel.conditions c).waitQueue with
  | nil =>
      have hnil : (k.conditions c).waitQueue = [] := by
        rw [← hk, Kernel.signal_nil _ hqueue]
        exact hqueue
      refine ⟨hexec, hsettled, hbound, hquiet, h.fifo, hsafe, hfound, ?_, ?_⟩
      · simp [hnil]
      · simp [hnil]
  | cons u us =>
      have htail : (k.conditions c).waitQueue = us := by
        rw [← hk, h.bound.signal_cons hqueue]
        simp [Kernel.wake, Kernel.setPc, Kernel.readyToRun, Kernel.record, Kernel.setCondition]
      have hwaiting : ∀ v ∈ u :: us, v ≠ t ∧ x.pos v = .waiting := by
        intro v hv
        rw [← hqueue] at hv
        refine ⟨?_, h.queued v hv⟩
        rintro rfl
        exact hnot hv
      refine ⟨hexec, hsettled, hbound, hquiet, h.fifo, hsafe, hfound, ?_, ?_⟩
      · intro v hv
        simp only [htail] at hv
        obtain ⟨hvt, hv⟩ := hwaiting v (List.mem_cons_of_mem u hv)
        simp only [hother hvt, hv]
      · intro _
        have hnodup : (u :: us).Nodup := by
          rw [← hqueue]
          exact h.exec.kernel.places.nodup (.condition c)
        have humem : u ∈ x.threads := by
          apply (h.exec.kernel.places.mem_iff u).mpr
          use .condition c
          simp [Kernel.queue, hqueue]
        obtain ⟨hut, hu⟩ := hwaiting u List.mem_cons_self
        have hwoken := Places.countP_of_agree h.exec.nodup humem
          (fun v => (x.pos v).hasWaited && !decide (v ∈ u :: us))
          (fun v => (Function.update x.pos t .signalled v).hasWaited && !decide (v ∈ us))
          (by
            intro v _ hvu
            by_cases hvt : v = t
            · simp [hvt, ht, Pos.hasWaited]
            · simp [hvt, hvu])
        have happended := Places.countP_of_agree h.exec.nodup hmem (fun v => (x.pos v).isAppended)
          (fun v => (Function.update x.pos t .signalled v).isAppended)
          (by
            intro v _ hvt
            simp [hvt])
        have hwakeup := h.wakeup (by simp [hqueue])
        have hwaited : (Pos.waiting : Pos α).hasWaited = true := rfl
        have hbefore : (Pos.appended : Pos α).isAppended = true := rfl
        have hafter : (Pos.signalled : Pos α).isAppended = false := rfl
        simp only [hother hut, hu, (List.nodup_cons.mp hnodup).1, hwaited, List.mem_cons_self,
          decide_true, decide_false, Bool.not_true, Bool.not_false, Bool.and_true, Bool.and_false,
          Bool.toNat_true, Bool.toNat_false] at hwoken
        simp only [Function.update_self, ht, hbefore, hafter, Bool.toNat_true,
          Bool.toNat_false] at happended
        simp only [numWoken, numAppended, hqueue, htail] at hwakeup ⊢
        omega

/-- A thread that has found the list empty calls `Wait`. -/
theorem Ok.wait (h : Ok L c x) (hrun : x.kernel.currentThread = some t)
    (hpc : x.kernel.pc t = .outside) (ht : x.pos t ≠ .outside) (hempty : x.data.list = [])
    {k : Kernel} (hcall : x.kernel.call t (.wait c (some L)) = some k)
    (hexec : Exec.Ok (holds L) ⟨k, x.threads, x.data, Function.update x.pos t .waiting⟩)
    (hsettled : ∀ u, isTaking (Function.update x.pos t .waiting u) → k.Settled u) :
  Ok L c ⟨k, x.threads, x.data, Function.update x.pos t .waiting⟩
  := by
  have hguarded := h.guarded hrun hpc ht
  have hdisc : x.kernel.Disciplined c L (.wait c (some L)) := fun _ => hguarded
  have hbound : k.Bound c L := h.bound.call h.exec.kernel hrun hpc hdisc hcall
  have haccepted : (x.kernel.conditions c).waitingLock = none ∨
      (x.kernel.conditions c).waitingLock = some L := by
    rw [h.bound.waitingLock]
    split
    · exact .inl rfl
    · exact .inr rfl
  have hk : x.kernel.wait t c (some L) = k := Option.some.inj hcall
  have hqueue : (k.conditions c).waitQueue = (x.kernel.conditions c).waitQueue ++ [t] := by
    rw [← hk]
    simp only [Kernel.wait, if_pos haccepted, Kernel.conditions_sleep, (Kernel.release_frame t L _).1]
    simp [Kernel.record, Kernel.setPc, Kernel.setCondition]
  have hquiet : ∀ u M, k.pc u ≠ .inBroadcast c M := by
    intro u M hu
    rw [← hk] at hu
    simp only [Kernel.wait, if_pos haccepted, Kernel.pc_sleep, (Kernel.release_frame t L _).2] at hu
    by_cases hut : u = t
    · simp [Kernel.record, Kernel.setPc, hut] at hu
    · simp only [Kernel.record, Kernel.setPc, Function.update_of_ne hut] at hu
      exact h.quiet u M hu
  have hother : ∀ {u}, u ≠ t → Function.update x.pos t .waiting u = x.pos u :=
    fun hut => Function.update_of_ne hut _ _
  refine ⟨hexec, hsettled, hbound, hquiet, h.fifo, ?_, ?_, ?_, ?_⟩
  · intro u
    by_cases hut : u = t
    · simp [hut]
    · simp only [hother hut]
      exact h.safe u
  · intro u hu
    by_cases hut : u = t
    · obtain ⟨waited, hu⟩ := hu
      simp [hut] at hu
    · simp only [hother hut] at hu
      exact h.found u hu
  · intro u hu
    simp only [hqueue, List.mem_append, List.mem_singleton] at hu
    by_cases hut : u = t
    · simp [hut]
    · simp only [hother hut]
      exact h.queued u (hu.resolve_right hut)
  · intro _
    simp [hempty]

/-- A thread makes a step. -/
theorem Ok.run (h : Ok L c x) {i : Choice α} {data : Data α} {effect : Effect} {p : Pos α}
    {kernel : Kernel} {threads : List ℕ} (hrun : x.kernel.currentThread = some t)
    (hpc : x.kernel.pc t = .outside) (hnext : next L c (x.pos t) x.data i = some (data, effect, p))
    (happly : x.apply t effect = some (kernel, threads))
    (hexec : Exec.Ok (holds L) ⟨kernel, threads, data, Function.update x.pos t p⟩)
    (hsettled : ∀ u, isTaking (Function.update x.pos t p u) → kernel.Settled u) :
  Ok L c ⟨kernel, threads, data, Function.update x.pos t p⟩
  := by
  have hcall : ∀ {a}, effect = .call a → x.kernel.call t a = some kernel ∧ threads = x.threads := by
    rintro a rfl
    obtain ⟨k, hcall, heq⟩ := Option.map_eq_some_iff.mp happly
    obtain ⟨rfl, rfl⟩ := Prod.mk.inj heq
    exact ⟨hcall, rfl⟩
  have hcompute : effect = .compute → x.kernel = kernel ∧ threads = x.threads := by
    rintro rfl
    obtain ⟨rfl, rfl⟩ := Prod.mk.inj (Option.some.inj happly)
    exact ⟨rfl, rfl⟩
  cases hp : x.pos t with
  | outside =>
      rw [hp] at hnext
      cases i with
      | append item | remove =>
          obtain ⟨rfl, rfl, rfl⟩ := (Prod.mk.inj (Option.some.inj hnext)).imp_right Prod.mk.inj
          obtain ⟨hk, rfl⟩ := hcall rfl
          obtain ⟨hbound, hquiet, hsame⟩ := h.call hrun hpc (by simp [Kernel.Action.condition]) hk
          exact h.advance hrun hpc hexec hsettled hbound hquiet hsame h.fifo (by simp)
            (by simp [isTaking]) (fun _ => rfl)
            (by simp [hp, Pos.hasWaited, Pos.isAppended])
      | other a =>
          simp only [next] at hnext
          split at hnext
          · cases hnext
          · rename_i huses
            obtain ⟨rfl, rfl, rfl⟩ := (Prod.mk.inj (Option.some.inj hnext)).imp_right Prod.mk.inj
            obtain ⟨hk, rfl⟩ := hcall rfl
            have ha : a.condition ≠ some c := by
              cases a <;> simp_all [Kernel.Action.condition, Kernel.Action.uses]
            obtain ⟨hbound, hquiet, hsame⟩ := h.call hrun hpc ha hk
            exact h.advance hrun hpc hexec hsettled hbound hquiet hsame h.fifo (by simp)
              (by simp [isTaking]) (fun _ => rfl)
              (by simp [hp, Pos.hasWaited, Pos.isAppended])
  | appending item =>
      rw [hp] at hnext
      obtain ⟨rfl, rfl, rfl⟩ := (Prod.mk.inj (Option.some.inj hnext)).imp_right Prod.mk.inj
      obtain ⟨rfl, rfl⟩ := hcompute rfl
      exact h.advance hrun hpc hexec hsettled h.bound h.quiet rfl (by simp [h.fifo]) (by simp)
        (by simp [isTaking]) (by simp [hp]) (by simp [hp, Pos.hasWaited, Pos.isAppended])
  | appended =>
      rw [hp] at hnext
      obtain ⟨rfl, rfl, rfl⟩ := (Prod.mk.inj (Option.some.inj hnext)).imp_right Prod.mk.inj
      obtain ⟨hk, rfl⟩ := hcall rfl
      exact h.signal hrun hpc hp hk hexec hsettled
  | signalled | taken item =>
      rw [hp] at hnext
      obtain ⟨rfl, rfl, rfl⟩ := (Prod.mk.inj (Option.some.inj hnext)).imp_right Prod.mk.inj
      obtain ⟨hk, rfl⟩ := hcall rfl
      obtain ⟨hbound, hquiet, hsame⟩ := h.call hrun hpc (by simp [Kernel.Action.condition]) hk
      exact h.advance hrun hpc hexec hsettled hbound hquiet hsame h.fifo (by simp)
        (by simp [isTaking]) (fun _ => rfl) (by simp [hp, Pos.hasWaited, Pos.isAppended])
  | removing | waiting =>
      rw [hp] at hnext
      simp only [next, List.isEmpty_iff] at hnext
      split at hnext
      · rename_i hempty
        obtain ⟨rfl, rfl, rfl⟩ := (Prod.mk.inj (Option.some.inj hnext)).imp_right Prod.mk.inj
        obtain ⟨hk, rfl⟩ := hcall rfl
        exact h.wait hrun hpc (by simp [hp]) hempty hk hexec hsettled
      · rename_i hne
        obtain ⟨rfl, rfl, rfl⟩ := (Prod.mk.inj (Option.some.inj hnext)).imp_right Prod.mk.inj
        obtain ⟨rfl, rfl⟩ := hcompute rfl
        exact h.advance hrun hpc hexec hsettled h.bound h.quiet rfl h.fifo (by simp)
          (fun _ => hne) (fun _ => rfl) (by simp [hp, Pos.hasWaited, Pos.isAppended])
  | taking waited =>
      have hne := h.found t ⟨waited, hp⟩
      rw [hp] at hnext
      simp only [next] at hnext
      split at hnext
      · rename_i item list hlist
        obtain ⟨rfl, rfl, rfl⟩ := (Prod.mk.inj (Option.some.inj hnext)).imp_right Prod.mk.inj
        obtain ⟨rfl, rfl⟩ := hcompute rfl
        refine h.advance hrun hpc hexec hsettled h.bound h.quiet rfl ?_ (by simp)
          (by simp [isTaking]) (by simp [hp]) ?_
        · simp [h.fifo, hlist]
        · cases waited <;> simp [hp, hlist, Pos.hasWaited, Pos.isAppended]
      · contradiction
  | failed => exact absurd hp (h.safe t)

/-- Every move keeps the invariant. -/
theorem Ok.step (h : Ok L c x) (hstep : x.step (code L c) m = some x') :
  Ok L c x'
  := by
  have hexec := h.exec.step (code_respects L c)
    (by rw [Exec.wakes_of_plain (code_plain L c)]; exact h.exec.nodup) hstep
  have hsettled := Exec.settled_step (code_settles L c) h.settled hstep
  cases Exec.step_cases hstep with
  | run hrun hpc hnext happly => exact h.run hrun hpc hnext happly hexec hsettled
  | kernel ha _ hk => exact h.kernel ha hk hexec hsettled
  | interrupt _ hinterrupt => cases hinterrupt

theorem ok_initial {t : ℕ} {ts : List ℕ} (hnodup : (t :: ts).Nodup) (L c : ℕ) :
  Ok L c (Exec.initial t ts ⟨[], [], []⟩ .outside : Exec (Data α) (Pos α))
  := by
  refine ⟨Exec.ok_initial hnodup _ (by simp [holds]), ?_, Kernel.bound_initial t ts c L, ?_, rfl, ?_,
    ?_, ?_, ?_⟩
  · rintro u ⟨waited, hu⟩
    cases hu
  · intro u M hu
    cases hu
  · intro u hu
    cases hu
  · rintro u ⟨waited, hu⟩
    cases hu
  · intro u hu
    cases hu
  · intro hne
    contradiction

/-- The invariant says what is claimed. -/
theorem Ok.linearizable (h : Ok L c x) :
  Linearizable c x
  := by
  refine ⟨h.fifo, h.safe, ?_⟩
  intro hne hnone
  have hwakeup := h.wakeup hne
  have happended : numAppended x = 0 := by
    rw [numAppended, List.countP_eq_zero]
    intro t _ ht
    cases hp : x.pos t with
    | appended => exact hnone t hp
    | outside | appending | signalled | removing | waiting | taking | taken | failed =>
        simp [hp, Pos.isAppended] at ht
  rw [numWoken, List.countP_eq_length_filter] at hwakeup
  rw [happended] at hwakeup
  exact hwakeup

/-- A synchronized list is a queue, and no wakeup is lost, in every run of any threads. -/
theorem synchList_linearizable {t : ℕ} {ts : List ℕ} (hnodup : (t :: ts).Nodup)
    {ms : List (Move (Choice α))}
    (hrun : Transition.run (Exec.step (code L c))
      (Exec.initial t ts ⟨[], [], []⟩ .outside : Exec (Data α) (Pos α)) ms = some x) :
  Linearizable c x
  := by
  have hok := @Transition.run_invariant _ _ _ (Ok L c) (fun _ _ => True)
    (fun x m x' hx _ hstep => hx.step hstep) _ _ _ (ok_initial hnodup L c)
    (Transition.along_of_forall (fun _ _ => trivial) _ _) hrun
  exact hok.linearizable

/-- A thread waits for an item that another thread appends. -/
def waitForItem : List (Move (Choice ℕ)) :=
  [.run .remove, .proceed, .run .remove, .run (.append 7), .proceed, .run .remove, .run .remove,
    .proceed, .run .remove, .proceed, .yield, .proceed, .proceed, .run .remove, .run .remove]

theorem synchList_linearizable_waiting :
  ∃ x : Exec (Data ℕ) (Pos ℕ), Transition.run (Exec.step (code 0 0))
      (Exec.initial 0 [1] ⟨[], [], []⟩ .outside) waitForItem = some x ∧
    x.data.removed = [7] ∧ Linearizable 0 x
  := by
  have hremoved : (Transition.run (Exec.step (code 0 0))
      (Exec.initial 0 [1] ⟨[], [], []⟩ .outside : Exec (Data ℕ) (Pos ℕ)) waitForItem).map
      (fun x => x.data.removed) = some [7] := by decide
  obtain ⟨x, hx, hdata⟩ := Option.map_eq_some_iff.mp hremoved
  exact ⟨x, hx, hdata, synchList_linearizable (by decide) hx⟩

end SynchList

end Nachos.Monitor
