import Nachos.Library.Places
import Nachos.Library.Histories
import Nachos.Monitor.Basic

/-!
# Safety of the monitors

Every thread is running, ready, or in the queue of one lock or of one condition variable. The lock
of a thread that has returned from `Acquire` is owned by it until it gives the lock up, so no other
thread returns from `Acquire`. `Kernel.Ok` is the invariant, and `Kernel.monitors_safe` says what
holds in every run.
-/

namespace Nachos.Monitor

open Places Histories

/-- The thread that an event puts into the queue of the lock `L`. -/
def Event.blockedFor (L : ℕ) : Event → Option ℕ
  | .blocked t M => if M = L then some t else none
  | _ => none

/-- The thread that an event takes out of the queue of the lock `L`. -/
def Event.obtainedFor (L : ℕ) : Event → Option ℕ
  | .obtained t M => if M = L then some t else none
  | _ => none

/-- The thread that an event puts into the queue of the condition variable `c`. -/
def Event.waitedFor (c : ℕ) : Event → Option ℕ
  | .waited t d => if d = c then some t else none
  | _ => none

/-- The thread that an event takes out of the queue of the condition variable `c`. -/
def Event.wokenFor (c : ℕ) : Event → Option ℕ
  | .woken t d => if d = c then some t else none
  | _ => none

/-- Where a thread can be. -/
inductive Place where
  | running
  | ready
  | lock (lock : ℕ)
  | condition (condition : ℕ)
deriving DecidableEq

namespace Kernel

/-- The threads at a place. -/
def queue (k : Kernel) : Place → List ℕ
  | .running => k.currentThread.toList
  | .ready => k.readyList
  | .lock L => (k.locks L).waitQueue
  | .condition c => (k.conditions c).waitQueue

/-! ### The invariant -/

/-- The invariant of runs of the threads `ts`. -/
structure Ok (ts : List ℕ) (k : Kernel) : Prop where
  places : Distributed k.queue ts
  free_iff : ∀ L, (k.locks L).state = .free ↔ (k.locks L).owner = none
  empty : ∀ L, (k.locks L).state = .free → (k.locks L).waitQueue = []
  leaving : ∀ t L, k.pc t = .leaving (some L) → (k.locks L).owner = some t
  acquired : ∀ t L, k.pc t = .inAcquire L → t ∉ (k.locks L).waitQueue →
    (k.locks L).owner = some t
  lockQueue : ∀ t L, t ∈ (k.locks L).waitQueue → k.pc t = .inAcquire L
  conditionQueue : ∀ t c, t ∈ (k.conditions c).waitQueue → ∃ L, k.pc t = .inWait c L
  holding : ∀ t L, Open (.returned t L) (.gaveUp t L) k.history → (k.locks L).owner = some t
  exclusive : ∀ L, Exclusive (.returned · L) (.gaveUp · L) k.history
  lockOrder : ∀ L, k.history.filterMap (Event.blockedFor L) =
    k.history.filterMap (Event.obtainedFor L) ++ (k.locks L).waitQueue
  conditionOrder : ∀ c, k.history.filterMap (Event.waitedFor c) =
    k.history.filterMap (Event.wokenFor c) ++ (k.conditions c).waitQueue

section

variable {ts : List ℕ} {k : Kernel} {t : ℕ}

/-- A thread that is running is in no queue. -/
theorem Ok.not_mem (h : k.Ok ts) (hrun : k.currentThread = some t) {p : Place}
    (hp : p ≠ .running) :
  t ∉ k.queue p
  := by
  intro hmem
  apply hp
  apply h.places.eq_of_mem t p .running hmem
  simp [queue, hrun]

/-- The threads in the queues of the kernel have changed. -/
theorem Ok.withThreads {ts' : List ℕ} {k' : Kernel} (h : k.Ok ts)
    (hplaces : Distributed k'.queue ts')
    (hlocks : k'.locks = k.locks) (hconditions : k'.conditions = k.conditions)
    (hpc : k'.pc = k.pc) (hhistory : k'.history = k.history) :
  k'.Ok ts'
  := by
  constructor
  · apply hplaces
  all_goals simp only [hlocks, hconditions, hpc, hhistory]
  · apply h.free_iff
  · apply h.empty
  · apply h.leaving
  · apply h.acquired
  · apply h.lockQueue
  · apply h.conditionQueue
  · apply h.holding
  · apply h.exclusive
  · apply h.lockOrder
  · apply h.conditionOrder

/-- Only the places of threads have changed. -/
theorem Ok.move (h : k.Ok ts) {k' : Kernel} {p p' : Place} (hmoves : Moves k.queue k'.queue p p' t)
    (hlocks : k'.locks = k.locks) (hconditions : k'.conditions = k.conditions)
    (hpc : k'.pc = k.pc) (hhistory : k'.history = k.history) :
  k'.Ok ts
  := h.withThreads (h.places.move hmoves) hlocks hconditions hpc hhistory

/-- A running thread goes on. If it is going to return from `Acquire`, it owns the lock. -/
theorem Ok.setPc (h : k.Ok ts) (hrun : k.currentThread = some t) {pc : Pc}
    (hleaving : ∀ L, pc = .leaving (some L) → (k.locks L).owner = some t)
    (hacquire : ∀ L, pc ≠ .inAcquire L) :
  (k.setPc t pc).Ok ts
  := by
  have hother : ∀ u, u ≠ t → (k.setPc t pc).pc u = k.pc u := fun u hu => Function.update_of_ne hu _ _
  have hself : (k.setPc t pc).pc t = pc := Function.update_self _ _ _
  constructor
  · apply h.places
  · apply h.free_iff
  · apply h.empty
  · intro u L hu
    by_cases hut : u = t
    · subst hut
      rw [hself] at hu
      apply hleaving L hu
    · rw [hother u hut] at hu
      apply h.leaving u L hu
  · intro u L hu hout
    by_cases hut : u = t
    · subst hut
      rw [hself] at hu
      apply absurd hu (hacquire L)
    · rw [hother u hut] at hu
      apply h.acquired u L hu hout
  · intro u L hu
    have hut : u ≠ t := by
      rintro rfl
      apply h.not_mem hrun (p := .lock L) (by simp) hu
    rw [hother u hut]
    apply h.lockQueue u L hu
  · intro u c hu
    have hut : u ≠ t := by
      rintro rfl
      apply h.not_mem hrun (p := .condition c) (by simp) hu
    rw [hother u hut]
    apply h.conditionQueue u c hu
  · apply h.holding
  · apply h.exclusive
  · apply h.lockOrder
  · apply h.conditionOrder

/-! ### Threads -/

/-- The next thread runs when none is running. -/
theorem Ok.sleep (h : k.Ok ts) (hrun : k.currentThread = none) :
  k.sleep.Ok ts
  := by
  rw [Kernel.sleep]
  split
  · have heq : { k with currentThread := none } = k := by
      rw [← hrun]
    rw [heq]
    apply h
  · rename_i u us hready
    have hmoves : Moves k.queue ({ k with currentThread := some u, readyList := us } : Kernel).queue
        .ready .running u := by
      constructor
      · simp
      · apply hready
      · simp [queue, hrun]
      · intro p hp hp'
        cases p with
        | running => contradiction
        | ready => contradiction
        | lock L => rfl
        | condition c => rfl
    exact h.move hmoves rfl rfl rfl rfl

/-- `Sleep` does not depend on which thread is running. -/
theorem sleep_eq (k : Kernel) :
  k.sleep = { k with currentThread := none }.sleep
  := by
  simp only [Kernel.sleep]

/-- A thread that is running can be put on the ready list. -/
theorem Ok.yield (h : k.Ok ts) (hrun : k.currentThread = some t) :
  (k.yield t).Ok ts
  := by
  rw [Kernel.yield]
  split
  · apply h
  · rename_i u us hready
    have hmoves : Moves k.queue
        ({ k with currentThread := none, readyList := k.readyList ++ [t] } : Kernel).queue
        .running .ready t := by
      constructor
      · simp
      · simp [queue, hrun]
      · rfl
      · intro p hp hp'
        cases p with
        | running => contradiction
        | ready => contradiction
        | lock L => rfl
        | condition c => rfl
    have hput : Ok ts { k with currentThread := none, readyList := k.readyList ++ [t] } :=
      h.move hmoves rfl rfl rfl rfl
    have hnext := hput.sleep rfl
    simpa only [Kernel.sleep, hready, List.cons_append] using hnext

/-! ### Histories -/

/-- An event that is not selected. -/
theorem filterMap_record (k : Kernel) {f : Event → Option ℕ} {e : Event} (he : f e = none) :
  (k.record e).history.filterMap f = k.history.filterMap f
  := by
  rw [Kernel.record, List.filterMap_append, List.filterMap_cons_none he, List.filterMap_nil,
    List.append_nil]

/-- An event that is selected. -/
theorem filterMap_record_some (k : Kernel) {f : Event → Option ℕ} {e : Event} (he : f e = some t) :
  (k.record e).history.filterMap f = k.history.filterMap f ++ [t]
  := by
  rw [Kernel.record, List.filterMap_append, List.filterMap_cons_some he, List.filterMap_nil]

/-- An event that moves no thread. A thread that returns from `Acquire` owns the lock. -/
theorem Ok.record (h : k.Ok ts) {e : Event}
    (hreturned : ∀ t L, e = .returned t L → (k.locks L).owner = some t)
    (hblocked : ∀ L, e.blockedFor L = none) (hobtained : ∀ L, e.obtainedFor L = none)
    (hwaited : ∀ c, e.waitedFor c = none) (hwoken : ∀ c, e.wokenFor c = none) :
  (k.record e).Ok ts
  := by
  constructor
  · apply h.places
  · apply h.free_iff
  · apply h.empty
  · apply h.leaving
  · apply h.acquired
  · apply h.lockQueue
  · apply h.conditionQueue
  · intro u M hopen
    obtain heq | ⟨-, hold⟩ := hopen.of_concat
    · apply hreturned u M heq
    · apply h.holding u M hold
  · intro M
    apply (h.exclusive M).concat
    intro u hu v hopen
    apply Option.some.inj
    rw [← hreturned u M hu, ← h.holding v M hopen]
  · intro M
    exact Queued.skip (h.lockOrder M) (hblocked M) (hobtained M)
  · intro c
    exact Queued.skip (h.conditionOrder c) (hwaited c) (hwoken c)

/-- A thread gives up a lock. -/
theorem Ok.gaveUp (h : k.Ok ts) (t L : ℕ) :
  (k.record (.gaveUp t L)).Ok ts ∧
    ¬ Open (.returned t L) (.gaveUp t L) (k.record (.gaveUp t L)).history
  := by
  constructor
  · apply h.record
    · intro u M heq
      contradiction
    all_goals
      intro
      rfl
  · intro hopen
    obtain heq | ⟨hne, -⟩ := hopen.of_concat
    · contradiction
    · contradiction

/-! ### Locks -/

theorem setLock_self (k : Kernel) (L : ℕ) (l : Lock) :
  (k.setLock L l).locks L = l
  := Function.update_self _ _ _

theorem setLock_of_ne (k : Kernel) {L M : ℕ} (l : Lock) (h : M ≠ L) :
  (k.setLock L l).locks M = k.locks M
  := Function.update_of_ne h _ _

/-- A lock that is free can be taken. -/
theorem Ok.take (h : k.Ok ts) {L : ℕ} (hfree : (k.locks L).state = .free) (t : ℕ) :
  (k.setLock L { k.locks L with state := .busy, owner := some t }).Ok ts
  := by
  set k' := k.setLock L { k.locks L with state := .busy, owner := some t }
  have hself : k'.locks L = { k.locks L with state := .busy, owner := some t } :=
    k.setLock_self L _
  have hother : ∀ M, M ≠ L → k'.locks M = k.locks M := fun M hM => k.setLock_of_ne _ hM
  have hqueue : ∀ M, (k'.locks M).waitQueue = (k.locks M).waitQueue := by
    intro M
    by_cases hM : M = L
    · rw [hM, hself]
    · rw [hother M hM]
  have howner : ∀ M u, (k.locks M).owner = some u → (k'.locks M).owner = some u := by
    intro M u hu
    have hM : M ≠ L := by
      rintro rfl
      rw [(h.free_iff M).mp hfree] at hu
      contradiction
    rw [hother M hM]
    apply hu
  have hplaces : k'.queue = k.queue := by
    funext p
    cases p with
    | running => rfl
    | ready => rfl
    | lock M => apply hqueue
    | condition c => rfl
  constructor
  · rw [hplaces]
    apply h.places
  · intro M
    by_cases hM : M = L
    · simp [hM, hself]
    · rw [hother M hM]
      apply h.free_iff M
  · intro M hM
    rw [hqueue]
    apply h.empty
    by_cases hML : M = L
    · rw [hML]
      apply hfree
    · rw [← hother M hML]
      apply hM
  · intro u M hu
    apply howner M u (h.leaving u M hu)
  · intro u M hu hout
    rw [hqueue] at hout
    apply howner M u (h.acquired u M hu hout)
  · intro u M hu
    rw [hqueue] at hu
    apply h.lockQueue u M hu
  · apply h.conditionQueue
  · intro u M hopen
    apply howner M u (h.holding u M hopen)
  · apply h.exclusive
  · intro M
    rw [hqueue]
    apply h.lockOrder M
  · apply h.conditionOrder

/-- What is needed for the thread `t` to release the lock `L`. -/
structure MayRelease (k : Kernel) (t L : ℕ) : Prop where
  not_leaving : k.pc t ≠ .leaving (some L)
  not_inAcquire : k.pc t ≠ .inAcquire L
  not_open : ¬ Open (.returned t L) (.gaveUp t L) k.history

/-- No thread depends on a lock that its owner may release. -/
theorem MayRelease.ne {L u : ℕ} (hmay : k.MayRelease t L) (h : k.Ok ts)
    (howner : (k.locks L).owner = some t)
    (hu : k.pc u = .leaving (some L) ∨ k.pc u = .inAcquire L ∧ u ∉ (k.locks L).waitQueue ∨
      Open (.returned u L) (.gaveUp u L) k.history) :
  False
  := by
  have hut : (k.locks L).owner = some u → u = t := by
    intro hu
    apply Option.some.inj
    rw [← hu, howner]
  obtain hu | ⟨hu, hout⟩ | hu := hu
  · obtain rfl := hut (h.leaving u L hu)
    apply hmay.not_leaving hu
  · obtain rfl := hut (h.acquired u L hu hout)
    apply hmay.not_inAcquire hu
  · obtain rfl := hut (h.holding u L hu)
    apply hmay.not_open hu

/-- A lock for which no thread is waiting is freed. -/
theorem Ok.free (h : k.Ok ts) {L : ℕ} (hmay : k.MayRelease t L)
    (howner : (k.locks L).owner = some t) (hqueue : (k.locks L).waitQueue = []) :
  (k.setLock L { k.locks L with state := .free, owner := none }).Ok ts
  := by
  set k' := k.setLock L { k.locks L with state := .free, owner := none }
  have hself : k'.locks L = { k.locks L with state := .free, owner := none } := k.setLock_self L _
  have hother : ∀ M, M ≠ L → k'.locks M = k.locks M := fun M hM => k.setLock_of_ne _ hM
  have hsame : ∀ M, (k'.locks M).waitQueue = (k.locks M).waitQueue := by
    intro M
    by_cases hM : M = L
    · rw [hM, hself]
    · rw [hother M hM]
  have hplaces : k'.queue = k.queue := by
    funext p
    cases p with
    | running => rfl
    | ready => rfl
    | lock M => apply hsame
    | condition c => rfl
  constructor
  · rw [hplaces]
    apply h.places
  · intro M
    by_cases hM : M = L
    · simp [hM, hself]
    · rw [hother M hM]
      apply h.free_iff M
  · intro M hM
    rw [hsame]
    by_cases hML : M = L
    · rw [hML]
      apply hqueue
    · rw [hother M hML] at hM
      apply h.empty M hM
  · intro u M hu
    have hM : M ≠ L := by
      rintro rfl
      apply hmay.ne h howner (.inl hu)
    rw [hother M hM]
    apply h.leaving u M hu
  · intro u M hu hout
    rw [hsame] at hout
    have hM : M ≠ L := by
      rintro rfl
      apply hmay.ne h howner (.inr (.inl ⟨hu, hout⟩))
    rw [hother M hM]
    apply h.acquired u M hu hout
  · intro u M hu
    rw [hsame] at hu
    apply h.lockQueue u M hu
  · apply h.conditionQueue
  · intro u M hu
    have hM : M ≠ L := by
      rintro rfl
      apply hmay.ne h howner (.inr (.inr hu))
    rw [hother M hM]
    apply h.holding u M hu
  · apply h.exclusive
  · intro M
    rw [hsame]
    apply h.lockOrder M
  · apply h.conditionOrder

/-- A lock is handed over to the thread that has waited longest for it. -/
theorem Ok.handOver (h : k.Ok ts) {L u : ℕ} {us : List ℕ} (hmay : k.MayRelease t L)
    (howner : (k.locks L).owner = some t) (hqueue : (k.locks L).waitQueue = u :: us) :
  (((k.setLock L { k.locks L with owner := some u, waitQueue := us }).record
    (.obtained u L)).readyToRun u).Ok ts
  := by
  set k' := ((k.setLock L { k.locks L with owner := some u, waitQueue := us }).record
    (.obtained u L)).readyToRun u
  have hself : k'.locks L = { k.locks L with owner := some u, waitQueue := us } :=
    k.setLock_self L _
  have hother : ∀ M, M ≠ L → k'.locks M = k.locks M := fun M hM => k.setLock_of_ne _ hM
  have hmoves : Moves k.queue k'.queue (.lock L) .ready u := by
    constructor
    · simp
    · simp [queue, hqueue, hself]
    · rfl
    · intro p hp hp'
      cases p with
      | running => rfl
      | ready => contradiction
      | lock M =>
          have hM : M ≠ L := fun hM => hp (congrArg Place.lock hM)
          exact congrArg Lock.waitQueue (hother M hM)
      | condition c => rfl
  have hmem := hmoves.mem_iff h.places
  have hstate : ∀ M, (k'.locks M).state = (k.locks M).state := by
    intro M
    by_cases hM : M = L
    · rw [hM, hself]
    · rw [hother M hM]
  have hbusy : (k.locks L).state ≠ .free := by
    intro hfree
    rw [(h.free_iff L).mp hfree] at howner
    contradiction
  constructor
  · apply h.places.move hmoves
  · intro M
    rw [hstate]
    by_cases hM : M = L
    · subst hM
      simp [hself, hbusy]
    · rw [hother M hM]
      apply h.free_iff M
  · intro M hM
    rw [hstate] at hM
    have hML : M ≠ L := by
      rintro rfl
      apply hbusy hM
    rw [hother M hML]
    apply h.empty M hM
  · intro v M hv
    have hM : M ≠ L := by
      rintro rfl
      apply hmay.ne h howner (.inl hv)
    rw [hother M hM]
    apply h.leaving v M hv
  · intro v M hv hout
    by_cases hM : M = L
    · subst hM
      rw [hself]
      by_contra hne
      apply hmay.ne h howner (.inr (.inl ⟨hv, _⟩))
      intro hin
      apply hout
      apply (hmem v (.lock M)).mpr
      right
      exact ⟨fun hvu => hne (congrArg some hvu.symm), hin⟩
    · rw [hother M hM] at hout ⊢
      apply h.acquired v M hv hout
  · intro v M hv
    obtain ⟨-, heq⟩ | ⟨-, hin⟩ := (hmem v (.lock M)).mp hv
    · contradiction
    · apply h.lockQueue v M hin
  · apply h.conditionQueue
  · intro v M hv
    have hold := Open.of_concat_ne hv (by simp)
    have hM : M ≠ L := by
      rintro rfl
      apply hmay.ne h howner (.inr (.inr hold))
    rw [hother M hM]
    apply h.holding v M hold
  · intro M
    apply (h.exclusive M).concat_ne
    simp
  · intro M
    have horder := h.lockOrder M
    by_cases hM : M = L
    · subst hM
      rw [hqueue] at horder
      rw [hself]
      exact Queued.leave horder rfl (if_pos rfl)
    · rw [hother M hM]
      exact Queued.skip horder rfl (if_neg (Ne.symm hM))
  · intro c
    exact Queued.skip (h.conditionOrder c) rfl rfl

theorem Ok.release (h : k.Ok ts) {L : ℕ} (hmay : k.MayRelease t L) :
  (k.release t L).Ok ts
  := by
  rw [Kernel.release]
  split
  · rename_i howner
    split
    · rename_i u us hqueue
      apply h.handOver hmay howner hqueue
    · rename_i hqueue
      apply h.free hmay howner hqueue
  · apply h

/-- A running thread is put into the queue of a lock that another thread owns. -/
theorem Ok.block (h : k.Ok ts) (hrun : k.currentThread = some t) {L : ℕ}
    (hbusy : (k.locks L).state ≠ .free) :
  Ok ts { ((k.setLock L { k.locks L with waitQueue := (k.locks L).waitQueue ++ [t] }).record
    (.blocked t L)).setPc t (.inAcquire L) with currentThread := none }
  := by
  set k' : Kernel := { ((k.setLock L
    { k.locks L with waitQueue := (k.locks L).waitQueue ++ [t] }).record
      (.blocked t L)).setPc t (.inAcquire L) with currentThread := none }
  have hself : k'.locks L = { k.locks L with waitQueue := (k.locks L).waitQueue ++ [t] } :=
    k.setLock_self L _
  have hother : ∀ M, M ≠ L → k'.locks M = k.locks M := fun M hM => k.setLock_of_ne _ hM
  have hpc : ∀ u, u ≠ t → k'.pc u = k.pc u := fun u hu => Function.update_of_ne hu _ _
  have hpcself : k'.pc t = .inAcquire L := Function.update_self _ _ _
  have howner : ∀ M, (k'.locks M).owner = (k.locks M).owner := by
    intro M
    by_cases hM : M = L
    · rw [hM, hself]
    · rw [hother M hM]
  have hstate : ∀ M, (k'.locks M).state = (k.locks M).state := by
    intro M
    by_cases hM : M = L
    · rw [hM, hself]
    · rw [hother M hM]
  have hmoves : Moves k.queue k'.queue .running (.lock L) t := by
    constructor
    · simp
    · simp only [queue, hrun]
      rfl
    · simp [queue, hself]
    · intro p hp hp'
      cases p with
      | running => contradiction
      | ready => rfl
      | lock M =>
          have hM : M ≠ L := fun hM => hp' (congrArg Place.lock hM)
          exact congrArg Lock.waitQueue (hother M hM)
      | condition c => rfl
  have hmem := hmoves.mem_iff h.places
  constructor
  · apply h.places.move hmoves
  · intro M
    rw [hstate, howner]
    apply h.free_iff M
  · intro M hM
    rw [hstate] at hM
    have hML : M ≠ L := by
      rintro rfl
      apply hbusy hM
    rw [hother M hML]
    apply h.empty M hM
  · intro u M hu
    rw [howner]
    have hut : u ≠ t := by
      rintro rfl
      rw [hpcself] at hu
      contradiction
    rw [hpc u hut] at hu
    apply h.leaving u M hu
  · intro u M hu hout
    rw [howner]
    have hut : u ≠ t := by
      rintro rfl
      rw [hpcself] at hu
      obtain rfl := Pc.inAcquire.inj hu
      apply hout
      apply (hmem u (.lock L)).mpr
      left
      exact ⟨rfl, rfl⟩
    rw [hpc u hut] at hu
    apply h.acquired u M hu
    intro hin
    apply hout
    apply (hmem u (.lock M)).mpr
    right
    exact ⟨hut, hin⟩
  · intro u M hu
    obtain ⟨rfl, heq⟩ | ⟨hut, hin⟩ := (hmem u (.lock M)).mp hu
    · obtain rfl := Place.lock.inj heq
      apply hpcself
    · rw [hpc u hut]
      apply h.lockQueue u M hin
  · intro u c hu
    obtain ⟨-, heq⟩ | ⟨hut, hin⟩ := (hmem u (.condition c)).mp hu
    · contradiction
    · rw [hpc u hut]
      apply h.conditionQueue u c hin
  · intro u M hopen
    rw [howner]
    apply h.holding u M (Open.of_concat_ne hopen (by simp))
  · intro M
    apply (h.exclusive M).concat_ne
    simp
  · intro M
    by_cases hM : M = L
    · subst hM
      rw [hself]
      exact Queued.enter (h.lockOrder M) (if_pos rfl) rfl
    · rw [hother M hM]
      exact Queued.skip (h.lockOrder M) (if_neg (Ne.symm hM)) rfl
  · intro c
    exact Queued.skip (h.conditionOrder c) rfl rfl

theorem Ok.acquire (h : k.Ok ts) (hrun : k.currentThread = some t) (L : ℕ) :
  (k.acquire t L).Ok ts
  := by
  rw [Kernel.acquire]
  split
  · rename_i howner
    apply h.setPc hrun
    · intro M hM
      obtain rfl := Option.some.inj (Pc.leaving.inj hM)
      apply howner
    · intro M hM
      contradiction
  · split
    · rename_i hfree
      apply (h.take hfree t).setPc hrun
      · intro M hM
        obtain rfl := Option.some.inj (Pc.leaving.inj hM)
        rw [setLock_self]
      · intro M hM
        contradiction
    · rename_i hbusy
      rw [sleep_eq]
      exact (h.block hrun hbusy).sleep rfl

/-! ### Condition variables -/

/-- A running thread is put into the queue of a condition variable. -/
theorem Ok.enqueue (h : k.Ok ts) (hrun : k.currentThread = some t) (c L : ℕ)
    (waitingLock : Option ℕ) :
  Ok ts { ((k.setCondition c ⟨waitingLock, (k.conditions c).waitQueue ++ [t]⟩).record
    (.waited t c)).setPc t (.inWait c L) with currentThread := none }
  := by
  set k' : Kernel := { ((k.setCondition c
    ⟨waitingLock, (k.conditions c).waitQueue ++ [t]⟩).record
      (.waited t c)).setPc t (.inWait c L) with currentThread := none }
  have hself : k'.conditions c = ⟨waitingLock, (k.conditions c).waitQueue ++ [t]⟩ :=
    Function.update_self _ _ _
  have hother : ∀ d, d ≠ c → k'.conditions d = k.conditions d :=
    fun d hd => Function.update_of_ne hd _ _
  have hpc : ∀ u, u ≠ t → k'.pc u = k.pc u := fun u hu => Function.update_of_ne hu _ _
  have hpcself : k'.pc t = .inWait c L := Function.update_self _ _ _
  have hmoves : Moves k.queue k'.queue .running (.condition c) t := by
    constructor
    · simp
    · simp only [queue, hrun]
      rfl
    · simp [queue, hself]
    · intro p hp hp'
      cases p with
      | running => contradiction
      | ready => rfl
      | lock M => rfl
      | condition d =>
          have hd : d ≠ c := fun hd => hp' (congrArg Place.condition hd)
          exact congrArg Condition.waitQueue (hother d hd)
  have hmem := hmoves.mem_iff h.places
  constructor
  · apply h.places.move hmoves
  · apply h.free_iff
  · apply h.empty
  · intro u M hu
    have hut : u ≠ t := by
      rintro rfl
      rw [hpcself] at hu
      contradiction
    rw [hpc u hut] at hu
    apply h.leaving u M hu
  · intro u M hu hout
    have hut : u ≠ t := by
      rintro rfl
      rw [hpcself] at hu
      contradiction
    rw [hpc u hut] at hu
    apply h.acquired u M hu hout
  · intro u M hu
    obtain ⟨-, heq⟩ | ⟨hut, hin⟩ := (hmem u (.lock M)).mp hu
    · contradiction
    · rw [hpc u hut]
      apply h.lockQueue u M hin
  · intro u d hu
    obtain ⟨rfl, heq⟩ | ⟨hut, hin⟩ := (hmem u (.condition d)).mp hu
    · obtain rfl := Place.condition.inj heq
      exact ⟨L, hpcself⟩
    · rw [hpc u hut]
      apply h.conditionQueue u d hin
  · intro u M hopen
    apply h.holding u M (Open.of_concat_ne hopen (by simp))
  · intro M
    apply (h.exclusive M).concat_ne
    simp
  · intro M
    exact Queued.skip (h.lockOrder M) rfl rfl
  · intro d
    by_cases hd : d = c
    · subst hd
      rw [hself]
      exact Queued.enter (h.conditionOrder d) (if_pos rfl) rfl
    · rw [hother d hd]
      exact Queued.skip (h.conditionOrder d) (if_neg (Ne.symm hd)) rfl

/-- The thread that has waited longest on a condition variable is woken. -/
theorem Ok.wake (h : k.Ok ts) {c u : ℕ} {us : List ℕ}
    (hqueue : (k.conditions c).waitQueue = u :: us) (waitingLock : Option ℕ) :
  (((k.setCondition c ⟨waitingLock, us⟩).record (.woken u c)).readyToRun u).Ok ts
  := by
  set k' := ((k.setCondition c ⟨waitingLock, us⟩).record (.woken u c)).readyToRun u
  have hself : k'.conditions c = ⟨waitingLock, us⟩ := Function.update_self _ _ _
  have hother : ∀ d, d ≠ c → k'.conditions d = k.conditions d :=
    fun d hd => Function.update_of_ne hd _ _
  have hmoves : Moves k.queue k'.queue (.condition c) .ready u := by
    constructor
    · simp
    · simp [queue, hqueue, hself]
    · rfl
    · intro p hp hp'
      cases p with
      | running => rfl
      | ready => contradiction
      | lock M => rfl
      | condition d =>
          have hd : d ≠ c := fun hd => hp (congrArg Place.condition hd)
          exact congrArg Condition.waitQueue (hother d hd)
  have hmem := hmoves.mem_iff h.places
  constructor
  · apply h.places.move hmoves
  · apply h.free_iff
  · apply h.empty
  · apply h.leaving
  · apply h.acquired
  · apply h.lockQueue
  · intro v d hv
    obtain ⟨-, heq⟩ | ⟨-, hin⟩ := (hmem v (.condition d)).mp hv
    · contradiction
    · apply h.conditionQueue v d hin
  · intro v M hopen
    apply h.holding v M (Open.of_concat_ne hopen (by simp))
  · intro M
    apply (h.exclusive M).concat_ne
    simp
  · intro M
    exact Queued.skip (h.lockOrder M) rfl rfl
  · intro d
    have horder := h.conditionOrder d
    by_cases hd : d = c
    · subst hd
      rw [hqueue] at horder
      rw [hself]
      exact Queued.leave horder rfl (if_pos rfl)
    · rw [hother d hd]
      exact Queued.skip horder rfl (if_neg (Ne.symm hd))

theorem currentThread_signal (c : ℕ) (conditionLock : Option ℕ) (k : Kernel) :
  (k.signal c conditionLock).currentThread = k.currentThread
  := by
  rw [Kernel.signal.eq_def]
  split
  · split
    · rfl
    · rfl
  · rfl

theorem currentThread_release (t L : ℕ) (k : Kernel) :
  (k.release t L).currentThread = k.currentThread
  := by
  rw [Kernel.release]
  split
  · split
    · rfl
    · rfl
  · rfl

/-- `Release` does not depend on which thread is running. -/
theorem release_withoutThread (t L : ℕ) (k : Kernel) :
  { k with currentThread := none }.release t L = { k.release t L with currentThread := none }
  := by
  simp only [Kernel.release]
  split
  · split
    · rfl
    · rfl
  · rfl

/-- A running thread gives up a lock. -/
theorem Ok.giveUp (h : k.Ok ts) {L : ℕ} (hleaving : ∀ M, k.pc t ≠ .leaving M)
    (hacquire : ∀ M, k.pc t ≠ .inAcquire M) :
  ((k.record (.gaveUp t L)).release t L).Ok ts
  := by
  obtain ⟨hok, hopen⟩ := h.gaveUp t L
  apply hok.release
  constructor
  · apply hleaving
  · apply hacquire
  · apply hopen

theorem Ok.leaving_none (h : k.Ok ts) (hrun : k.currentThread = some t) :
  (k.setPc t (.leaving none)).Ok ts
  := by
  apply h.setPc hrun
  · intro M hM
    cases Pc.leaving.inj hM
  · intro M hM
    contradiction

theorem Ok.wait (h : k.Ok ts) (hrun : k.currentThread = some t) (c : ℕ)
    (conditionLock : Option ℕ) :
  (k.wait t c conditionLock).Ok ts
  := by
  cases conditionLock with
  | none => apply h.leaving_none hrun
  | some L =>
      rw [Kernel.wait]
      split
      · have hpc := Function.update_self (f := k.pc) t (Pc.inWait c L)
        have hwait := (h.enqueue hrun c L (some L)).giveUp (t := t) (L := L)
          (fun M hM => Pc.noConfusion (hpc.symm.trans hM))
          (fun M hM => Pc.noConfusion (hpc.symm.trans hM))
        rw [sleep_eq, ← release_withoutThread]
        refine hwait.sleep ?_
        rw [currentThread_release]
        rfl
      · apply h.leaving_none hrun

theorem Ok.signal (h : k.Ok ts) (c : ℕ) (conditionLock : Option ℕ) :
  (k.signal c conditionLock).Ok ts
  := by
  rw [Kernel.signal.eq_def]
  split
  · rename_i hqueue
    split
    · apply h.wake hqueue
    · apply h
  · apply h

theorem Ok.broadcast (h : k.Ok ts) (hrun : k.currentThread = some t) (c : ℕ)
    (conditionLock : Option ℕ) :
  (k.broadcast t c conditionLock).Ok ts
  := by
  cases conditionLock with
  | none => apply h.leaving_none hrun
  | some L =>
      rw [Kernel.broadcast]
      split
      · apply h.setPc hrun
        · intro M hM
          contradiction
        · intro M hM
          contradiction
      · apply h.leaving_none hrun

theorem Ok.outside (h : k.Ok ts) (hrun : k.currentThread = some t) :
  (k.setPc t .outside).Ok ts
  := by
  apply h.setPc hrun
  · intro M hM
    contradiction
  · intro M hM
    contradiction

/-! ### Runs -/

theorem Ok.call (h : k.Ok ts) (hrun : k.currentThread = some t) (hpc : k.pc t = .outside)
    {a : Action} {k' : Kernel} (hcall : k.call t a = some k') :
  k'.Ok ts
  := by
  cases a with
  | acquire L =>
      obtain rfl := Option.some.inj hcall
      apply h.acquire hrun
  | release L =>
      obtain rfl := Option.some.inj hcall
      have hrelease := h.giveUp (t := t) (L := L) (by simp [hpc]) (by simp [hpc])
      apply hrelease.leaving_none
      rw [currentThread_release]
      apply hrun
  | wait c L =>
      obtain rfl := Option.some.inj hcall
      apply h.wait hrun
  | signal c L =>
      obtain rfl := Option.some.inj hcall
      apply (h.signal c L).leaving_none
      rw [currentThread_signal]
      apply hrun
  | broadcast c L =>
      obtain rfl := Option.some.inj hcall
      apply h.broadcast hrun
  | yield =>
      obtain rfl := Option.some.inj hcall
      apply (h.leaving_none hrun).yield
      apply hrun
  | preempt => contradiction
  | proceed => contradiction

/-- What an action of the running thread does. -/
inductive Steps (k : Kernel) (t : ℕ) : Action → Kernel → Prop where
  | call {a : Action} {k' : Kernel} (hpc : k.pc t = .outside) (hcall : k.call t a = some k') :
      Steps k t a k'
  | preempt (hpc : (∃ lock, k.pc t = .leaving lock) ∨ ∃ c L, k.pc t = .inBroadcast c L) :
      Steps k t .preempt (k.yield t)
  | leave {lock : Option ℕ} (hpc : k.pc t = .leaving lock) : Steps k t .proceed (k.leave t lock)
  | acquired {L : ℕ} (hpc : k.pc t = .inAcquire L) :
      Steps k t .proceed (k.setPc t (.leaving (some L)))
  | woken {c L : ℕ} (hpc : k.pc t = .inWait c L) : Steps k t .proceed (k.acquire t L)
  | loop {c L : ℕ} (hpc : k.pc t = .inBroadcast c L) :
      Steps k t .proceed (k.broadcastLoop t c L)

theorem step_cases {k' : Kernel} {a : Action} (hstep : k.step a = some k') :
  ∃ t, k.currentThread = some t ∧ k.Steps t a k'
  := by
  obtain ⟨t, hrun, hact⟩ := Option.bind_eq_some_iff.mp hstep
  use t, hrun
  split at hact
  · rename_i hpc
    exact .call hpc hact
  · rename_i hpc
    obtain rfl := Option.some.inj hact
    exact .preempt (.inl ⟨_, hpc⟩)
  · rename_i hpc
    obtain rfl := Option.some.inj hact
    exact .leave hpc
  · rename_i hpc
    obtain rfl := Option.some.inj hact
    exact .acquired hpc
  · rename_i hpc
    obtain rfl := Option.some.inj hact
    exact .woken hpc
  · rename_i hpc
    obtain rfl := Option.some.inj hact
    exact .preempt (.inr ⟨_, _, hpc⟩)
  · rename_i hpc
    obtain rfl := Option.some.inj hact
    exact .loop hpc
  · contradiction

/-- Every action keeps the invariant. -/
theorem Ok.step (h : k.Ok ts) {k' : Kernel} {a : Action} (hstep : k.step a = some k') :
  k'.Ok ts
  := by
  obtain ⟨t, hrun, hsteps⟩ := step_cases hstep
  cases hsteps with
  | call hpc hcall => apply h.call hrun hpc hcall
  | preempt hpc => apply h.yield hrun
  | @leave lock hpc =>
      cases lock with
      | none => apply h.outside hrun
      | some L =>
          have hreturned : (k.record (.returned t L)).Ok ts := by
            apply h.record
            · intro u M heq
              obtain ⟨rfl, rfl⟩ := Event.returned.inj heq
              apply h.leaving t L hpc
            all_goals
              intro
              rfl
          apply hreturned.outside hrun
  | @acquired L hpc =>
      apply h.setPc hrun
      · intro M hM
        obtain rfl := Option.some.inj (Pc.leaving.inj hM)
        apply h.acquired t L hpc
        exact h.not_mem hrun (p := .lock L) (by simp)
      · intro M hM
        contradiction
  | woken hpc => apply h.acquire hrun
  | @loop c L hpc =>
      rw [Kernel.broadcastLoop]
      split
      · apply h.outside hrun
      · apply h.signal

theorem ok_initial {t : ℕ} {ts : List ℕ} (hnodup : (t :: ts).Nodup) :
  (initial t ts).Ok (t :: ts)
  := by
  obtain ⟨hnot, hts⟩ := List.nodup_cons.mp hnodup
  constructor
  · constructor
    · intro p
      cases p with
      | running => apply List.nodup_singleton
      | ready => apply hts
      | lock L => apply List.nodup_nil
      | condition c => apply List.nodup_nil
    · intro u p p' hp hp'
      cases p <;> cases p' <;> simp_all [queue, initial]
    · intro u
      constructor
      · intro hu
        obtain rfl | hu := List.mem_cons.mp hu
        · exact ⟨.running, List.mem_singleton_self u⟩
        · exact ⟨.ready, hu⟩
      · rintro ⟨p, hp⟩
        cases p <;> simp_all [queue, initial]
  all_goals simp [initial, not_open_nil, exclusive_nil]

theorem Ok.of_run (h : k.Ok ts) {as : List Action} {k' : Kernel}
    (hrun : Transition.run Kernel.step k as = some k') :
  k'.Ok ts
  := by
  apply Transition.run_invariant (I := Ok ts) _ h
    (Transition.along_of_forall (P := fun _ _ => True) _ _ _) hrun
  · intro s a s' h _ hstep
    apply h.step hstep
  · intro _ _
    trivial

/-- A thread that does not own a lock does not release it. -/
theorem release_of_not_owner {L : ℕ} (howner : (k.locks L).owner ≠ some t) :
  k.release t L = k
  := if_neg howner

/-- In every run each thread is at one place, a lock is free exactly when it has no owner and then
no thread is waiting for it, between a thread's return from `Acquire` and its giving up the lock no
other thread returns from `Acquire`, the `Release` of a thread that does not own the lock changes
nothing, and the threads that are waiting for a lock obtain it in the order in which they came. -/
theorem monitors_safe {t : ℕ} {ts : List ℕ} (hnodup : (t :: ts).Nodup) {as : List Action}
    {k : Kernel} (hrun : Transition.run step (initial t ts) as = some k) :
  (∀ u ∈ t :: ts, ∃ p, (k.queue p).count u = 1 ∧ ∀ p', p' ≠ p → (k.queue p').count u = 0) ∧
    (∀ L, ((k.locks L).state = .free ↔ (k.locks L).owner = none) ∧
      ((k.locks L).state = .free → (k.locks L).waitQueue = [])) ∧
    (∀ L, Exclusive (.returned · L) (.gaveUp · L) k.history) ∧
    (∀ u L, k.currentThread = some u → k.pc u = .outside → (k.locks L).owner ≠ some u →
      k.step (.release L) = some ((k.record (.gaveUp u L)).setPc u (.leaving none))) ∧
    (∀ L, k.history.filterMap (Event.blockedFor L) =
      k.history.filterMap (Event.obtainedFor L) ++ (k.locks L).waitQueue)
  := by
  have hok := (ok_initial hnodup).of_run hrun
  refine ⟨fun u hu => hok.places.count hu, fun L => ⟨hok.free_iff L, hok.empty L⟩, hok.exclusive,
    ?_, hok.lockOrder⟩
  intro u L hcurrent hpc howner
  have hrelease : (k.record (.gaveUp u L)).release u L = k.record (.gaveUp u L) :=
    release_of_not_owner howner
  simp only [Kernel.step, hcurrent, Option.bind_eq_bind, Option.bind_some, hpc, Kernel.call,
    hrelease]

/-- Two threads contend for a lock, and the one that gets it waits on a condition variable until
the other one signals. -/
def contendingActions : List Action :=
  [.acquire 0, .preempt, .acquire 0, .proceed, .wait 3 (some 0), .proceed, .proceed,
    .signal 3 (some 0), .proceed, .release 0, .preempt, .proceed, .proceed]

theorem monitors_safe_contending :
  ∃ k, Transition.run step (initial 7 [8]) contendingActions = some k ∧
    k.history.filterMap (Event.obtainedFor 0) = [8] ∧
    (∀ L, Exclusive (.returned · L) (.gaveUp · L) k.history)
  := by
  have hsome : (Transition.run step (initial 7 [8]) contendingActions).map
      (fun k => k.history.filterMap (Event.obtainedFor 0)) = some [8] := by
    decide
  obtain ⟨k, hrun, hobtained⟩ := Option.map_eq_some_iff.mp hsome
  exact ⟨k, hrun, hobtained, (monitors_safe (by decide) hrun).2.2.1⟩

end

end Kernel

end Nachos.Monitor
