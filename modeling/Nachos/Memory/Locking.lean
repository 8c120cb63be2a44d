import Mathlib.Logic.Relation
import Nachos.Monitor.Code

/-!
# Locks of the memory management

The locks that are taken in `HandlePageFault` (`userprog/exception.cc`), in `clearStack`, `clearMem`
and `SaveState` (`userprog/addrspace.cc`). Interrupts are disabled in `HandlePageFault`, but it may
sleep in `Acquire`. `SaveState` is called in `Scheduler::Run`, by the thread that is about to lose the
processor. What depends on the tables, such as whether a page is in memory, is left open.

A page fault that is not in the inverted page table takes `bitMapLock` while it holds `IPTLock`, and
`clearStack` takes `IPTLock` while it holds `bitMapLock`. If no fault calls `bitMapLock->Acquire()`
while a thread in `clearStack` is going to call `IPTLock->Acquire()`, then threads never wait for each
other (`Locking.deadlock_free`).
-/

namespace Nachos.Memory.Locking

open Monitor

def IPTLock : ℕ := 0

def bitMapLock : ℕ := 1

def TLBLock : ℕ := 2

def swapFileLock : ℕ := 3

/-- The number of locks of the memory management. The other locks of the kernel have larger numbers. -/
def numLocks : ℕ := 4

/-- Where a thread is, at the end of the operation or in it. -/
inductive Pos where
  /-- In none of the functions. -/
  | idle
  /-- In `HandlePageFault`, at `IPTLock->Acquire()`. -/
  | faultIPT
  /-- In `HandleIPTMiss`, at `bitMapLock->Acquire()`. -/
  | missBit
  /-- In `HandleMemoryFull`, at `TLBLock->Acquire()`. -/
  | fullTLB
  /-- In `HandleMemoryFull`, at `TLBLock->Release()`. -/
  | fullTLBRel
  /-- In `HandleMemoryFull`, at `swapFileLock->Acquire()`. -/
  | fullSwap
  /-- In `HandleIPTMiss`, with a free page. -/
  | loading
  /-- In `IPTMiss`, at `swapFileLock->Acquire()`. -/
  | missSwap
  /-- In `HandleIPTMiss`, at the end of `IPTMiss`. -/
  | loaded
  /-- In `HandleIPTMiss`, at `bitMapLock->Release()`. -/
  | missed
  /-- In `updateTLB`, at `TLBLock->Acquire()`. -/
  | updateTLB
  /-- In `updateTLB`, at `TLBLock->Release()`. -/
  | updateRel
  /-- In `HandlePageFault`, at `IPTLock->Release()`. -/
  | faultRel
  /-- In `clearStack`, at `bitMapLock->Acquire()`. -/
  | stackBit
  /-- In the iteration `i` of the loop of `clearStack`, at `IPTLock->Acquire()`. -/
  | stackIPT (i : ℕ)
  /-- The same at `IPTLock->Release()`. -/
  | stackRel (i : ℕ)
  /-- In the loop of `clearMem`. -/
  | mem
  /-- In `clearMem`, at `bitMapLock->Acquire()`. -/
  | memBit
  /-- In `clearMem`, at `bitMapLock->Release()`. -/
  | memBitRel
  /-- In `clearMem`, at `IPTLock->Acquire()`. -/
  | memIPT
deriving DecidableEq

/-- What is not determined by where a thread is. -/
inductive Choice where
  /-- The thread calls a function, or an operation on another lock. -/
  | fault
  | clearStack
  | clearMem
  | other (a : Kernel.Action)
  /-- The condition of a branch or of a loop is true, or false. -/
  | branch (b : Bool)
deriving DecidableEq

/-- The action uses a lock of the memory management. -/
def uses : Kernel.Action → Bool
  | .acquire M | .release M => M < numLocks
  | .wait _ (some M) | .signal _ (some M) | .broadcast _ (some M) => M < numLocks
  | _ => false

def next : Pos → Choice → Option (Effect × Pos)
  | .idle, .fault => some (.call (.acquire IPTLock), .faultIPT)
  | .idle, .clearStack => some (.call (.acquire bitMapLock), .stackBit)
  | .idle, .clearMem => some (.compute, .mem)
  | .idle, .other a => if uses a then none else some (.call a, .idle)
  -- whether the page is in the inverted page table
  | .faultIPT, .branch true => some (.call (.acquire TLBLock), .updateTLB)
  | .faultIPT, .branch false => some (.call (.acquire bitMapLock), .missBit)
  -- whether a page is free
  | .missBit, .branch true => some (.compute, .loading)
  | .missBit, .branch false => some (.call (.acquire TLBLock), .fullTLB)
  | .fullTLB, .branch _ => some (.call (.release TLBLock), .fullTLBRel)
  -- whether the page that is evicted is dirty
  | .fullTLBRel, .branch true => some (.call (.acquire swapFileLock), .fullSwap)
  | .fullTLBRel, .branch false => some (.compute, .loading)
  -- the machine halts when the swap file is full
  | .fullSwap, .branch true => none
  | .fullSwap, .branch false => some (.call (.release swapFileLock), .loading)
  -- whether the page is in the swap file
  | .loading, .branch true => some (.call (.acquire swapFileLock), .missSwap)
  | .loading, .branch false => some (.compute, .loaded)
  | .missSwap, .branch _ => some (.call (.release swapFileLock), .loaded)
  | .loaded, .branch _ => some (.call (.release bitMapLock), .missed)
  | .missed, .branch _ => some (.call (.acquire TLBLock), .updateTLB)
  | .updateTLB, .branch _ => some (.call (.release TLBLock), .updateRel)
  | .updateRel, .branch _ => some (.call (.release IPTLock), .faultRel)
  | .faultRel, .branch _ => some (.compute, .idle)
  | .stackBit, .branch _ => some (.call (.acquire IPTLock), .stackIPT 0)
  | .stackIPT i, .branch _ => some (.call (.release IPTLock), .stackRel i)
  | .stackRel i, .branch _ =>
      if i < 7 then some (.call (.acquire IPTLock), .stackIPT (i + 1))
      else some (.call (.release bitMapLock), .idle)
  -- whether there is a page left that is valid
  | .mem, .branch true => some (.call (.acquire bitMapLock), .memBit)
  | .mem, .branch false => some (.compute, .idle)
  | .memBit, .branch _ => some (.call (.release bitMapLock), .memBitRel)
  | .memBitRel, .branch _ => some (.call (.acquire IPTLock), .memIPT)
  | .memIPT, .branch _ => some (.call (.release IPTLock), .mem)
  | _, _ => none

/-- Interrupts are disabled from the beginning to the end of `HandlePageFault`. -/
def Pos.masked : Pos → Bool
  | .faultIPT | .missBit | .fullTLB | .fullTLBRel | .fullSwap | .loading | .missSwap | .loaded
  | .missed | .updateTLB | .updateRel | .faultRel => true
  | _ => false

def code : Code Unit Pos Choice where
  next _ p _ i := (next p i).map (fun (e, p) => ((), e, p))
  masked := Pos.masked
  interrupt _ _ := none

/-- `SaveState` of the thread `t`, with interrupts disabled. -/
def saveState (t : ℕ) (k : Kernel) : Kernel :=
  if (k.locks TLBLock).owner = some t ∨ (k.locks TLBLock).state = .free then
    (k.setLock TLBLock { k.locks TLBLock with state := .busy, owner := some t }).release t TLBLock
  else
    k.setLock TLBLock { k.locks TLBLock with waitQueue := (k.locks TLBLock).waitQueue ++ [t] }

/-- `Run`, when the thread `old` loses the processor. -/
def switch (old : Option ℕ) (k : Kernel) : Kernel :=
  match old, k.currentThread with
  | some t, some u => if t = u then k else saveState t k
  | _, _ => k

def step (x : Exec Unit Pos) (m : Move Choice) : Option (Exec Unit Pos) :=
  (x.step code m).map (fun x' => { x' with kernel := switch x.kernel.currentThread x'.kernel })

def initial (t : ℕ) (ts : List ℕ) : Exec Unit Pos := Exec.initial t ts () .idle

/-- The thread `t` waits for a lock of the memory management that the thread `u` holds. -/
def Waits (k : Kernel) (t u : ℕ) : Prop :=
  ∃ L < numLocks, t ∈ (k.locks L).waitQueue ∧ (k.locks L).owner = some u

/-- There is a cycle of threads that wait for each other. -/
def Deadlock (k : Kernel) : Prop := ∃ t, Relation.TransGen (Waits k) t t

/-- The thread is in `clearStack` and has not yet got `IPTLock` for the last time. -/
def Pos.needsIPT : Pos → Bool
  | .stackBit | .stackIPT _ => true
  | .stackRel i => i < 7
  | _ => false

/-- No thread in `clearStack` needs `IPTLock` when a fault calls `bitMapLock->Acquire()`. -/
def apart (x : Exec Unit Pos) : Move Choice → Bool
  | .run (.branch false) =>
      match x.kernel.currentThread with
      | some t => x.pos t != .faultIPT || x.threads.all (fun u => !(x.pos u).needsIPT)
      | none => true
  | _ => true

/-! ### The locks that a thread holds -/

/-- The locks of the memory management that a thread holds, when it is not waiting for the last one. -/
def Pos.locks : Pos → List ℕ
  | .idle | .faultRel | .mem | .memBitRel => []
  | .faultIPT | .missed | .updateRel | .memIPT => [IPTLock]
  | .missBit | .fullTLBRel | .loading | .loaded => [IPTLock, bitMapLock]
  | .fullTLB => [IPTLock, bitMapLock, TLBLock]
  | .fullSwap | .missSwap => [IPTLock, bitMapLock, swapFileLock]
  | .updateTLB => [IPTLock, TLBLock]
  | .stackBit | .stackRel _ | .memBit => [bitMapLock]
  | .stackIPT _ => [bitMapLock, IPTLock]

/-- The lock that a thread has acquired to come to a position. -/
def Pos.acquired : Pos → Option ℕ
  | .faultIPT | .stackIPT _ | .memIPT => some IPTLock
  | .missBit | .stackBit | .memBit => some bitMapLock
  | .fullTLB | .updateTLB => some TLBLock
  | .fullSwap | .missSwap => some swapFileLock
  | _ => none

def holds (p : Pos) (L : ℕ) : Prop := L ∈ p.locks

theorem holds_acquired {p : Pos} {L : ℕ} (h : p.acquired = some L) :
  holds p L
  := by
  cases p <;> simp_all [holds, Pos.acquired, Pos.locks]

/-- How a step changes the locks that a thread holds. -/
structure Keeps (p : Pos) (e : Effect) (p' : Pos) : Prop where
  respects : ∀ L, holds p' L → e = .call (.acquire L) ∨ holds p L ∧ e ≠ .call (.release L)
  retains : ∀ L, holds p L → e = .call (.release L) ∨ holds p' L
  acquires : ∀ L < numLocks, e = .call (.acquire L) → p'.acquired = some L ∧ ¬ holds p L
  waits : ∀ c M, e = .call (.wait c (some M)) → numLocks ≤ M ∧ p' = .idle
  plain : e = .compute ∨ ∃ a, e = .call a

theorem keeps_compute {p p' : Pos} (hlocks : p'.locks = p.locks) :
  Keeps p .compute p'
  := by
  refine ⟨?_, ?_, by simp, by simp, by simp⟩
  · intro L hL
    right
    rw [holds, ← hlocks]
    exact ⟨hL, by simp⟩
  · intro L hL
    right
    rw [holds, hlocks]
    exact hL

theorem keeps_acquire {p p' : Pos} {L : ℕ} (hlocks : p'.locks = p.locks ++ [L])
    (hacquired : p'.acquired = some L) (hnot : L ∉ p.locks) :
  Keeps p (.call (.acquire L)) p'
  := by
  refine ⟨?_, ?_, ?_, by simp, by simp⟩
  · intro M hM
    rw [holds, hlocks, List.mem_append, List.mem_singleton] at hM
    obtain hM | rfl := hM
    · exact .inr ⟨hM, by simp⟩
    · exact .inl rfl
  · intro M hM
    right
    rw [holds, hlocks]
    exact List.mem_append_left _ hM
  · rintro M - heq
    obtain rfl := Kernel.Action.acquire.inj (Effect.call.inj heq)
    exact ⟨hacquired, hnot⟩

theorem keeps_release {p p' : Pos} {L : ℕ} (hlocks : p.locks = p'.locks ++ [L])
    (hnot : L ∉ p'.locks) :
  Keeps p (.call (.release L)) p'
  := by
  refine ⟨?_, ?_, by simp, by simp, by simp⟩
  · intro M hM
    right
    rw [holds, hlocks]
    refine ⟨List.mem_append_left _ hM, ?_⟩
    intro heq
    obtain rfl := Kernel.Action.release.inj (Effect.call.inj heq)
    exact hnot hM
  · intro M hM
    rw [holds, hlocks, List.mem_append, List.mem_singleton] at hM
    obtain hM | rfl := hM
    · exact .inr hM
    · exact .inl rfl

/-- An operation on another lock. -/
theorem keeps_other {a : Kernel.Action} (ha : uses a = false) :
  Keeps .idle (.call a) .idle
  := by
  refine ⟨by simp [holds, Pos.locks], by simp [holds, Pos.locks], ?_, ?_, by simp⟩
  · intro L hL heq
    obtain rfl := Effect.call.inj heq
    simp only [uses, decide_eq_false_iff_not] at ha
    contradiction
  · intro c M heq
    obtain rfl := Effect.call.inj heq
    simp only [uses, decide_eq_false_iff_not] at ha
    exact ⟨by omega, rfl⟩

theorem keeps {p p' : Pos} {i : Choice} {e : Effect} (hnext : next p i = some (e, p')) :
  Keeps p e p'
  := by
  rw [next.eq_def] at hnext
  split at hnext
  -- an operation on another lock
  case h_4 =>
    split at hnext
    · cases hnext
    · rename_i huses
      obtain ⟨rfl, rfl⟩ := Prod.mk.inj (Option.some.inj hnext)
      exact keeps_other (Bool.eq_false_iff.mpr huses)
  -- the end of an iteration of `clearStack`
  case h_24 =>
    split at hnext
    · obtain ⟨rfl, rfl⟩ := Prod.mk.inj (Option.some.inj hnext)
      exact keeps_acquire rfl rfl (by simp [Pos.locks, IPTLock, bitMapLock])
    · obtain ⟨rfl, rfl⟩ := Prod.mk.inj (Option.some.inj hnext)
      exact keeps_release rfl (by simp [Pos.locks])
  all_goals first
    | cases hnext
      done
    | obtain ⟨rfl, rfl⟩ := Prod.mk.inj (Option.some.inj hnext)
      first
        | exact keeps_compute rfl
        | exact keeps_acquire rfl rfl
            (by simp [Pos.locks, IPTLock, bitMapLock, TLBLock, swapFileLock])
        | exact keeps_release rfl
            (by simp [Pos.locks, IPTLock, bitMapLock, TLBLock, swapFileLock])

/-- The locks that are held only for a short time, with interrupts disabled. -/
def isBrief (L : ℕ) : Prop := L = TLBLock ∨ L = swapFileLock

/-- A thread that holds such a lock cannot be interrupted. -/
theorem masked_of_brief {p : Pos} {L : ℕ} (hL : isBrief L) (hp : holds p L) :
  p.masked = true
  := by
  obtain rfl | rfl := hL <;>
    cases p <;> simp [holds, Pos.locks, Pos.masked, IPTLock, bitMapLock, TLBLock, swapFileLock] at hp ⊢

/-- It releases it in its next step. -/
theorem release_of_brief {p p' : Pos} {i : Choice} {e : Effect} (hnext : next p i = some (e, p'))
    {L : ℕ} (hL : isBrief L) (hp : holds p L) :
  e = .call (.release L)
  := by
  have hpos : (L = TLBLock ∧ (p = .fullTLB ∨ p = .updateTLB)) ∨
      (L = swapFileLock ∧ (p = .fullSwap ∨ p = .missSwap)) := by
    obtain rfl | rfl := hL <;>
      cases p <;> simp [holds, Pos.locks, IPTLock, bitMapLock, TLBLock, swapFileLock] at hp ⊢
  obtain ⟨rfl, rfl | rfl⟩ | ⟨rfl, rfl | rfl⟩ := hpos
  all_goals
    cases i with
    | branch b => cases b <;> cases hnext <;> rfl
    | fault | clearStack | clearMem | other => cases hnext

/-- A thread needs `IPTLock` only after it has called `bitMapLock->Acquire()` in `clearStack`. -/
theorem needsIPT_next {p p' : Pos} {i : Choice} {e : Effect} (hnext : next p i = some (e, p'))
    (hp' : p'.needsIPT = true) :
  p.needsIPT = true ∨ e = .call (.acquire bitMapLock)
  := by
  rw [next.eq_def] at hnext
  split at hnext
  case h_4 =>
    split at hnext <;> cases hnext
    cases hp'
  case h_24 =>
    split at hnext
    · rename_i hlt
      left
      simpa [Pos.needsIPT] using hlt
    · cases hnext
      cases hp'
  all_goals
    cases hnext
    all_goals first
      | exact .inl rfl
      | exact .inr rfl
      | cases hp'

/-- A fault calls `bitMapLock->Acquire()` only when it has missed. -/
theorem missBit_next {p : Pos} {i : Choice} {e : Effect} (hnext : next p i = some (e, .missBit)) :
  p = .faultIPT ∧ i = .branch false
  := by
  rw [next.eq_def] at hnext
  split at hnext
  case h_4 => split at hnext <;> cases hnext
  case h_24 => split at hnext <;> cases hnext
  all_goals cases hnext
  exact ⟨rfl, rfl⟩

/-! ### The invariant -/

variable {x x' : Exec Unit Pos} {m : Move Choice} {l l' : Lock} {pos : ℕ → Pos} {t u L : ℕ}

/-- The owner of a lock and the threads that wait for it are at positions where they hold it. -/
structure Placed (L : ℕ) (pos : ℕ → Pos) (l : Lock) : Prop where
  owned : ∀ u, l.owner = some u → holds (pos u) L
  waiting : ∀ u ∈ l.waitQueue, (pos u).acquired = some L
  apart : ∀ u, l.owner = some u → u ∉ l.waitQueue

/-- If a fault waits for `bitMapLock` then neither the owner nor a thread ahead of it needs `IPTLock`. -/
def Ordered (pos : ℕ → Pos) (l : Lock) : Prop :=
  ∀ us v vs, l.waitQueue = us ++ v :: vs → pos v = .missBit →
    (∀ u, l.owner = some u → (pos u).needsIPT = false) ∧ ∀ u ∈ us, pos u ≠ .stackBit

/-- No thread waits for the lock, and its owner is running. -/
structure Brief (currentThread : Option ℕ) (l : Lock) : Prop where
  queue : l.waitQueue = []
  owner : ∀ u, l.owner = some u → currentThread = some u

structure Ok (x : Exec Unit Pos) : Prop where
  exec : x.Ok holds
  placed : ∀ L < numLocks, Placed L x.pos (x.kernel.locks L)
  ordered : Ordered x.pos (x.kernel.locks bitMapLock)
  brief : ∀ L, isBrief L → Brief x.kernel.currentThread (x.kernel.locks L)
  inWait : ∀ t c M, x.kernel.pc t = .inWait c M → numLocks ≤ M ∧ x.pos t = .idle
  others : ∀ t, t ∉ x.threads → x.pos t = .idle

/-- A step of the thread `t` that does not change the lock. -/
theorem Placed.same (h : Placed L pos l) (ht : t ∉ l.waitQueue) {e : Effect} {p : Pos}
    (hkeeps : Keeps (pos t) e p) (hrelease : l.owner = some t → e ≠ .call (.release L)) :
  Placed L (Function.update pos t p) l
  := by
  refine ⟨?_, ?_, h.apart⟩
  · intro u hu
    by_cases hut : u = t
    · subst hut
      rw [Function.update_self]
      exact (hkeeps.retains L (h.owned u hu)).resolve_left (hrelease hu)
    · rw [Function.update_of_ne hut]
      exact h.owned u hu
  · intro u hu
    have hut : u ≠ t := by
      rintro rfl
      exact ht hu
    rw [Function.update_of_ne hut]
    exact h.waiting u hu

/-- The thread `t` acquires the lock. -/
theorem Placed.gains (h : Placed L pos l) (ht : t ∉ l.waitQueue) {p : Pos}
    (hkeeps : Keeps (pos t) (.call (.acquire L)) p) (hL : L < numLocks)
    (hempty : l.state = .free → l.waitQueue = []) (hgains : Kernel.Gains l t l') :
  Placed L (Function.update pos t p) l'
  := by
  have hsame := h.same ht hkeeps (by simp)
  have hacquired : (Function.update pos t p t).acquired = some L := by
    rw [Function.update_self]
    exact (hkeeps.acquires L hL rfl).1
  cases hgains with
  | held howner => exact hsame
  | taken hfree =>
      refine ⟨?_, hsame.waiting, ?_⟩
      · rintro u ⟨⟩
        exact holds_acquired hacquired
      · simp [hempty hfree]
  | blocked hother hbusy =>
      refine ⟨hsame.owned, ?_, ?_⟩
      · intro u hu
        obtain hu | hu := List.mem_append.mp hu
        · exact hsame.waiting u hu
        · obtain rfl := List.mem_singleton.mp hu
          exact hacquired
      · intro u hu hmem
        obtain hmem | hmem := List.mem_append.mp hmem
        · exact h.apart u hu hmem
        · obtain rfl := List.mem_singleton.mp hmem
          exact hother hu

/-- The thread `t` releases the lock. -/
theorem Placed.loses (h : Placed L pos l) (ht : t ∉ l.waitQueue) {e : Effect} {p : Pos}
    (hkeeps : Keeps (pos t) e p) (hnodup : l.waitQueue.Nodup) (hloses : Kernel.Loses l t l') :
  Placed L (Function.update pos t p) l'
  := by
  have hwaiting : ∀ u ∈ l.waitQueue, (Function.update pos t p u).acquired = some L := by
    intro u hu
    have hut : u ≠ t := by
      rintro rfl
      exact ht hu
    rw [Function.update_of_ne hut]
    exact h.waiting u hu
  cases hloses with
  | refused hother => exact h.same ht hkeeps (fun howner => absurd howner hother)
  | freed howner hqueue =>
      refine ⟨by simp, ?_, by simp⟩
      simp [hqueue]
  | @handedOver v vs howner hqueue =>
      rw [hqueue] at hwaiting hnodup
      refine ⟨?_, ?_, ?_⟩
      · rintro u ⟨⟩
        exact holds_acquired (hwaiting v List.mem_cons_self)
      · intro u hu
        exact hwaiting u (List.mem_cons_of_mem v hu)
      · rintro u ⟨⟩
        exact (List.nodup_cons.mp hnodup).1

/-- A step of the thread `t` that does not change `bitMapLock`. -/
theorem Ordered.same (h : Ordered pos l) (ht : t ∉ l.waitQueue) {p : Pos}
    (hneeds : l.owner = some t → (pos t).needsIPT = false → p.needsIPT = false) :
  Ordered (Function.update pos t p) l
  := by
  intro us v vs hqueue hv
  have hother : ∀ u ∈ us ++ v :: vs, Function.update pos t p u = pos u := by
    intro u hu
    apply Function.update_of_ne
    rintro rfl
    rw [hqueue] at ht
    exact ht hu
  rw [hother v (by simp)] at hv
  obtain ⟨howner, hahead⟩ := h us v vs hqueue hv
  constructor
  · intro u hu
    by_cases hut : u = t
    · subst hut
      rw [Function.update_self]
      exact hneeds hu (howner u hu)
    · rw [Function.update_of_ne hut]
      exact howner u hu
  · intro u hu
    rw [hother u (List.mem_append_left _ hu)]
    exact hahead u hu

/-- The thread `t` calls `bitMapLock->Acquire()`. If it is a fault then no thread needs `IPTLock`. -/
theorem Ordered.gains (h : Ordered pos l) (ht : t ∉ l.waitQueue) (howner : l.owner ≠ some t) {p : Pos}
    (hempty : l.state = .free → l.waitQueue = [])
    (hapart : p = .missBit → ∀ u, (pos u).needsIPT = false) (hgains : Kernel.Gains l t l') :
  Ordered (Function.update pos t p) l'
  := by
  have hsame := h.same (p := p) ht (fun h => absurd h howner)
  cases hgains with
  | held h => exact absurd h howner
  | taken hfree =>
      intro us v vs hqueue
      simp [hempty hfree] at hqueue
  | blocked hother hbusy =>
      intro us v vs hqueue hv
      obtain rfl | ⟨ws, w, rfl⟩ := List.eq_nil_or_concat' vs
      · obtain ⟨rfl, rfl⟩ := List.append_inj' hqueue rfl |>.imp_right (fun h => (List.cons.inj h).1)
        rw [Function.update_self] at hv
        have hnone := hapart hv
        constructor
        · intro u hu
          rw [Function.update_of_ne]
          · exact hnone u
          · rintro rfl
            exact hother hu
        · intro u hu hstack
          rw [Function.update_of_ne] at hstack
          · have hneeds := hnone u
            rw [hstack] at hneeds
            cases hneeds
          · rintro rfl
            exact ht hu
      · have hqueue' : l.waitQueue ++ [t] = (us ++ v :: ws) ++ [w] := by
          simpa using hqueue
        exact hsame us v ws (List.append_inj' hqueue' rfl).1 hv

/-- The thread `t` releases `bitMapLock`. -/
theorem Ordered.loses (h : Ordered pos l) (hplaced : Placed bitMapLock pos l) (ht : t ∉ l.waitQueue)
    {p : Pos} (hloses : Kernel.Loses l t l') :
  Ordered (Function.update pos t p) l'
  := by
  cases hloses with
  | refused hother => exact h.same ht (fun howner => absurd howner hother)
  | freed howner hqueue =>
      intro us v vs hqueue'
      simp [hqueue] at hqueue'
  | @handedOver w ws howner hqueue =>
      rintro us v vs rfl hv
      have hother : ∀ u ∈ w :: (us ++ v :: vs), Function.update pos t p u = pos u := by
        intro u hu
        apply Function.update_of_ne
        rintro rfl
        rw [hqueue] at ht
        exact ht hu
      rw [hother v (by simp)] at hv
      obtain ⟨-, hahead⟩ := h (w :: us) v vs hqueue hv
      constructor
      · rintro u ⟨⟩
        have hacquired := hplaced.waiting w (by simp [hqueue])
        have hne := hahead w List.mem_cons_self
        rw [hother w List.mem_cons_self]
        revert hacquired hne
        cases pos w <;> simp [Pos.acquired, Pos.needsIPT, IPTLock, bitMapLock]
      · intro u hu
        rw [hother u (by simp [hu])]
        exact hahead u (List.mem_cons_of_mem w hu)

theorem lt_of_isBrief (hL : isBrief L) :
  L < numLocks
  := by
  obtain rfl | rfl := hL <;> decide

/-- A lock that is free is still free after a step, unless the running thread takes it. -/
theorem Ok.brief_call (h : Ok x) (hrun : x.kernel.currentThread = some t) {p p' : Pos} {i : Choice}
    {a : Kernel.Action} {k : Kernel} (hp : x.pos t = p) (hnext : next p i = some (.call a, p'))
    (hcall : x.kernel.call t a = some k) (hL : isBrief L) :
  Brief k.currentThread (k.locks L) ∧ ∀ u, (k.locks L).owner = some u → t = u
  := by
  have hlt := lt_of_isBrief hL
  have hkeeps := keeps hnext
  obtain ⟨hqueue, howner⟩ := h.brief L hL
  have hself : ∀ u, (x.kernel.locks L).owner = some u → t = u :=
    fun u hu => Option.some.inj (hrun.symm.trans (howner u hu))
  have hreleases : ∀ u, (x.kernel.locks L).owner = some u → a = .release L := by
    intro u hu
    obtain rfl := hself u hu
    have hholds := (h.placed L hlt).owned t hu
    rw [hp] at hholds
    exact Effect.call.inj (release_of_brief hnext hL hholds)
  obtain ⟨rfl, hgains⟩ | ⟨-, hloses⟩ | ⟨-, hne, hsame⟩ := Kernel.locks_call hcall L
  · have hnone : (x.kernel.locks L).owner = none := by
      rw [Option.eq_none_iff_forall_ne_some]
      intro u hu
      cases hreleases u hu
    have hfree := (h.exec.kernel.free_iff L).mpr hnone
    have hk : k.locks L = { x.kernel.locks L with state := .busy, owner := some t } := by
      generalize k.locks L = l at hgains
      cases hgains with
      | held hheld => cases hnone.symm.trans hheld
      | taken => rfl
      | blocked _ hbusy => contradiction
    have hcurrent : k.currentThread = some t := by
      obtain rfl := Option.some.inj hcall
      rw [Kernel.acquire, if_neg (by simp [hnone]), if_pos hfree]
      exact hrun
    rw [hk, hcurrent]
    refine ⟨⟨hqueue, ?_⟩, ?_⟩
    · rintro u ⟨⟩
      rfl
    · rintro u ⟨⟩
      rfl
  · have hnone : (k.locks L).owner = none ∧ (k.locks L).waitQueue = [] := by
      generalize k.locks L = l at hloses
      cases hloses with
      | refused hother =>
          refine ⟨?_, hqueue⟩
          rw [Option.eq_none_iff_forall_ne_some]
          intro u hu
          obtain rfl := hself u hu
          exact hother hu
      | freed => exact ⟨rfl, hqueue⟩
      | handedOver _ hcons => cases hqueue.symm.trans hcons
    refine ⟨⟨hnone.2, ?_⟩, ?_⟩
    · simp [hnone.1]
    · simp [hnone.1]
  · have hnone : (k.locks L).owner = none := by
      rw [hsame, Option.eq_none_iff_forall_ne_some]
      intro u hu
      exact hne (hreleases u hu)
    refine ⟨⟨?_, ?_⟩, ?_⟩
    · rw [hsame]
      exact hqueue
    · simp [hnone]
    · simp [hnone]

theorem next_of_code {p p' : Pos} {s s' : Unit} {i : Choice} {e : Effect}
    (hnext : code.next t p s i = some (s', e, p')) :
  next p i = some (e, p')
  := by
  obtain ⟨⟨e', q⟩, hq, heq⟩ := Option.map_eq_some_iff.mp hnext
  obtain ⟨-, rfl, rfl⟩ := (Prod.mk.inj heq).imp_right Prod.mk.inj
  exact hq

theorem code_respects :
  Code.Respects code holds
  := fun _ _ _ _ _ _ _ hnext => (keeps (next_of_code hnext)).respects

theorem code_plain :
  Code.Plain code
  := by
  refine ⟨?_, fun _ _ => rfl⟩
  rintro t p s i s' e p' hnext u rfl
  obtain hcompute | ⟨a, hcall⟩ := (keeps (next_of_code hnext)).plain
  · cases hcompute
  · cases hcall

theorem Ok.not_mem (h : Ok x) (hrun : x.kernel.currentThread = some t) (L : ℕ) :
  t ∉ (x.kernel.locks L).waitQueue
  := h.exec.kernel.not_mem hrun (p := .lock L) (by simp)

/-- Only the running thread changes its position, and it is one of the threads. -/
theorem Ok.others_run (h : Ok x) (hrun : x.kernel.currentThread = some t) (p : Pos) :
  ∀ u, u ∉ x.threads → Function.update x.pos t p u = .idle
  := by
  intro u hu
  rw [Function.update_of_ne]
  · exact h.others u hu
  · rintro rfl
    apply hu
    apply (h.exec.kernel.places.mem_iff u).mpr
    use .running
    simp [Kernel.queue, hrun]

/-- A step in which no operation is called. -/
theorem Ok.compute (h : Ok x) (hrun : x.kernel.currentThread = some t)
    (hpc : x.kernel.pc t = .outside) {p : Pos} {i : Choice}
    (hnext : next (x.pos t) i = some (.compute, p))
    (hexec : Exec.Ok holds ⟨x.kernel, x.threads, x.data, Function.update x.pos t p⟩) :
  Ok ⟨x.kernel, x.threads, x.data, Function.update x.pos t p⟩
  := by
  refine ⟨hexec, ?_, ?_, h.brief, ?_, h.others_run hrun p⟩
  · intro L hL
    exact (h.placed L hL).same (h.not_mem hrun L) (keeps hnext) (by simp)
  · apply h.ordered.same (h.not_mem hrun bitMapLock)
    intro _ hneeds
    by_contra hp
    obtain hp | hp := needsIPT_next hnext (Bool.not_eq_false _ ▸ hp)
    · cases hneeds.symm.trans hp
    · cases hp
  · intro u c M hu
    obtain ⟨hM, hidle⟩ := h.inWait u c M hu
    refine ⟨hM, ?_⟩
    simp only
    rw [Function.update_of_ne]
    · exact hidle
    · rintro rfl
      cases hpc.symm.trans hu

/-- A step in which an operation is called. -/
theorem Ok.call (h : Ok x) (hrun : x.kernel.currentThread = some t)
    (hpc : x.kernel.pc t = .outside) {p : Pos} {i : Choice} {a : Kernel.Action} {k : Kernel}
    (hnext : next (x.pos t) i = some (.call a, p)) (hcall : x.kernel.call t a = some k)
    (happart : apart x (.run i) = true)
    (hexec : Exec.Ok holds ⟨k, x.threads, x.data, Function.update x.pos t p⟩) :
  Ok ⟨k, x.threads, x.data, Function.update x.pos t p⟩
  := by
  have hkeeps := keeps hnext
  refine ⟨hexec, ?_, ?_, ?_, ?_, h.others_run hrun p⟩
  · intro L hL
    have ht := h.not_mem hrun L
    obtain ⟨rfl, hgains⟩ | ⟨-, hloses⟩ | ⟨-, hne, hsame⟩ := Kernel.locks_call hcall L
    · exact (h.placed L hL).gains ht hkeeps hL (h.exec.kernel.empty L) hgains
    · exact (h.placed L hL).loses ht hkeeps (h.exec.kernel.places.nodup (.lock L)) hloses
    · simp only [hsame]
      exact (h.placed L hL).same ht hkeeps (fun _ heq => hne (Effect.call.inj heq))
  · have ht := h.not_mem hrun bitMapLock
    have hplaced := h.placed bitMapLock (by decide)
    obtain ⟨rfl, hgains⟩ | ⟨-, hloses⟩ | ⟨hne, -, hsame⟩ := Kernel.locks_call hcall bitMapLock
    · have howner : (x.kernel.locks bitMapLock).owner ≠ some t := fun howner =>
        (hkeeps.acquires bitMapLock (by decide) rfl).2 (hplaced.owned t howner)
      refine h.ordered.gains ht howner (h.exec.kernel.empty bitMapLock) ?_ hgains
      rintro rfl u
      obtain ⟨hfault, rfl⟩ := missBit_next hnext
      simp only [apart, hrun, hfault, bne_self_eq_false, Bool.false_or, List.all_eq_true,
        Bool.not_eq_true'] at happart
      by_cases hu : u ∈ x.threads
      · exact happart u hu
      · rw [h.others u hu]
        rfl
    · exact h.ordered.loses hplaced ht hloses
    · simp only [hsame]
      apply h.ordered.same ht
      intro _ hneeds
      by_contra hp
      obtain hp | hp := needsIPT_next hnext (Bool.not_eq_false _ ▸ hp)
      · cases hneeds.symm.trans hp
      · exact hne (Effect.call.inj hp)
  · intro L hL
    exact (h.brief_call hrun rfl hnext hcall hL).1
  · intro u c M hu
    obtain hold | ⟨rfl, rfl⟩ := Kernel.inWait_call hcall hu
    · obtain ⟨hM, hidle⟩ := h.inWait u c M hold
      refine ⟨hM, ?_⟩
      simp only
      rw [Function.update_of_ne]
      · exact hidle
      · rintro rfl
        cases hpc.symm.trans hold
    · obtain ⟨hM, rfl⟩ := hkeeps.waits c M rfl
      exact ⟨hM, Function.update_self _ _ _⟩

/-- The running thread yields, or goes on in an operation. The lock `L` and, if it is held, the
running thread stay the same. -/
theorem Ok.brief_kernel (h : Ok x) {a : Kernel.Action} {k : Kernel}
    (ha : a = .yield ∨ a = .preempt ∨ a = .proceed)
    (henabled : a = .proceed ∨ x.enabled code = true) (hk : x.kernel.step a = some k)
    (hL : isBrief L) (howner : (x.kernel.locks L).owner = some u) :
  k.currentThread = some u
  := by
  have hrun := (h.brief L hL).owner u howner
  have hholds := (h.placed L (lt_of_isBrief hL)).owned u howner
  have hproceed : a = .proceed := by
    apply henabled.resolve_right
    simp [Exec.enabled, hrun, code, masked_of_brief hL hholds]
  obtain ⟨t, hrun', hsteps⟩ := Kernel.step_cases hk
  obtain rfl := Option.some.inj (hrun.symm.trans hrun')
  cases hsteps with
  | call hpc hcall =>
      subst hproceed
      cases hcall
  | preempt hpc => cases hproceed
  | @leave lock hpc => cases lock <;> exact hrun
  | acquired hpc => exact hrun
  | @woken c M hpc =>
      have hidle := (h.inWait u c M hpc).2
      rw [hidle] at hholds
      cases hholds
  | @loop c M hpc =>
      rw [Kernel.broadcastLoop]
      split
      · exact hrun
      · rw [Kernel.currentThread_signal]
        exact hrun

theorem Ok.kernel (h : Ok x) {a : Kernel.Action} {k : Kernel}
    (ha : a = .yield ∨ a = .preempt ∨ a = .proceed)
    (henabled : a = .proceed ∨ x.enabled code = true) (hk : x.kernel.step a = some k)
    (hexec : Exec.Ok holds { x with kernel := k }) :
  Ok { x with kernel := k } ∧ ∀ L < numLocks, k.locks L = x.kernel.locks L
  := by
  have hlocks : ∀ L < numLocks, k.locks L = x.kernel.locks L := by
    intro L hL
    obtain hsame | ⟨t, c, -, hpc, -⟩ := Kernel.locks_step ha hk L
    · exact hsame
    · have := (h.inWait t c L hpc).1
      omega
  refine ⟨⟨hexec, ?_, ?_, ?_, ?_, h.others⟩, hlocks⟩
  · intro L hL
    simp only [hlocks L hL]
    exact h.placed L hL
  · simp only [hlocks bitMapLock (by decide)]
    exact h.ordered
  · intro L hL
    simp only [hlocks L (lt_of_isBrief hL)]
    exact ⟨(h.brief L hL).queue, fun u hu => h.brief_kernel ha henabled hk hL hu⟩
  · intro u c M hu
    exact h.inWait u c M (Kernel.inWait_step ha hk hu)

/-- Every move keeps the invariant, and where the running thread changes `TLBLock` is free. -/
theorem Ok.move (h : Ok x) (happart : apart x m = true) (hstep : x.step code m = some x') :
  Ok x' ∧ ∀ u, (x'.kernel.locks TLBLock).owner = some u → x.kernel.currentThread = some u
  := by
  have hexec := h.exec.step code_respects
    (by rw [Exec.wakes_of_plain code_plain]; exact h.exec.nodup) hstep
  have hbrief : isBrief TLBLock := .inl rfl
  cases Exec.step_cases hstep with
  | @run t i data effect p kernel threads hrun hpc hnext happly =>
      have hnext' := next_of_code hnext
      obtain rfl | ⟨a, rfl⟩ := (keeps hnext').plain
      · obtain ⟨rfl, rfl⟩ := Prod.mk.inj (Option.some.inj happly)
        exact ⟨h.compute hrun hpc hnext' hexec, (h.brief TLBLock hbrief).owner⟩
      · obtain ⟨k, hcall, heq⟩ := Option.map_eq_some_iff.mp happly
        obtain ⟨rfl, rfl⟩ := Prod.mk.inj heq
        refine ⟨h.call hrun hpc hnext' hcall happart hexec, ?_⟩
        intro u hu
        rw [← (h.brief_call hrun rfl hnext' hcall hbrief).2 u hu]
        exact hrun
  | kernel ha henabled hk =>
      obtain ⟨hok, hlocks⟩ := h.kernel ha henabled hk hexec
      refine ⟨hok, ?_⟩
      simp only [hlocks TLBLock (by decide)]
      exact (h.brief TLBLock hbrief).owner
  | interrupt _ hinterrupt => cases hinterrupt

/-- `SaveState` changes nothing when `TLBLock` is free. -/
theorem saveState_of_free {k : Kernel} (hlock : k.locks TLBLock = ⟨.free, none, []⟩) (t : ℕ) :
  saveState t k = k
  := by
  have hback : Function.update k.locks TLBLock ⟨.free, none, []⟩ = k.locks := by
    rw [← hlock]
    exact Function.update_eq_self _ _
  simp [saveState, hlock, Kernel.release, Kernel.setLock, hback]

/-- `SaveState` does not wait in `Run`. -/
theorem Ok.step_eq (h : Ok x) (happart : apart x m = true) :
  step x m = x.step code m
  := by
  rw [step]
  cases hstep : x.step code m with
  | none => rfl
  | some x' =>
      obtain ⟨hok, howner⟩ := h.move happart hstep
      have hbrief := hok.brief TLBLock (.inl rfl)
      have hsame : switch x.kernel.currentThread x'.kernel = x'.kernel := by
        rw [switch.eq_def]
        split
        · rename_i t u hold hnew
          split
          · rfl
          · rename_i htu
            have hnone : (x'.kernel.locks TLBLock).owner = none := by
              rw [Option.eq_none_iff_forall_ne_some]
              intro v hv
              apply htu
              have hv' := hbrief.owner v hv
              rw [hnew] at hv'
              have hv'' := (howner v hv).symm.trans hold
              exact (Option.some.inj hv'').symm.trans (Option.some.inj hv').symm
            have hfree := (hok.exec.kernel.free_iff TLBLock).mpr hnone
            apply saveState_of_free
            cases hl : x'.kernel.locks TLBLock with
            | mk state owner waitQueue =>
                have hqueue := hbrief.queue
                simp only [hl] at hnone hfree hqueue
                rw [hnone, hfree, hqueue]
        · rfl
      simp [hsame]

theorem ok_initial {ts : List ℕ} (hnodup : (t :: ts).Nodup) :
  Ok (initial t ts)
  := by
  refine ⟨Exec.ok_initial hnodup () (by simp [holds, Pos.locks]), ?_, ?_, ?_, ?_, fun _ _ => rfl⟩
  · intro L _
    refine ⟨?_, ?_, ?_⟩
    · intro u hu
      cases hu
    · intro u hu
      cases hu
    · intro u hu
      cases hu
  · intro us v vs hqueue
    simp [initial, Exec.initial, Kernel.initial] at hqueue
  · intro L _
    refine ⟨rfl, ?_⟩
    intro u hu
    cases hu
  · intro u c M hu
    cases hu

/-! ### Cycles -/

/-- A thread that waits for a lock and holds another one is a fault that waits for `bitMapLock`, or
is in `clearStack` and waits for `IPTLock`. -/
theorem Ok.waits_cases (h : Ok x) {v : ℕ} (hwaits : Waits x.kernel t u) (hwaited : Waits x.kernel v t) :
  x.pos t = .missBit ∧ (x.kernel.locks bitMapLock).owner = some u ∧
      t ∈ (x.kernel.locks bitMapLock).waitQueue ∨
    (∃ i, x.pos t = .stackIPT i) ∧ (x.kernel.locks IPTLock).owner = some u
  := by
  obtain ⟨L, hL, hmem, howner⟩ := hwaits
  obtain ⟨M, hM, -, howner'⟩ := hwaited
  have hacquired := (h.placed L hL).waiting t hmem
  have hholds := (h.placed M hM).owned t howner'
  have hLM : M ≠ L := by
    rintro rfl
    exact (h.placed M hM).apart t howner' hmem
  have hbrief : ¬ isBrief L := by
    intro hbrief
    rw [(h.brief L hbrief).queue] at hmem
    cases hmem
  cases hp : x.pos t with
  | missBit =>
      rw [hp] at hacquired
      obtain rfl := Option.some.inj hacquired
      exact .inl ⟨rfl, howner, hmem⟩
  | stackIPT i =>
      rw [hp] at hacquired
      obtain rfl := Option.some.inj hacquired
      exact .inr ⟨⟨i, rfl⟩, howner⟩
  | faultIPT | memIPT | stackBit | memBit =>
      rw [hp] at hacquired hholds
      obtain rfl := Option.some.inj hacquired
      exact absurd (List.mem_singleton.mp hholds) hLM
  | fullTLB | updateTLB =>
      rw [hp] at hacquired
      obtain rfl := Option.some.inj hacquired
      exact absurd (.inl rfl) hbrief
  | fullSwap | missSwap =>
      rw [hp] at hacquired
      obtain rfl := Option.some.inj hacquired
      exact absurd (.inr rfl) hbrief
  | idle | fullTLBRel | loading | loaded | missed | updateRel | faultRel | stackRel | mem
  | memBitRel =>
      rw [hp] at hacquired
      cases hacquired

/-- The threads that wait for each other are in a cycle, each of which waits for the next one. -/
theorem cycle_next {k : Kernel} (h : Relation.TransGen (Waits k) t t) :
  ∃ u, Waits k t u ∧ Relation.TransGen (Waits k) u u
  := by
  obtain ⟨u, htu, hut⟩ := Relation.TransGen.head'_iff.mp h
  exact ⟨u, htu, Relation.TransGen.tail' hut htu⟩

/-- A fault that waits for `bitMapLock` is not in a cycle. -/
theorem Ok.not_missBit (h : Ok x) (hcycle : Relation.TransGen (Waits x.kernel) t t) :
  x.pos t ≠ .missBit
  := by
  intro hp
  obtain ⟨v, -, hvt⟩ := Relation.TransGen.tail'_iff.mp hcycle
  obtain ⟨u, htu, hcycle'⟩ := cycle_next hcycle
  obtain ⟨w, huw, -⟩ := cycle_next hcycle'
  obtain ⟨-, howner, hmem⟩ | ⟨⟨i, hi⟩, -⟩ := h.waits_cases htu hvt
  · obtain ⟨us, vs, hqueue⟩ := List.append_of_mem hmem
    have hneeds := (h.ordered us t vs hqueue hp).1 u howner
    obtain ⟨hu, howner', hmem'⟩ | ⟨⟨i, hu⟩, -⟩ := h.waits_cases huw htu
    · exact (h.placed bitMapLock (by decide)).apart u howner hmem'
    · rw [hu] at hneeds
      cases hneeds
  · cases hp.symm.trans hi

theorem Ok.not_deadlock (h : Ok x) :
  ¬ Deadlock x.kernel
  := by
  rintro ⟨t, hcycle⟩
  obtain ⟨v, -, hvt⟩ := Relation.TransGen.tail'_iff.mp hcycle
  obtain ⟨u, htu, hcycle'⟩ := cycle_next hcycle
  obtain ⟨w, huw, -⟩ := cycle_next hcycle'
  obtain ⟨hp, -, -⟩ | ⟨⟨i, hp⟩, howner⟩ := h.waits_cases htu hvt
  · exact h.not_missBit hcycle hp
  · -- the owner of `IPTLock` waits, and it does not wait for `IPTLock`
    obtain ⟨hu, -, -⟩ | ⟨⟨j, hu⟩, howner'⟩ := h.waits_cases huw htu
    · exact h.not_missBit hcycle' hu
    · obtain ⟨L, hL, hmem, hw⟩ := huw
      have hacquired := (h.placed L hL).waiting u hmem
      rw [hu] at hacquired
      obtain rfl := Option.some.inj hacquired
      exact (h.placed IPTLock hL).apart u howner hmem

/-- If no fault calls `bitMapLock->Acquire()` while a thread in `clearStack` needs `IPTLock`, then
no threads wait for each other. -/
theorem deadlock_free {ts : List ℕ} (hnodup : (t :: ts).Nodup) {ms : List (Move Choice)}
    (happart : Transition.Along step (fun x m => apart x m = true) (initial t ts) ms)
    (hrun : Transition.run step (initial t ts) ms = some x) :
  ¬ Deadlock x.kernel
  := by
  have hok := @Transition.run_invariant _ _ _ Ok (fun x m => apart x m = true)
    (fun x m x' hx hm hstep => (hx.move hm ((hx.step_eq hm).symm.trans hstep)).1) _ _ _
    (ok_initial hnodup) happart hrun
  exact hok.not_deadlock

/-- A fault waits for `bitMapLock`, which `clearMem` holds. -/
def waitForClearMem : List (Move Choice) :=
  [.run .clearMem, .run (.branch true), .preempt, .run .fault, .proceed, .run (.branch false),
    .proceed, .run (.branch true), .proceed, .run (.branch true)]

theorem deadlock_free_waiting :
  ∃ x, Transition.run step (initial 0 [1]) waitForClearMem = some x ∧
    (x.kernel.locks bitMapLock).owner = some 1 ∧ 0 ∈ (x.kernel.locks IPTLock).waitQueue ∧
    ¬ Deadlock x.kernel
  := by
  have hlocks : (Transition.run step (initial 0 [1]) waitForClearMem).map (fun x =>
      ((x.kernel.locks bitMapLock).owner, (x.kernel.locks IPTLock).waitQueue)) =
      some (some 1, [0]) := by decide
  obtain ⟨x, hx, heq⟩ := Option.map_eq_some_iff.mp hlocks
  obtain ⟨howner, hqueue⟩ := Prod.mk.inj heq
  exact ⟨x, hx, howner, by simp [hqueue], deadlock_free (by decide) (by decide) hx⟩

/-- A fault waits for `bitMapLock`, which a thread in `clearStack` holds that waits for `IPTLock`. -/
def waitForClearStack : List (Move Choice) :=
  [.run .clearStack, .preempt, .run .fault, .proceed, .run (.branch false), .proceed,
    .run (.branch true)]

/-- There are runs in which threads wait for each other. -/
theorem not_deadlock_free :
  ¬ ∀ (t : ℕ) (ts : List ℕ) (ms : List (Move Choice)) (x : Exec Unit Pos), (t :: ts).Nodup →
    Transition.run step (initial t ts) ms = some x → ¬ Deadlock x.kernel
  := by
  intro hall
  have hlocks : (Transition.run step (initial 0 [1]) waitForClearStack).map (fun x =>
      ((x.kernel.locks bitMapLock).owner, (x.kernel.locks bitMapLock).waitQueue,
        (x.kernel.locks IPTLock).owner, (x.kernel.locks IPTLock).waitQueue)) =
      some (some 0, [1], some 1, [0]) := by decide
  obtain ⟨x, hx, heq⟩ := Option.map_eq_some_iff.mp hlocks
  obtain ⟨hbit, hbitQueue, hIPT, hIPTQueue⟩ :=
    (Prod.mk.inj heq).imp_right (fun h => (Prod.mk.inj h).imp_right Prod.mk.inj)
  refine hall 0 [1] waitForClearStack x (by decide) hx ⟨0, ?_⟩
  have hwaits : Waits x.kernel 0 1 := ⟨IPTLock, by decide, by simp [hIPTQueue], hIPT⟩
  have hwaits' : Waits x.kernel 1 0 := ⟨bitMapLock, by decide, by simp [hbitQueue], hbit⟩
  exact .tail (.single hwaits) hwaits'

end Nachos.Memory.Locking
