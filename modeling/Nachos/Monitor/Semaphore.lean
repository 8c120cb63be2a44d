import Mathlib.Data.Int.Notation
import Nachos.Monitor.Views

/-!
# Semaphores

A `Semaphore` (`threads/synch.cc`). Any number of threads and handlers of interrupts call `P` and `V`,
with interrupts enabled or disabled, and also use locks and condition variables, sleep elsewhere and
are woken. The value is that at the beginning, plus the number of completed `V`, minus the number of
completed `P`, and no thread stays in the queue for which a thread should have been woken
(`Semaphore.semaphore_counts`).

A handler that runs while a thread is running is a part of that thread, with interrupts disabled. One
that runs in an operation of the kernel, or while no thread is running, cannot sleep.
-/

namespace Nachos.Monitor

namespace Semaphore

/-- Where a thread is. It remembers whether interrupts are disabled when it returns. -/
inductive Pos where
  | outside (off : Bool)
  /-- At the loop of `P`. -/
  | inP (off : Bool)
  /-- At the `Sleep` in `P`. -/
  | asleep (off : Bool)
  | inV (off : Bool)

/-- The semaphore, the threads that are asleep elsewhere or have not been forked, and the history. -/
structure Data where
  value : ℤ
  queue : List ℕ
  others : List ℕ
  /-- How often `P` and `V` have been completed. -/
  numP : ℕ
  numV : ℕ
  /-- The threads that `V` has put on the ready list and that have not run in `P` since. -/
  woken : List ℕ

/-- What a handler does. -/
inductive Event where
  | P
  | V
  | wake (u : ℕ)

/-- What a thread does when it is neither in `P` nor in `V`, and what the handlers do. -/
inductive Choice where
  | P
  | V
  | setLevel (off : Bool)
  | call (a : Kernel.Action)
  | sleep
  | wake (u : ℕ)
  | handlers (es : List Event)

/-- `P` of the thread `t` after its loop. -/
def Data.consume (s : Data) (t : ℕ) : Data :=
  { s with value := s.value - 1, numP := s.numP + 1, woken := s.woken.erase t }

/-- The loop of `P` of the thread `t`, up to its `Sleep`. -/
def Data.enqueue (s : Data) (t : ℕ) : Data :=
  { s with queue := s.queue ++ [t], woken := s.woken.erase t }

/-- `V`, and the thread that it wakes. -/
def Data.V (s : Data) : Data × Option ℕ :=
  match s.queue with
  | [] => ({ s with value := s.value + 1, numV := s.numV + 1 }, none)
  | thread :: queue =>
      ({ s with queue := queue, value := s.value + 1, numV := s.numV + 1,
                woken := s.woken ++ [thread] }, some thread)

def next (t : ℕ) : Pos → Data → Choice → Option (Data × Effect × Pos)
  | .outside off, s, .P => some (s, .compute, .inP off)
  | .outside off, s, .V => some (s, .compute, .inV off)
  | .outside _, s, .setLevel off => some (s, .compute, .outside off)
  | .outside off, s, .call a => some (s, .call a, .outside off)
  | .outside off, s, .sleep => some ({ s with others := t :: s.others }, .park, .outside off)
  | .outside off, s, .wake u =>
      if u ∈ s.others then some ({ s with others := s.others.erase u }, .wake u, .outside off)
      else none
  | .outside _, _, .handlers _ => none
  | .inP off, s, _ | .asleep off, s, _ =>
      if s.value = 0 then some (s.enqueue t, .park, .asleep off)
      else some (s.consume t, .compute, .outside off)
  | .inV off, s, _ =>
      match s.V with
      | (s, none) => some (s, .compute, .outside off)
      | (s, some u) => some (s, .wake u, .outside off)

/-- What a handler does, and the threads that it wakes. -/
def handle (s : Data) : Event → Option (Data × List ℕ)
  | .P => if s.value = 0 then none else some ({ s with value := s.value - 1, numP := s.numP + 1 }, [])
  | .V => some (s.V.1, s.V.2.toList)
  | .wake u => if u ∈ s.others then some ({ s with others := s.others.erase u }, [u]) else none

/-- What handlers do one after the other, and the threads that they wake. -/
def handlers (s : Data) : List Event → Option (Data × List ℕ)
  | [] => some (s, [])
  | e :: es => do
      let (s, us) ← handle s e
      let (s, vs) ← handlers s es
      some (s, us ++ vs)

/-- Interrupts are disabled in `P` and `V`. -/
def code : Code Data Pos Choice where
  next := next
  masked
    | .outside off => off
    | _ => true
  interrupt
    | s, .handlers es => handlers s es
    | _, _ => none

/-- The semaphore has the value `initialValue`, and the threads `others` are asleep. -/
def Data.initial (initialValue : ℤ) (others : List ℕ) : Data := ⟨initialValue, [], others, 0, 0, []⟩

/-- What is claimed of a semaphore. -/
structure Counts (initialValue : ℤ) (x : Exec Data Pos) : Prop where
  value : x.data.value = initialValue + x.data.numV - x.data.numP
  nonneg : 0 ≤ x.data.value
  wakeup : x.data.queue ≠ [] → x.data.value ≤ x.data.woken.length
  /-- The threads that have been woken are ready, or the processor has just been switched to one. -/
  ready : ∀ t ∈ x.data.woken, t ∈ x.kernel.readyList ∨ x.kernel.currentThread = some t

/-! ### The invariant -/

def Pos.isAsleep : Pos → Bool
  | .asleep _ => true
  | _ => false

/-- The invariant of the semaphore, where `threads` are the threads that are running, ready, or in
a queue of the kernel. -/
structure Data.Ok (initialValue : ℤ) (threads : List ℕ) (pos : ℕ → Pos) (s : Data) : Prop where
  value : s.value = initialValue + s.numV - s.numP
  nonneg : 0 ≤ s.value
  mem_queue : ∀ t, t ∈ s.queue ↔ (pos t).isAsleep = true ∧ t ∉ threads
  mem_woken : ∀ t, t ∈ s.woken ↔ (pos t).isAsleep = true ∧ t ∈ threads
  others : ∀ t ∈ s.others, (pos t).isAsleep = false ∧ t ∉ threads
  nodup_queue : s.queue.Nodup
  nodup_woken : s.woken.Nodup
  nodup_others : s.others.Nodup
  wakeup : s.queue ≠ [] → s.value ≤ s.woken.length

section

variable {v : ℤ} {threads : List ℕ} {pos : ℕ → Pos} {s s' : Data} {t u : ℕ} {us : List ℕ}

/-- A thread goes on, and is asleep neither before nor afterwards. -/
theorem Data.Ok.move (h : s.Ok v threads pos) {p : Pos} (ht : (pos t).isAsleep = false)
    (hp : p.isAsleep = false) :
  s.Ok v threads (Function.update pos t p)
  := by
  have hsame : ∀ u, (Function.update pos t p u).isAsleep = (pos u).isAsleep := by
    intro u
    by_cases hut : u = t
    · rw [hut, Function.update_self, ht, hp]
    · rw [Function.update_of_ne hut]
  refine ⟨h.value, h.nonneg, ?_, ?_, ?_, h.nodup_queue, h.nodup_woken, h.nodup_others, h.wakeup⟩
  · simpa only [hsame] using h.mem_queue
  · simpa only [hsame] using h.mem_woken
  · simpa only [hsame] using h.others

/-- A handler completes `P`. -/
theorem Data.Ok.take (h : s.Ok v threads pos) (hvalue : s.value ≠ 0) :
  Data.Ok v threads pos { s with value := s.value - 1, numP := s.numP + 1 }
  := by
  have hle := h.nonneg
  refine ⟨?_, ?_, h.mem_queue, h.mem_woken, h.others, h.nodup_queue, h.nodup_woken, h.nodup_others, ?_⟩
  · have hv := h.value
    push_cast
    omega
  · change 0 ≤ s.value - 1
    omega
  · intro hqueue
    have hwakeup := h.wakeup hqueue
    change s.value - 1 ≤ s.woken.length
    omega

/-- A thread completes `P`. -/
theorem Data.Ok.consume (h : s.Ok v threads pos) (hvalue : s.value ≠ 0) {off : Bool}
    (ht : t ∈ threads) :
  (s.consume t).Ok v threads (Function.update pos t (.outside off))
  := by
  have htake := h.take hvalue
  have hqueue : t ∉ s.queue := fun hmem => ((h.mem_queue t).mp hmem).2 ht
  have hothers : t ∉ s.others := fun hmem => (h.others t hmem).2 ht
  refine ⟨htake.value, htake.nonneg, ?_, ?_, ?_, h.nodup_queue, h.nodup_woken.erase t,
    h.nodup_others, ?_⟩
  · intro u
    by_cases hut : u = t
    · subst hut
      simp [Data.consume, hqueue, ht]
    · simpa [Data.consume, hut] using h.mem_queue u
  · intro u
    simp only [Data.consume, h.nodup_woken.mem_erase_iff]
    by_cases hut : u = t
    · simp [hut, Pos.isAsleep]
    · simpa [hut] using h.mem_woken u
  · intro u hu
    have hut : u ≠ t := fun heq => hothers (heq ▸ hu)
    simpa [hut] using h.others u hu
  · intro hne
    have hwakeup := h.wakeup hne
    change s.value - 1 ≤ ((s.woken.erase t).length : ℤ)
    rw [List.length_erase]
    split
    · omega
    · omega

/-- A thread finds the value 0, and sleeps. -/
theorem Data.Ok.enqueue (h : s.Ok v threads pos) (hvalue : s.value = 0) {off : Bool}
    (ht : t ∈ threads) (hnodup : threads.Nodup) :
  (s.enqueue t).Ok v (threads.erase t) (Function.update pos t (.asleep off))
  := by
  have hqueue : t ∉ s.queue := fun hmem => ((h.mem_queue t).mp hmem).2 ht
  have hothers : t ∉ s.others := fun hmem => (h.others t hmem).2 ht
  refine ⟨h.value, h.nonneg, ?_, ?_, ?_, ?_, h.nodup_woken.erase t, h.nodup_others, ?_⟩
  · intro u
    by_cases hut : u = t
    · simp [Data.enqueue, hut, Pos.isAsleep, hnodup.mem_erase_iff]
    · simpa [Data.enqueue, hut, hnodup.mem_erase_iff] using h.mem_queue u
  · intro u
    simp only [Data.enqueue, h.nodup_woken.mem_erase_iff, hnodup.mem_erase_iff]
    by_cases hut : u = t
    · simp [hut]
    · simpa [hut] using h.mem_woken u
  · intro u hu
    have hut : u ≠ t := fun heq => hothers (heq ▸ hu)
    simpa [hut, hnodup.mem_erase_iff] using h.others u hu
  · rw [Data.enqueue, ← List.concat_eq_append]
    exact h.nodup_queue.concat hqueue
  · intro _
    change s.value ≤ _
    omega

/-- `V` wakes the first thread in the queue. -/
theorem Data.Ok.V (h : s.Ok v threads pos) :
  s.V.1.Ok v (s.V.2.toList ++ threads) pos ∧ ∀ u ∈ s.V.2, u ∉ threads
  := by
  have hvalue := h.value
  have hnonneg := h.nonneg
  rw [Data.V]
  split
  · rename_i hqueue
    refine ⟨⟨?_, ?_, h.mem_queue, h.mem_woken, h.others, h.nodup_queue, h.nodup_woken,
      h.nodup_others, ?_⟩, by simp⟩
    · push_cast
      omega
    · change 0 ≤ s.value + 1
      omega
    · intro hne
      contradiction
  · rename_i u us hqueue
    have hmem : ∀ t, t ∈ u :: us ↔ (pos t).isAsleep = true ∧ t ∉ threads := by
      intro t
      rw [← hqueue]
      exact h.mem_queue t
    have hnodup : (u :: us).Nodup := by
      rw [← hqueue]
      exact h.nodup_queue
    obtain ⟨hasleep, hnot⟩ := (hmem u).mp List.mem_cons_self
    have hwoken : u ∉ s.woken := fun hu => hnot ((h.mem_woken u).mp hu).2
    refine ⟨⟨?_, ?_, ?_, ?_, ?_, hnodup.of_cons, ?_, h.nodup_others, ?_⟩, ?_⟩
    · push_cast
      omega
    · change 0 ≤ s.value + 1
      omega
    · intro t
      have ht := hmem t
      by_cases htu : t = u
      · simp [htu, (List.nodup_cons.mp hnodup).1]
      · simpa [htu] using ht
    · intro t
      by_cases htu : t = u
      · simp [htu, hasleep]
      · simpa [htu] using h.mem_woken t
    · intro t ht
      have hother := h.others t ht
      have htu : t ≠ u := by
        rintro rfl
        simp [hasleep] at hother
      simpa [htu] using hother
    · simp only [← List.concat_eq_append]
      exact h.nodup_woken.concat hwoken
    · intro _
      have hwakeup := h.wakeup (by simp [hqueue])
      simp only [List.length_append, List.length_singleton]
      push_cast
      omega
    · simpa using hnot

/-- A thread goes to sleep elsewhere. -/
theorem Data.Ok.sleep (h : s.Ok v threads pos) (ht : t ∈ threads) (hpos : (pos t).isAsleep = false)
    (hnodup : threads.Nodup) :
  Data.Ok v (threads.erase t) pos { s with others := t :: s.others }
  := by
  have hothers : t ∉ s.others := fun hmem => (h.others t hmem).2 ht
  refine ⟨h.value, h.nonneg, ?_, ?_, ?_, h.nodup_queue, h.nodup_woken,
    List.nodup_cons.mpr ⟨hothers, h.nodup_others⟩, h.wakeup⟩
  · intro u
    by_cases hut : u = t
    · simpa [hut, hpos] using h.mem_queue t
    · simpa [hut, hnodup.mem_erase_iff] using h.mem_queue u
  · intro u
    by_cases hut : u = t
    · simpa [hut, hpos] using h.mem_woken t
    · simpa [hut, hnodup.mem_erase_iff] using h.mem_woken u
  · intro u hu
    by_cases hut : u = t
    · simp [hut, hpos, hnodup.mem_erase_iff]
    · simpa [hut, hnodup.mem_erase_iff] using h.others u (List.mem_of_ne_of_mem hut hu)

/-- A thread that is asleep elsewhere is woken. -/
theorem Data.Ok.wake (h : s.Ok v threads pos) (hu : u ∈ s.others) :
  Data.Ok v (u :: threads) pos { s with others := s.others.erase u }
  := by
  obtain ⟨hpos, -⟩ := h.others u hu
  refine ⟨h.value, h.nonneg, ?_, ?_, ?_, h.nodup_queue, h.nodup_woken, h.nodup_others.erase u,
    h.wakeup⟩
  · intro t
    by_cases htu : t = u
    · simpa [htu, hpos] using h.mem_queue u
    · simpa [htu] using h.mem_queue t
  · intro t
    by_cases htu : t = u
    · simpa [htu, hpos] using h.mem_woken u
    · simpa [htu] using h.mem_woken t
  · intro t ht
    obtain ⟨htu, ht⟩ := h.nodup_others.mem_erase_iff.mp ht
    simpa [htu] using h.others t ht

/-- A handler does something. -/
theorem Data.Ok.handle (h : s.Ok v threads pos) {e : Event}
    (hhandle : Semaphore.handle s e = some (s', us)) (hnodup : threads.Nodup) :
  s'.Ok v (us ++ threads) pos ∧ (us ++ threads).Nodup
  := by
  cases e with
  | P =>
      simp only [Semaphore.handle, Option.ite_none_left_eq_some] at hhandle
      obtain ⟨hvalue, heq⟩ := hhandle
      obtain ⟨rfl, rfl⟩ := Prod.mk.inj (Option.some.inj heq)
      exact ⟨h.take hvalue, hnodup⟩
  | V =>
      obtain ⟨rfl, rfl⟩ := Prod.mk.inj (Option.some.inj hhandle)
      obtain ⟨hok, hnot⟩ := h.V
      use hok
      cases hwoken : s.V.2 with
      | none => exact hnodup
      | some u => exact List.nodup_cons.mpr ⟨hnot u (by simp [hwoken]), hnodup⟩
  | wake u =>
      simp only [Semaphore.handle, Option.ite_none_right_eq_some] at hhandle
      obtain ⟨hu, heq⟩ := hhandle
      obtain ⟨rfl, rfl⟩ := Prod.mk.inj (Option.some.inj heq)
      exact ⟨h.wake hu, List.nodup_cons.mpr ⟨(h.others u hu).2, hnodup⟩⟩

/-- The order of the threads does not matter. -/
theorem Data.Ok.perm {threads' : List ℕ} (h : s.Ok v threads pos)
    (hmem : ∀ t, t ∈ threads' ↔ t ∈ threads) :
  s.Ok v threads' pos
  := by
  refine ⟨h.value, h.nonneg, ?_, ?_, ?_, h.nodup_queue, h.nodup_woken, h.nodup_others, h.wakeup⟩
  · simpa only [hmem] using h.mem_queue
  · simpa only [hmem] using h.mem_woken
  · simpa only [hmem] using h.others

/-- Handlers are executed one after the other. -/
theorem Data.Ok.handlers (h : s.Ok v threads pos) {es : List Event}
    (hhandlers : Semaphore.handlers s es = some (s', us)) (hnodup : threads.Nodup) :
  s'.Ok v (us ++ threads) pos ∧ (us ++ threads).Nodup
  := by
  induction es generalizing s threads us with
  | nil =>
      obtain ⟨rfl, rfl⟩ := Prod.mk.inj (Option.some.inj hhandlers)
      exact ⟨h, hnodup⟩
  | cons e es ih =>
      simp only [Semaphore.handlers, Option.bind_eq_bind, Option.bind_eq_some_iff,
        Option.some.injEq] at hhandlers
      obtain ⟨⟨s₁, us₁⟩, hone, ⟨s₂, us₂⟩, hrest, heq⟩ := hhandlers
      obtain ⟨rfl, rfl⟩ := Prod.mk.inj heq
      obtain ⟨hok, hnodup₁⟩ := h.handle hone hnodup
      obtain ⟨hok₂, hnodup₂⟩ := ih hok hrest hnodup₁
      have hperm : (us₁ ++ us₂ ++ threads).Perm (us₂ ++ (us₁ ++ threads)) := by
        rw [← List.append_assoc]
        exact List.perm_append_comm.append_right threads
      exact ⟨hok₂.perm (fun t => hperm.mem_iff), hperm.nodup_iff.mpr hnodup₂⟩

end

/-! ### Runs -/

theorem code_respects :
  Code.Respects code (fun _ _ => False)
  := by
  intro t p s i s' e p' _ L hL
  exact hL.elim

/-- A thread that is asleep in `P` is in no operation of the kernel. -/
theorem code_settles :
  Code.Settles code (fun p => p.isAsleep = true)
  := by
  intro t p s i s' e p' hnext hp'
  simp only [code] at hnext
  cases p with
  | outside off =>
      cases i with
      | P | V | setLevel | call | sleep =>
          simp only [next, Option.some.injEq, Prod.mk.injEq] at hnext
          obtain ⟨-, -, rfl⟩ := hnext
          cases hp'
      | wake u =>
          simp only [next, Option.ite_none_right_eq_some, Option.some.injEq, Prod.mk.injEq] at hnext
          obtain ⟨-, -, -, rfl⟩ := hnext
          cases hp'
      | handlers => cases hnext
  | inP off | asleep off =>
      simp only [next] at hnext
      split at hnext
      · simp only [Option.some.injEq, Prod.mk.injEq] at hnext
        obtain ⟨-, rfl, -⟩ := hnext
        simp
      · simp only [Option.some.injEq, Prod.mk.injEq] at hnext
        obtain ⟨-, -, rfl⟩ := hnext
        cases hp'
  | inV off =>
      simp only [next] at hnext
      split at hnext
      · simp only [Option.some.injEq, Prod.mk.injEq] at hnext
        obtain ⟨-, -, rfl⟩ := hnext
        cases hp'
      · simp only [Option.some.injEq, Prod.mk.injEq] at hnext
        obtain ⟨-, -, rfl⟩ := hnext
        cases hp'

variable {v : ℤ} {x x' : Exec Data Pos} {m : Move Choice} {t : ℕ}

/-- The invariant of the threads, the handlers and the semaphore. -/
structure Ok (initialValue : ℤ) (x : Exec Data Pos) : Prop where
  exec : x.Ok (fun _ _ => False)
  settled : ∀ t, (x.pos t).isAsleep = true → x.kernel.Settled t
  data : x.data.Ok initialValue x.threads x.pos

/-- A running thread is one of the threads. -/
theorem Ok.mem (h : Ok v x) (hrun : x.kernel.currentThread = some t) :
  t ∈ x.threads
  := by
  apply (h.exec.kernel.places.mem_iff t).mpr
  use .running
  simp [Kernel.queue, hrun]

/-- A running thread makes a step. The thread that it wakes was in no queue of the kernel. -/
theorem Ok.run (h : Ok v x) (hrun : x.kernel.currentThread = some t) {i : Choice} {data : Data}
    {effect : Effect} {p : Pos} (hnext : next t (x.pos t) x.data i = some (data, effect, p)) :
  (∀ u, effect = .wake u → u ∉ x.threads) ∧
    data.Ok v (effect.threads t x.threads) (Function.update x.pos t p)
  := by
  have ht := h.mem hrun
  cases hp : x.pos t with
  | outside off =>
      have hpos : (x.pos t).isAsleep = false := by
        rw [hp]
        rfl
      rw [hp] at hnext
      cases i with
      | P | V | setLevel | call =>
          simp only [next, Option.some.injEq, Prod.mk.injEq] at hnext
          obtain ⟨rfl, rfl, rfl⟩ := hnext
          exact ⟨by simp, h.data.move hpos rfl⟩
      | sleep =>
          simp only [next, Option.some.injEq, Prod.mk.injEq] at hnext
          obtain ⟨rfl, rfl, rfl⟩ := hnext
          exact ⟨by simp, (h.data.sleep ht hpos h.exec.nodup).move hpos rfl⟩
      | wake u =>
          simp only [next, Option.ite_none_right_eq_some, Option.some.injEq, Prod.mk.injEq] at hnext
          obtain ⟨hu, rfl, rfl, rfl⟩ := hnext
          constructor
          · rintro _ ⟨⟩
            exact (h.data.others u hu).2
          · exact (h.data.wake hu).move hpos rfl
      | handlers => cases hnext
  | inP off | asleep off =>
      rw [hp] at hnext
      simp only [next] at hnext
      split at hnext
      · rename_i hvalue
        simp only [Option.some.injEq, Prod.mk.injEq] at hnext
        obtain ⟨rfl, rfl, rfl⟩ := hnext
        exact ⟨by simp, h.data.enqueue hvalue ht h.exec.nodup⟩
      · rename_i hvalue
        simp only [Option.some.injEq, Prod.mk.injEq] at hnext
        obtain ⟨rfl, rfl, rfl⟩ := hnext
        exact ⟨by simp, h.data.consume hvalue ht⟩
  | inV off =>
      have hpos : (x.pos t).isAsleep = false := by
        rw [hp]
        rfl
      obtain ⟨hok, hnot⟩ := h.data.V
      rw [hp] at hnext
      simp only [next] at hnext
      split at hnext
      · rename_i s hV
        simp only [hV] at hok
        simp only [Option.some.injEq, Prod.mk.injEq] at hnext
        obtain ⟨rfl, rfl, rfl⟩ := hnext
        exact ⟨by simp, hok.move hpos rfl⟩
      · rename_i s u hV
        simp only [hV] at hok hnot
        simp only [Option.some.injEq, Prod.mk.injEq] at hnext
        obtain ⟨rfl, rfl, rfl⟩ := hnext
        constructor
        · rintro _ ⟨⟩
          exact hnot u rfl
        · exact hok.move hpos rfl

/-- The threads that become ready were in no queue of the kernel. -/
theorem Ok.wakes (h : Ok v x) (m : Move Choice) :
  (x.wakes code m ++ x.threads).Nodup
  := by
  cases m with
  | run i =>
      simp only [Exec.wakes]
      split
      · exact h.exec.nodup
      · rename_i t hrun
        split
        · rename_i data u p hnext
          exact List.nodup_cons.mpr ⟨(h.run hrun hnext).1 u rfl, h.exec.nodup⟩
        · exact h.exec.nodup
  | interrupt i =>
      simp only [Exec.wakes]
      split
      · rename_i data us hinterrupt
        cases i with
        | handlers es => exact (h.data.handlers hinterrupt h.exec.nodup).2
        | P | V | setLevel | call | sleep | wake => cases hinterrupt
      · exact h.exec.nodup
  | yield | preempt | proceed => exact h.exec.nodup

/-- Every move keeps the invariant. -/
theorem Ok.step (h : Ok v x) (hstep : x.step code m = some x') :
  Ok v x'
  := by
  have hexec := h.exec.step code_respects (h.wakes m) hstep
  have hsettled := Exec.settled_step code_settles h.settled hstep
  cases Exec.step_cases hstep with
  | run hrun hpc hnext happly =>
      obtain rfl := Exec.threads_apply happly
      exact ⟨hexec, hsettled, (h.run hrun hnext).2⟩
  | kernel => exact ⟨hexec, hsettled, h.data⟩
  | @interrupt i data us henabled hinterrupt =>
      cases i with
      | handlers es =>
          exact ⟨hexec, hsettled, (h.data.handlers hinterrupt h.exec.nodup).1⟩
      | P | V | setLevel | call | sleep | wake => cases hinterrupt

theorem ok_initial {ts others : List ℕ} (hv : 0 ≤ v) (hnodup : (t :: ts ++ others).Nodup) :
  Ok v (Exec.initial t ts (Data.initial v others) (.outside false))
  := by
  obtain ⟨hthreads, hothers, hdisjoint⟩ := List.nodup_append'.mp hnodup
  refine ⟨Exec.ok_initial hthreads _ (by simp), ?_, ?_⟩
  · intro u hu
    cases hu
  · refine ⟨?_, hv, ?_, ?_, ?_, List.nodup_nil, List.nodup_nil, hothers, ?_⟩
    · simp [Exec.initial, Data.initial]
    · simp [Exec.initial, Data.initial, Pos.isAsleep]
    · simp [Exec.initial, Data.initial, Pos.isAsleep]
    · intro u hu
      exact ⟨rfl, fun hmem => hdisjoint hmem hu⟩
    · intro hne
      contradiction

/-- A thread that has been woken in `P` is in no queue of the kernel other than the ready list. -/
theorem Ok.ready (h : Ok v x) {u : ℕ} (hu : u ∈ x.data.woken) :
  u ∈ x.kernel.readyList ∨ x.kernel.currentThread = some u
  := by
  obtain ⟨hasleep, hmem⟩ := (h.data.mem_woken u).mp hu
  obtain ⟨hacquire, hwait⟩ := h.settled u hasleep
  obtain ⟨p, hp⟩ := (h.exec.kernel.places.mem_iff u).mp hmem
  cases p with
  | running =>
      right
      simpa [Kernel.queue] using hp
  | ready => exact .inl hp
  | lock L => exact absurd (h.exec.kernel.lockQueue u L hp) (hacquire L)
  | condition c =>
      obtain ⟨L, hpc⟩ := h.exec.kernel.conditionQueue u c hp
      exact absurd hpc (hwait c L)

/-- The threads 0 and 1 sleep in `P`. A handler wakes the first of them, and the thread 2, which takes
its value away before it runs. The other one stays in the queue. -/
def overtaken : List (Move Choice) :=
  [.run .P, .run .P, .run .P, .run .P, .interrupt (.handlers [.wake 2, .V]), .run .P, .run .P]

end Semaphore

end Nachos.Monitor
