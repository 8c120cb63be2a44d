import Mathlib.Logic.Function.Iterate
import Nachos.Monitor.Code

/-!
# Condition variables by themselves

What the operations of `Condition` do to the condition variable they are called for, apart from the
threads and the locks: `Wait` puts the thread into the queue or does not accept the lock, and `Signal`
and `Broadcast` take threads out of the queue.
-/

namespace Nachos.Monitor

namespace Condition

/-- A new condition variable. -/
def new : Condition := ⟨none, []⟩

/-- `Wait` with the lock `L` is accepted. -/
def Accepts (v : Condition) (L : ℕ) : Prop := v.waitingLock = none ∨ v.waitingLock = some L

instance (v : Condition) (L : ℕ) : Decidable (v.Accepts L) := inferInstanceAs (Decidable (_ ∨ _))

def wait (v : Condition) (t L : ℕ) : Condition :=
  if v.Accepts L then ⟨some L, v.waitQueue ++ [t]⟩ else v

def signal (v : Condition) (L : ℕ) : Condition :=
  match v.waitQueue with
  | [] => v
  | _ :: waitQueue =>
      if v.waitingLock = some L then ⟨if waitQueue = [] then none else some L, waitQueue⟩ else v

/-- The loop of `Broadcast`, which ends when the queue is empty. -/
def broadcastLoop (L : ℕ) : ℕ → Condition → Condition
  | 0, v => v
  | n + 1, v => broadcastLoop L n (v.signal L)

/-- `Broadcast`, when nothing else happens during its loop. -/
def broadcast (v : Condition) (L : ℕ) : Condition :=
  if v.waitingLock = some L then broadcastLoop L v.waitQueue.length v else v

variable {v : Condition} {L : ℕ}

theorem signal_nil (h : v.waitQueue = []) :
  v.signal L = v
  := by
  rw [signal, h]

theorem signal_of_ne (h : v.waitingLock ≠ some L) :
  v.signal L = v
  := by
  rw [signal]
  split
  · rfl
  · rw [if_neg h]

/-- The queue after `Signal` with the lock the threads wait with. -/
theorem waitQueue_signal (h : v.waitQueue ≠ [] → v.waitingLock = some L) :
  (v.signal L).waitQueue = v.waitQueue.drop 1 ∧
    ((v.signal L).waitQueue ≠ [] → (v.signal L).waitingLock = some L) ∧
    ((v.signal L).waitQueue = [] → v.waitQueue ≠ [] → (v.signal L).waitingLock = none)
  := by
  cases hqueue : v.waitQueue with
  | nil =>
      rw [signal_nil hqueue, hqueue]
      simp
  | cons t waitQueue =>
      have hlock : v.waitingLock = some L := h (by simp [hqueue])
      simp only [signal, hqueue, hlock, if_true]
      cases waitQueue with
      | nil => simp
      | cons u us => simp

/-- The loop of `Broadcast` empties the queue. -/
theorem broadcastLoop_spec :
  ∀ {n : ℕ} {v : Condition}, v.waitQueue.length ≤ n → (v.waitQueue ≠ [] → v.waitingLock = some L) →
    (broadcastLoop L n v).waitQueue = [] ∧
      (v.waitQueue ≠ [] → (broadcastLoop L n v).waitingLock = none) ∧
      (v.waitQueue = [] → broadcastLoop L n v = v)
  := by
  intro n
  induction n with
  | zero =>
      intro v hle _
      have hnil : v.waitQueue = [] := List.length_eq_zero_iff.mp (Nat.le_zero.mp hle)
      exact ⟨hnil, fun hne => absurd hnil hne, fun _ => rfl⟩
  | succ n ih =>
      intro v hle hlock
      obtain ⟨hqueue, hlock', hnone⟩ := waitQueue_signal hlock
      have hlength : (v.signal L).waitQueue.length ≤ n := by
        rw [hqueue, List.length_drop]
        omega
      obtain ⟨hempty, hcleared, hsame⟩ := ih hlength hlock'
      refine ⟨hempty, ?_, ?_⟩
      · intro hne
        rw [broadcastLoop]
        by_cases hnil : (v.signal L).waitQueue = []
        · rw [hsame hnil]
          exact hnone hnil hne
        · exact hcleared hnil
      · intro hnil
        rw [broadcastLoop, signal_nil hnil]
        rw [signal_nil hnil] at hsame
        exact hsame hnil

end Condition

/-! ### The operations of the kernel -/

namespace Kernel

variable {k k' : Kernel} {t u c L : ℕ} {a : Action}

/-- The condition variable that an action uses. -/
def Action.condition : Action → Option ℕ
  | .wait d _ | .signal d _ | .broadcast d _ => some d
  | _ => none

/-- A call that does not use a condition variable does not change it. -/
theorem conditions_call (ha : a.condition ≠ some c) (hcall : k.call t a = some k') :
  k'.conditions c = k.conditions c
  := by
  cases a with
  | acquire M =>
      obtain rfl := Option.some.inj hcall
      exact congrFun (k.acquire_frame t M).1 c
  | release M =>
      obtain rfl := Option.some.inj hcall
      exact congrFun (release_frame t M _).1 c
  | wait d M =>
      have hd : c ≠ d := fun heq => ha (congrArg some heq.symm)
      obtain rfl := Option.some.inj hcall
      rw [Kernel.wait.eq_def]
      split
      · rfl
      · split
        · rw [conditions_sleep, (release_frame t _ _).1]
          exact Function.update_of_ne hd _ _
        · rfl
  | signal d M =>
      obtain rfl := Option.some.inj hcall
      exact (k.signal_frame d M).2.2 c (fun heq => ha (congrArg some heq.symm))
  | broadcast d M =>
      obtain rfl := Option.some.inj hcall
      rw [Kernel.broadcast.eq_def]
      split
      · rfl
      · split <;> rfl
  | yield =>
      obtain rfl := Option.some.inj hcall
      exact congrFun (yield_frame t _).2.1 c
  | preempt => contradiction
  | proceed => contradiction

/-- A thread comes into the loop of `Broadcast` only by calling it. -/
theorem inBroadcast_call {M : ℕ} (ha : a.condition ≠ some c) (hcall : k.call t a = some k')
    (hu : k'.pc u = .inBroadcast c M) :
  k.pc u = .inBroadcast c M
  := by
  by_cases hut : u = t
  · subst hut
    obtain ⟨lock, h⟩ | ⟨N, -, h⟩ | ⟨d, N, -, h⟩ | ⟨d, N, rfl, h⟩ := pc_call_self hcall
    · cases h.symm.trans hu
    · cases h.symm.trans hu
    · cases h.symm.trans hu
    · obtain ⟨rfl, -⟩ := Pc.inBroadcast.inj (h.symm.trans hu)
      exact absurd rfl ha
  · exact (pc_call_of_ne hcall hut).symm.trans hu

/-- Nor by coming to any other point. -/
theorem setPc_inBroadcast {pc : Pc} {M : ℕ} (hpc : ∀ M, pc ≠ .inBroadcast c M)
    (hu : (k.setPc t pc).pc u = .inBroadcast c M) :
  k.pc u = .inBroadcast c M
  := by
  by_cases hut : u = t
  · subst hut
    have hself : (k.setPc u pc).pc u = pc := Function.update_self _ _ _
    exact absurd (hself.symm.trans hu) (hpc M)
  · have hother : (k.setPc t pc).pc u = k.pc u := Function.update_of_ne hut _ _
    exact hother.symm.trans hu

/-- Going on in an operation does not change a condition variable if no thread is in the loop of
`Broadcast`. -/
theorem conditions_step (hnone : ∀ t M, k.pc t ≠ .inBroadcast c M) (ha : a.condition = none)
    (hstep : k.step a = some k') :
  k'.conditions c = k.conditions c ∧ ∀ t M, k'.pc t ≠ .inBroadcast c M
  := by
  obtain ⟨u, hrun, hsteps⟩ := step_cases hstep
  have hset : ∀ {k : Kernel} {pc : Pc}, (∀ t M, k.pc t ≠ .inBroadcast c M) →
      (∀ M, pc ≠ .inBroadcast c M) → ∀ t M, (k.setPc u pc).pc t ≠ .inBroadcast c M :=
    fun hk hpc t M ht => hk t M (setPc_inBroadcast hpc ht)
  cases hsteps with
  | call hpc hcall =>
      have ha' : a.condition ≠ some c := by simp [ha]
      exact ⟨conditions_call ha' hcall, fun t M ht => hnone t M (inBroadcast_call ha' hcall ht)⟩
  | preempt hpc =>
      obtain ⟨-, hconditions, hpc', -⟩ := k.yield_frame u
      refine ⟨congrFun hconditions c, ?_⟩
      rw [hpc']
      exact hnone
  | @leave lock hpc =>
      cases lock with
      | none | some => exact ⟨rfl, hset hnone (by simp)⟩
  | acquired hpc => exact ⟨rfl, hset hnone (by simp)⟩
  | @woken d M hpc =>
      refine ⟨congrFun (k.acquire_frame u M).1 c, ?_⟩
      intro t N ht
      have hcall : k.call u (.acquire M) = some (k.acquire u M) := rfl
      exact hnone t N (inBroadcast_call (by simp [Action.condition]) hcall ht)
  | @loop d M hpc =>
      have hd : c ≠ d := by
        rintro rfl
        exact hnone u M hpc
      rw [broadcastLoop]
      split
      · exact ⟨rfl, hset hnone (by simp)⟩
      · obtain ⟨-, hpc', hconditions⟩ := k.signal_frame d (some M)
        refine ⟨hconditions c hd, ?_⟩
        rw [hpc']
        exact hnone

theorem conditions_wait (t c L : ℕ) (k : Kernel) :
  (k.wait t c (some L)).conditions = Function.update k.conditions c ((k.conditions c).wait t L)
  := by
  by_cases haccepts : (k.conditions c).Accepts L
  · rw [Condition.wait, if_pos haccepts]
    rw [Condition.Accepts] at haccepts
    rw [wait, if_pos haccepts, conditions_sleep, (release_frame t L _).1]
    rfl
  · rw [Condition.wait, if_neg haccepts, Function.update_eq_self]
    rw [Condition.Accepts] at haccepts
    rw [wait, if_neg haccepts]
    rfl

theorem conditions_signal (c L : ℕ) (k : Kernel) :
  (k.signal c (some L)).conditions = Function.update k.conditions c ((k.conditions c).signal L)
  := by
  rw [signal.eq_def, Condition.signal]
  cases hqueue : (k.conditions c).waitQueue with
  | nil => exact (Function.update_eq_self c k.conditions).symm
  | cons u us =>
      by_cases hlock : (k.conditions c).waitingLock = some L
      · simp only [hlock, if_true]
        rfl
      · simp only [hlock, if_false]
        exact (Function.update_eq_self c k.conditions).symm

theorem conditions_broadcast (t c L : ℕ) (k : Kernel) :
  (k.broadcast t c (some L)).conditions = k.conditions
  := by
  rw [broadcast]
  split <;> rfl

theorem conditions_broadcastLoop (t c L : ℕ) (k : Kernel) :
  (k.broadcastLoop t c L).conditions =
    Function.update k.conditions c ((k.conditions c).signal L)
  := by
  rw [broadcastLoop]
  split
  · rename_i hqueue
    rw [Condition.signal_nil hqueue, Function.update_eq_self]
    rfl
  · exact conditions_signal c L k

/-- The iterations of the loop of `Broadcast`, when nothing else happens. -/
theorem conditions_iterate (t c L n : ℕ) (k : Kernel) :
  ((Kernel.broadcastLoop t c L)^[n] k).conditions =
    Function.update k.conditions c (Condition.broadcastLoop L n (k.conditions c))
  := by
  induction n generalizing k with
  | zero => exact (Function.update_eq_self c k.conditions).symm
  | succ n ih =>
      rw [Function.iterate_succ_apply, ih, conditions_broadcastLoop, Function.update_self,
        Function.update_idem]
      rfl

end Kernel

end Nachos.Monitor
