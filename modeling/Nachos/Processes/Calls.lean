import Nachos.Library.Locks
import Nachos.Monitor.Mesa
import Nachos.Processes.Basic

/-!
# Exec that fails

`Exec_Syscall`, `Fork_Syscall`, `Fork_Thread` and `Exit_Syscall` (`userprog/exception.cc`) and
`StartProcess` (`userprog/progtest.cc`), with the locks that they acquire and release. What they do to
memory, and the locks that are used for that, are left out. So is the `Exit` of the last thread, which
halts the machine.

`Exec_Syscall` acquires `processLock` and returns from inside when it fails. It leaves the kernel as it
was only if the lock was held before, and if some call fails then another thread may wait for the lock
for ever (`exec_harmless_iff`).
-/

namespace Nachos.Calls

open Locks Memory

/-! ### Data -/

def processLock : ℕ := 0

def mailBoxLock : ℕ := 1

def kernelLockLock : ℕ := 2

def kernelCVLock : ℕ := 3

/-- The locks of the address space `S`. -/
def pageLock (S : ℕ) : ℕ := 4 + 2 * S

def queueLock (S : ℕ) : ℕ := 5 + 2 * S

structure Space where
  numPages : ℕ
  numPageQueue : List ℕ

structure Data where
  spaces : ℕ → Option Space
  processTable : List Processes.Process
  numMailBox : ℕ
  mailBox : ℕ → ℕ
  /-- The address space of a thread. -/
  space : ℕ → Option ℕ
  /-- The local variable `stack`. -/
  stack : ℕ → ℕ
  /-- The threads that have been forked. -/
  forked : List ℕ

namespace Data

/-- The constructor of `AddrSpace`, up to `queueLock->Acquire()`. -/
def newSpace (S size : ℕ) (_ : ℕ) (d : Data) : Data :=
  let numPages := Processes.divRoundUp size PageSize +
    Processes.divRoundUp Processes.UserStackSize PageSize
  { d with spaces := Function.update d.spaces S (some ⟨numPages, []⟩) }

/-- `numPageQueue->push(n)`, where `numPages` has been raised by `more`. -/
def pushPages (S more : ℕ) (_ : ℕ) (d : Data) : Data :=
  match d.spaces S with
  | some ⟨numPages, queue⟩ =>
      { d with
        spaces := Function.update d.spaces S (some ⟨numPages + more, queue ++ [numPages + more]⟩) }
  | none => d

/-- `numPageQueue->front()` and `numPageQueue->pop()`. -/
def popPages (S : ℕ) (t : ℕ) (d : Data) : Data :=
  match d.spaces S with
  | some ⟨numPages, n :: queue⟩ =>
      { d with
        spaces := Function.update d.spaces S (some ⟨numPages, queue⟩)
        stack := Function.update d.stack t (Processes.stackOf n) }
  | _ => d

/-- The process of the address space `S` is changed. -/
def modify (S : ℕ) (f : Processes.Process → Processes.Process) (d : Data) : Data :=
  match d.processTable.findIdx? (fun p => p.space == S) with
  | some i => { d with processTable := d.processTable.modify i f }
  | none => d

def pushProcess (p : Processes.Process) (d : Data) : Data :=
  { d with processTable := d.processTable ++ [p] }

/-- The stack of the thread `u` is recorded. -/
def pushStack (S u : ℕ) (t : ℕ) (d : Data) : Data :=
  d.modify S (fun p => { p with threadStacks := p.threadStacks ++ [(u, d.stack t)] })

def newThread (u mailBox : ℕ) (d : Data) : Data :=
  { d with
    mailBox := Function.update d.mailBox u mailBox
    space := Function.update d.space u none }

def setSpace (u S : ℕ) (_ : ℕ) (d : Data) : Data :=
  { d with space := Function.update d.space u (some S) }

def fork (u : ℕ) (_ : ℕ) (d : Data) : Data := { d with forked := d.forked ++ [u] }

end Data

/-! ### Calls -/

/-- How a call of `Exec_Syscall` goes. -/
inductive Outcome where
  /-- There is no memory for the name. -/
  | noMemory
  /-- `copyin` fails. -/
  | unreadable
  /-- The file is not opened. -/
  | notOpened
  /-- The address space `S` is created for an executable with `size` bytes, and the thread `u`. -/
  | opened (S size u : ℕ)

/-- The call returns -1. -/
def Outcome.fails : Outcome → Bool
  | .opened _ _ _ => false
  | _ => true

/-- The address space `S` is that of the thread that makes the call. -/
inductive Call where
  | startProcess (S size : ℕ)
  | exec (o : Outcome)
  | fork (S u : ℕ)
  | forkThread (S : ℕ)
  /-- The `Exit` of a thread that is not the last of its process. -/
  | exitThread (S : ℕ)
  /-- The `Exit` of the last thread of a process. -/
  | exitProcess (S : ℕ)

/-- A statement that does not change these data. -/
def other : Statement Data := .compute (fun _ d => d)

def getNumPages (S : ℕ) : List (Statement Data) :=
  [.acquire (queueLock S), .compute (Data.popPages S), .release (queueLock S)]

def newAddrSpace (S size : ℕ) : List (Statement Data) :=
  [.compute (Data.newSpace S size), .acquire (queueLock S), .compute (Data.pushPages S 0),
    .release (queueLock S), other]

def allocateStack (S : ℕ) : List (Statement Data) :=
  [.acquire (pageLock S), .acquire (queueLock S), .compute (Data.pushPages S 8),
    .release (queueLock S), other, .release (pageLock S)]

def exec : Outcome → List (Statement Data)
  | .noMemory =>
      -- new char[size+1]
      [.acquire processLock, other]
  | .unreadable =>
      -- copyin
      [.acquire processLock, other, other]
  | .notOpened =>
      -- fileSystem->Open
      [.acquire processLock, other, other, other]
  | .opened S size u =>
      [.acquire processLock, other, other, other] ++ newAddrSpace S size ++
      [.compute (fun _ d => d.pushProcess ⟨S, 1, []⟩), .release processLock,
        .acquire mailBoxLock, .compute (fun _ d => d.newThread u d.numMailBox),
        .compute (fun _ d => { d with numMailBox := d.numMailBox + 1 }), .release mailBoxLock,
        .compute (Data.setSpace u S)] ++ getNumPages S ++
      [.acquire processLock, .compute (Data.pushStack S u), .release processLock,
        .compute (Data.fork u)]

def forkSyscall (S u : ℕ) : List (Statement Data) :=
  [.acquire processLock,
    .compute (fun _ d => d.modify S (fun p => { p with numThreads := p.numThreads + 1 })), other,
    .compute (fun _ d => d.newThread u 0)] ++ allocateStack S ++
  [.compute (Data.setSpace u S), .release processLock, .compute (Data.fork u)]

def forkThread (S : ℕ) : List (Statement Data) :=
  getNumPages S ++ [.acquire processLock, .compute (fun t d => d.pushStack S t t),
    .release processLock]

def startProcess (S size : ℕ) : List (Statement Data) :=
  newAddrSpace S size ++ [.compute (fun t d => d.setSpace t S t)] ++ getNumPages S ++
  [.acquire processLock, .compute (fun t d => d.pushProcess ⟨S, 1, [(t, d.stack t)]⟩),
    .release processLock]

def exitThread (S : ℕ) : List (Statement Data) :=
  [.acquire processLock, other,
    .compute (fun _ d => d.modify S (fun p => { p with numThreads := p.numThreads - 1 })),
    -- clearStack
    other,
    .compute (fun t d => d.modify S (fun p =>
      { p with threadStacks := p.threadStacks.eraseP (fun e => e.1 == t) })),
    .release processLock]

def exitProcess (S : ℕ) : List (Statement Data) :=
  [.acquire processLock, other,
    -- clearMem
    other,
    .acquire kernelLockLock, other, .release kernelLockLock,
    .acquire kernelCVLock, other, .release kernelCVLock,
    .compute (fun _ d => { d with
      spaces := Function.update d.spaces S none
      processTable := d.processTable.eraseP (fun p => p.space == S) }),
    .release processLock]

def body : Call → List (Statement Data)
  | .startProcess S size => startProcess S size
  | .exec o => exec o
  | .fork S u => forkSyscall S u
  | .forkThread S => forkThread S
  | .exitThread S => exitThread S
  | .exitProcess S => exitProcess S

/-- No process, and one mail box in use. -/
def initialData : Data := ⟨fun _ => none, [], 1, fun _ => 0, fun _ => none, fun _ => 0, []⟩

/-! ### The locks of the kernel -/

section

variable {s : State Call Data} {k : Monitor.Kernel} {ts : List ℕ}

/-- The locks have the owners and the queues that they have in the kernel. -/
def Agrees (s : State Call Data) (k : Monitor.Kernel) : Prop :=
  ∀ L, s.locks L = ⟨(k.locks L).owner, (k.locks L).waitQueue⟩

theorem Agrees.acquire (h : Agrees s k) (hok : k.Ok ts) (t L : ℕ) :
  Agrees (s.acquire t L) (k.acquire t L)
  := by
  rw [State.acquire, Monitor.Kernel.acquire, h L]
  by_cases howns : (k.locks L).owner = some t
  · rw [if_pos howns, if_pos howns]
    exact h
  · rw [if_neg howns, if_neg howns]
    intro M
    by_cases hfree : (k.locks L).owner = none
    · rw [if_pos hfree, if_pos ((hok.free_iff L).mpr hfree)]
      by_cases hM : M = L
      · subst hM
        simp [Monitor.Kernel.setLock, Monitor.Kernel.setPc]
      · simpa [Monitor.Kernel.setLock, Monitor.Kernel.setPc, Function.update_of_ne hM] using h M
    · rw [if_neg hfree, if_neg (fun hstate => hfree ((hok.free_iff L).mp hstate)),
        Monitor.Kernel.locks_sleep]
      by_cases hM : M = L
      · subst hM
        simp [Monitor.Kernel.setLock, Monitor.Kernel.setPc, Monitor.Kernel.record]
      · simpa [Monitor.Kernel.setLock, Monitor.Kernel.setPc, Monitor.Kernel.record,
          Function.update_of_ne hM] using h M

theorem Agrees.release (h : Agrees s k) (t L : ℕ) :
  Agrees (s.release t L) (k.release t L)
  := by
  rw [State.release, Monitor.Kernel.release, h L]
  by_cases howns : (k.locks L).owner = some t
  · rw [if_pos howns, if_pos howns]
    intro M
    cases hqueue : (k.locks L).waitQueue with
    | nil =>
        by_cases hM : M = L
        · subst hM
          simp [Monitor.Kernel.setLock, hqueue]
        · simpa [Monitor.Kernel.setLock, Function.update_of_ne hM] using h M
    | cons newOwner waitQueue =>
        by_cases hM : M = L
        · subst hM
          simp [Monitor.Kernel.setLock, Monitor.Kernel.record, Monitor.Kernel.readyToRun]
        · simpa [Monitor.Kernel.setLock, Monitor.Kernel.record, Monitor.Kernel.readyToRun,
            Function.update_of_ne hM] using h M
  · rw [if_neg howns, if_neg howns]
    exact h

end

/-! ### What is claimed -/

variable {r : Run body initialData} {n t : ℕ} {o : Outcome} {held : List ℕ}

def rank (L : ℕ) : ℕ := if L = processLock then 0 else if L < 4 ∨ L % 2 = 0 then 1 else 2

/-- The thread `t` has returned from its last call, which is `c`. -/
structure Returned (c : Call) (t : ℕ) (s : State Call Data) : Prop where
  call : s.call t = some c
  rest : s.rest t = []
  waits : s.waits t = none

/-- Whether a thread owns the lock `L`. -/
def Owns (t L : ℕ) (s : State Call Data) : Prop := (s.locks L).owner = some t

/-- What is claimed of the calls in a run. -/
structure Harmless (r : Run body initialData) : Prop where
  /-- A thread that returns from `Exec` owns `processLock` only if it did before the call. -/
  returned : ∀ n t o, Returned (.exec o) t (r.state n) → Owns t processLock (r.state n) →
    processLock ∈ (r.state n).before t
  /-- An `Exec` that fails does not change the data. -/
  data : ∀ n t o, o.fails = true → (r.state n).call t = some (.exec o) → r.action n = .go t →
    (r.state (n + 1)).data = (r.state n).data
  /-- Nor which locks the thread owns. -/
  locks : ∀ n t o, o.fails = true → Returned (.exec o) t (r.state n) →
    ∀ L, Owns t L (r.state n) ↔ L ∈ (r.state n).before t
  /-- A thread that waits for `processLock` obtains it. -/
  obtained : ∀ n t, (r.state n).waits t = some processLock →
    ∃ m ≥ n, Owns t processLock (r.state m)

/-! ### Runs in which no call fails -/

theorem rank_le (L : ℕ) :
  rank L ≤ 2
  := by
  rw [rank]
  split
  · omega
  · split <;> omega

theorem rank_pageLock (S : ℕ) :
  rank (pageLock S) = 1
  := by
  simp [rank, pageLock, processLock]

theorem rank_queueLock (S : ℕ) :
  rank (queueLock S) = 2
  := by
  have hodd : (5 + 2 * S) % 2 = 1 := by omega
  have hlt : ¬ 5 + 2 * S < 4 := by omega
  simp [rank, queueLock, processLock, hodd, hlt]

/-- Locks of different ranks are different. -/
theorem locks_ne (S : ℕ) :
  processLock ≠ pageLock S ∧ processLock ≠ queueLock S ∧ pageLock S ≠ queueLock S
  := by
  simp only [processLock, pageLock, queueLock]
  omega

/-- Every call takes locks in order, unless it is an `Exec` that fails. -/
theorem ordered_body {c : Call} (hc : ∀ o, c = .exec o → o.fails = false) :
  Ordered rank [] (body c)
  := by
  have hprocess : rank processLock = 0 := rfl
  have hmailBox : rank mailBoxLock = 1 := rfl
  have hkernelLock : rank kernelLockLock = 1 := rfl
  have hkernelCV : rank kernelCVLock = 1 := rfl
  cases c with
  | startProcess S size =>
      simp [body, startProcess, newAddrSpace, getNumPages, Ordered, other]
  | exec o =>
      cases o with
      | opened S size u =>
          obtain ⟨-, hqueue, -⟩ := locks_ne S
          simp [body, exec, newAddrSpace, getNumPages, Ordered, other, hprocess, rank_queueLock,
            hqueue]
      | noMemory | unreadable | notOpened => cases hc _ rfl
  | fork S u =>
      obtain ⟨hpage, hqueue, hpq⟩ := locks_ne S
      simp [body, forkSyscall, allocateStack, Ordered, other, hprocess, rank_queueLock,
        rank_pageLock, hpage, hqueue, hpq]
  | forkThread S => simp [body, forkThread, getNumPages, Ordered]
  | exitThread S => simp [body, exitThread, Ordered, other]
  | exitProcess S =>
      have hne : processLock ≠ kernelLockLock ∧ processLock ≠ kernelCVLock := by decide
      simp [body, exitProcess, Ordered, other, hprocess, hkernelLock, hkernelCV, hne]

/-- The locks that are held in an `Exec` that fails. -/
theorem mem_finish {ps qs : List (Statement Data)} (ho : o.fails = true)
    (hps : body (.exec o) = ps ++ qs) {L : ℕ} (hL : L ∈ finish held ps) :
  L ∈ held ∨ L = processLock
  := by
  have hall : ∀ p ∈ body (.exec o), p = .acquire processLock ∨ p = other := by
    cases o with
    | opened S size u => cases ho
    | noMemory | unreadable | notOpened => simp [body, exec]
  have hps' : ∀ p ∈ ps, p = .acquire processLock ∨ p = other :=
    fun p hp => hall p (hps ▸ List.mem_append_left qs hp)
  clear hps hall
  induction ps generalizing held with
  | nil => exact .inl hL
  | cons p ps ih =>
      have hrest := ih hL (fun q hq => hps' q (List.mem_cons_of_mem p hq))
      obtain rfl | rfl := hps' p List.mem_cons_self
      · obtain hL | hL := hrest
        · exact (List.mem_cons.mp hL).symm
        · exact .inr hL
      · exact hrest

/-- An `Exec` that fails holds the lock when it returns. -/
theorem mem_finish_fails (ho : o.fails = true) (held : List ℕ) :
  processLock ∈ finish held (body (.exec o))
  := by
  cases o with
  | opened S size u => cases ho
  | noMemory | unreadable | notOpened => simp [body, exec, finish, other, Statement.after]

/-- An `Exec` that succeeds does not. -/
theorem not_mem_finish (ho : o.fails = false) (held : List ℕ) :
  processLock ∉ finish held (body (.exec o))
  := by
  cases o with
  | opened S size u => simp [body, exec, finish, getNumPages, newAddrSpace, Statement.after]
  | noMemory | unreadable | notOpened => cases ho

/-- If no `Exec` fails then the calls do what is claimed. -/
theorem harmless_of_succeeds (hfair : r.Fair)
    (hsucceeds : ∀ n t o, r.action n = .call t (.exec o) → o.fails = false) :
  Harmless r
  := by
  have hno : ∀ n t o, (r.state n).call t = some (.exec o) → o.fails = false := by
    intro n t o hcall
    obtain ⟨k, -, hmade⟩ := r.exists_call n hcall
    exact hsucceeds k t o hmade
  constructor
  · intro n t o hreturned howns
    have hmem := ((r.ok n).mem_held t processLock).mpr (.inl howns)
    rw [Run.held_of_returned hreturned.call hreturned.rest] at hmem
    exact absurd hmem (not_mem_finish (hno n t o hreturned.call) _)
  · intro n t o hfails hcall
    rw [hno n t o hcall] at hfails
    cases hfails
  · intro n t o hfails hreturned
    rw [hno n t o hreturned.call] at hfails
    cases hfails
  · intro n t hwaits
    have hcalls : ∀ n t c, r.action n = .call t c → Ordered rank [] (body c) := by
      rintro n t c hc
      apply ordered_body
      rintro o rfl
      exact hsucceeds n t o hc
    obtain ⟨m, hm, -, howns⟩ := Run.obtains hfair rank_le hcalls hwaits
    exact ⟨m, hm, howns⟩

/-! ### Runs in which a call fails -/

/-- A thread that has made a call while it held no lock waits in it for `processLock` only, if the call
is an `Exec` that fails. -/
theorem waits_processLock (ho : o.fails = true) (hcall : (r.state n).call t = some (.exec o))
    (hbefore : (r.state n).before t = []) {L : ℕ} (hwaits : (r.state n).waits t = some L) :
  L = processLock
  := by
  obtain ⟨ps, hps, hheld⟩ := (r.follows n t).2 (.exec o) hcall
  have hmem := ((r.ok n).mem_held t L).mpr (.inr hwaits)
  rw [hheld, hbefore] at hmem
  exact (mem_finish ho hps hmem).resolve_left List.not_mem_nil

/-- The first `Exec` that fails is not harmless. -/
theorem Harmless.succeeds (h : Harmless r) (hfair : r.Fair) (n t : ℕ) (o : Outcome)
    (hcall : r.action n = .call t (.exec o)) :
  o.fails = false
  := by
  by_contra hfails
  obtain ⟨k, -, ⟨u, o', hmade, ho'⟩, hfirst⟩ := Run.exists_first (n := 0)
    (p := fun k => ∃ u o', r.action k = .call u (.exec o') ∧ o'.fails = true)
    ⟨n, Nat.zero_le n, t, o, hcall, Bool.eq_true_of_not_eq_false hfails⟩
  have horderly : (r.state k).Orderly rank := by
    apply r.orderly
    rintro j hj v c hc
    apply ordered_body
    rintro o'' rfl
    by_contra hfails''
    exact hfirst j (Nat.zero_le j) hj ⟨v, o'', hc, Bool.eq_true_of_not_eq_false hfails''⟩
  have hstep := r.step k
  rw [hmade] at hstep
  obtain ⟨v, c, hv, hwaits, hrest, hnext⟩ | ⟨v, p, ps, hv, -⟩ | ⟨hidle, -⟩ :=
    State.step_cases hstep
  · obtain ⟨rfl, rfl⟩ := Action.call.inj hv
    have hnone := horderly.ordered u
    rw [hrest] at hnone
    -- it holds nothing when it makes the call
    have hbefore : (r.state (k + 1)).before u = [] := by
      rw [hnext]
      simp only [State.start, Function.update_self]
      exact hnone
    have hcalled : (r.state (k + 1)).call u = some (.exec o') := by
      rw [hnext]
      exact Function.update_self _ _ _
    have hobtains : ∀ j L, (r.state j).call u = some (.exec o') → (r.state j).before u = [] →
        (r.state j).waits u = some L → ∃ m ≥ j, (r.state m).waits u = none := by
      intro j L hcallj hbeforej hwaitsj
      obtain rfl := waits_processLock ho' hcallj hbeforej hwaitsj
      by_contra hnever
      obtain ⟨m, hm, howns⟩ := h.obtained j u hwaitsj
      exact (r.ok m).notOwner u processLock (Run.still_waits hwaitsj hnever hm) howns
    obtain ⟨m, -, hrest', hwaits', hcall', hbefore'⟩ :=
      Run.returns hfair hobtains hcalled hbefore
    have hmem : processLock ∈ (r.state m).held u := by
      rw [Run.held_of_returned hcall' hrest']
      exact mem_finish_fails ho' _
    obtain howns | hwaiting := ((r.ok m).mem_held u processLock).mp hmem
    · have hback := h.returned m u o' ⟨hcall', hrest', hwaits'⟩ howns
      rw [hbefore'] at hback
      cases hback
    · cases hwaits'.symm.trans hwaiting
  · cases hv
  · cases hidle

/-- A thread calls `Exec`, and another waits for the lock until the process has been created. -/
def succeeding : List (Action Call) :=
  [.call 1 (.exec (.opened 7 256 3)), .go 1, .call 2 (.forkThread 8), .go 2, .go 2, .go 2, .go 2]
    ++ List.replicate 10 (.go 1) ++ [.go 2, .go 2] ++ List.replicate 12 (.go 1)

/-- A thread calls `Exec` for a file that does not exist, and another calls `Fork`. -/
def leaking : List (Action Call) :=
  [.call 1 (.exec .notOpened), .go 1, .go 1, .go 1, .go 1, .call 2 (.fork 8 3), .go 2]

end Nachos.Calls
