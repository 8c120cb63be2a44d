import Mathlib.Data.Int.Notation
import Nachos.Library.Coroutines
import Nachos.Monitor.Basic

/-!
# The interrupt level

The code that saves, changes and restores the interrupt level: the operations of semaphores, locks and
condition variables (`threads/synch.cc`), of threads and of the scheduler (`threads/thread.cc`,
`threads/scheduler.cc`), of interrupts (`machine/interrupt.cc`), and what is done when there is a page
fault (`userprog/exception.cc`, `userprog/addrspace.cc`). The level at which an operation returns is
that at which it has been called, and `Sleep` and `Run` are only called when interrupts are disabled
(`Levels.levels_kept`).

When an interrupt is due, what its handler and the rest of the kernel do, and what is in the page
tables and in the files, is chosen.
-/

namespace Nachos.Threads

namespace Levels

open Coroutines (Level)
open Nachos.Monitor (Lock Condition)

structure Semaphore where
  value : ℤ
  queue : List ℕ

structure Data where
  semaphores : ℕ → Semaphore
  locks : ℕ → Lock
  conditions : ℕ → Condition
  readyList : List ℕ
  yieldOnReturn : Bool

inductive Proc where
  | p (s : ℕ)
  | v (s : ℕ)
  | acquire (L : ℕ)
  | release (L : ℕ)
  | wait (c : ℕ) (conditionLock : Option ℕ)
  | signal (c : ℕ) (conditionLock : Option ℕ)
  | broadcast (c : ℕ) (conditionLock : Option ℕ)
  | yield
  | sleep
  | finish
  | fork (u : ℕ)
  | run (nextThread : ℕ)
  | oneTick
  | idle
  | checkIfDue
  | handler
  | handlePageFault
  | handleIPTMiss
  | handleMemoryFull
  | updateTLB
  | iptMiss
  | saveState
  /-- `ReadAt` and `WriteAt` of a file. -/
  | accessFile
  /-- `ReadSector` and `WriteSector` of the synchronous disk. -/
  | accessSector
  /-- A user instruction. -/
  | instruction
  | threadRoot
  | main
  /-- The rest of the kernel. -/
  | rest
deriving DecidableEq

/-- What is not determined by the data. -/
inductive Choice where
  | no
  | yes
  | call (f : Proc)
  | setLevel (now : Level)
deriving DecidableEq

/-- The operations that return at the level at which they have been called. -/
def Proc.isOperation : Proc → Bool
  | .p _ | .v _ | .acquire _ | .release _ | .wait .. | .signal .. | .broadcast .. | .yield
  | .handlePageFault => true
  | _ => false

/-! ### The data -/

namespace Data

def readyToRun (t : ℕ) (d : Data) : Data := { d with readyList := d.readyList ++ [t] }

def setSemaphore (s : ℕ) (v : Semaphore) (d : Data) : Data :=
  { d with semaphores := Function.update d.semaphores s v }

def setLock (L : ℕ) (l : Lock) (d : Data) : Data :=
  { d with locks := Function.update d.locks L l }

def setCondition (c : ℕ) (v : Condition) (d : Data) : Data :=
  { d with conditions := Function.update d.conditions c v }

/-- `V`. -/
def raise (s : ℕ) (d : Data) : Data :=
  match (d.semaphores s).queue with
  | [] => d.setSemaphore s { d.semaphores s with value := (d.semaphores s).value + 1 }
  | thread :: queue =>
      (d.readyToRun thread).setSemaphore s ⟨(d.semaphores s).value + 1, queue⟩

/-- `Release` of the owner. -/
def handOver (L : ℕ) (d : Data) : Data :=
  match (d.locks L).waitQueue with
  | newOwner :: waitQueue =>
      (d.setLock L { d.locks L with owner := some newOwner, waitQueue := waitQueue }).readyToRun newOwner
  | [] => d.setLock L { d.locks L with state := .free, owner := none }

/-- `Signal`, when there is a thread to wake. -/
def wakeOne (c L threadToWake : ℕ) (waitQueue : List ℕ) (d : Data) : Data :=
  (d.setCondition c ⟨if waitQueue = [] then none else some L, waitQueue⟩).readyToRun threadToWake

end Data

/-! ### The code -/

abbrev Code := Coroutines.Code Data Choice Proc

/-- One of two codes. -/
def choose (yes no : Code) : Code := .read (fun _ i _ => if i = .yes then yes else no)

/-- `while (f ()) ;` -/
def repeatCall (f : Proc) (c : Code) : Code :=
  .call f (.loop (fun d i _ => if i = .yes then some (d, f) else none) c)

def p (s : ℕ) : Code :=
  .disable
    (.loop (fun d _ t =>
        if (d.semaphores s).value = 0 then
          some (d.setSemaphore s
            { d.semaphores s with queue := (d.semaphores s).queue ++ [t] }, .sleep)
        else none)
      (.write (fun d _ _ =>
          d.setSemaphore s { d.semaphores s with value := (d.semaphores s).value - 1 })
        (.restore .ret)))

def v (s : ℕ) : Code := .disable (.write (fun d _ _ => d.raise s) (.restore .ret))

def acquire (L : ℕ) : Code :=
  .disable (.read (fun d _ t =>
    if (d.locks L).owner = some t then .restore .ret
    else if (d.locks L).state = .free then
      .write (fun d _ t => d.setLock L { d.locks L with state := .busy, owner := some t })
        (.restore .ret)
    else
      .write (fun d _ t =>
          d.setLock L { d.locks L with waitQueue := (d.locks L).waitQueue ++ [t] })
        (.call .sleep (.restore .ret))))

def release (L : ℕ) : Code :=
  .disable (.read (fun d _ t =>
    if (d.locks L).owner ≠ some t then .restore .ret
    else .write (fun d _ _ => d.handOver L) (.restore .ret)))

def wait (c : ℕ) (conditionLock : Option ℕ) : Code :=
  .disable
    (match conditionLock with
    | none => .restore .ret
    | some L => .read (fun d _ _ =>
        if (d.conditions c).waitingLock = none ∨ (d.conditions c).waitingLock = some L then
          .write (fun d _ t => d.setCondition c ⟨some L, (d.conditions c).waitQueue ++ [t]⟩)
            (.call (.release L) (.call .sleep (.call (.acquire L) (.restore .ret))))
        else .restore .ret))

def signal (c : ℕ) (conditionLock : Option ℕ) : Code :=
  .disable
    (match conditionLock with
    | none => .restore .ret
    | some L => .read (fun d _ _ =>
        match (d.conditions c).waitQueue with
        | [] => .restore .ret
        | threadToWake :: waitQueue =>
            if (d.conditions c).waitingLock = some L then
              .write (fun d _ _ => d.wakeOne c L threadToWake waitQueue) (.restore .ret)
            else .restore .ret))

def broadcast (c : ℕ) (conditionLock : Option ℕ) : Code :=
  .disable
    (match conditionLock with
    | none => .restore .ret
    | some L => .read (fun d _ _ =>
        if (d.conditions c).waitingLock = some L then
          .restore (.loop (fun d _ _ =>
            if (d.conditions c).waitQueue ≠ [] then some (d, .signal c (some L)) else none) .ret)
        else .restore .ret))

def yield : Code :=
  .disable (.read (fun d _ t =>
    match d.readyList with
    | [] => .restore .ret
    | nextThread :: readyList =>
        .write (fun d _ _ => { d with readyList := readyList ++ [t] })
          (.call (.run nextThread) (.restore .ret))))

def sleep : Code :=
  .expect .off
    (.loop (fun d _ _ => if d.readyList = [] then some (d, .idle) else none)
      (.read (fun d _ _ =>
        match d.readyList with
        | [] => .halt
        | nextThread :: readyList =>
            .write (fun d _ _ => { d with readyList := readyList })
              (.call (.run nextThread) .ret))))

/-- A thread that has finished does not go on. -/
def finish : Code := .setLevel .off (.call .sleep .halt)

def fork (u : ℕ) : Code := .disable (.write (fun d _ _ => d.readyToRun u) (.restore .ret))

/-- The thread may have an address space. -/
def run (nextThread : ℕ) : Code :=
  choose (.call .saveState (.switch nextThread .ret)) (.switch nextThread .ret)

def oneTick : Code :=
  .changeLevel .off (repeatCall .checkIfDue (.changeLevel .on (.read (fun d _ _ =>
    if d.yieldOnReturn then
      .write (fun d _ _ => { d with yieldOnReturn := false }) (.call .yield .ret)
    else .ret))))

/-- The machine halts when there is no interrupt. -/
def idle : Code :=
  .call .checkIfDue
    (choose
      (repeatCall .checkIfDue (.write (fun d _ _ => { d with yieldOnReturn := false }) .ret)) .halt)

def checkIfDue : Code := .expect .off (choose (.call .handler .ret) .ret)

/-- A handler calls operations, and may ask for a context switch. -/
def handler : Code :=
  .loop (fun d i _ =>
      match i with
      | .call f => if f.isOperation then some (d, f) else none
      | _ => none)
    (.write (fun d i _ => if i = .yes then { d with yieldOnReturn := true } else d) .ret)

def IPTLock : ℕ := 0

def TLBLock : ℕ := 1

def bitMapLock : ℕ := 2

def swapFileLock : ℕ := 3

/-- The lock of the synchronous disk. -/
def diskLock : ℕ := 4

/-- The semaphore of the synchronous disk. -/
def diskSemaphore : ℕ := 0

/-- The page may be in no frame. -/
def handlePageFault : Code :=
  .disable (.call (.acquire IPTLock)
    (choose
      (.call .handleIPTMiss (.call .updateTLB (.call (.release IPTLock) (.restore .ret))))
      (.call .updateTLB (.call (.release IPTLock) (.restore .ret)))))

/-- The memory may be full. -/
def handleIPTMiss : Code :=
  .call (.acquire bitMapLock)
    (choose
      (.call .handleMemoryFull (.call .iptMiss (.call (.release bitMapLock) .ret)))
      (.call .iptMiss (.call (.release bitMapLock) .ret)))

/-- The page may be dirty, and then the swap file may be full. -/
def handleMemoryFull : Code :=
  .call (.acquire TLBLock) (.call (.release TLBLock)
    (choose
      (.call (.acquire swapFileLock)
        (choose .halt (.call .accessFile (.call (.release swapFileLock) .ret))))
      .ret))

def updateTLB : Code := .call (.acquire TLBLock) (.call (.release TLBLock) .ret)

/-- The page may be in the executable or in the swap file. -/
def iptMiss : Code :=
  choose (.call .accessFile .ret)
    (choose
      (.call (.acquire swapFileLock) (.call .accessFile (.call (.release swapFileLock) .ret)))
      .ret)

def saveState : Code :=
  .disable (.call (.acquire TLBLock) (.call (.release TLBLock) (.restore .ret)))

def accessFile : Code :=
  .loop (fun d i _ => if i = .yes then some (d, .accessSector) else none) .ret

def accessSector : Code :=
  .call (.acquire diskLock) (.call (.p diskSemaphore) (.call (.release diskLock) .ret))

/-- The rest of the kernel calls the operations at any level. -/
def rest : Code :=
  .read (fun _ i _ =>
    match i with
    | .call (.fork u) => .call (.fork u) (.call .rest .ret)
    | .call .finish => .call .finish .ret
    | .call f => if f.isOperation then .call f (.call .rest .ret) else .ret
    | .setLevel now => .setLevel now (.call .rest .ret)
    | .yes => .call .instruction (.call .rest .ret)
    | .no => .ret)

def threadRoot : Code := .setLevel .on (.call .rest (.call .finish .ret))

def main : Code := .call .rest (.call .finish .ret)

def program : Coroutines.Program Data Choice Proc where
  code
    | .p s => p s
    | .v s => v s
    | .acquire L => acquire L
    | .release L => release L
    | .wait c L => wait c L
    | .signal c L => signal c L
    | .broadcast c L => broadcast c L
    | .yield => yield
    | .sleep => sleep
    | .finish => finish
    | .fork u => fork u
    | .run nextThread => run nextThread
    | .oneTick | .instruction => oneTick
    | .idle => idle
    | .checkIfDue => checkIfDue
    | .handler => handler
    | .handlePageFault => handlePageFault
    | .handleIPTMiss => handleIPTMiss
    | .handleMemoryFull => handleMemoryFull
    | .updateTLB => updateTLB
    | .iptMiss => iptMiss
    | .saveState => saveState
    | .accessFile => accessFile
    | .accessSector => accessSector
    | .threadRoot => threadRoot
    | .main => main
    | .rest => rest
  tick := .oneTick

abbrev State := Coroutines.State Data Choice Proc

/-- The thread `t` is running, and the other threads have not been started. -/
def initial (data : Data) (level : Level) (t : ℕ) : State where
  data := data
  level := level
  current := t
  calls u :=
    if u = t then [⟨.main, main, .off, level⟩] else [⟨.threadRoot, threadRoot, .off, .off⟩]
  history := []

/-- What is claimed of the interrupt level. -/
structure LevelsKept (s : State) : Prop where
  returned : ∀ f entry level, .returned f entry level ∈ s.history → f.isOperation = true →
    level = entry
  sleep : ∀ level, .entered .sleep level ∈ s.history → level = .off
  run : ∀ nextThread level, .entered (.run nextThread) level ∈ s.history → level = .off

/-! ### The discipline -/

/-- When interrupts must be disabled or enabled, and what returns at the level at which it has been
called. -/
def discipline : Coroutines.Discipline Proc where
  allowed
    | .sleep, level | .run _, level | .idle, level | .checkIfDue, level | .handler, level =>
        level = .off
    | .oneTick, level => level = .on
    | _, _ => True
  balanced
    | .finish | .threadRoot | .instruction | .main | .rest => False
    | _ => True

section

open Coroutines Coroutines.Code

variable {post : Level → Prop} {level saved : Level}

theorem keeps_choose {yes no : Code} (hyes : yes.Keeps discipline post level saved)
    (hno : no.Keeps discipline post level saved) :
  (choose yes no).Keeps discipline post level saved
  := by
  rw [choose, keeps_read]
  intro d i t
  split
  · exact hyes
  · exact hno

theorem keeps_repeatCall {f : Proc} {c : Code} (hallowed : discipline.allowed f level)
    (hbalanced : discipline.balanced f) (hc : c.Keeps discipline post level saved) :
  (repeatCall f c).Keeps discipline post level saved
  := by
  refine keeps_call hallowed hbalanced ⟨?_, hc⟩
  intro d i t d' g hbody
  simp only [Option.ite_none_right_eq_some, Option.some.injEq, Prod.mk.injEq] at hbody
  obtain ⟨-, -, rfl⟩ := hbody
  exact ⟨hallowed, hbalanced⟩

/-! ### Semaphores, locks and condition variables -/

theorem keeps_p (s : ℕ) :
  (p s).Keeps discipline (discipline.returns (.p s) level) level saved
  := by
  rw [p, keeps_disable, keeps_loop, keeps_write]
  refine ⟨?_, keeps_restore⟩
  intro d i t d' f hbody
  simp only [Option.ite_none_right_eq_some, Option.some.injEq, Prod.mk.injEq] at hbody
  obtain ⟨-, -, rfl⟩ := hbody
  exact ⟨rfl, trivial⟩

theorem keeps_acquire (L : ℕ) :
  (acquire L).Keeps discipline (discipline.returns (.acquire L) level) level saved
  := by
  simp only [acquire, keeps_disable, keeps_read]
  intro d i t
  split
  · exact keeps_restore
  · split
    · exact keeps_write.mpr keeps_restore
    · exact keeps_write.mpr (keeps_call rfl trivial keeps_restore)

theorem keeps_release (L : ℕ) :
  (release L).Keeps discipline (discipline.returns (.release L) level) level saved
  := by
  simp only [release, keeps_disable, keeps_read]
  intro d i t
  split
  · exact keeps_restore
  · exact keeps_write.mpr keeps_restore

theorem keeps_wait (c : ℕ) (conditionLock : Option ℕ) :
  (wait c conditionLock).Keeps discipline (discipline.returns (.wait c conditionLock) level) level
    saved
  := by
  cases conditionLock with
  | none => exact keeps_disable.mpr keeps_restore
  | some L =>
      simp only [wait, keeps_disable, keeps_read]
      intro d i t
      split
      · rw [keeps_write]
        apply keeps_call trivial trivial
        apply keeps_call rfl trivial
        apply keeps_call trivial trivial
        exact keeps_restore
      · exact keeps_restore

theorem keeps_signal (c : ℕ) (conditionLock : Option ℕ) :
  (signal c conditionLock).Keeps discipline (discipline.returns (.signal c conditionLock) level)
    level saved
  := by
  cases conditionLock with
  | none => exact keeps_disable.mpr keeps_restore
  | some L =>
      simp only [signal, keeps_disable, keeps_read]
      intro d i t
      split
      · exact keeps_restore
      · split
        · exact keeps_write.mpr keeps_restore
        · exact keeps_restore

/-- `Broadcast` restores the level before its loop. -/
theorem keeps_broadcast (c : ℕ) (conditionLock : Option ℕ) :
  (broadcast c conditionLock).Keeps discipline
    (discipline.returns (.broadcast c conditionLock) level) level saved
  := by
  cases conditionLock with
  | none => exact keeps_disable.mpr keeps_restore
  | some L =>
      simp only [broadcast, keeps_disable, keeps_read]
      intro d i t
      split
      · refine ⟨?_, fun _ => rfl⟩
        intro d i t d' f hbody
        simp only [Option.ite_none_right_eq_some, Option.some.injEq, Prod.mk.injEq] at hbody
        obtain ⟨-, -, rfl⟩ := hbody
        exact ⟨trivial, trivial⟩
      · exact keeps_restore

/-! ### Threads -/

theorem keeps_yield :
  yield.Keeps discipline (discipline.returns .yield level) level saved
  := by
  simp only [yield, keeps_disable, keeps_read]
  intro d i t
  split
  · exact keeps_restore
  · exact keeps_write.mpr (keeps_call rfl trivial keeps_restore)

theorem keeps_sleep :
  sleep.Keeps discipline (discipline.returns .sleep .off) .off saved
  := by
  refine ⟨rfl, ?_, ?_⟩
  · intro d i t d' f hbody
    simp only [Option.ite_none_right_eq_some, Option.some.injEq, Prod.mk.injEq] at hbody
    obtain ⟨-, -, rfl⟩ := hbody
    exact ⟨rfl, trivial⟩
  · rw [keeps_read]
    intro d i t
    split
    · trivial
    · exact keeps_write.mpr (keeps_call rfl trivial (fun _ => rfl))

theorem keeps_run (nextThread : ℕ) :
  (run nextThread).Keeps discipline (discipline.returns (.run nextThread) .off) .off saved
  := by
  apply keeps_choose
  · exact keeps_call trivial trivial ⟨rfl, fun _ => rfl⟩
  · exact ⟨rfl, fun _ => rfl⟩

/-! ### Interrupts -/

/-- `OneTick` leaves interrupts enabled. -/
theorem keeps_oneTick (hpost : post .on) :
  oneTick.Keeps discipline post level saved
  := by
  rw [oneTick, keeps_changeLevel]
  refine keeps_repeatCall rfl trivial ?_
  rw [keeps_changeLevel, keeps_read]
  intro d i t
  split
  · exact keeps_write.mpr (keeps_call trivial trivial hpost)
  · exact hpost

theorem keeps_idle :
  idle.Keeps discipline (discipline.returns .idle .off) .off saved
  := by
  apply keeps_call rfl trivial
  apply keeps_choose
  · exact keeps_repeatCall rfl trivial (fun _ => rfl)
  · trivial

theorem keeps_checkIfDue :
  checkIfDue.Keeps discipline (discipline.returns .checkIfDue .off) .off saved
  := by
  use rfl
  apply keeps_choose
  · exact keeps_call rfl trivial (fun _ => rfl)
  · exact fun _ => rfl

/-- The operations may be called at any level. -/
theorem operation_allowed {f : Proc} (hf : f.isOperation = true) (level : Level) :
  discipline.allowed f level ∧ discipline.balanced f
  := by
  cases f with
  | p | v | acquire | release | wait | signal | broadcast | yield | handlePageFault =>
      exact ⟨trivial, trivial⟩
  | sleep | finish | fork | run | oneTick | idle | checkIfDue | handler | handleIPTMiss
  | handleMemoryFull | updateTLB | iptMiss | saveState | accessFile | accessSector | instruction
  | threadRoot | main | rest => cases hf

theorem keeps_handler :
  handler.Keeps discipline (discipline.returns .handler .off) .off saved
  := by
  refine ⟨?_, fun _ => rfl⟩
  intro d i t d' f hbody
  cases i with
  | call g =>
      simp only [Option.ite_none_right_eq_some, Option.some.injEq, Prod.mk.injEq] at hbody
      obtain ⟨hg, -, rfl⟩ := hbody
      exact operation_allowed hg _
  | no | yes | setLevel => cases hbody

/-! ### Page faults -/

theorem keeps_handlePageFault :
  handlePageFault.Keeps discipline (discipline.returns .handlePageFault level) level saved
  := by
  rw [handlePageFault, keeps_disable]
  apply keeps_call trivial trivial
  have hupdate : (Code.call .updateTLB (.call (.release IPTLock) (.restore .ret)) : Code).Keeps
      discipline (discipline.returns .handlePageFault level) .off level := by
    apply keeps_call trivial trivial
    exact keeps_call trivial trivial keeps_restore
  exact keeps_choose (keeps_call trivial trivial hupdate) hupdate

theorem keeps_handleIPTMiss :
  handleIPTMiss.Keeps discipline (discipline.returns .handleIPTMiss level) level saved
  := by
  apply keeps_call trivial trivial
  have hmiss : (Code.call .iptMiss (.call (.release bitMapLock) .ret) : Code).Keeps
      discipline (discipline.returns .handleIPTMiss level) level saved := by
    apply keeps_call trivial trivial
    exact keeps_call trivial trivial (fun _ => rfl)
  exact keeps_choose (keeps_call trivial trivial hmiss) hmiss

theorem keeps_handleMemoryFull :
  handleMemoryFull.Keeps discipline (discipline.returns .handleMemoryFull level) level saved
  := by
  apply keeps_call trivial trivial
  apply keeps_call trivial trivial
  apply keeps_choose
  · apply keeps_call trivial trivial
    apply keeps_choose
    · trivial
    · apply keeps_call trivial trivial
      exact keeps_call trivial trivial (fun _ => rfl)
  · exact fun _ => rfl

theorem keeps_updateTLB :
  updateTLB.Keeps discipline (discipline.returns .updateTLB level) level saved
  := by
  apply keeps_call trivial trivial
  exact keeps_call trivial trivial (fun _ => rfl)

theorem keeps_iptMiss :
  iptMiss.Keeps discipline (discipline.returns .iptMiss level) level saved
  := by
  apply keeps_choose
  · exact keeps_call trivial trivial (fun _ => rfl)
  · apply keeps_choose
    · apply keeps_call trivial trivial
      apply keeps_call trivial trivial
      exact keeps_call trivial trivial (fun _ => rfl)
    · exact fun _ => rfl

theorem keeps_saveState :
  saveState.Keeps discipline (discipline.returns .saveState level) level saved
  := by
  rw [saveState, keeps_disable]
  apply keeps_call trivial trivial
  exact keeps_call trivial trivial keeps_restore

theorem keeps_accessFile :
  accessFile.Keeps discipline (discipline.returns .accessFile level) level saved
  := by
  rw [accessFile, keeps_loop]
  refine ⟨?_, fun _ => rfl⟩
  intro d i t d' f hbody
  simp only [Option.ite_none_right_eq_some, Option.some.injEq, Prod.mk.injEq] at hbody
  obtain ⟨-, -, rfl⟩ := hbody
  exact ⟨trivial, trivial⟩

theorem keeps_accessSector :
  accessSector.Keeps discipline (discipline.returns .accessSector level) level saved
  := by
  apply keeps_call trivial trivial
  apply keeps_call trivial trivial
  exact keeps_call trivial trivial (fun _ => rfl)

/-! ### The rest of the kernel -/

/-- What does not return at the level at which it has been called may return at any. -/
theorem returns_of_not_balanced {f : Proc} (hf : ¬ discipline.balanced f) (entry level : Level) :
  discipline.returns f entry level
  := fun hbalanced => absurd hbalanced hf

theorem keeps_rest :
  rest.Keeps discipline (discipline.returns .rest level) level saved
  := by
  have hdone : ∀ now, (Code.ret : Code).Keeps discipline (discipline.returns .rest level) now saved :=
    fun now => returns_of_not_balanced id level now
  have hagain : ∀ now, (Code.call .rest .ret : Code).Keeps discipline
      (discipline.returns .rest level) now saved := by
    intro now
    use trivial
    exact fun now' _ => hdone now'
  rw [rest, keeps_read]
  intro d i t
  split
  · exact keeps_call trivial trivial (hagain level)
  · use trivial
    exact fun now _ => hdone now
  · rename_i f _ _
    split
    · rename_i hf
      obtain ⟨hallowed, hbalanced⟩ := operation_allowed hf level
      exact keeps_call hallowed hbalanced (hagain level)
    · exact hdone level
  · exact hagain _
  · use trivial
    exact fun now _ => hagain now
  · exact hdone level

theorem program_keeps :
  program.Keeps discipline
  := by
  have hend : ∀ {f : Proc} {entry saved : Level}, ¬ discipline.balanced f → ∀ level,
      (Code.call .finish .ret : Code).Keeps discipline (discipline.returns f entry) level saved := by
    intro f entry saved hf level
    use trivial
    exact fun now _ => returns_of_not_balanced hf entry now
  refine ⟨?_, rfl, trivial⟩
  intro f level hallowed
  cases f with
  | p s => exact keeps_p s
  | v s => exact keeps_disable.mpr (keeps_write.mpr keeps_restore)
  | acquire L => exact keeps_acquire L
  | release L => exact keeps_release L
  | wait c L => exact keeps_wait c L
  | signal c L => exact keeps_signal c L
  | broadcast c L => exact keeps_broadcast c L
  | yield => exact keeps_yield
  | sleep =>
      obtain rfl := hallowed
      exact keeps_sleep
  | finish => exact keeps_call rfl trivial trivial
  | fork u => exact keeps_disable.mpr (keeps_write.mpr keeps_restore)
  | run nextThread =>
      obtain rfl := hallowed
      exact keeps_run nextThread
  | oneTick =>
      obtain rfl := hallowed
      exact keeps_oneTick (fun _ => rfl)
  | idle =>
      obtain rfl := hallowed
      exact keeps_idle
  | checkIfDue =>
      obtain rfl := hallowed
      exact keeps_checkIfDue
  | handler =>
      obtain rfl := hallowed
      exact keeps_handler
  | handlePageFault => exact keeps_handlePageFault
  | handleIPTMiss => exact keeps_handleIPTMiss
  | handleMemoryFull => exact keeps_handleMemoryFull
  | updateTLB => exact keeps_updateTLB
  | iptMiss => exact keeps_iptMiss
  | saveState => exact keeps_saveState
  | accessFile => exact keeps_accessFile
  | accessSector => exact keeps_accessSector
  | «instruction» => exact keeps_oneTick (returns_of_not_balanced id level .on)
  | threadRoot | main =>
      use trivial
      exact fun now _ => hend id now
  | rest => exact keeps_rest

end

/-! ### Runs -/

theorem ok_initial (data : Data) (level : Level) (t : ℕ) :
  Coroutines.Ok discipline (initial data level t)
  := by
  have hmain : Coroutines.Stack discipline level
      [(⟨.main, main, .off, level⟩ : Coroutines.Frame Data Choice Proc)] :=
    ⟨program_keeps.code .main level trivial, fun _ _ => trivial⟩
  have hroot : Coroutines.Stack discipline .off
      [(⟨.threadRoot, threadRoot, .off, .off⟩ : Coroutines.Frame Data Choice Proc)] :=
    ⟨program_keeps.code .threadRoot .off trivial, fun _ _ => trivial⟩
  refine ⟨?_, ?_, by simp [initial], by simp [initial]⟩
  · simpa [initial] using hmain
  · intro u hu
    have hut : u ≠ t := hu
    simpa [initial, hut] using hroot

/-- The operations return at the level at which they have been called, and `Sleep` and `Run` are only
called when interrupts are disabled, in every run of any threads and handlers, whatever the data are. -/
theorem levels_kept {data : Data} {level : Level} {t : ℕ} {is : List Choice} {s : State}
    (hrun : Transition.run (Coroutines.step program) (initial data level t) is = some s) :
  LevelsKept s
  := by
  have hok := (ok_initial data level t).of_run program_keeps hrun
  constructor
  · intro f entry l hf hoperation
    exact hok.returned f entry l hf (operation_allowed hoperation l).2
  · exact fun l hl => hok.entered .sleep l hl
  · exact fun u l hl => hok.entered (.run u) l hl

/-- No lock is held, no thread is ready, and the values of all semaphores are 0. -/
def noneReady : Data := ⟨fun _ => ⟨0, []⟩, fun _ => ⟨.free, none, []⟩, fun _ => ⟨none, []⟩, [], false⟩

/-- A thread that calls `P` sleeps until the handler of an interrupt calls `V`. -/
def sleepInP : List Choice :=
  [.no, .call (.p 0)] ++ List.replicate 7 .no ++ [.yes, .no, .call (.v 0)] ++
    List.replicate 8 .no ++ [.yes] ++ List.replicate 28 .no

theorem levels_kept_sleepInP :
  ∃ s, Transition.run (Coroutines.step program) (initial noneReady .on 0) sleepInP = some s ∧
    s.history.getLast? = some (.returned (.p 0) .on .on) ∧ LevelsKept s
  := by
  have hlast : (Transition.run (Coroutines.step program) (initial noneReady .on 0) sleepInP).map
      (fun s => s.history.getLast?) = some (some (.returned (.p 0) .on .on)) := by decide
  obtain ⟨s, hs, heq⟩ := Option.map_eq_some_iff.mp hlast
  exact ⟨s, hs, heq, levels_kept hs⟩

end Levels

end Nachos.Threads
