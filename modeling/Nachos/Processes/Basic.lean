import Nachos.Memory.Basic
import Nachos.Monitor.Code

/-!
# Processes

The process table and the stacks of threads: `StartProcess` (`userprog/progtest.cc`), `Exec_Syscall`,
`Fork_Syscall`, `Fork_Thread` and `Exit_Syscall` (`userprog/exception.cc`), and `allocateStack`,
`getNumPages` and `clearStack` (`userprog/addrspace.cc`). Calls of `Exec` that fail are left out, and so
is what these functions do to the page tables.

Address spaces, threads and locks are numbered. The numbers of address spaces and threads that have
been deleted are used again. A page table that is being built is not visible to other threads, so the
constructors are executed as a whole. The stack of a thread is an `unsigned int`, and the parameter of
`clearStack` an `int`.
-/

namespace Nachos.Processes

open Monitor Memory

def UserStackSize : ℕ := 1024

def divRoundUp (n s : ℕ) : ℕ := n / s + if n % s > 0 then 1 else 0

def processLock : ℕ := 0

structure Space where
  numPages : ℕ
  numPageQueue : List ℕ
  pageLock : ℕ
  queueLock : ℕ

structure Process where
  space : ℕ
  numThreads : ℕ
  threadStacks : List (ℕ × ℕ)

/-- The function that a thread executes when it runs for the first time. -/
inductive Start where
  | execThread
  | forkThread
deriving DecidableEq

/-- What has become of the stack of a thread. -/
inductive Stage where
  | unallocated
  /-- The number of pages is in the queue of the address space. -/
  | waiting
  /-- `getNumPages` has returned the number of pages. -/
  | got (n : ℕ)
  /-- The stack is recorded in the process table. -/
  | recorded (n : ℕ)
deriving DecidableEq

structure Data where
  spaces : ℕ → Option Space
  processTable : List Process
  /-- The threads that have been created and not deleted. -/
  allocated : List ℕ
  /-- The address space of a thread. -/
  space : ℕ → Option ℕ
  /-- The function that a thread has been forked with. -/
  start : ℕ → Option Start
  /-- The locks from this one on have not been created. -/
  nextLock : ℕ
  /-- The threads of processes that have been created and have not exited. -/
  living : List ℕ
  stage : ℕ → Stage
  /-- The stack register when a thread has reached user code. -/
  stackReg : ℕ → Option ℕ

/-- The address of the stack that ends with page `n`. -/
def stackOf (n : ℕ) : ℕ := (n * PageSize - 16) % 2 ^ 32

/-- The pages in the loop of `clearStack`. -/
def clearStack (stack : ℕ) : List ℤ :=
  let stack : ℤ := if stack < 2 ^ 31 then stack else stack - 2 ^ 32
  let stackEnd := stack.tdiv PageSize
  (List.range 8).map (fun j : ℕ => stackEnd - 7 + j)

/-- Who calls `getNumPages`. -/
inductive Caller where
  /-- `StartProcess`. -/
  | start
  /-- `Exec_Syscall` of a thread of the address space `S`, for the first thread `u` of a process. -/
  | exec (S u : ℕ)
  /-- `Fork_Thread`. -/
  | fork
deriving DecidableEq

/-- The thread whose stack is determined. -/
def Caller.thread (t : ℕ) : Caller → ℕ
  | .exec _ u => u
  | .start | .fork => t

/-- Where a thread is, at the end of the statement or in it. `S` is the address space. -/
inductive Pos where
  /-- In none of the functions. -/
  | kernel
  /-- In `getNumPages`, at `queueLock->Acquire()`. -/
  | pages (c : Caller) (S L : ℕ)
  /-- At `numPageQueue->front()`. -/
  | front (c : Caller) (S L n : ℕ)
  /-- At `numPageQueue->pop()`. -/
  | popped (c : Caller) (S L n : ℕ)
  /-- At the end of `getNumPages`. -/
  | got (c : Caller) (S n : ℕ)
  /-- At `processLock->Acquire()`, after `getNumPages`. -/
  | recording (c : Caller) (S n : ℕ)
  /-- The process has been found in the process table, or not. -/
  | found (c : Caller) (S n : ℕ) (i : Option ℕ)
  /-- The stack has been recorded. -/
  | recorded (c : Caller) (S n : ℕ)
  /-- At `processLock->Release()`. -/
  | running (c : Caller) (S n : ℕ)
  /-- In user code. -/
  | user (S : ℕ)
  /-- In `Exec_Syscall`, at `processLock->Acquire()`. -/
  | exec (S : ℕ)
  /-- In `Exec_Syscall`, at `processTable->push_back(newProcess)`. -/
  | execPushed (S T u : ℕ)
  /-- In `Exec_Syscall`, at `processLock->Release()`. -/
  | execMade (S T u : ℕ)
  /-- In `Fork_Syscall`, at `processLock->Acquire()`. -/
  | fork (S : ℕ)
  /-- In `Fork_Syscall`, when the process has been found. -/
  | forkFound (S : ℕ) (i : Option ℕ)
  /-- In `Fork_Syscall`, with the thread that has been created. -/
  | forkMade (S u : ℕ)
  /-- In `allocateStack`, at `pageLock->Acquire()`. -/
  | stackPage (S u L : ℕ)
  /-- In `allocateStack`, at `queueLock->Acquire()`. -/
  | stackQueue (S u L M : ℕ)
  /-- In `allocateStack`, at `numPageQueue->push(n)`. -/
  | stackPushed (S u L M : ℕ)
  /-- In `allocateStack`, at `queueLock->Release()`. -/
  | stackCopied (S u L : ℕ)
  /-- At the end of `allocateStack`. -/
  | forkStack (S u : ℕ)
  /-- In `Fork_Syscall`, at `processLock->Release()`. -/
  | forkReady (S u : ℕ)
  /-- In `Exit_Syscall`, at `processLock->Acquire()`. -/
  | exit (S : ℕ)
  /-- In `Exit_Syscall`, with `myIndex`. -/
  | exitFound (S i : ℕ)
  /-- In `Exit_Syscall`, at `myProcess->numThreads--`. -/
  | exitCounted (S i : ℕ)
  /-- In `Exit_Syscall`, with `threadIndex`. -/
  | exitThread (S i j : ℕ)
  /-- In `Exit_Syscall`, at the end of `clearStack`, with the pages in its loop. -/
  | exitCleared (S i j : ℕ) (pages : List ℤ)
  /-- The stack or the process has been erased. -/
  | erased
  /-- In `Exit_Syscall`, at `processLock->Release()`. -/
  | finishing
  /-- `front` or `pop` has been called for an empty queue, or a search in `Exit_Syscall` has failed. -/
  | failed
deriving DecidableEq

/-- What is not determined by the state. -/
inductive Choice where
  /-- The function that a thread calls. -/
  | exec
  | fork
  | exit
  /-- An address space `S` is created for an executable with `size` bytes, and a thread `u`. -/
  | create (S size u : ℕ)
  | go
deriving DecidableEq

namespace Data

/-- The constructor of `AddrSpace`. -/
def newSpace (size : ℕ) (d : Data) : Space :=
  let numPages := divRoundUp size PageSize + divRoundUp UserStackSize PageSize
  ⟨numPages, [numPages], d.nextLock, d.nextLock + 1⟩

def setSpace (S : ℕ) (sp : Space) (d : Data) : Data :=
  { d with spaces := Function.update d.spaces S (some sp) }

def setStage (t : ℕ) (s : Stage) (d : Data) : Data := { d with stage := Function.update d.stage t s }

def pushProcess (p : Process) (d : Data) : Data :=
  { d with processTable := d.processTable ++ [p] }

/-- The process at index `i` of the process table is changed. -/
def modify (i : ℕ) (f : Process → Process) (d : Data) : Data :=
  { d with processTable := d.processTable.modify i f }

/-- The process at index `i`, with the address space `S` and the last thread `t`, is deleted. -/
def deleteProcess (S i t : ℕ) (d : Data) : Data :=
  { d with
    spaces := Function.update d.spaces S none
    processTable := d.processTable.eraseIdx i
    living := d.living.erase t }

/-- The index of the process with the address space `S`. -/
def findProcess (S : ℕ) (d : Data) : Option ℕ := d.processTable.findIdx? (fun p => p.space == S)

/-- The address space `S` is created. -/
def createSpace (S size : ℕ) (d : Data) : Data :=
  { d.setSpace S (d.newSpace size) with nextLock := d.nextLock + 2 }

/-- The thread `u` of the address space `S` is created. -/
def createThread (u S : ℕ) (s : Stage) (d : Data) : Data :=
  { d with
    allocated := u :: d.allocated
    space := Function.update d.space u (some S)
    start := Function.update d.start u none
    living := u :: d.living
    stage := Function.update d.stage u s
    stackReg := Function.update d.stackReg u none }

end Data

/-- The code, but for the functions that a thread calls in `kernel` and `user`. -/
def advance (t : ℕ) (d : Data) : Pos → Choice → Option (Data × Effect × Pos)
  -- getNumPages
  | .pages c S L, _ =>
      match d.spaces S with
      | some ⟨_, n :: _, _, _⟩ => some (d, .compute, .front c S L n)
      | _ => some (d, .compute, .failed)
  | .front c S L n, _ =>
      match d.spaces S with
      | some ⟨numPages, _ :: queue, pageLock, queueLock⟩ =>
          some ((d.setSpace S ⟨numPages, queue, pageLock, queueLock⟩).setStage (c.thread t) (.got n),
            .compute, .popped c S L n)
      | _ => some (d, .compute, .failed)
  | .popped c S L n, _ => some (d, .call (.release L), .got c S n)
  -- the stack is recorded
  | .got c S n, _ => some (d, .call (.acquire processLock), .recording c S n)
  | .recording .start S n, _ =>
      some ((d.pushProcess ⟨S, 1, [(t, stackOf n)]⟩).setStage t (.recorded n), .compute,
        .recorded .start S n)
  | .recording c S n, _ => some (d, .compute, .found c S n (d.findProcess S))
  | .found c S n (some i), _ =>
      some ((d.modify i (fun p => { p with
          threadStacks := p.threadStacks ++ [(c.thread t, stackOf n)] })).setStage (c.thread t)
        (.recorded n), .compute, .recorded c S n)
  | .found c S n none, _ => some (d, .compute, .recorded c S n)
  | .recorded c S n, _ => some (d, .call (.release processLock), .running c S n)
  -- InitRegisters
  | .running .start S _, _ =>
      match d.spaces S with
      | some sp =>
          some ({ d with stackReg := Function.update d.stackReg t (some (stackOf sp.numPages)) },
            .compute, .user S)
      | none => none
  | .running .fork S n, _ =>
      some ({ d with stackReg := Function.update d.stackReg t (some (stackOf n)) }, .compute, .user S)
  | .running (.exec S u) _ _, _ =>
      some ({ d with start := Function.update d.start u (some .execThread) }, .wake u, .user S)
  -- Exec_Syscall
  | .exec S, .create T size u =>
      if (d.spaces T).isSome ∨ u ∈ d.allocated then none
      else
        some (((d.createSpace T size).createThread u T .waiting).pushProcess ⟨T, 1, []⟩, .compute,
          .execPushed S T u)
  | .execPushed S T u, _ => some (d, .call (.release processLock), .execMade S T u)
  | .execMade S T u, _ =>
      match d.spaces T with
      | some sp => some (d, .call (.acquire sp.queueLock), .pages (.exec S u) T sp.queueLock)
      | none => none
  -- Fork_Syscall
  | .fork S, _ => some (d, .compute, .forkFound S (d.findProcess S))
  | .forkFound S i, .create _ _ u =>
      if u ∈ d.allocated then none
      else
        match i with
        | some i =>
            some ((d.modify i (fun p => { p with numThreads := p.numThreads + 1 })).createThread u S
              .unallocated, .compute, .forkMade S u)
        | none => some (d.createThread u S .unallocated, .compute, .forkMade S u)
  -- allocateStack
  | .forkMade S u, _ =>
      match d.spaces S with
      | some sp => some (d, .call (.acquire sp.pageLock), .stackPage S u sp.pageLock)
      | none => none
  | .stackPage S u L, _ =>
      match d.spaces S with
      | some sp => some (d, .call (.acquire sp.queueLock), .stackQueue S u L sp.queueLock)
      | none => none
  | .stackQueue S u L M, _ =>
      match d.spaces S with
      | some sp =>
          some ((d.setSpace S { sp with
              numPages := sp.numPages + 8, numPageQueue := sp.numPageQueue ++ [sp.numPages + 8]
            }).setStage u .waiting, .compute, .stackPushed S u L M)
      | none => none
  | .stackPushed S u L M, _ => some (d, .call (.release M), .stackCopied S u L)
  | .stackCopied S u L, _ => some (d, .call (.release L), .forkStack S u)
  | .forkStack S u, _ => some (d, .call (.release processLock), .forkReady S u)
  | .forkReady S u, _ =>
      some ({ d with start := Function.update d.start u (some .forkThread) }, .wake u, .user S)
  -- Exit_Syscall
  | .exit S, _ =>
      match d.findProcess S with
      | some i => some (d, .compute, .exitFound S i)
      | none => some (d, .compute, .failed)
  | .exitFound S i, _ =>
      match d.processTable[i]? with
      | some p =>
          if 1 < p.numThreads then
            some ({ d.modify i (fun p => { p with numThreads := p.numThreads - 1 }) with
              living := d.living.erase t }, .compute, .exitCounted S i)
          -- the machine halts
          else if d.processTable.length = 1 then none
          else
            some ((d.deleteProcess S i t).setStage t .unallocated, .compute, .erased)
      | none => none
  | .exitCounted S i, _ =>
      match d.processTable[i]? with
      | some p =>
          match p.threadStacks.findIdx? (fun e => e.1 == t) with
          | some j => some (d, .compute, .exitThread S i j)
          | none => some (d, .compute, .failed)
      | none => none
  | .exitThread S i j, _ =>
      match (d.processTable[i]?).bind (fun p => p.threadStacks[j]?) with
      | some e => some (d, .compute, .exitCleared S i j (clearStack e.2))
      | none => none
  | .exitCleared _ i j _, _ =>
      some ((d.modify i (fun p => { p with threadStacks := p.threadStacks.eraseIdx j })).setStage t
        .unallocated, .compute, .erased)
  | .erased, _ => some (d, .call (.release processLock), .finishing)
  | .finishing, _ =>
      some ({ d with
        allocated := d.allocated.erase t
        space := Function.update d.space t none
        start := Function.update d.start t none }, .park, .kernel)
  | _, _ => none

/-- In user code a thread is in none of the functions. -/
theorem advance_user (t S : ℕ) (d : Data) (a : Choice) :
  advance t d (.user S) a = none
  := by
  simp only [advance]

/-- The code of threads. -/
def next (t : ℕ) (p : Pos) (d : Data) (i : Choice) : Option (Data × Effect × Pos) :=
  match p, i with
  | .kernel, i =>
      match d.start t, d.space t, i with
      -- StartProcess
      | none, none, .create S size _ =>
          if (d.spaces S).isSome then none
          else
            let d := d.createSpace S size
            some ({ d with
                space := Function.update d.space t (some S)
                living := t :: d.living
                stage := Function.update d.stage t .waiting
                stackReg := Function.update d.stackReg t none },
              .call (.acquire (d.nextLock - 1)), .pages .start S (d.nextLock - 1))
      -- Exec_Thread
      | some .execThread, some S, .go =>
          match d.spaces S with
          | some sp =>
              some ({ d with stackReg := Function.update d.stackReg t (some (stackOf sp.numPages)) },
                .compute, .user S)
          | none => none
      -- Fork_Thread
      | some .forkThread, some S, .go =>
          match d.spaces S with
          | some sp => some (d, .call (.acquire sp.queueLock), .pages .fork S sp.queueLock)
          | none => none
      | _, _, _ => none
  | .user S, .exec => some (d, .call (.acquire processLock), .exec S)
  | .user S, .fork => some (d, .call (.acquire processLock), .fork S)
  | .user S, .exit => some (d, .call (.acquire processLock), .exit S)
  | p, i => advance t d p i

/-- Threads may be interrupted everywhere. -/
def code : Code Data Pos Choice where
  next := next
  masked _ := false
  interrupt _ _ := none

/-- A machine with the kernel's threads and no process. -/
def initial (t : ℕ) (ts : List ℕ) : Exec Data Pos :=
  Exec.initial t ts ⟨fun _ => none, [], t :: ts, fun _ => none, fun _ => none, 1, [],
    fun _ => .unallocated, fun _ => none⟩ .kernel

end Nachos.Processes
