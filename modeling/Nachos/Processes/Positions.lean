import Nachos.Processes.Stacks

/-!
# Where threads are

What holds of the data when a thread is at a position (`Fits`), and which of it stays when another
thread makes a step (`Fits.frame`). A step concerns the thread that makes it and the thread that it
creates, which does not run before it is woken. The process table does not change as long as
`processLock` is held, nor the front of a queue as long as its lock is held.
-/

namespace Nachos.Processes

open Memory Monitor

/-- The first page of a stack that ends with page `n`, and the seven after it. -/
def stackPages (n : ℕ) : List ℤ := (List.range 8).map (fun j : ℕ => (n : ℤ) - 8 + j)

/-- `clearStack` visits the pages of the stack, unless its address is too large for an `int`. -/
theorem clearStack_stackOf {n : ℕ} (hlow : 8 ≤ n) (hhigh : n ≤ 2 ^ 24) :
  clearStack (stackOf n) = stackPages n
  := by
  have hstack : stackOf n = n * 128 - 16 := by
    rw [stackOf, PageSize]
    omega
  have hdiv : ((n * 128 - 16 : ℕ) : ℤ).tdiv 128 = n - 1 := by
    rw [Int.tdiv_eq_ediv_of_nonneg (by omega)]
    omega
  rw [clearStack, stackPages, hstack, if_pos (by omega)]
  simp only [PageSize, Nat.cast_ofNat]
  rw [hdiv]
  apply List.map_congr_left
  intro j _
  omega

/-! ### Positions -/

/-- The thread that the caller of `getNumPages` has created. -/
def Caller.child : Caller → Option ℕ
  | .exec _ u => some u
  | .start | .fork => none

/-- The thread that a thread has created and not woken. -/
def Pos.child : Pos → Option ℕ
  | .pages c _ _ | .front c _ _ _ | .popped c _ _ _ | .got c _ _ | .recording c _ _ | .found c _ _ _
  | .recorded c _ _ | .running c _ _ => c.child
  | .execPushed _ _ u | .execMade _ _ u => some u
  | .forkMade _ u | .stackPage _ u _ | .stackQueue _ u _ _ | .stackPushed _ u _ _
  | .stackCopied _ u _ | .forkStack _ u | .forkReady _ u => some u
  | _ => none

/-- The locks that a thread holds at a position, and those that it is acquiring, as far as they
matter here. -/
def Pos.holds : Pos → ℕ → Prop
  | .pages _ _ L, K | .front _ _ L _, K => K = L
  | .recording _ _ _, K | .found _ _ _ _, K | .recorded _ _ _, K | .exec _, K | .execPushed _ _ _, K
  | .fork _, K | .forkFound _ _, K | .forkMade _ _, K | .stackPage _ _ _, K | .stackQueue _ _ _ _, K
  | .stackPushed _ _ _ _, K | .stackCopied _ _ _, K | .forkStack _ _, K | .exit _, K
  | .exitFound _ _, K | .exitCounted _ _, K | .exitThread _ _ _, K | .exitCleared _ _ _ _, K
  | .erased, K => K = processLock
  | _, _ => False

/-- Positions at which a thread does not wait for a lock. -/
def Pos.settled : Pos → Prop
  | .front _ _ _ _ | .found _ _ _ _ | .forkFound _ _ | .exitFound _ _ | .exitCounted _ _
  | .exitThread _ _ _ | .exitCleared _ _ _ _ => True
  | _ => False

/-- A thread that is not counted any more, and whose entry has not been erased. -/
def Pos.leaving : Pos → Prop
  | .exitCounted _ _ | .exitThread _ _ _ | .exitCleared _ _ _ _ => True
  | _ => False

/-- The order of the statements. Positions that are not reached are left out. -/
inductive Flow : Pos → Effect → Pos → Prop where
  | startProcess (S L : ℕ) : Flow .kernel (.call (.acquire L)) (.pages .start S L)
  | execThread (S : ℕ) : Flow .kernel .compute (.user S)
  | forkThread (S L : ℕ) : Flow .kernel (.call (.acquire L)) (.pages .fork S L)
  | callExec (S : ℕ) : Flow (.user S) (.call (.acquire processLock)) (.exec S)
  | callFork (S : ℕ) : Flow (.user S) (.call (.acquire processLock)) (.fork S)
  | callExit (S : ℕ) : Flow (.user S) (.call (.acquire processLock)) (.exit S)
  | pages (c : Caller) (S L n : ℕ) : Flow (.pages c S L) .compute (.front c S L n)
  | front (c : Caller) (S L n : ℕ) : Flow (.front c S L n) .compute (.popped c S L n)
  | popped (c : Caller) (S L n : ℕ) : Flow (.popped c S L n) (.call (.release L)) (.got c S n)
  | got (c : Caller) (S n : ℕ) :
      Flow (.got c S n) (.call (.acquire processLock)) (.recording c S n)
  | recordingStart (S n : ℕ) : Flow (.recording .start S n) .compute (.recorded .start S n)
  | recording (c : Caller) (S n i : ℕ) : Flow (.recording c S n) .compute (.found c S n (some i))
  | found (c : Caller) (S n i : ℕ) : Flow (.found c S n (some i)) .compute (.recorded c S n)
  | recorded (c : Caller) (S n : ℕ) :
      Flow (.recorded c S n) (.call (.release processLock)) (.running c S n)
  | running (c : Caller) (S n : ℕ) (hc : c.child = none) : Flow (.running c S n) .compute (.user S)
  | runningExec (S T u n : ℕ) : Flow (.running (.exec S u) T n) (.wake u) (.user S)
  | exec (S T u : ℕ) : Flow (.exec S) .compute (.execPushed S T u)
  | execPushed (S T u : ℕ) :
      Flow (.execPushed S T u) (.call (.release processLock)) (.execMade S T u)
  | execMade (S T u L : ℕ) :
      Flow (.execMade S T u) (.call (.acquire L)) (.pages (.exec S u) T L)
  | fork (S i : ℕ) : Flow (.fork S) .compute (.forkFound S (some i))
  | forkFound (S i u : ℕ) : Flow (.forkFound S (some i)) .compute (.forkMade S u)
  | forkMade (S u L : ℕ) : Flow (.forkMade S u) (.call (.acquire L)) (.stackPage S u L)
  | stackPage (S u L M : ℕ) : Flow (.stackPage S u L) (.call (.acquire M)) (.stackQueue S u L M)
  | stackQueue (S u L M : ℕ) : Flow (.stackQueue S u L M) .compute (.stackPushed S u L M)
  | stackPushed (S u L M : ℕ) :
      Flow (.stackPushed S u L M) (.call (.release M)) (.stackCopied S u L)
  | stackCopied (S u L : ℕ) : Flow (.stackCopied S u L) (.call (.release L)) (.forkStack S u)
  | forkStack (S u : ℕ) : Flow (.forkStack S u) (.call (.release processLock)) (.forkReady S u)
  | forkReady (S u : ℕ) : Flow (.forkReady S u) (.wake u) (.user S)
  | exit (S i : ℕ) : Flow (.exit S) .compute (.exitFound S i)
  | exitFound (S i : ℕ) : Flow (.exitFound S i) .compute (.exitCounted S i)
  | deleted (S i : ℕ) : Flow (.exitFound S i) .compute .erased
  | exitCounted (S i j : ℕ) : Flow (.exitCounted S i) .compute (.exitThread S i j)
  | exitThread (S i j : ℕ) (pages : List ℤ) :
      Flow (.exitThread S i j) .compute (.exitCleared S i j pages)
  | exitCleared (S i j : ℕ) (pages : List ℤ) : Flow (.exitCleared S i j pages) .compute .erased
  | erased : Flow .erased (.call (.release processLock)) .finishing
  | finishing : Flow .finishing .park .kernel

namespace Data

/-- The thread `r` lives in the address space `S`, and its stack is at the stage `s`. -/
structure Placed (d : Data) (r S : ℕ) (s : Stage) : Prop where
  living : r ∈ d.living
  space : d.space r = some S
  stage : d.stage r = s

/-- The thread `r` is the only one of the address space, which has not grown. -/
structure Fresh (d : Data) (r S : ℕ) : Prop where
  only : ∀ a ∈ d.living, d.space a = some S → a = r
  waiting : ∀ sp, d.spaces S = some sp → d.stage r = .waiting → sp.numPageQueue = [sp.numPages]
  taken : ∀ sp n, d.spaces S = some sp → (d.stage r).pages = some n → n = sp.numPages

/-- The thread `t` has reached user code. -/
def Member (d : Data) (t S : ℕ) : Prop :=
  ∃ n, d.Placed t S (.recorded n) ∧ d.stackReg t = some (stackOf n)

/-- The thread `u` of the address space `S` has been created and not woken. -/
def Unborn (d : Data) (u S : ℕ) (s : Stage) : Prop := d.Placed u S s ∧ d.start u = none

/-- The lock of the queue of the address space is `L`. -/
def QueueLock (d : Data) (S L : ℕ) : Prop := ∃ sp, d.spaces S = some sp ∧ sp.queueLock = L

/-- The first page count in the queue is `n`. -/
def Head (d : Data) (S n : ℕ) : Prop :=
  ∃ sp, d.spaces S = some sp ∧ sp.numPageQueue.head? = some n

/-- The process at index `i` has the address space `S`. -/
def HasIndex (d : Data) (S i : ℕ) : Prop := ∃ p, d.processTable[i]? = some p ∧ p.space = S

/-- The caller of `getNumPages` and the thread whose stack is determined. -/
def By (d : Data) (t S : ℕ) (s : Stage) : Caller → Prop
  | .start => d.Placed t S s ∧ d.Fresh t S ∧ (d.Listed S → ∃ n, s = .recorded n)
  | .exec S' u => d.Member t S' ∧ d.Unborn u S s ∧ d.Fresh u S ∧ d.Listed S
  | .fork => d.Placed t S s ∧ d.Listed S

/-- The locks of address spaces are not `processLock`. -/
structure Locked (d : Data) : Prop where
  nextLock : processLock < d.nextLock
  spaces : ∀ S sp, d.spaces S = some sp → sp.pageLock ≠ processLock ∧ sp.queueLock ≠ processLock

/-- The thread `t` is not counted any more, and its stack is recorded. -/
structure Leaving (d : Data) (t S i n : ℕ) : Prop where
  unborn : t ∉ d.living
  space : d.space t = some S
  stage : d.stage t = .recorded n
  index : d.HasIndex S i
  eight_le : 8 ≤ n

/-- The entry at index `j` of the process at index `i` is the one of the thread `t`. -/
def HasEntry (d : Data) (t i j n : ℕ) : Prop :=
  ∃ p, d.processTable[i]? = some p ∧ p.threadStacks[j]? = some (t, stackOf n)

end Data

/-- What holds when the thread `t` is at a position. -/
def Fits (d : Data) (t : ℕ) : Pos → Prop
  | .kernel =>
      match d.start t with
      | none =>
          (∀ n, d.stage t = .recorded n → t ∈ d.living) ∧
            ∀ S, t ∈ d.living → d.space t = some S → d.Listed S
      | some .execThread => ∃ S n, d.Placed t S (.recorded n) ∧ d.Fresh t S
      | some .forkThread => ∃ S, d.Placed t S .waiting ∧ d.Listed S
  | .pages c S L => d.By t S .waiting c ∧ d.QueueLock S L
  | .front c S L n => d.By t S .waiting c ∧ d.QueueLock S L ∧ d.Head S n
  | .popped c S _ n | .got c S n | .recording c S n => d.By t S (.got n) c
  | .found c S n i => d.By t S (.got n) c ∧ c ≠ .start ∧ ∃ j, i = some j ∧ d.HasIndex S j
  | .recorded c S n | .running c S n => d.By t S (.recorded n) c
  | .user S | .exec S | .fork S | .exit S => d.Member t S
  | .execPushed S T u | .execMade S T u => d.By t T .waiting (.exec S u)
  | .forkFound S i => d.Member t S ∧ ∃ j, i = some j ∧ d.HasIndex S j
  | .forkMade S u => d.Member t S ∧ d.Unborn u S .unallocated ∧ d.Listed S
  | .stackPage S u L => d.Member t S ∧ d.Unborn u S .unallocated ∧ d.Listed S ∧ L ≠ processLock
  | .stackQueue S u L M =>
      d.Member t S ∧ d.Unborn u S .unallocated ∧ d.Listed S ∧ L ≠ processLock ∧ M ≠ processLock
  | .stackPushed S u L M =>
      d.Member t S ∧ d.Unborn u S .waiting ∧ d.Listed S ∧ L ≠ processLock ∧ M ≠ processLock
  | .stackCopied S u L => d.Member t S ∧ d.Unborn u S .waiting ∧ d.Listed S ∧ L ≠ processLock
  | .forkStack S u | .forkReady S u => d.Member t S ∧ d.Unborn u S .waiting ∧ d.Listed S
  | .exitFound S i => d.Member t S ∧ d.HasIndex S i
  | .exitCounted S i => ∃ n, d.Leaving t S i n
  | .exitThread S i j => ∃ n, d.Leaving t S i n ∧ d.HasEntry t i j n
  | .exitCleared S i j pages => ∃ n, d.Leaving t S i n ∧ d.HasEntry t i j n ∧ pages = stackPages n
  | .erased | .finishing => t ∉ d.living ∧ d.stage t = .unallocated
  | .failed => False

/-! ### Locks -/

/-- A thread that gets to a settled position does not call `Acquire` or `Wait`. -/
theorem Flow.settled {p p' : Pos} {e : Effect} (h : Flow p e p') (hp' : p'.settled) :
  (∀ L, e ≠ .call (.acquire L)) ∧ ∀ c M, e ≠ .call (.wait c M)
  := by
  cases h with
  | pages | recording | fork | exit | exitFound | exitCounted | exitThread => simp
  | _ => cases hp'

/-- The locks that a thread holds. -/
theorem Flow.holds {p p' : Pos} {e : Effect} (h : Flow p e p') {d : Data} {t : ℕ} (hfits : Fits d t p)
    {K : ℕ} (hK : p'.holds K) :
  e = .call (.acquire K) ∨ p.holds K ∧ e ≠ .call (.release K)
  := by
  cases h with
  | stackPushed S u L M =>
      obtain ⟨-, -, -, -, hM⟩ := hfits
      obtain rfl : K = processLock := hK
      exact .inr ⟨rfl, by simp [hM]⟩
  | stackCopied S u L =>
      obtain ⟨-, -, -, hL⟩ := hfits
      obtain rfl : K = processLock := hK
      exact .inr ⟨rfl, by simp [hL]⟩
  | stackPage S u L M => exact .inr ⟨hK, by simp⟩
  | forkMade S u L => exact .inr ⟨hK, by simp⟩
  | startProcess | forkThread | callExec | callFork | callExit | got | execMade =>
      obtain rfl := hK
      exact .inl rfl
  | pages | recordingStart | recording | found | exec | fork | forkFound | stackQueue | exit
  | exitFound | deleted | exitCounted | exitThread | exitCleared => exact .inr ⟨hK, by simp⟩
  | execThread | front | popped | recorded | running | runningExec | execPushed | forkStack
  | forkReady | erased | finishing => cases hK

/-! ### Steps of other threads -/

/-- The threads in `R` and the locks in `K` are those of the thread that makes the step. -/
structure Frame (R K : ℕ → Prop) (d d' : Data) : Prop where
  living : ∀ r, ¬ R r → (r ∈ d'.living ↔ r ∈ d.living)
  space : ∀ r, ¬ R r → d'.space r = d.space r
  stage : ∀ r, ¬ R r → d'.stage r = d.stage r
  stackReg : ∀ r, ¬ R r → d'.stackReg r = d.stackReg r
  start : ∀ r, ¬ R r → d'.start r = d.start r
  /-- The address space of another thread keeps its lock, and the front of its queue. -/
  spaces : ∀ r S sp, ¬ R r → r ∈ d.living → d.space r = some S → d.spaces S = some sp →
    ∃ sp', d'.spaces S = some sp' ∧ sp'.queueLock = sp.queueLock ∧
      ∀ n, ¬ K sp.queueLock → sp.numPageQueue.head? = some n → sp'.numPageQueue.head? = some n
  listed : ∀ r S, ¬ R r → r ∈ d.living → d.space r = some S → d.Listed S → d'.Listed S
  /-- Nothing changes in the address spaces of other threads only. -/
  apart : ∀ S sp, d.spaces S = some sp → (∀ r, R r → r ∈ d.living → d.space r ≠ some S) →
    d'.spaces S = some sp ∧ (∀ r, R r → r ∈ d'.living → d'.space r ≠ some S) ∧
      (d'.Listed S → d.Listed S)
  table : ¬ K processLock → d'.processTable = d.processTable

variable {R K : ℕ → Prop} {d d' : Data} {t u r S i j n : ℕ} {s : Stage}

theorem Frame.refl (R K : ℕ → Prop) (d : Data) :
  Frame R K d d
  where
  living _ _ := Iff.rfl
  space _ _ := rfl
  stage _ _ := rfl
  stackReg _ _ := rfl
  start _ _ := rfl
  spaces _ _ sp _ _ _ hS := ⟨sp, hS, rfl, fun _ _ => id⟩
  listed _ _ _ _ _ := id
  apart _ _ hS hR := ⟨hS, hR, id⟩
  table _ := rfl

namespace Data

theorem Placed.frame (h : d.Placed r S s) (hframe : Frame R K d d') (hr : ¬ R r) :
  d'.Placed r S s
  := ⟨(hframe.living r hr).mpr h.living, (hframe.space r hr).trans h.space,
    (hframe.stage r hr).trans h.stage⟩

theorem Member.frame (h : d.Member t S) (hframe : Frame R K d d') (ht : ¬ R t) :
  d'.Member t S
  := by
  obtain ⟨n, hplaced, hstack⟩ := h
  exact ⟨n, hplaced.frame hframe ht, (hframe.stackReg t ht).trans hstack⟩

theorem Unborn.frame (h : d.Unborn u S s) (hframe : Frame R K d d') (hu : ¬ R u) :
  d'.Unborn u S s
  := ⟨h.1.frame hframe hu, (hframe.start u hu).trans h.2⟩

/-- The address space of the only thread in it does not change. -/
theorem Fresh.apart (h : d.Fresh r S) (hok : d.Ok) (hplaced : d.Placed r S s)
    (hframe : Frame R K d d') (hr : ¬ R r) :
  ∃ sp, d.spaces S = some sp ∧ d'.spaces S = some sp ∧
    (∀ a, R a → a ∈ d'.living → d'.space a ≠ some S) ∧ (d'.Listed S → d.Listed S)
  := by
  obtain ⟨T, hT, hlive⟩ := hok.home r hplaced.living
  obtain rfl := Option.some.inj (hplaced.space.symm.trans hT)
  obtain ⟨sp, hsp⟩ := Option.isSome_iff_exists.mp hlive
  refine ⟨sp, hsp, hframe.apart S sp hsp ?_⟩
  intro a ha hmem hS
  exact hr (h.only a hmem hS ▸ ha)

theorem Fresh.frame (h : d.Fresh r S) (hok : d.Ok) (hplaced : d.Placed r S s)
    (hframe : Frame R K d d') (hr : ¬ R r) :
  d'.Fresh r S
  := by
  obtain ⟨sp, hsp, hsp', hapart, -⟩ := h.apart hok hplaced hframe hr
  have hstage := hframe.stage r hr
  refine ⟨?_, ?_, ?_⟩
  · intro a ha hS
    have hRa : ¬ R a := fun hRa => hapart a hRa ha hS
    exact h.only a ((hframe.living a hRa).mp ha) ((hframe.space a hRa).symm.trans hS)
  · intro tp htp hwaiting
    obtain rfl := Option.some.inj (hsp'.symm.trans htp)
    exact h.waiting sp hsp (hstage ▸ hwaiting)
  · intro tp n htp hn
    obtain rfl := Option.some.inj (hsp'.symm.trans htp)
    exact h.taken sp n hsp (hstage ▸ hn)

theorem By.frame {c : Caller} (h : d.By t S s c) (hok : d.Ok) (hframe : Frame R K d d')
    (ht : ¬ R t) (hchild : ¬ R (c.thread t)) :
  d'.By t S s c
  := by
  cases c with
  | start =>
      obtain ⟨hplaced, hfresh, hlisted⟩ := h
      refine ⟨hplaced.frame hframe ht, hfresh.frame hok hplaced hframe ht, ?_⟩
      obtain ⟨-, -, -, -, hback⟩ := hfresh.apart hok hplaced hframe ht
      exact fun h => hlisted (hback h)
  | exec S' u =>
      obtain ⟨hmember, hunborn, hfresh, hlisted⟩ := h
      exact ⟨hmember.frame hframe ht, hunborn.frame hframe hchild,
        hfresh.frame hok hunborn.1 hframe hchild,
        hframe.listed u S hchild hunborn.1.living hunborn.1.space hlisted⟩
  | fork =>
      obtain ⟨hplaced, hlisted⟩ := h
      exact ⟨hplaced.frame hframe ht, hframe.listed t S ht hplaced.living hplaced.space hlisted⟩

/-- The thread whose stack is determined lives. -/
theorem By.placed {c : Caller} (h : d.By t S s c) :
  d.Placed (c.thread t) S s
  := by
  cases c with
  | start | fork => exact h.1
  | exec S' u => exact h.2.1.1

/-- The caller lives. -/
theorem By.living {c : Caller} (h : d.By t S s c) :
  t ∈ d.living
  := by
  cases c with
  | start | fork => exact h.1.living
  | exec S' u =>
      obtain ⟨⟨n, hplaced, -⟩, -⟩ := h
      exact hplaced.living

theorem Member.living (h : d.Member t S) :
  t ∈ d.living
  := by
  obtain ⟨n, hplaced, -⟩ := h
  exact hplaced.living

theorem QueueLock.frame {L : ℕ} (h : d.QueueLock S L) (hplaced : d.Placed r S s)
    (hframe : Frame R K d d') (hr : ¬ R r) :
  d'.QueueLock S L
  := by
  obtain ⟨sp, hS, rfl⟩ := h
  obtain ⟨sp', hS', hlock, -⟩ := hframe.spaces r S sp hr hplaced.living hplaced.space hS
  exact ⟨sp', hS', hlock⟩

theorem Head.frame {L : ℕ} (h : d.Head S n) (hlock : d.QueueLock S L) (hplaced : d.Placed r S s)
    (hframe : Frame R K d d') (hr : ¬ R r) (hK : ¬ K L) :
  d'.Head S n
  := by
  obtain ⟨sp, hS, hhead⟩ := h
  obtain ⟨tp, hT, rfl⟩ := hlock
  obtain rfl := Option.some.inj (hS.symm.trans hT)
  obtain ⟨sp', hS', -, hhead'⟩ := hframe.spaces r S sp hr hplaced.living hplaced.space hS
  exact ⟨sp', hS', hhead' n hK hhead⟩

theorem HasIndex.frame (h : d.HasIndex S i) (hframe : Frame R K d d') (hK : ¬ K processLock) :
  d'.HasIndex S i
  := by
  rw [HasIndex, hframe.table hK]
  exact h

theorem HasEntry.frame (h : d.HasEntry t i j n) (hframe : Frame R K d d') (hK : ¬ K processLock) :
  d'.HasEntry t i j n
  := by
  rw [HasEntry, hframe.table hK]
  exact h

theorem Leaving.frame (h : d.Leaving t S i n) (hframe : Frame R K d d') (ht : ¬ R t)
    (hK : ¬ K processLock) :
  d'.Leaving t S i n
  := ⟨fun hmem => h.unborn ((hframe.living t ht).mp hmem), (hframe.space t ht).trans h.space,
    (hframe.stage t ht).trans h.stage, h.index.frame hframe hK, h.eight_le⟩

end Data

/-- What holds when the thread `t` is at a position stays when another thread makes a step. -/
theorem Fits.frame {p : Pos} (h : Fits d t p) (hok : d.Ok) (hframe : Frame R K d d') (ht : ¬ R t)
    (hchild : ∀ u, p.child = some u → ¬ R u) (hlocks : p.settled → ∀ L, p.holds L → ¬ K L) :
  Fits d' t p
  := by
  have hthread : ∀ c : Caller, p.child = c.child → ¬ R (c.thread t) := by
    intro c hc
    cases c with
    | start | fork => exact ht
    | exec S u => exact hchild u hc
  cases p with
  | kernel =>
      simp only [Fits, hframe.start t ht] at h ⊢
      cases hstart : d.start t with
      | none =>
          rw [hstart] at h
          refine ⟨?_, ?_⟩
          · intro n hn
            exact (hframe.living t ht).mpr (h.1 n ((hframe.stage t ht).symm.trans hn))
          · intro S hmem hS
            have hmem' := (hframe.living t ht).mp hmem
            have hS' := (hframe.space t ht).symm.trans hS
            exact hframe.listed t S ht hmem' hS' (h.2 S hmem' hS')
      | some f =>
          cases f with
          | execThread =>
              rw [hstart] at h
              obtain ⟨S, n, hplaced, hfresh⟩ := h
              exact ⟨S, n, hplaced.frame hframe ht, hfresh.frame hok hplaced hframe ht⟩
          | forkThread =>
              rw [hstart] at h
              obtain ⟨S, hplaced, hlisted⟩ := h
              exact ⟨S, hplaced.frame hframe ht,
                hframe.listed t S ht hplaced.living hplaced.space hlisted⟩
  | pages c S L =>
      obtain ⟨hby, hlock⟩ := h
      have hc := hthread c rfl
      exact ⟨hby.frame hok hframe ht hc, hlock.frame hby.placed hframe hc⟩
  | front c S L n =>
      obtain ⟨hby, hlock, hhead⟩ := h
      have hc := hthread c rfl
      exact ⟨hby.frame hok hframe ht hc, hlock.frame hby.placed hframe hc,
        hhead.frame hlock hby.placed hframe hc (hlocks trivial L rfl)⟩
  | popped c | got c | recording c | recorded c | running c =>
      exact Data.By.frame h hok hframe ht (hthread c rfl)
  | found c S n i =>
      obtain ⟨hby, hne, j, rfl, hindex⟩ := h
      have hc := hthread c rfl
      exact ⟨hby.frame hok hframe ht hc, hne, j, rfl, hindex.frame hframe (hlocks trivial _ rfl)⟩
  | user S | exec S | fork S | exit S => exact Data.Member.frame h hframe ht
  | execPushed S T u | execMade S T u =>
      have hby : d.By t T .waiting (.exec S u) := h
      exact hby.frame hok hframe ht (hchild u rfl)
  | forkFound S i =>
      obtain ⟨hmember, j, rfl, hindex⟩ := h
      exact ⟨hmember.frame hframe ht, j, rfl, hindex.frame hframe (hlocks trivial _ rfl)⟩
  | forkMade S u | forkStack S u | forkReady S u =>
      obtain ⟨hmember, hunborn, hlisted⟩ := h
      have hu := hchild u rfl
      exact ⟨hmember.frame hframe ht, hunborn.frame hframe hu,
        hframe.listed u S hu hunborn.1.living hunborn.1.space hlisted⟩
  | stackPage S u L | stackQueue S u L M | stackPushed S u L M | stackCopied S u L =>
      obtain ⟨hmember, hunborn, hlisted, hL⟩ := h
      have hu := hchild u rfl
      exact ⟨hmember.frame hframe ht, hunborn.frame hframe hu,
        hframe.listed u S hu hunborn.1.living hunborn.1.space hlisted, hL⟩
  | exitFound S i =>
      obtain ⟨hmember, hindex⟩ := h
      exact ⟨hmember.frame hframe ht, hindex.frame hframe (hlocks trivial _ rfl)⟩
  | exitCounted S i =>
      obtain ⟨n, hleaving⟩ := h
      exact ⟨n, hleaving.frame hframe ht (hlocks trivial _ rfl)⟩
  | exitThread S i j =>
      obtain ⟨n, hleaving, hentry⟩ := h
      have hK := hlocks trivial _ rfl
      exact ⟨n, hleaving.frame hframe ht hK, hentry.frame hframe hK⟩
  | exitCleared S i j pages =>
      obtain ⟨n, hleaving, hentry, hpages⟩ := h
      have hK := hlocks trivial _ rfl
      exact ⟨n, hleaving.frame hframe ht hK, hentry.frame hframe hK, hpages⟩
  | erased | finishing =>
      exact ⟨fun hmem => h.1 ((hframe.living t ht).mp hmem), (hframe.stage t ht).trans h.2⟩
  | failed => exact h

/-- A thread whose stack is recorded lives, unless it is leaving. -/
theorem Fits.living {p : Pos} (h : Fits d t p) (hrecorded : d.stage t = .recorded n) :
  t ∈ d.living ∨ p.leaving
  := by
  cases p with
  | kernel =>
      left
      simp only [Fits] at h
      cases hstart : d.start t with
      | none =>
          rw [hstart] at h
          exact h.1 n hrecorded
      | some f =>
          rw [hstart] at h
          cases f with
          | execThread =>
              obtain ⟨S, n, hplaced, -⟩ := h
              exact hplaced.living
          | forkThread =>
              obtain ⟨S, hplaced, -⟩ := h
              exact hplaced.living
  | pages | front | found => exact .inl h.1.living
  | popped | got | recording | recorded | running => exact .inl (Data.By.living h)
  | execPushed S T u | execMade S T u =>
      have hby : d.By t T .waiting (.exec S u) := h
      exact .inl hby.living
  | user | exec | fork | exit => exact .inl (Data.Member.living h)
  | forkFound | forkMade | stackPage | stackQueue | stackPushed | stackCopied | forkStack
  | forkReady | exitFound => exact .inl h.1.living
  | exitCounted | exitThread | exitCleared => exact .inr trivial
  | erased | finishing => cases h.2.symm.trans hrecorded
  | failed => exact h.elim

end Nachos.Processes
