import Nachos.Processes.Positions

/-!
# What the statements do

Every statement keeps the process table and the stacks in order, leads to a position that the data
fits, and leaves alone what concerns other threads (`Moved`).
-/

namespace Nachos.Processes

open Memory Monitor

variable {R K : ℕ → Prop} {d d' : Data} {t u r S T i j n : ℕ} {s : Stage} {p p' : Pos} {sp sp' : Space}
  {a : Choice} {e : Effect}

/-! ### Frames -/

/-- The address spaces stay, and those of the process table. -/
theorem Frame.of_same (hspaces : d'.spaces = d.spaces)
    (hmap : d'.processTable.map Process.space = d.processTable.map Process.space)
    (htable : ¬ K processLock → d'.processTable = d.processTable)
    (hliving : ∀ r, ¬ R r → (r ∈ d'.living ↔ r ∈ d.living))
    (hthread : ∀ r, ¬ R r → d'.space r = d.space r ∧ d'.stage r = d.stage r ∧
      d'.stackReg r = d.stackReg r ∧ d'.start r = d.start r)
    (hapart : ∀ S, (∀ r, R r → r ∈ d.living → d.space r ≠ some S) →
      ∀ r, R r → r ∈ d'.living → d'.space r ≠ some S) :
  Frame R K d d'
  where
  living := hliving
  space r hr := (hthread r hr).1
  stage r hr := (hthread r hr).2.1
  stackReg r hr := (hthread r hr).2.2.1
  start r hr := (hthread r hr).2.2.2
  spaces _ _ sp _ _ _ hS := ⟨sp, hspaces ▸ hS, rfl, fun _ _ => id⟩
  listed _ _ _ _ _ := (Data.listed_iff_of_map hmap).mpr
  apart S _ hS hR := ⟨hspaces ▸ hS, hapart S hR, (Data.listed_iff_of_map hmap).mp⟩
  table := htable

/-- The address space of the thread `r` changes, and the stage of its stack. -/
theorem Frame.of_setSpace (hr : R r) (hliving : r ∈ d.living) (hspace : d.space r = some S)
    (hS : d.spaces S = some sp) (hlock : sp'.queueLock = sp.queueLock)
    (hhead : ∀ n, ¬ K sp.queueLock → sp.numPageQueue.head? = some n →
      sp'.numPageQueue.head? = some n) :
  Frame R K d ((d.setSpace S sp').setStage r s)
  where
  living _ _ := Iff.rfl
  space _ _ := rfl
  stage a ha := by
    apply Function.update_of_ne
    rintro rfl
    exact ha hr
  stackReg _ _ := rfl
  start _ _ := rfl
  spaces a T tp ha hmem haT hT := by
    by_cases hTS : T = S
    · subst hTS
      obtain rfl := Option.some.inj (hS.symm.trans hT)
      exact ⟨sp', Function.update_self _ _ _, hlock, hhead⟩
    · exact ⟨tp, (Function.update_of_ne hTS _ _).trans hT, rfl, fun _ _ => id⟩
  listed _ _ _ _ _ := id
  apart T tp hT hR := by
    have hTS : T ≠ S := by
      rintro rfl
      exact hR r hr hliving hspace
    exact ⟨(Function.update_of_ne hTS _ _).trans hT, hR, id⟩
  table _ := rfl

/-- A thread comes to life in a new address space. -/
theorem Frame.admit (hok : d.Ok) (hr : R r) (hborn : Data.Born d d' r T s) (hT : d.spaces T = none)
    (hspaces : d'.spaces = Function.update d.spaces T (some sp))
    (hlisted : ∀ S, S ≠ T → (d'.Listed S ↔ d.Listed S))
    (htable : ¬ K processLock → d'.processTable = d.processTable)
    (hstackReg : ∀ a, a ≠ r → d'.stackReg a = d.stackReg a)
    (hstart : ∀ a, a ≠ r → d'.start a = d.start a) :
  Frame R K d d'
  := by
  have hother : ∀ {S tp}, d.spaces S = some tp → S ≠ T ∧ d'.spaces S = some tp := by
    intro S tp hS
    have hne : S ≠ T := by
      rintro rfl
      cases hT.symm.trans hS
    refine ⟨hne, ?_⟩
    rw [hspaces, Function.update_of_ne hne]
    exact hS
  have hne : ∀ a, ¬ R a → a ≠ r := by
    rintro a ha rfl
    exact ha hr
  refine ⟨?_, fun a ha => (hborn.of_ne (hne a ha)).1, fun a ha => (hborn.of_ne (hne a ha)).2,
    fun a ha => hstackReg a (hne a ha), fun a ha => hstart a (hne a ha), ?_, ?_, ?_, htable⟩
  · intro a ha
    rw [hborn.living, List.mem_cons]
    simp [hne a ha]
  · intro a S tp _ _ _ hS
    exact ⟨tp, (hother hS).2, rfl, fun _ _ => id⟩
  · intro a S _ hmem hS hlist
    obtain ⟨S', hS', hlive⟩ := hok.home a hmem
    obtain rfl := Option.some.inj (hS.symm.trans hS')
    obtain ⟨tp, htp⟩ := Option.isSome_iff_exists.mp hlive
    exact (hlisted S (hother htp).1).mpr hlist
  · intro S tp hS hR
    obtain ⟨hST, hS'⟩ := hother hS
    refine ⟨hS', ?_, (hlisted S hST).mp⟩
    intro a ha hmem haS
    by_cases har : a = r
    · subst har
      exact hST (Option.some.inj (haS.symm.trans hborn.self.1))
    · rw [hborn.living] at hmem
      exact hR a ha (List.mem_of_ne_of_mem har hmem) ((hborn.of_ne har).1.symm.trans haS)

/-! ### Locks -/

/-- An address space changes, but for its locks. -/
theorem Data.Locked.setSpace (h : d.Locked) (hS : d.spaces S = some sp)
    (hpage : sp'.pageLock = sp.pageLock) (hqueue : sp'.queueLock = sp.queueLock) :
  ((d.setSpace S sp').setStage r s).Locked
  := by
  refine ⟨h.nextLock, ?_⟩
  intro T tp hT
  by_cases hTS : T = S
  · subst hTS
    have hself : ((d.setSpace T sp').setStage r s).spaces T = some sp' := Function.update_self _ _ _
    obtain rfl := Option.some.inj (hself.symm.trans hT)
    rw [hpage, hqueue]
    exact h.spaces T sp hS
  · exact h.spaces T tp ((Function.update_of_ne hTS _ _).symm.trans hT)

/-- An address space is created. -/
theorem Data.Locked.createSpace (h : d.Locked) (S size : ℕ)
    (hspaces : d'.spaces = Function.update d.spaces S (some (d.newSpace size)))
    (hnextLock : d'.nextLock = d.nextLock + 2) :
  d'.Locked
  := by
  have hnext := h.nextLock
  refine ⟨by omega, ?_⟩
  intro T tp hT
  rw [hspaces] at hT
  by_cases hTS : T = S
  · subst hTS
    rw [Function.update_self] at hT
    obtain rfl := Option.some.inj hT
    simp only [Data.newSpace]
    omega
  · rw [Function.update_of_ne hTS] at hT
    exact h.spaces T tp hT

/-! ### What a step does -/

/-- The thread that makes the step, and those that it has created or creates. -/
def Own (t : ℕ) (p p' : Pos) (r : ℕ) : Prop := r = t ∨ p.child = some r ∨ p'.child = some r

/-- What holds before a step of the thread `t`. -/
structure Before (d : Data) (t : ℕ) (p : Pos) : Prop where
  ok : d.Ok
  fits : Fits d t p
  locked : d.Locked
  allocated : t ∈ d.allocated
  small : ∀ S i j n, p = .exitThread S i j → d.stage t = .recorded n → n ≤ 2 ^ 24
  child : ∀ u, p.child = some u → u ≠ t ∧ u ∈ d.allocated ∧ Fits d u .kernel
  leaving : p.settled → p.holds processLock → ∀ r n, r ≠ t → d.stage r = .recorded n → r ∈ d.living

/-- What holds after the step. -/
structure Moved (d : Data) (t : ℕ) (p : Pos) (d' : Data) (e : Effect) (p' : Pos) : Prop where
  ok : d'.Ok
  fits : Fits d' t p'
  child : ∀ u, p.child = some u ∨ p'.child = some u → Fits d' u .kernel
  frame : Frame (Own t p p') p.holds d d'
  flow : Flow p e p'
  locked : d'.Locked
  allocated : ∀ r ∈ d.allocated, r ∈ d'.allocated ∨ e = .park ∧ r = t
  new : ∀ u, p'.child = some u → p.child = some u ∨ u ∉ d.allocated ∧ u ∈ d'.allocated

/-- A step that does not change the data. -/
theorem Moved.refl (h : Before d t p) (hflow : Flow p e p') (hfits : Fits d t p')
    (hchild : ∀ u, p'.child = some u → p.child = some u) :
  Moved d t p d e p'
  where
  ok := h.ok
  fits := hfits
  child u hu := by
    obtain hu | hu := hu
    · exact (h.child u hu).2.2
    · exact (h.child u (hchild u hu)).2.2
  frame := Frame.refl _ _ _
  flow := hflow
  locked := h.locked
  allocated _ hr := .inl hr
  new u hu := .inl (hchild u hu)

/-- A thread that has been created and not woken. -/
theorem Data.Unborn.fits (h : d.Unborn u S s) (hlisted : d.Listed S) :
  Fits d u .kernel
  := by
  simp only [Fits, h.2]
  refine ⟨fun n _ => h.1.living, ?_⟩
  intro T _ hT
  obtain rfl := Option.some.inj (h.1.space.symm.trans hT)
  exact hlisted

/-! ### Stages -/

/-- The stack of the thread `r` of the address space `S` gets to the stage `s`. -/
structure Restaged (d d' : Data) (r : ℕ) (s : Stage) : Prop where
  living : d'.living = d.living
  space : d'.space = d.space
  stage : d'.stage = Function.update d.stage r s
  stackReg : d'.stackReg = d.stackReg
  start : d'.start = d.start

theorem Restaged.self (h : Restaged d d' r s) :
  d'.stage r = s
  := by
  rw [h.stage]
  exact Function.update_self _ _ _

theorem Restaged.placed {s' : Stage} (h : Restaged d d' r s') (hplaced : d.Placed r S s) :
  d'.Placed r S s'
  := ⟨h.living ▸ hplaced.living, h.space ▸ hplaced.space, h.self⟩

theorem Restaged.member (h : Restaged d d' r s) (hmember : d.Member t S) (hne : t ≠ r) :
  d'.Member t S
  := by
  obtain ⟨n, hplaced, hstack⟩ := hmember
  refine ⟨n, ⟨h.living ▸ hplaced.living, h.space ▸ hplaced.space, ?_⟩, h.stackReg ▸ hstack⟩
  rw [h.stage, Function.update_of_ne hne]
  exact hplaced.stage

theorem Restaged.fresh (h : Restaged d d' r s) (hfresh : d.Fresh r S) (hs : s.pages = some n)
    (hn : ∀ sp, d'.spaces S = some sp → n = sp.numPages) :
  d'.Fresh r S
  := by
  refine ⟨?_, ?_, ?_⟩
  · rw [h.living, h.space]
    exact hfresh.only
  · intro sp _ hwaiting
    rw [h.self] at hwaiting
    rw [hwaiting] at hs
    cases hs
  · intro sp m hS hm
    rw [h.self, hs] at hm
    obtain rfl := Option.some.inj hm
    exact hn sp hS

theorem Restaged.by {c : Caller} {s' : Stage} (h : Restaged d d' (c.thread t) s')
    (hby : d.By t S s c) (hne : ∀ u, c.child = some u → u ≠ t)
    (hfresh : d.Fresh (c.thread t) S → d'.Fresh (c.thread t) S)
    (hlisted : d.Listed S → d'.Listed S) (hback : c = .start → d'.Listed S → ∃ n, s' = .recorded n) :
  d'.By t S s' c
  := by
  cases c with
  | start =>
      obtain ⟨hplaced, hfresh', -⟩ := hby
      exact ⟨h.placed hplaced, hfresh hfresh', hback rfl⟩
  | exec S' u =>
      obtain ⟨hmember, ⟨hplaced, hstart⟩, hfresh', hlist⟩ := hby
      exact ⟨h.member hmember (hne u rfl).symm, ⟨h.placed hplaced, h.start ▸ hstart⟩,
        hfresh hfresh', hlisted hlist⟩
  | fork =>
      obtain ⟨hplaced, hlist⟩ := hby
      exact ⟨h.placed hplaced, hlisted hlist⟩

theorem spaces_self :
  ((d.setSpace S sp).setStage r s).spaces S = some sp
  := Function.update_self _ _ _

/-- The thread whose stack is determined has been created by the thread that makes the step. -/
theorem own_thread {c : Caller} (hc : p.child = c.child) :
  Own t p p' (c.thread t)
  := by
  cases c with
  | start | fork => exact .inl rfl
  | exec S u => exact .inr (.inl hc)

theorem Data.By.fits {c : Caller} (h : d.By t S s c) (hu : c.child = some u) :
  Fits d u .kernel
  := by
  cases c with
  | start | fork => cases hu
  | exec S' v =>
      obtain rfl := Option.some.inj hu
      exact h.2.1.fits h.2.2.2

/-! ### `getNumPages` -/

/-- The queue is not empty when a thread has not got its page count. -/
theorem Data.Ok.numPageQueue_ne_nil (h : d.Ok) (hplaced : d.Placed r S .waiting)
    (hS : d.spaces S = some sp) :
  sp.numPageQueue ≠ []
  := by
  have hlength := (h.stacked S sp hS).length
  have hpos : 0 < d.waiting S :=
    List.countP_pos_iff.mpr ⟨r, hplaced.living, by simp [hplaced.space, hplaced.stage]⟩
  rintro hnil
  rw [hnil] at hlength
  simp only [List.length_nil] at hlength
  omega

theorem Before.pages {c : Caller} {L : ℕ} (h : Before d t (.pages c S L))
    (hadvance : advance t d (.pages c S L) a = some (d', e, p')) :
  Moved d t (.pages c S L) d' e p'
  := by
  obtain ⟨hby, hlock⟩ := h.fits
  obtain ⟨sp, hS, hL⟩ := hlock
  have hne := h.ok.numPageQueue_ne_nil hby.placed hS
  obtain ⟨numPages, queue, pageLock, queueLock⟩ := sp
  cases queue with
  | nil => exact absurd rfl hne
  | cons n queue =>
      simp only [advance, hS, Option.some.injEq, Prod.mk.injEq] at hadvance
      obtain ⟨rfl, rfl, rfl⟩ := hadvance
      exact Moved.refl h (.pages c S L n) ⟨hby, ⟨_, hS, hL⟩, _, hS, rfl⟩ (fun u hu => hu)

theorem Before.front {c : Caller} {L : ℕ} (h : Before d t (.front c S L n))
    (hadvance : advance t d (.front c S L n) a = some (d', e, p')) :
  Moved d t (.front c S L n) d' e p'
  := by
  obtain ⟨hby, ⟨sp, hS, rfl⟩, tp, hT, hhead⟩ := h.fits
  obtain rfl := Option.some.inj (hS.symm.trans hT)
  obtain ⟨numPages, queue, pageLock, queueLock⟩ := sp
  obtain ⟨queue, rfl⟩ := List.head?_eq_some_iff.mp hhead
  simp only [advance, hS, Option.some.injEq, Prod.mk.injEq] at hadvance
  obtain ⟨rfl, rfl, rfl⟩ := hadvance
  have hplaced := hby.placed
  have hrestaged : Restaged d ((d.setSpace S ⟨numPages, queue, pageLock, queueLock⟩).setStage
      (c.thread t) (.got n)) (c.thread t) (.got n) := ⟨rfl, rfl, rfl, rfl, rfl⟩
  have hby' := hrestaged.by hby (fun u hu => (h.child u hu).1)
    (by
      intro hfresh
      apply hrestaged.fresh hfresh rfl
      intro sp hsp
      rw [spaces_self] at hsp
      obtain rfl := Option.some.inj hsp
      have hqueue := hfresh.waiting _ hS hplaced.stage
      exact (List.cons.inj hqueue).1)
    id
    (by
      rintro rfl hlisted
      obtain ⟨m, hm⟩ := hby.2.2 hlisted
      cases hm)
  refine ⟨h.ok.pop hplaced.living hplaced.space hplaced.stage hS, hby', ?_, ?_, .front c S _ n,
    h.locked.setSpace hS rfl rfl, fun _ hr => .inl hr, fun _ hu => .inl hu⟩
  · intro u hu
    exact hby'.fits (by simpa [Pos.child] using hu)
  · refine Frame.of_setSpace (own_thread rfl) hplaced.living hplaced.space hS rfl ?_
    intro m hK
    exact absurd rfl hK

/-! ### The process table -/

/-- The process of an address space is found. -/
theorem Data.Listed.findProcess (h : d.Listed S) :
  ∃ i, d.findProcess S = some i ∧ d.HasIndex S i
  := by
  obtain ⟨q, hq, hqS⟩ := h
  cases hfind : d.findProcess S with
  | none =>
      have hnone := List.findIdx?_eq_none_iff.mp hfind q hq
      simp [hqS] at hnone
  | some i =>
      obtain ⟨hlt, hi, -⟩ := List.findIdx?_eq_some_iff_getElem.mp hfind
      exact ⟨i, rfl, d.processTable[i], List.getElem?_eq_getElem hlt, by simpa using hi⟩

/-- A process with only one thread. -/
theorem Data.Fresh.threads (h : d.Fresh t S) (hok : d.Ok) (hplaced : d.Placed t S s) :
  d.threads S = 1
  := by
  rw [← List.count_eq_one_of_mem hok.living hplaced.living, List.count]
  apply List.countP_congr
  intro r hr
  rw [decide_eq_true_eq, beq_iff_eq]
  constructor
  · exact h.only r hr
  · rintro rfl
    exact hplaced.space

theorem Before.recording {c : Caller} (h : Before d t (.recording c S n))
    (hadvance : advance t d (.recording c S n) a = some (d', e, p')) :
  Moved d t (.recording c S n) d' e p'
  := by
  have hby : d.By t S (.got n) c := h.fits
  cases c with
  | start =>
      simp only [advance, Option.some.injEq, Prod.mk.injEq] at hadvance
      obtain ⟨rfl, rfl, rfl⟩ := hadvance
      obtain ⟨hplaced, hfresh, hlisted⟩ := hby
      have hunlisted : ¬ d.Listed S := by
        intro hlist
        obtain ⟨m, hm⟩ := hlisted hlist
        cases hm
      have hrestaged : Restaged d ((d.pushProcess ⟨S, 1, [(t, stackOf n)]⟩).setStage t (.recorded n))
          t (.recorded n) := ⟨rfl, rfl, rfl, rfl, rfl⟩
      have hgrows : ∀ {T}, d.Listed T →
          ((d.pushProcess ⟨S, 1, [(t, stackOf n)]⟩).setStage t (.recorded n)).Listed T := by
        rintro T ⟨q, hq, hqT⟩
        exact ⟨q, List.mem_append_left _ hq, hqT⟩
      have hfresh' := hrestaged.fresh hfresh rfl
        (fun sp hsp => hfresh.taken sp n hsp (by rw [hplaced.stage]; rfl))
      refine ⟨h.ok.start hplaced.living hplaced.space hplaced.stage
        (hfresh.threads h.ok hplaced) hunlisted,
        ⟨hrestaged.placed hplaced, hfresh', fun _ => ⟨n, rfl⟩⟩, ?_, ?_, .recordingStart S n,
        ⟨h.locked.nextLock, h.locked.spaces⟩, fun _ hr => .inl hr, fun _ hu => .inl hu⟩
      · intro u hu
        simp [Pos.child, Caller.child] at hu
      · refine ⟨fun _ _ => Iff.rfl, fun _ _ => rfl, ?_, fun _ _ => rfl, fun _ _ => rfl,
          fun r S sp _ _ _ hS => ⟨sp, hS, rfl, fun _ _ => id⟩, fun r T _ _ _ => hgrows, ?_, ?_⟩
        · intro r hr
          apply Function.update_of_ne
          rintro rfl
          exact hr (.inl rfl)
        · intro T sp hT hR
          refine ⟨hT, hR, ?_⟩
          rintro ⟨q, hq, rfl⟩
          obtain hq | hq := List.mem_append.mp hq
          · exact ⟨q, hq, rfl⟩
          · obtain rfl := List.mem_singleton.mp hq
            exact absurd hplaced.space (hR t (.inl rfl) hplaced.living)
        · intro hK
          exact absurd rfl hK
  | exec S' u =>
      simp only [advance, Option.some.injEq, Prod.mk.injEq] at hadvance
      obtain ⟨rfl, rfl, rfl⟩ := hadvance
      obtain ⟨i, hi, hindex⟩ := hby.2.2.2.findProcess
      rw [hi]
      exact Moved.refl h (.recording _ S n i) ⟨hby, by simp, i, rfl, hindex⟩ (fun u hu => hu)
  | fork =>
      simp only [advance, Option.some.injEq, Prod.mk.injEq] at hadvance
      obtain ⟨rfl, rfl, rfl⟩ := hadvance
      obtain ⟨i, hi, hindex⟩ := hby.2.findProcess
      rw [hi]
      exact Moved.refl h (.recording _ S n i) ⟨hby, by simp, i, rfl, hindex⟩ (fun u hu => hu)

theorem Before.found {c : Caller} {i : Option ℕ} (h : Before d t (.found c S n i))
    (hadvance : advance t d (.found c S n i) a = some (d', e, p')) :
  Moved d t (.found c S n i) d' e p'
  := by
  obtain ⟨hby, hc, i, rfl, q, hi, hq⟩ := h.fits
  simp only [advance, Option.some.injEq, Prod.mk.injEq] at hadvance
  obtain ⟨rfl, rfl, rfl⟩ := hadvance
  have hplaced := hby.placed
  have hrestaged : Restaged d ((d.modify i (fun p => { p with
      threadStacks := p.threadStacks ++ [(c.thread t, stackOf n)] })).setStage (c.thread t)
      (.recorded n)) (c.thread t) (.recorded n) := ⟨rfl, rfl, rfl, rfl, rfl⟩
  have hmap := @Data.map_space_modify d i
    (fun p => { p with threadStacks := p.threadStacks ++ [(c.thread t, stackOf n)] }) (fun _ => rfl)
  have hby' := hrestaged.by hby (fun u hu => (h.child u hu).1)
    (fun hfresh => hrestaged.fresh hfresh rfl
      (fun sp hsp => hfresh.taken sp n hsp (by rw [hplaced.stage]; rfl)))
    (Data.listed_iff_of_map hmap).mpr (fun heq => absurd heq hc)
  refine ⟨h.ok.record hplaced.living (hq ▸ hplaced.space) hplaced.stage hi, hby', ?_, ?_,
    .found c S n i, ⟨h.locked.nextLock, h.locked.spaces⟩, fun _ hr => .inl hr, fun _ hu => .inl hu⟩
  · intro u hu
    exact hby'.fits (by simpa [Pos.child] using hu)
  · refine Frame.of_same rfl hmap (fun hK => absurd rfl hK) (fun _ _ => Iff.rfl) ?_ (fun _ => id)
    intro r hr
    refine ⟨rfl, ?_, rfl, rfl⟩
    apply Function.update_of_ne
    rintro rfl
    exact hr (own_thread rfl)

/-! ### `InitRegisters` and `t->Fork` -/

/-- The stack registers and the functions that threads have been forked with change only for threads
in `R`. -/
theorem Frame.register {f : ℕ → Option Start} {g : ℕ → Option ℕ} (hf : ∀ r, ¬ R r → f r = d.start r)
    (hg : ∀ r, ¬ R r → g r = d.stackReg r) :
  Frame R K d { d with start := f, stackReg := g }
  := Frame.of_same rfl rfl (fun _ => rfl) (fun _ _ => Iff.rfl) (fun r hr => ⟨rfl, rfl, hg r hr, hf r hr⟩)
    (fun _ => id)

/-- The thread `t` reaches user code. -/
theorem Moved.user (h : Before d t p) (hflow : Flow p .compute (.user S))
    (hplaced : d.Placed t S (.recorded n)) (hchild : p.child = none) :
  Moved d t p { d with stackReg := Function.update d.stackReg t (some (stackOf n)) } .compute (.user S)
  := by
  refine ⟨h.ok.register d.start _, ⟨n, ⟨hplaced.living, hplaced.space, hplaced.stage⟩,
    Function.update_self _ _ _⟩, ?_, ?_, hflow, ⟨h.locked.nextLock, h.locked.spaces⟩,
    fun _ hr => .inl hr, fun _ hu => by cases hu⟩
  · rintro u (hu | hu)
    · cases hchild.symm.trans hu
    · cases hu
  · refine Frame.register (fun _ _ => rfl) ?_
    intro r hr
    apply Function.update_of_ne
    rintro rfl
    exact hr (.inl rfl)

/-- The thread `u` is woken. -/
theorem Moved.wake {f : Start} (h : Before d t p) (hflow : Flow p (.wake u) (.user S))
    (hmember : d.Member t S) (hchild : p.child = some u)
    (hfits : Fits { d with start := Function.update d.start u (some f) } u .kernel) :
  Moved d t p { d with start := Function.update d.start u (some f) } (.wake u) (.user S)
  := by
  obtain ⟨n, hplaced, hstack⟩ := hmember
  refine ⟨h.ok.register _ d.stackReg, ⟨n, ⟨hplaced.living, hplaced.space, hplaced.stage⟩, hstack⟩,
    ?_, ?_, hflow, ⟨h.locked.nextLock, h.locked.spaces⟩, fun _ hr => .inl hr,
    fun _ hu => by cases hu⟩
  · rintro v (hv | hv)
    · obtain rfl := Option.some.inj (hchild.symm.trans hv)
      exact hfits
    · cases hv
  · refine Frame.register ?_ (fun _ _ => rfl)
    intro r hr
    apply Function.update_of_ne
    rintro rfl
    exact hr (.inr (.inl hchild))

theorem Before.running {c : Caller} (h : Before d t (.running c S n))
    (hadvance : advance t d (.running c S n) a = some (d', e, p')) :
  Moved d t (.running c S n) d' e p'
  := by
  have hby : d.By t S (.recorded n) c := h.fits
  cases c with
  | start =>
      obtain ⟨hplaced, hfresh, -⟩ := hby
      simp only [advance] at hadvance
      split at hadvance
      · rename_i sp hS
        simp only [Option.some.injEq, Prod.mk.injEq] at hadvance
        obtain ⟨rfl, rfl, rfl⟩ := hadvance
        rw [← hfresh.taken sp n hS (by rw [hplaced.stage]; rfl)]
        exact Moved.user h (.running _ S n rfl) hplaced rfl
      · cases hadvance
  | exec S' u =>
      obtain ⟨hmember, ⟨hplaced, -⟩, hfresh, -⟩ := hby
      simp only [advance, Option.some.injEq, Prod.mk.injEq] at hadvance
      obtain ⟨rfl, rfl, rfl⟩ := hadvance
      apply Moved.wake h (.runningExec S' S u n) hmember rfl
      simp only [Fits, Function.update_self]
      exact ⟨S, n, ⟨hplaced.living, hplaced.space, hplaced.stage⟩,
        hfresh.only, hfresh.waiting, hfresh.taken⟩
  | fork =>
      simp only [advance, Option.some.injEq, Prod.mk.injEq] at hadvance
      obtain ⟨rfl, rfl, rfl⟩ := hadvance
      exact Moved.user h (.running _ S n rfl) hby.1 rfl

theorem Before.forkReady (h : Before d t (.forkReady S u))
    (hadvance : advance t d (.forkReady S u) a = some (d', e, p')) :
  Moved d t (.forkReady S u) d' e p'
  := by
  obtain ⟨hmember, ⟨hplaced, -⟩, hlisted⟩ := h.fits
  simp only [advance, Option.some.injEq, Prod.mk.injEq] at hadvance
  obtain ⟨rfl, rfl, rfl⟩ := hadvance
  apply Moved.wake h (.forkReady S u) hmember rfl
  simp only [Fits, Function.update_self]
  exact ⟨S, ⟨hplaced.living, hplaced.space, hplaced.stage⟩, hlisted⟩

/-! ### Threads that are created -/

/-- The first thread of a new address space. -/
theorem Data.Born.fresh (h : Data.Born d d' r T .waiting) (hok : d.Ok) (hT : d.spaces T = none)
    (hqueue : sp.numPageQueue = [sp.numPages])
    (hspaces : d'.spaces = Function.update d.spaces T (some sp)) :
  d'.Fresh r T
  := by
  have hsp : ∀ tp, d'.spaces T = some tp → tp = sp := by
    intro tp htp
    rw [hspaces, Function.update_self] at htp
    exact (Option.some.inj htp).symm
  refine ⟨?_, ?_, ?_⟩
  · intro b hb hbT
    by_contra hne
    rw [h.living] at hb
    obtain ⟨S, hS, hlive⟩ := hok.home b (List.mem_of_ne_of_mem hne hb)
    rw [(h.of_ne hne).1] at hbT
    obtain rfl := Option.some.inj (hbT.symm.trans hS)
    rw [hT] at hlive
    cases hlive
  · intro tp htp _
    rw [hsp tp htp]
    exact hqueue
  · intro tp n _ hn
    rw [h.self.2] at hn
    cases hn

theorem newSpace_numPages (size : ℕ) (d : Data) :
  8 ≤ (d.newSpace size).numPages
  := by
  simp only [Data.newSpace, divRoundUp, UserStackSize, PageSize]
  omega

theorem newSpace_numPageQueue (size : ℕ) (d : Data) :
  (d.newSpace size).numPageQueue = [(d.newSpace size).numPages]
  := rfl

/-- An address space that does not exist is not in the process table. -/
theorem Data.Ok.unlisted (h : d.Ok) (hT : d.spaces T = none) :
  ¬ d.Listed T
  := by
  rintro ⟨q, hq, rfl⟩
  have hlive := h.live q hq
  rw [hT] at hlive
  cases hlive

theorem Before.kernel (h : Before d t .kernel) (hnext : next t .kernel d a = some (d', e, p')) :
  Moved d t .kernel d' e p'
  := by
  have hfits := h.fits
  simp only [Fits] at hfits
  simp only [next] at hnext
  split at hnext
  · -- StartProcess
    rename_i S size v hstart hspace
    split at hnext
    · cases hnext
    · rename_i hS
      have hT : d.spaces S = none := by simpa using hS
      simp only [Option.some.injEq, Prod.mk.injEq] at hnext
      obtain ⟨rfl, rfl, rfl⟩ := hnext
      have hdead : t ∉ d.living := by
        intro hmem
        obtain ⟨T, hT, -⟩ := h.ok.home t hmem
        cases hspace.symm.trans hT
      set d' : Data := { d.createSpace S size with
        space := Function.update (d.createSpace S size).space t (some S)
        living := t :: (d.createSpace S size).living
        stage := Function.update (d.createSpace S size).stage t .waiting
        stackReg := Function.update (d.createSpace S size).stackReg t none }
      have hborn : Data.Born d d' t S .waiting := ⟨hdead, rfl, rfl, rfl⟩
      have hfresh := hborn.fresh h.ok hT (newSpace_numPageQueue size d) rfl
      refine ⟨?_, ⟨⟨?_, hfresh, ?_⟩, d.newSpace size, Function.update_self _ _ _, rfl⟩, ?_, ?_,
        .startProcess S _, h.locked.createSpace S size rfl rfl, fun _ hr => .inl hr, fun _ hu => .inl hu⟩
      · refine h.ok.admit hborn hT (newSpace_numPages size d) (newSpace_numPageQueue size d) rfl rfl (fun _ => id) h.allocated ?_
        rintro q hq e he rfl
        obtain ⟨-, hS', -⟩ := (h.ok.entries q hq).entry e he
        cases hspace.symm.trans hS'
      · exact ⟨List.mem_cons_self, hborn.self.1, hborn.self.2⟩
      · intro hlisted
        exact absurd hlisted (h.ok.unlisted hT)
      · intro u hu
        simp [Pos.child, Caller.child] at hu
      · refine Frame.admit h.ok (.inl rfl) hborn hT rfl (fun _ _ => Iff.rfl) (fun _ => rfl) ?_
          (fun _ _ => rfl)
        intro b hb
        exact Function.update_of_ne hb _ _
  · -- Exec_Thread
    rename_i S hstart hspace
    rw [hstart] at hfits
    obtain ⟨S', n, hplaced, hfresh⟩ := hfits
    obtain rfl := Option.some.inj (hspace.symm.trans hplaced.space)
    split at hnext
    · rename_i sp hS
      simp only [Option.some.injEq, Prod.mk.injEq] at hnext
      obtain ⟨rfl, rfl, rfl⟩ := hnext
      rw [← hfresh.taken sp n hS (by rw [hplaced.stage]; rfl)]
      exact Moved.user h (.execThread S) hplaced rfl
    · cases hnext
  · -- Fork_Thread
    rename_i S hstart hspace
    rw [hstart] at hfits
    obtain ⟨S', hplaced, hlisted⟩ := hfits
    obtain rfl := Option.some.inj (hspace.symm.trans hplaced.space)
    split at hnext
    · rename_i sp hS
      simp only [Option.some.injEq, Prod.mk.injEq] at hnext
      obtain ⟨rfl, rfl, rfl⟩ := hnext
      exact Moved.refl h (.forkThread S _) ⟨⟨hplaced, hlisted⟩, sp, hS, rfl⟩ (fun u hu => hu)
    · cases hnext
  · cases hnext

/-- A thread that has reached user code stays there when another thread comes to life. -/
theorem Data.Member.born (h : d.Member t S) (hborn : Data.Born d d' r T s)
    (hstackReg : d'.stackReg = Function.update d.stackReg r none) :
  d'.Member t S
  := by
  obtain ⟨n, hplaced, hstack⟩ := h
  have hne := hborn.ne hplaced.living
  obtain ⟨hspace, hstage⟩ := hborn.of_ne hne
  refine ⟨n, ⟨?_, hspace.trans hplaced.space, hstage.trans hplaced.stage⟩, ?_⟩
  · rw [hborn.living]
    exact List.mem_cons_of_mem r hplaced.living
  · rw [hstackReg, Function.update_of_ne hne]
    exact hstack

/-- A process that has reached user code is in the process table. -/
theorem Data.Member.listed (h : d.Member t S) (hok : d.Ok) :
  d.Listed S
  := by
  obtain ⟨n, hplaced, -⟩ := h
  exact hok.listed t S n hplaced.space hplaced.stage

theorem Before.exec (h : Before d t (.exec S))
    (hadvance : advance t d (.exec S) a = some (d', e, p')) :
  Moved d t (.exec S) d' e p'
  := by
  have hmember : d.Member t S := h.fits
  cases a with
  | exec | fork | exit | go => cases hadvance
  | create T size u =>
      simp only [advance] at hadvance
      split at hadvance
      · cases hadvance
      · rename_i hnew
        rw [not_or] at hnew
        have hT : d.spaces T = none := by simpa using hnew.1
        simp only [Option.some.injEq, Prod.mk.injEq] at hadvance
        obtain ⟨rfl, rfl, rfl⟩ := hadvance
        set d₁ := (d.createSpace T size).createThread u T .waiting
        have hborn : Data.Born d d₁ u T .waiting :=
          ⟨fun hu => hnew.2 (h.ok.allocated u hu), rfl, rfl, rfl⟩
        have hfresh := hborn.fresh h.ok hT (newSpace_numPageQueue size d) rfl
        have hplaced : d₁.Placed u T .waiting := ⟨List.mem_cons_self, hborn.self.1, hborn.self.2⟩
        have hok : d₁.Ok := by
          refine h.ok.admit hborn hT (newSpace_numPages size d) (newSpace_numPageQueue size d) rfl rfl
            (fun _ => List.mem_cons_of_mem u) List.mem_cons_self ?_
          rintro q hq b hb rfl
          exact hnew.2 ((h.ok.entries q hq).entry b hb).1
        have hlive : (d₁.spaces T).isSome := by
          have hself : d₁.spaces T = some (d.newSpace size) := Function.update_self _ _ _
          rw [hself]
          rfl
        have hunborn : (d₁.pushProcess ⟨T, 1, []⟩).Unborn u T .waiting :=
          ⟨⟨hplaced.living, hplaced.space, hplaced.stage⟩, Function.update_self _ _ _⟩
        have hmember' : (d₁.pushProcess ⟨T, 1, []⟩).Member t S := by
          obtain ⟨n, hn, hstack⟩ := hmember.born hborn rfl
          exact ⟨n, ⟨hn.living, hn.space, hn.stage⟩, hstack⟩
        have hlisted : (d₁.pushProcess ⟨T, 1, []⟩).Listed T :=
          ⟨⟨T, 1, []⟩, List.mem_append_right _ List.mem_cons_self, rfl⟩
        refine ⟨hok.push hlive (hfresh.threads hok hplaced) (h.ok.unlisted hT), ?_, ?_, ?_,
          .exec S T u, h.locked.createSpace T size rfl rfl,
          fun _ hr => .inl (List.mem_cons_of_mem u hr), ?_⟩
        · exact ⟨hmember', hunborn, ⟨hfresh.only, hfresh.waiting, hfresh.taken⟩, hlisted⟩
        · rintro v (hv | hv)
          · cases hv
          · obtain rfl := Option.some.inj hv
            exact hunborn.fits hlisted
        · have hborn' : Data.Born d (d₁.pushProcess ⟨T, 1, []⟩) u T .waiting :=
            ⟨hborn.unborn, rfl, rfl, rfl⟩
          have hspaces : (d₁.pushProcess ⟨T, 1, []⟩).spaces =
              Function.update d.spaces T (some (d.newSpace size)) := rfl
          refine Frame.admit h.ok (.inr (.inr rfl)) hborn' hT hspaces ?_ (fun hK => absurd rfl hK)
            (fun b hb => Function.update_of_ne hb _ _) (fun b hb => Function.update_of_ne hb _ _)
          intro S' hne
          constructor
          · rintro ⟨q, hq, rfl⟩
            obtain hq | hq := List.mem_append.mp hq
            · exact ⟨q, hq, rfl⟩
            · obtain rfl := List.mem_singleton.mp hq
              exact absurd rfl hne
          · rintro ⟨q, hq, rfl⟩
            exact ⟨q, List.mem_append_left _ hq, rfl⟩
        · intro v hv
          obtain rfl := Option.some.inj hv
          exact .inr ⟨hnew.2, List.mem_cons_self⟩

theorem Before.execMade (h : Before d t (.execMade S T u))
    (hadvance : advance t d (.execMade S T u) a = some (d', e, p')) :
  Moved d t (.execMade S T u) d' e p'
  := by
  have hby : d.By t T .waiting (.exec S u) := h.fits
  simp only [advance] at hadvance
  split at hadvance
  · rename_i sp hT
    simp only [Option.some.injEq, Prod.mk.injEq] at hadvance
    obtain ⟨rfl, rfl, rfl⟩ := hadvance
    exact Moved.refl h (.execMade S T u _) ⟨hby, sp, hT, rfl⟩ (fun v hv => hv)
  · cases hadvance

theorem Before.fork (h : Before d t (.fork S))
    (hadvance : advance t d (.fork S) a = some (d', e, p')) :
  Moved d t (.fork S) d' e p'
  := by
  have hmember : d.Member t S := h.fits
  simp only [advance, Option.some.injEq, Prod.mk.injEq] at hadvance
  obtain ⟨rfl, rfl, rfl⟩ := hadvance
  obtain ⟨i, hi, hindex⟩ := (hmember.listed h.ok).findProcess
  rw [hi]
  exact Moved.refl h (.fork S i) ⟨hmember, i, rfl, hindex⟩ (fun v hv => hv)

theorem Before.forkFound {i : Option ℕ} (h : Before d t (.forkFound S i))
    (hadvance : advance t d (.forkFound S i) a = some (d', e, p')) :
  Moved d t (.forkFound S i) d' e p'
  := by
  obtain ⟨hmember, i, rfl, q, hi, rfl⟩ := h.fits
  cases a with
  | exec | fork | exit | go => cases hadvance
  | create T size u =>
      simp only [advance] at hadvance
      split at hadvance
      · cases hadvance
      · rename_i hu
        simp only [Option.some.injEq, Prod.mk.injEq] at hadvance
        obtain ⟨rfl, rfl, rfl⟩ := hadvance
        set d' := (d.modify i (fun p => { p with numThreads := p.numThreads + 1 })).createThread u
          q.space .unallocated
        have hborn : Data.Born d d' u q.space .unallocated :=
          ⟨fun hmem => hu (h.ok.allocated u hmem), rfl, rfl, rfl⟩
        have hmap : d'.processTable.map Process.space = d.processTable.map Process.space :=
          Data.map_space_modify (fun _ => rfl)
        have hunborn : d'.Unborn u q.space .unallocated :=
          ⟨⟨List.mem_cons_self, hborn.self.1, hborn.self.2⟩, Function.update_self _ _ _⟩
        have hlisted := (Data.listed_iff_of_map hmap).mpr (hmember.listed h.ok)
        refine ⟨h.ok.fork hu hi, ⟨hmember.born hborn rfl, hunborn, hlisted⟩, ?_, ?_, .forkFound _ i u,
          ⟨h.locked.nextLock, h.locked.spaces⟩, fun _ hr => .inl (List.mem_cons_of_mem u hr), ?_⟩
        · rintro v (hv | hv)
          · cases hv
          · obtain rfl := Option.some.inj hv
            exact hunborn.fits hlisted
        · have hne : ∀ r, ¬ Own t (.forkFound q.space (some i)) (.forkMade q.space u) r → r ≠ u := by
            rintro r hr rfl
            exact hr (.inr (.inr rfl))
          refine Frame.of_same rfl hmap (fun hK => absurd rfl hK) ?_ ?_ ?_
          · intro r hr
            rw [hborn.living, List.mem_cons]
            simp [hne r hr]
          · intro r hr
            obtain ⟨hspace, hstage⟩ := hborn.of_ne (hne r hr)
            exact ⟨hspace, hstage, Function.update_of_ne (hne r hr) _ _,
              Function.update_of_ne (hne r hr) _ _⟩
          · intro S hR r hr hmem hS
            obtain ⟨n, hplaced, -⟩ := hmember
            by_cases hru : r = u
            · subst hru
              obtain rfl := Option.some.inj (hS.symm.trans hborn.self.1)
              exact hR t (.inl rfl) hplaced.living hplaced.space
            · rw [hborn.living] at hmem
              exact hR r hr (List.mem_of_ne_of_mem hru hmem) ((hborn.of_ne hru).1.symm.trans hS)
        · intro v hv
          obtain rfl := Option.some.inj hv
          exact .inr ⟨hu, List.mem_cons_self⟩

/-! ### `allocateStack` -/

theorem Before.forkMade (h : Before d t (.forkMade S u))
    (hadvance : advance t d (.forkMade S u) a = some (d', e, p')) :
  Moved d t (.forkMade S u) d' e p'
  := by
  obtain ⟨hmember, hunborn, hlisted⟩ := h.fits
  simp only [advance] at hadvance
  split at hadvance
  · rename_i sp hS
    simp only [Option.some.injEq, Prod.mk.injEq] at hadvance
    obtain ⟨rfl, rfl, rfl⟩ := hadvance
    exact Moved.refl h (.forkMade S u _) ⟨hmember, hunborn, hlisted, (h.locked.spaces S sp hS).1⟩
      (fun v hv => hv)
  · cases hadvance

theorem Before.stackPage {L : ℕ} (h : Before d t (.stackPage S u L))
    (hadvance : advance t d (.stackPage S u L) a = some (d', e, p')) :
  Moved d t (.stackPage S u L) d' e p'
  := by
  obtain ⟨hmember, hunborn, hlisted, hL⟩ := h.fits
  simp only [advance] at hadvance
  split at hadvance
  · rename_i sp hS
    simp only [Option.some.injEq, Prod.mk.injEq] at hadvance
    obtain ⟨rfl, rfl, rfl⟩ := hadvance
    exact Moved.refl h (.stackPage S u L _)
      ⟨hmember, hunborn, hlisted, hL, (h.locked.spaces S sp hS).2⟩ (fun v hv => hv)
  · cases hadvance

theorem Before.stackQueue {L M : ℕ} (h : Before d t (.stackQueue S u L M))
    (hadvance : advance t d (.stackQueue S u L M) a = some (d', e, p')) :
  Moved d t (.stackQueue S u L M) d' e p'
  := by
  obtain ⟨hmember, ⟨hplaced, hstart⟩, hlisted, hL⟩ := h.fits
  simp only [advance] at hadvance
  split at hadvance
  · rename_i sp hS
    simp only [Option.some.injEq, Prod.mk.injEq] at hadvance
    obtain ⟨rfl, rfl, rfl⟩ := hadvance
    set tp : Space := { sp with
      numPages := sp.numPages + 8, numPageQueue := sp.numPageQueue ++ [sp.numPages + 8] }
    have hrestaged : Restaged d ((d.setSpace S tp).setStage u .waiting) u .waiting :=
      ⟨rfl, rfl, rfl, rfl, rfl⟩
    have hunborn : ((d.setSpace S tp).setStage u .waiting).Unborn u S .waiting :=
      ⟨hrestaged.placed hplaced, hstart⟩
    refine ⟨h.ok.grow hplaced.living hplaced.space hplaced.stage hS,
      ⟨hrestaged.member hmember (h.child u rfl).1.symm, hunborn, hlisted, hL⟩, ?_, ?_,
      .stackQueue S u L M, h.locked.setSpace hS rfl rfl, fun _ hr => .inl hr, fun _ hu => .inl hu⟩
    · rintro v (hv | hv)
      · obtain rfl := Option.some.inj hv
        exact hunborn.fits hlisted
      · obtain rfl := Option.some.inj hv
        exact hunborn.fits hlisted
    · refine Frame.of_setSpace (.inr (.inl rfl)) hplaced.living hplaced.space hS rfl ?_
      intro n _ hn
      obtain ⟨queue, hqueue⟩ := List.head?_eq_some_iff.mp hn
      simp [tp, hqueue]
  · cases hadvance

/-! ### `Exit_Syscall` -/

theorem Before.exit (h : Before d t (.exit S))
    (hadvance : advance t d (.exit S) a = some (d', e, p')) :
  Moved d t (.exit S) d' e p'
  := by
  have hmember : d.Member t S := h.fits
  obtain ⟨i, hi, hindex⟩ := (hmember.listed h.ok).findProcess
  simp only [advance, hi, Option.some.injEq, Prod.mk.injEq] at hadvance
  obtain ⟨rfl, rfl, rfl⟩ := hadvance
  exact Moved.refl h (.exit S i) ⟨hmember, hindex⟩ (fun v hv => hv)

/-- The process loses a thread, or is deleted. -/
theorem Before.exitFound (h : Before d t (.exitFound S i))
    (hadvance : advance t d (.exitFound S i) a = some (d', e, p')) :
  Moved d t (.exitFound S i) d' e p'
  := by
  obtain ⟨⟨n, hplaced, -⟩, q, hi, rfl⟩ := h.fits
  have hspace := hplaced.space
  have hq := List.mem_of_getElem? hi
  have hgone : t ∉ d.living.erase t := h.ok.living.not_mem_erase
  have hliving : ∀ {p'}, ∀ r, ¬ Own t (.exitFound q.space i) p' r →
      (r ∈ d.living.erase t ↔ r ∈ d.living) := by
    intro p' r hr
    apply List.mem_erase_of_ne
    rintro rfl
    exact hr (.inl rfl)
  simp only [advance, hi] at hadvance
  split at hadvance
  · simp only [Option.some.injEq, Prod.mk.injEq] at hadvance
    obtain ⟨rfl, rfl, rfl⟩ := hadvance
    have hmap := @Data.map_space_modify d i (fun p => { p with numThreads := p.numThreads - 1 })
      (fun _ => rfl)
    have hlow : 8 ≤ n := by
      obtain ⟨S, hS, hlive⟩ := h.ok.home t hplaced.living
      obtain ⟨sp, hsp⟩ := Option.isSome_iff_exists.mp hlive
      exact ((h.ok.stacked S sp hsp).taken t hplaced.living hS n (by rw [hplaced.stage]; rfl)).1
    have hindex : (d.modify i (fun p => { p with numThreads := p.numThreads - 1 })).HasIndex q.space i :=
      ⟨{ q with numThreads := q.numThreads - 1 }, by simp [Data.modify, hi], rfl⟩
    refine ⟨h.ok.leave hplaced.living hspace hplaced.stage hi,
      ⟨n, hgone, hspace, hplaced.stage, hindex, hlow⟩, ?_, ?_, .exitFound _ i,
      ⟨h.locked.nextLock, h.locked.spaces⟩, fun _ hr => .inl hr, fun _ hu => by cases hu⟩
    · rintro v (hv | hv) <;> cases hv
    · refine Frame.of_same rfl hmap (fun hK => absurd rfl hK) hliving
        (fun _ _ => ⟨rfl, rfl, rfl, rfl⟩) ?_
      rintro S hR r (rfl | hr | hr) hmem
      · exact absurd hmem hgone
      · cases hr
      · cases hr
  · rename_i hone
    split at hadvance
    · cases hadvance
    · simp only [Option.some.injEq, Prod.mk.injEq] at hadvance
      obtain ⟨rfl, rfl, rfl⟩ := hadvance
      have hnone : ∀ r n, r ∉ d.living → d.space r = some q.space → d.stage r ≠ .recorded n := by
        intro r n hr _ hn
        have hrt : r ≠ t := by
          rintro rfl
          exact hr hplaced.living
        exact hr (h.leaving trivial rfl r n hrt hn)
      have honly := h.ok.only hq hplaced.living hspace (by omega)
      refine ⟨h.ok.delete hplaced.living hspace hi (by omega) hnone,
        ⟨hgone, Function.update_self _ _ _⟩, ?_, ?_, .deleted _ i, ?_, fun _ hr => .inl hr,
        fun _ hu => by cases hu⟩
      · rintro v (hv | hv) <;> cases hv
      · have hother : ∀ {r S}, r ≠ t → r ∈ d.living → d.space r = some S → S ≠ q.space := by
          rintro r S hrt hr hS rfl
          exact hrt (honly r hr hS)
        have hnt : ∀ r, ¬ Own t (.exitFound q.space i) .erased r → r ≠ t := by
          rintro r hr rfl
          exact hr (.inl rfl)
        refine ⟨hliving, fun _ _ => rfl, fun r hr => Function.update_of_ne (hnt r hr) _ _,
          fun _ _ => rfl, fun _ _ => rfl, ?_, ?_, ?_, fun hK => absurd rfl hK⟩
        · intro r S sp hr hmem hS hsp
          have hne := hother (hnt r hr) hmem hS
          exact ⟨sp, (Function.update_of_ne hne _ _).trans hsp, rfl, fun _ _ => id⟩
        · rintro r S hr hmem hS ⟨q', hq', rfl⟩
          obtain ⟨k, hk⟩ := List.mem_iff_getElem?.mp hq'
          refine ⟨q', List.mem_eraseIdx_iff_getElem?.mpr ⟨k, ?_, hk⟩, rfl⟩
          rintro rfl
          obtain rfl := Option.some.inj (hk.symm.trans hi)
          exact hother (hnt r hr) hmem hS rfl
        · intro S sp hsp hR
          have hne : S ≠ q.space := by
            rintro rfl
            exact hR t (.inl rfl) hplaced.living hspace
          refine ⟨(Function.update_of_ne hne _ _).trans hsp, ?_, ?_⟩
          · rintro r (rfl | hr | hr) hmem
            · exact absurd hmem hgone
            · cases hr
            · cases hr
          · rintro ⟨q', hq', rfl⟩
            exact ⟨q', List.mem_of_mem_eraseIdx hq', rfl⟩
      · refine ⟨h.locked.nextLock, ?_⟩
        intro S sp hsp
        have hne : S ≠ q.space := by
          rintro rfl
          have hself : Function.update d.spaces q.space none q.space = none :=
            Function.update_self _ _ _
          cases hself.symm.trans hsp
        exact h.locked.spaces S sp ((Function.update_of_ne hne _ _).symm.trans hsp)

/-- The entry of the thread is found. -/
theorem Before.exitCounted (h : Before d t (.exitCounted S i))
    (hadvance : advance t d (.exitCounted S i) a = some (d', e, p')) :
  Moved d t (.exitCounted S i) d' e p'
  := by
  obtain ⟨n, hleaving⟩ := h.fits
  obtain ⟨q, hi, rfl⟩ := hleaving.index
  have hentries := h.ok.entries q (List.mem_of_getElem? hi)
  have hmem := hentries.recorded t n hleaving.space hleaving.stage
  simp only [advance, hi] at hadvance
  split at hadvance
  · rename_i j hj
    simp only [Option.some.injEq, Prod.mk.injEq] at hadvance
    obtain ⟨rfl, rfl, rfl⟩ := hadvance
    obtain ⟨hlt, hj, -⟩ := List.findIdx?_eq_some_iff_getElem.mp hj
    have hget := List.getElem?_eq_getElem hlt
    have hentry : q.threadStacks[j] = (t, stackOf n) := by
      obtain ⟨-, -, m, hm, hstack⟩ := hentries.entry _ (List.getElem_mem hlt)
      have hfst : q.threadStacks[j].1 = t := by simpa using hj
      rw [hfst, hleaving.stage] at hm
      obtain rfl := Stage.recorded.inj hm
      exact Prod.ext hfst hstack
    exact Moved.refl h (.exitCounted _ i j) ⟨n, hleaving, q, hi, hentry ▸ hget⟩ (fun v hv => hv)
  · rename_i hj
    have hnone := List.findIdx?_eq_none_iff.mp hj _ hmem
    simp at hnone

theorem Before.exitThread (h : Before d t (.exitThread S i j))
    (hadvance : advance t d (.exitThread S i j) a = some (d', e, p')) :
  Moved d t (.exitThread S i j) d' e p'
  := by
  obtain ⟨n, hleaving, q, hi, hj⟩ := h.fits
  simp only [advance, hi, Option.bind_some, hj, Option.some.injEq, Prod.mk.injEq] at hadvance
  obtain ⟨rfl, rfl, rfl⟩ := hadvance
  have hpages := clearStack_stackOf hleaving.eight_le (h.small S i j n rfl hleaving.stage)
  exact Moved.refl h (.exitThread S i j _) ⟨n, hleaving, ⟨q, hi, hj⟩, hpages⟩ (fun v hv => hv)

theorem Before.exitCleared {pages : List ℤ} (h : Before d t (.exitCleared S i j pages))
    (hadvance : advance t d (.exitCleared S i j pages) a = some (d', e, p')) :
  Moved d t (.exitCleared S i j pages) d' e p'
  := by
  obtain ⟨n, hleaving, ⟨q, hi, hj⟩, -⟩ := h.fits
  obtain ⟨q', hi', rfl⟩ := hleaving.index
  obtain rfl := Option.some.inj (hi.symm.trans hi')
  simp only [advance, Option.some.injEq, Prod.mk.injEq] at hadvance
  obtain ⟨rfl, rfl, rfl⟩ := hadvance
  have hmap := @Data.map_space_modify d i (fun p => { p with
    threadStacks := p.threadStacks.eraseIdx j }) (fun _ => rfl)
  refine ⟨h.ok.erase hleaving.unborn hi hleaving.space hj,
    ⟨hleaving.unborn, Function.update_self _ _ _⟩, ?_, ?_, .exitCleared _ i j pages,
    ⟨h.locked.nextLock, h.locked.spaces⟩, fun _ hr => .inl hr, fun _ hu => by cases hu⟩
  · rintro v (hv | hv) <;> cases hv
  · refine Frame.of_same rfl hmap (fun hK => absurd rfl hK) (fun _ _ => Iff.rfl) ?_ (fun _ => id)
    intro r hr
    refine ⟨rfl, ?_, rfl, rfl⟩
    apply Function.update_of_ne
    rintro rfl
    exact hr (.inl rfl)

theorem Before.finishing (h : Before d t .finishing)
    (hadvance : advance t d .finishing a = some (d', e, p')) :
  Moved d t .finishing d' e p'
  := by
  obtain ⟨hgone, hstage⟩ := h.fits
  simp only [advance, Option.some.injEq, Prod.mk.injEq] at hadvance
  obtain ⟨rfl, rfl, rfl⟩ := hadvance
  refine ⟨h.ok.finish hgone hstage _, ?_, ?_, ?_, .finishing, ⟨h.locked.nextLock, h.locked.spaces⟩,
    ?_, fun _ hu => by cases hu⟩
  · simp only [Fits, Function.update_self]
    refine ⟨?_, fun _ hmem => absurd hmem hgone⟩
    intro n hn
    cases hstage.symm.trans hn
  · rintro v (hv | hv) <;> cases hv
  · have hnt : ∀ r, ¬ Own t .finishing .kernel r → r ≠ t := by
      rintro r hr rfl
      exact hr (.inl rfl)
    refine Frame.of_same rfl rfl (fun _ => rfl) (fun _ _ => Iff.rfl) ?_ ?_
    · intro r hr
      exact ⟨Function.update_of_ne (hnt r hr) _ _, rfl, rfl, Function.update_of_ne (hnt r hr) _ _⟩
    · rintro S hR r (rfl | hr | hr) hmem
      · exact absurd hmem hgone
      · cases hr
      · cases hr
  · intro r hr
    by_cases hrt : r = t
    · exact .inr ⟨rfl, hrt⟩
    · exact .inl ((List.mem_erase_of_ne hrt).mpr hr)

/-- A step of the code, in `kernel`, in `user` or in one of the functions. -/
theorem next_cases (hnext : next t p d a = some (d', e, p')) :
  p = .kernel ∨ (∃ S, p = .user S ∧ d' = d ∧ e = .call (.acquire processLock) ∧
      (p' = .exec S ∨ p' = .fork S ∨ p' = .exit S)) ∨
    advance t d p a = some (d', e, p')
  := by
  rw [next.eq_def] at hnext
  split at hnext
  · exact .inl rfl
  · rename_i S
    obtain ⟨rfl, rfl, rfl⟩ := by simpa using hnext
    exact .inr (.inl ⟨S, rfl, rfl, rfl, by simp⟩)
  · rename_i S
    obtain ⟨rfl, rfl, rfl⟩ := by simpa using hnext
    exact .inr (.inl ⟨S, rfl, rfl, rfl, by simp⟩)
  · rename_i S
    obtain ⟨rfl, rfl, rfl⟩ := by simpa using hnext
    exact .inr (.inl ⟨S, rfl, rfl, rfl, by simp⟩)
  · exact .inr (.inr hnext)

/-- Every step keeps the process table and the stacks in order. -/
theorem Before.next (h : Before d t p) (hnext : next t p d a = some (d', e, p')) :
  Moved d t p d' e p'
  := by
  obtain rfl | ⟨S, rfl, rfl, rfl, hp'⟩ | hadvance := next_cases hnext
  · exact h.kernel hnext
  · have hmember : d'.Member t S := h.fits
    obtain rfl | rfl | rfl := hp'
    · exact Moved.refl h (.callExec S) hmember (fun _ hv => hv)
    · exact Moved.refl h (.callFork S) hmember (fun _ hv => hv)
    · exact Moved.refl h (.callExit S) hmember (fun _ hv => hv)
  cases p with
  | kernel | failed => cases hadvance
  | user => cases (advance_user _ _ _ _).symm.trans hadvance
  | pages => exact h.pages hadvance
  | front => exact h.front hadvance
  | recording => exact h.recording hadvance
  | found => exact h.found hadvance
  | running => exact h.running hadvance
  | exec => exact h.exec hadvance
  | execMade => exact h.execMade hadvance
  | fork => exact h.fork hadvance
  | forkFound => exact h.forkFound hadvance
  | forkMade => exact h.forkMade hadvance
  | stackPage => exact h.stackPage hadvance
  | stackQueue => exact h.stackQueue hadvance
  | forkReady => exact h.forkReady hadvance
  | exit => exact h.exit hadvance
  | exitFound => exact h.exitFound hadvance
  | exitCounted => exact h.exitCounted hadvance
  | exitThread => exact h.exitThread hadvance
  | exitCleared => exact h.exitCleared hadvance
  | finishing => exact h.finishing hadvance
  -- calls of `Acquire` and `Release`
  | popped | got | recorded | execPushed | forkStack | erased =>
      simp only [advance, Option.some.injEq, Prod.mk.injEq] at hadvance
      obtain ⟨rfl, rfl, rfl⟩ := hadvance
      exact Moved.refl h (by constructor) h.fits (fun _ hv => hv)
  | stackPushed =>
      simp only [advance, Option.some.injEq, Prod.mk.injEq] at hadvance
      obtain ⟨rfl, rfl, rfl⟩ := hadvance
      obtain ⟨hmember, hunborn, hlisted, hL, -⟩ := h.fits
      exact Moved.refl h (.stackPushed _ _ _ _) ⟨hmember, hunborn, hlisted, hL⟩ (fun _ hv => hv)
  | stackCopied =>
      simp only [advance, Option.some.injEq, Prod.mk.injEq] at hadvance
      obtain ⟨rfl, rfl, rfl⟩ := hadvance
      obtain ⟨hmember, hunborn, hlisted, -⟩ := h.fits
      exact Moved.refl h (.stackCopied _ _ _) ⟨hmember, hunborn, hlisted⟩ (fun _ hv => hv)

end Nachos.Processes
