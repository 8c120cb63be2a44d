import Nachos.Library.Places
import Nachos.Processes.Basic

/-!
# The process table and the stacks

What holds of the process table, of the queues of page counts and of the stacks of the threads after
every statement (`Data.Ok`), and that the statements which change them keep it. The counts in a queue
are increasing and larger than those that have been taken out of it, because it is first-in first-out.
-/

namespace Nachos.Processes

/-- The number of pages that a thread has got. -/
def Stage.pages : Stage → Option ℕ
  | .got n | .recorded n => some n
  | _ => none

namespace Data

/-- The number of threads of the process with the address space `S`. -/
def threads (d : Data) (S : ℕ) : ℕ := d.living.countP (fun r => d.space r = some S)

/-- The number of threads of the process that have not taken their page count out of the queue. -/
def waiting (d : Data) (S : ℕ) : ℕ :=
  d.living.countP (fun r => d.space r = some S ∧ d.stage r = .waiting)

/-- The address space `S` has a process in the process table. -/
def Listed (d : Data) (S : ℕ) : Prop := ∃ p ∈ d.processTable, p.space = S

/-- The stacks of the threads of the address space `S`. -/
structure Stacked (d : Data) (S : ℕ) (sp : Space) : Prop where
  length : sp.numPageQueue.length = d.waiting S
  range : ∀ n ∈ sp.numPageQueue, 8 ≤ n ∧ n ≤ sp.numPages
  gaps : sp.numPageQueue.Pairwise (fun n m => n + 8 ≤ m)
  taken : ∀ r ∈ d.living, d.space r = some S → ∀ n, (d.stage r).pages = some n →
    8 ≤ n ∧ n ≤ sp.numPages ∧ ∀ m ∈ sp.numPageQueue, n + 8 ≤ m
  apart : ∀ r ∈ d.living, ∀ r' ∈ d.living, r ≠ r' → d.space r = some S → d.space r' = some S →
    ∀ n m, (d.stage r).pages = some n → (d.stage r').pages = some m → n + 8 ≤ m ∨ m + 8 ≤ n

/-- The entries of a process. -/
structure Entries (d : Data) (p : Process) : Prop where
  count : p.numThreads = d.threads p.space
  nodup : (p.threadStacks.map Prod.fst).Nodup
  entry : ∀ e ∈ p.threadStacks, e.1 ∈ d.allocated ∧ d.space e.1 = some p.space ∧
    ∃ n, d.stage e.1 = .recorded n ∧ e.2 = stackOf n
  recorded : ∀ r n, d.space r = some p.space → d.stage r = .recorded n →
    (r, stackOf n) ∈ p.threadStacks

structure Ok (d : Data) : Prop where
  nodup : (d.processTable.map Process.space).Nodup
  live : ∀ p ∈ d.processTable, (d.spaces p.space).isSome
  entries : ∀ p ∈ d.processTable, d.Entries p
  living : d.living.Nodup
  allocated : ∀ r ∈ d.living, r ∈ d.allocated
  home : ∀ r ∈ d.living, ∃ S, d.space r = some S ∧ (d.spaces S).isSome
  listed : ∀ r S n, d.space r = some S → d.stage r = .recorded n → d.Listed S
  stacked : ∀ S sp, d.spaces S = some sp → d.Stacked S sp

variable {d d' : Data} {S T t u r n : ℕ} {sp sp' : Space}

/-- The threads of the address space that have got page counts had them before. -/
theorem Stacked.mono (h : d.Stacked S sp) (hwaiting : d'.waiting S = d.waiting S)
    (hpages : ∀ r ∈ d'.living, d'.space r = some S → ∀ n, (d'.stage r).pages = some n →
      r ∈ d.living ∧ d.space r = some S ∧ (d.stage r).pages = some n) :
  d'.Stacked S sp
  := by
  refine ⟨h.length.trans hwaiting.symm, h.range, h.gaps, ?_, ?_⟩
  · intro r hr hS n hn
    obtain ⟨hr, hS, hn⟩ := hpages r hr hS n hn
    exact h.taken r hr hS n hn
  · intro r hr r' hr' hne hS hS' n m hn hm
    obtain ⟨hr, hS, hn⟩ := hpages r hr hS n hn
    obtain ⟨hr', hS', hm⟩ := hpages r' hr' hS' m hm
    exact h.apart r hr r' hr' hne hS hS' n m hn hm

/-- The threads of the address space keep their page counts. -/
theorem Stacked.congr (h : d.Stacked S sp) (hliving : d'.living = d.living)
    (hspace : d'.space = d.space)
    (hstage : ∀ r ∈ d.living, d.space r = some S → (d'.stage r).pages = (d.stage r).pages ∧
      (d'.stage r = .waiting ↔ d.stage r = .waiting)) :
  d'.Stacked S sp
  := by
  apply h.mono
  · rw [waiting, waiting, hliving, hspace]
    apply List.countP_congr
    intro r hr
    simp only [decide_eq_true_eq]
    exact and_congr_right (fun hS => (hstage r hr hS).2)
  · intro r hr hS n hn
    rw [hliving] at hr
    rw [hspace] at hS
    exact ⟨hr, hS, (hstage r hr hS).1 ▸ hn⟩

/-- The threads whose stacks are recorded stay the same. -/
theorem Entries.congr {p : Process} (h : d.Entries p)
    (hcount : d'.threads p.space = d.threads p.space)
    (halloc : ∀ r n, d.stage r = .recorded n → r ∈ d.allocated → r ∈ d'.allocated)
    (hrecorded : ∀ r, d'.space r = d.space r ∧ d'.stage r = d.stage r ∨
      (∀ n, d.space r = some p.space → d.stage r ≠ .recorded n) ∧
        ∀ n, d'.space r = some p.space → d'.stage r ≠ .recorded n) :
  d'.Entries p
  := by
  refine ⟨h.count.trans hcount.symm, h.nodup, ?_, ?_⟩
  · intro e he
    obtain ⟨hmem, hspace, n, hstage, hstack⟩ := h.entry e he
    obtain ⟨hspace', hstage'⟩ | ⟨hnot, -⟩ := hrecorded e.1
    · exact ⟨halloc e.1 n hstage hmem, hspace'.trans hspace, n, hstage'.trans hstage, hstack⟩
    · exact absurd hstage (hnot n hspace)
  · intro r n hspace hstage
    obtain ⟨hspace', hstage'⟩ | ⟨-, hnot⟩ := hrecorded r
    · exact h.recorded r n (hspace'.symm.trans hspace) (hstage'.symm.trans hstage)
    · exact absurd hstage (hnot n hspace)

/-- The thread `r` of the address space `S` gets to another stage, without its stack being recorded. -/
theorem Ok.restage (h : d.Ok) (hspace : d.space r = some S) {s : Stage}
    (hbefore : ∀ n, d.stage r ≠ .recorded n) (hafter : ∀ n, s ≠ .recorded n)
    (hstacked : ((d.setSpace S sp').setStage r s).Stacked S sp') :
  ((d.setSpace S sp').setStage r s).Ok
  := by
  have hother : ∀ T, T ≠ S → (d.setSpace S sp').spaces T = d.spaces T :=
    fun T hT => Function.update_of_ne hT _ _
  have hself : (d.setSpace S sp').spaces S = some sp' := Function.update_self _ _ _
  have hlive : ∀ T, (d.spaces T).isSome → ((d.setSpace S sp').spaces T).isSome := by
    intro T hT
    by_cases hTS : T = S
    · rw [hTS, hself]
      rfl
    · rw [hother T hTS]
      exact hT
  have hrecorded : ∀ n, ((d.setSpace S sp').setStage r s).stage r ≠ .recorded n := by
    intro n hn
    simp only [setStage, Function.update_self] at hn
    exact hafter n hn
  refine ⟨h.nodup, fun p hp => hlive _ (h.live p hp), ?_, h.living, h.allocated, ?_, ?_, ?_⟩
  · intro p hp
    refine (h.entries p hp).congr rfl (fun _ _ _ => id) ?_
    intro r'
    by_cases hr : r' = r
    · subst hr
      exact .inr ⟨fun n _ => hbefore n, fun n _ => hrecorded n⟩
    · exact .inl ⟨rfl, Function.update_of_ne hr _ _⟩
  · intro r' hr'
    obtain ⟨T, hT, hsome⟩ := h.home r' hr'
    exact ⟨T, hT, hlive T hsome⟩
  · intro r' T n hT hn
    by_cases hr : r' = r
    · subst hr
      exact absurd hn (hrecorded n)
    · exact h.listed r' T n hT ((Function.update_of_ne hr _ _).symm.trans hn)
  · intro T tp hT
    by_cases hTS : T = S
    · subst hTS
      obtain rfl := Option.some.inj (hself.symm.trans hT)
      exact hstacked
    · have hT' : d.spaces T = some tp := (hother T hTS).symm.trans hT
      refine (h.stacked T tp hT').congr rfl rfl ?_
      intro r' _ hr'
      have hne : r' ≠ r := by
        rintro rfl
        exact hTS (Option.some.inj (hr'.symm.trans hspace))
      simp [setStage, setSpace, hne]

/-- How many threads are waiting when `r` gets to another stage. -/
theorem waiting_setStage (hliving : d.living.Nodup) (hr : r ∈ d.living) (hspace : d.space r = some S)
    (sp : Space) (s : Stage) :
  ((d.setSpace S sp).setStage r s).waiting S + (decide (d.stage r = .waiting)).toNat =
    d.waiting S + (decide (s = .waiting)).toNat
  := by
  have hcount := Places.countP_of_agree hliving hr
    (fun r => decide (d.space r = some S ∧ d.stage r = .waiting))
    (fun r' => decide (d.space r' = some S ∧ Function.update d.stage r s r' = .waiting))
    (by
      intro r' _ hne
      simp [hne])
  simp only [hspace, Function.update_self, true_and] at hcount
  exact hcount

/-! ### `getNumPages` -/

/-- The thread `r` takes the first count out of the queue. -/
theorem Ok.pop (h : d.Ok) {pageLock queueLock numPages : ℕ} {queue : List ℕ} (hr : r ∈ d.living)
    (hspace : d.space r = some S) (hstage : d.stage r = .waiting)
    (hS : d.spaces S = some ⟨numPages, n :: queue, pageLock, queueLock⟩) :
  ((d.setSpace S ⟨numPages, queue, pageLock, queueLock⟩).setStage r (.got n)).Ok
  := by
  have hold := h.stacked S _ hS
  have hgaps := List.pairwise_cons.mp hold.gaps
  apply h.restage hspace (by simp [hstage]) (by simp)
  have hpages : ∀ r' m, (Function.update d.stage r (.got n) r').pages = some m →
      r' = r ∧ m = n ∨ r' ≠ r ∧ (d.stage r').pages = some m := by
    intro r' m hm
    by_cases hne : r' = r
    · rw [hne, Function.update_self] at hm
      exact .inl ⟨hne, (Option.some.inj hm).symm⟩
    · rw [Function.update_of_ne hne] at hm
      exact .inr ⟨hne, hm⟩
  refine ⟨?_, ?_, hgaps.2, ?_, ?_⟩
  · have hwaiting := waiting_setStage h.living hr hspace
      ⟨numPages, queue, pageLock, queueLock⟩ (.got n)
    have hlength := hold.length
    simp only [List.length_cons, hstage, decide_true, Bool.toNat_true, reduceCtorEq, decide_false,
      Bool.toNat_false] at hwaiting hlength ⊢
    omega
  · intro m hm
    exact hold.range m (List.mem_cons_of_mem n hm)
  · intro r' hr' hS' m hm
    obtain ⟨rfl, rfl⟩ | ⟨-, hm⟩ := hpages r' m hm
    · obtain ⟨hlow, hhigh⟩ := hold.range m List.mem_cons_self
      exact ⟨hlow, hhigh, hgaps.1⟩
    · obtain ⟨hlow, hhigh, hqueue⟩ := hold.taken r' hr' hS' m hm
      exact ⟨hlow, hhigh, fun k hk => hqueue k (List.mem_cons_of_mem n hk)⟩
  · -- the count that is taken out is larger than those that have been taken out before
    have htaken : ∀ r' ∈ d.living, d.space r' = some S → ∀ m, (d.stage r').pages = some m →
        m + 8 ≤ n := fun r' hr' hS' m hm => (hold.taken r' hr' hS' m hm).2.2 n List.mem_cons_self
    intro r₁ hr₁ r₂ hr₂ hne hS₁ hS₂ k m hk hm
    obtain ⟨rfl, rfl⟩ | ⟨-, hk'⟩ := hpages r₁ k hk
    · obtain ⟨rfl, -⟩ | ⟨-, hm'⟩ := hpages r₂ m hm
      · contradiction
      · exact .inr (htaken r₂ hr₂ hS₂ m hm')
    · obtain ⟨rfl, rfl⟩ | ⟨-, hm'⟩ := hpages r₂ m hm
      · exact .inl (htaken r₁ hr₁ hS₁ k hk')
      · exact hold.apart r₁ hr₁ r₂ hr₂ hne hS₁ hS₂ k m hk' hm'

/-! ### `allocateStack` -/

/-- The count for the thread `u` is put into the queue. -/
theorem Ok.grow (h : d.Ok) (hu : u ∈ d.living) (hspace : d.space u = some S)
    (hstage : d.stage u = .unallocated) (hS : d.spaces S = some sp) :
  ((d.setSpace S { sp with
      numPages := sp.numPages + 8, numPageQueue := sp.numPageQueue ++ [sp.numPages + 8]
    }).setStage u .waiting).Ok
  := by
  have hold := h.stacked S sp hS
  apply h.restage hspace (by simp [hstage]) (by simp)
  have hpages : ∀ r n, (Function.update d.stage u .waiting r).pages = some n →
      (d.stage r).pages = some n := by
    intro r n hn
    by_cases hr : r = u
    · simp [hr, Stage.pages] at hn
    · rw [Function.update_of_ne hr] at hn
      exact hn
  refine ⟨?_, ?_, ?_, ?_, ?_⟩
  · have hwaiting := waiting_setStage h.living hu hspace { sp with
      numPages := sp.numPages + 8, numPageQueue := sp.numPageQueue ++ [sp.numPages + 8] } .waiting
    have hlength := hold.length
    simp only [List.length_append, List.length_singleton, hstage, decide_true, Bool.toNat_true,
      reduceCtorEq, decide_false, Bool.toNat_false] at hwaiting ⊢
    omega
  · intro n hn
    obtain hn | hn := List.mem_append.mp hn
    · have := hold.range n hn
      simp only
      omega
    · have := List.mem_singleton.mp hn
      simp only
      omega
  · rw [List.pairwise_append]
    refine ⟨hold.gaps, List.pairwise_singleton _ _, ?_⟩
    intro n hn m hm
    have := hold.range n hn
    have := List.mem_singleton.mp hm
    omega
  · intro r hr hS' n hn
    obtain ⟨hlow, hhigh, hqueue⟩ := hold.taken r hr hS' n (hpages r n hn)
    refine ⟨hlow, by simp only; omega, ?_⟩
    intro m hm
    obtain hm | hm := List.mem_append.mp hm
    · exact hqueue m hm
    · have := List.mem_singleton.mp hm
      omega
  · intro r hr r' hr' hne hS₁ hS₂ n m hn hm
    exact hold.apart r hr r' hr' hne hS₁ hS₂ n m (hpages r n hn) (hpages r' m hm)

/-! ### The process table -/

theorem mem_modify {i : ℕ} {f : Process → Process} {p' : Process}
    (hp' : p' ∈ (d.modify i f).processTable) :
  ∃ j p, d.processTable[j]? = some p ∧ p' = if j = i then f p else p
  := by
  obtain ⟨j, hj⟩ := List.mem_iff_getElem?.mp hp'
  rw [modify, List.getElem?_modify] at hj
  obtain ⟨p, hp, rfl⟩ := Option.map_eq_some_iff.mp hj
  refine ⟨j, p, hp, ?_⟩
  by_cases hij : i = j
  · simp [hij]
  · simp [hij, Ne.symm hij]

/-- Two processes with the same address space are the same. -/
theorem Ok.index_eq (h : d.Ok) {i j : ℕ} {p q : Process} (hi : d.processTable[i]? = some p)
    (hj : d.processTable[j]? = some q) (hspace : p.space = q.space) :
  i = j
  := by
  have hi' : (d.processTable.map Process.space)[i]? = some p.space := by simp [hi]
  have hj' : (d.processTable.map Process.space)[j]? = some p.space := by simp [hj, hspace]
  have hlt : i < (d.processTable.map Process.space).length := by
    by_contra hge
    rw [List.getElem?_eq_none (by omega)] at hi'
    cases hi'
  exact (List.getElem?_inj hlt h.nodup).mp (hi'.trans hj'.symm)

/-- The address spaces of the process table do not change when a process is modified. -/
theorem map_space_modify {i : ℕ} {f : Process → Process} (hf : ∀ p, (f p).space = p.space) :
  (d.modify i f).processTable.map Process.space = d.processTable.map Process.space
  := by
  apply List.ext_getElem?
  intro j
  simp only [modify, List.getElem?_map, List.getElem?_modify]
  cases d.processTable[j]? with
  | none => rfl
  | some p =>
      by_cases hij : i = j
      · simp [hij, hf]
      · simp [hij]

theorem listed_iff_of_map
    (h : d'.processTable.map Process.space = d.processTable.map Process.space) :
  d'.Listed S ↔ d.Listed S
  := by
  have hiff : ∀ d : Data, d.Listed S ↔ S ∈ d.processTable.map Process.space := by
    intro d
    rw [Listed, List.mem_map]
  rw [hiff, hiff, h]

/-- The stack of the thread `r` is recorded. -/
theorem Ok.record (h : d.Ok) {i : ℕ} {p : Process} (hr : r ∈ d.living)
    (hspace : d.space r = some p.space) (hstage : d.stage r = .got n)
    (hi : d.processTable[i]? = some p) :
  ((d.modify i (fun p => { p with threadStacks := p.threadStacks ++ [(r, stackOf n)] })).setStage r
    (.recorded n)).Ok
  := by
  set f : Process → Process := fun p => { p with threadStacks := p.threadStacks ++ [(r, stackOf n)] }
  have hstage' : ∀ r', r' ≠ r → ((d.modify i f).setStage r (.recorded n)).stage r' = d.stage r' :=
    fun r' hne => Function.update_of_ne hne _ _
  have hself : ((d.modify i f).setStage r (.recorded n)).stage r = .recorded n :=
    Function.update_self _ _ _
  have hmap : ((d.modify i f).setStage r (.recorded n)).processTable.map Process.space =
      d.processTable.map Process.space := map_space_modify (fun _ => rfl)
  have hnot : ∀ q ∈ d.processTable, ∀ e ∈ q.threadStacks, e.1 ≠ r := by
    rintro q hq e he rfl
    obtain ⟨-, -, m, hm, -⟩ := (h.entries q hq).entry e he
    rw [hstage] at hm
    cases hm
  refine ⟨?_, ?_, ?_, h.living, h.allocated, h.home, ?_, ?_⟩
  · exact hmap ▸ h.nodup
  · intro q hq
    obtain ⟨j, p', hj, rfl⟩ := mem_modify hq
    have hlive := h.live p' (List.mem_of_getElem? hj)
    split <;> exact hlive
  · intro q hq
    obtain ⟨j, p', hj, rfl⟩ := mem_modify hq
    have hp' := List.mem_of_getElem? hj
    have hold := h.entries p' hp'
    split
    · rename_i hji
      subst hji
      obtain rfl := Option.some.inj (hj.symm.trans hi)
      refine ⟨hold.count, ?_, ?_, ?_⟩
      · simp only [f, List.map_append, List.map_singleton]
        rw [List.nodup_append]
        refine ⟨hold.nodup, List.nodup_singleton _, ?_⟩
        intro a ha b hb
        obtain ⟨e, he, rfl⟩ := List.mem_map.mp ha
        obtain rfl := List.mem_singleton.mp hb
        exact hnot p' hp' e he
      · intro e he
        obtain he | he := List.mem_append.mp he
        · obtain ⟨hmem, hS, m, hm, hstack⟩ := hold.entry e he
          refine ⟨hmem, hS, m, ?_, hstack⟩
          rw [hstage' e.1 (hnot p' hp' e he)]
          exact hm
        · obtain rfl := List.mem_singleton.mp he
          exact ⟨h.allocated r hr, hspace, n, hself, rfl⟩
      · intro r' m hS hm
        by_cases hne : r' = r
        · subst hne
          obtain rfl := Stage.recorded.inj (hself.symm.trans hm)
          exact List.mem_append_right _ (List.mem_singleton.mpr rfl)
        · rw [hstage' r' hne] at hm
          exact List.mem_append_left _ (hold.recorded r' m hS hm)
    · rename_i hji
      refine hold.congr rfl (fun _ _ _ => id) ?_
      intro r'
      by_cases hne : r' = r
      · subst hne
        right
        have hS : d.space r' ≠ some p'.space := by
          intro hS
          exact hji (h.index_eq hj hi (Option.some.inj (hS.symm.trans hspace)))
        exact ⟨fun _ hS' => absurd hS' hS, fun _ hS' => absurd hS' hS⟩
      · exact .inl ⟨rfl, hstage' r' hne⟩
  · intro r' S m hS hm
    rw [listed_iff_of_map hmap]
    by_cases hne : r' = r
    · subst hne
      obtain rfl := Option.some.inj (hspace.symm.trans hS)
      exact ⟨p, List.mem_of_getElem? hi, rfl⟩
    · exact h.listed r' S m hS ((hstage' r' hne).symm.trans hm)
  · intro S sp hS
    refine (h.stacked S sp hS).congr rfl rfl ?_
    intro r' _ _
    by_cases hne : r' = r
    · subst hne
      rw [hself, hstage]
      simp [Stage.pages]
    · rw [hstage' r' hne]
      exact ⟨rfl, Iff.rfl⟩

/-- A process with one thread is added. -/
theorem Ok.push (h : d.Ok) (hlive : (d.spaces S).isSome) (hcount : d.threads S = 1)
    (hunlisted : ¬ d.Listed S) :
  (d.pushProcess ⟨S, 1, []⟩).Ok
  := by
  have hne : ∀ p ∈ d.processTable, p.space ≠ S := fun p hp hS => hunlisted ⟨p, hp, hS⟩
  refine ⟨?_, ?_, ?_, h.living, h.allocated, h.home, ?_, ?_⟩
  · simp only [pushProcess, List.map_append, List.map_singleton]
    rw [List.nodup_append]
    refine ⟨h.nodup, List.nodup_singleton _, ?_⟩
    intro a ha b hb
    obtain ⟨p, hp, rfl⟩ := List.mem_map.mp ha
    obtain rfl := List.mem_singleton.mp hb
    exact hne p hp
  · intro p hp
    obtain hp | hp := List.mem_append.mp hp
    · exact h.live p hp
    · obtain rfl := List.mem_singleton.mp hp
      exact hlive
  · intro p hp
    obtain hp | hp := List.mem_append.mp hp
    · exact (h.entries p hp).congr rfl (fun _ _ _ => id) (fun r => .inl ⟨rfl, rfl⟩)
    · obtain rfl := List.mem_singleton.mp hp
      refine ⟨hcount.symm, List.nodup_nil, by simp, ?_⟩
      intro r n hS hn
      exact absurd (h.listed r S n hS hn) hunlisted
  · intro r T n hT hn
    obtain ⟨p, hp, hpT⟩ := h.listed r T n hT hn
    exact ⟨p, List.mem_append_left _ hp, hpT⟩
  · intro T sp hT
    exact (h.stacked T sp hT).congr rfl rfl (fun _ _ _ => ⟨rfl, Iff.rfl⟩)

/-- A process is added whose thread `t` has got its stack. -/
theorem Ok.start (h : d.Ok) (ht : t ∈ d.living) (hspace : d.space t = some S)
    (hstage : d.stage t = .got n) (hcount : d.threads S = 1) (hunlisted : ¬ d.Listed S) :
  ((d.pushProcess ⟨S, 1, [(t, stackOf n)]⟩).setStage t (.recorded n)).Ok
  := by
  obtain ⟨T, hT, hlive⟩ := h.home t ht
  obtain rfl := Option.some.inj (hspace.symm.trans hT)
  have hpush := h.push hlive hcount hunlisted
  have hlast : (d.pushProcess ⟨S, 1, []⟩).processTable[d.processTable.length]? = some ⟨S, 1, []⟩ := by
    simp [pushProcess]
  have hrecord := hpush.record (p := ⟨S, 1, []⟩) ht hspace hstage hlast
  have heq : (d.pushProcess ⟨S, 1, []⟩).modify d.processTable.length
      (fun p => { p with threadStacks := p.threadStacks ++ [(t, stackOf n)] }) =
      d.pushProcess ⟨S, 1, [(t, stackOf n)]⟩ := by
    simp [modify, pushProcess, List.modify_eq_take_drop]
  rw [heq] at hrecord
  exact hrecord

/-- The entries of the other threads stay when the one of `t` is erased. -/
theorem mem_eraseIdx {l : List (ℕ × ℕ)} (hl : (l.map Prod.fst).Nodup) {j s : ℕ}
    (hj : l[j]? = some (t, s)) (e : ℕ × ℕ) :
  e ∈ l.eraseIdx j ↔ e ∈ l ∧ e.1 ≠ t
  := by
  rw [List.mem_eraseIdx_iff_getElem?]
  constructor
  · rintro ⟨k, hne, hk⟩
    refine ⟨List.mem_of_getElem? hk, ?_⟩
    intro het
    apply hne
    have hj' : (l.map Prod.fst)[j]? = some t := by simp [hj]
    have hk' : (l.map Prod.fst)[k]? = some t := by simp [hk, het]
    obtain ⟨hlt, -⟩ := List.getElem?_eq_some_iff.mp hk'
    exact (List.getElem?_inj hlt hl).mp (hk'.trans hj'.symm)
  · rintro ⟨he, hne⟩
    obtain ⟨k, hk⟩ := List.mem_iff_getElem?.mp he
    refine ⟨k, ?_, hk⟩
    rintro rfl
    obtain rfl := Option.some.inj (hj.symm.trans hk)
    exact hne rfl

/-- The entry of the thread `t`, which is not counted any more, is erased. -/
theorem Ok.erase (h : d.Ok) {i j s : ℕ} {p : Process} (ht : t ∉ d.living)
    (hi : d.processTable[i]? = some p) (hspace : d.space t = some p.space)
    (hj : p.threadStacks[j]? = some (t, s)) :
  ((d.modify i (fun p => { p with threadStacks := p.threadStacks.eraseIdx j })).setStage t
    .unallocated).Ok
  := by
  set f : Process → Process := fun p => { p with threadStacks := p.threadStacks.eraseIdx j }
  have hstage' : ∀ r, r ≠ t → ((d.modify i f).setStage t .unallocated).stage r = d.stage r :=
    fun r hne => Function.update_of_ne hne _ _
  have hself : ((d.modify i f).setStage t .unallocated).stage t = .unallocated :=
    Function.update_self _ _ _
  have hne : ∀ {r m}, ((d.modify i f).setStage t .unallocated).stage r = .recorded m → r ≠ t := by
    rintro r m hm rfl
    cases hself.symm.trans hm
  have hmap : ((d.modify i f).setStage t .unallocated).processTable.map Process.space =
      d.processTable.map Process.space := map_space_modify (fun _ => rfl)
  refine ⟨hmap ▸ h.nodup, ?_, ?_, h.living, h.allocated, h.home, ?_, ?_⟩
  · intro q hq
    obtain ⟨k, p', hk, rfl⟩ := mem_modify hq
    have hlive := h.live p' (List.mem_of_getElem? hk)
    split <;> exact hlive
  · intro q hq
    obtain ⟨k, p', hk, rfl⟩ := mem_modify hq
    have hold := h.entries p' (List.mem_of_getElem? hk)
    split
    · rename_i hki
      subst hki
      obtain rfl := Option.some.inj (hk.symm.trans hi)
      refine ⟨hold.count, List.Nodup.sublist ((List.eraseIdx_sublist _ _).map _) hold.nodup, ?_, ?_⟩
      · intro e he
        obtain ⟨he, het⟩ := (mem_eraseIdx hold.nodup hj e).mp he
        obtain ⟨hmem, hS, m, hm, hstack⟩ := hold.entry e he
        exact ⟨hmem, hS, m, (hstage' e.1 het).trans hm, hstack⟩
      · intro r m hS hm
        have hrt := hne hm
        rw [hstage' r hrt] at hm
        exact (mem_eraseIdx hold.nodup hj _).mpr ⟨hold.recorded r m hS hm, hrt⟩
    · rename_i hki
      refine hold.congr rfl (fun _ _ _ => id) ?_
      intro r
      by_cases hrt : r = t
      · subst hrt
        have hS : d.space r ≠ some p'.space := by
          intro hS
          exact hki (h.index_eq hk hi (Option.some.inj (hS.symm.trans hspace)))
        exact .inr ⟨fun _ hS' => absurd hS' hS, fun _ hS' => absurd hS' hS⟩
      · exact .inl ⟨rfl, hstage' r hrt⟩
  · intro r S m hS hm
    rw [listed_iff_of_map hmap]
    exact h.listed r S m hS ((hstage' r (hne hm)).symm.trans hm)
  · intro S sp hS
    refine (h.stacked S sp hS).congr rfl rfl ?_
    intro r hr _
    have hrt : r ≠ t := by
      rintro rfl
      exact ht hr
    rw [hstage' r hrt]
    exact ⟨rfl, Iff.rfl⟩

/-! ### Threads that are created and exit -/

/-- The thread `r` of the address space `T` comes to life. -/
structure Born (d d' : Data) (r T : ℕ) (s : Stage) : Prop where
  unborn : r ∉ d.living
  living : d'.living = r :: d.living
  space : d'.space = Function.update d.space r (some T)
  stage : d'.stage = Function.update d.stage r s

theorem Born.of_ne {s : Stage} {a : ℕ} (h : Born d d' r T s) (ha : a ≠ r) :
  d'.space a = d.space a ∧ d'.stage a = d.stage a
  := by
  rw [h.space, h.stage]
  exact ⟨Function.update_of_ne ha _ _, Function.update_of_ne ha _ _⟩

theorem Born.self {s : Stage} (h : Born d d' r T s) :
  d'.space r = some T ∧ d'.stage r = s
  := by
  rw [h.space, h.stage]
  exact ⟨Function.update_self _ _ _, Function.update_self _ _ _⟩

theorem Born.ne {s : Stage} {a : ℕ} (h : Born d d' r T s) (ha : a ∈ d.living) :
  a ≠ r
  := by
  rintro rfl
  exact h.unborn ha

theorem Born.threads {s : Stage} (h : Born d d' r T s) (S : ℕ) :
  d'.threads S = d.threads S + (decide (T = S)).toNat
  := by
  rw [Data.threads, Data.threads, h.living, List.countP_cons, h.self.1]
  congr 1
  · apply List.countP_congr
    intro a ha
    rw [(h.of_ne (h.ne ha)).1]
  · by_cases hTS : T = S <;> simp [hTS]

theorem Born.waiting {s : Stage} (h : Born d d' r T s) (S : ℕ) :
  d'.waiting S = d.waiting S + (decide (T = S ∧ s = .waiting)).toNat
  := by
  rw [Data.waiting, Data.waiting, h.living, List.countP_cons, h.self.1, h.self.2]
  congr 1
  · apply List.countP_congr
    intro a ha
    rw [(h.of_ne (h.ne ha)).1, (h.of_ne (h.ne ha)).2]
  · by_cases hTS : T = S <;> by_cases hs : s = .waiting <;> simp [hTS, hs]

/-- The threads with page counts had them before the thread `r` came to life. -/
theorem Born.pages {s : Stage} {a : ℕ} (h : Born d d' r T s) (hs : s.pages = none)
    (ha : a ∈ d'.living) (hS : d'.space a = some S) (hn : (d'.stage a).pages = some n) :
  a ∈ d.living ∧ d.space a = some S ∧ (d.stage a).pages = some n
  := by
  have hne : a ≠ r := by
    rintro rfl
    rw [h.self.2, hs] at hn
    cases hn
  rw [h.living] at ha
  obtain ⟨hspace, hstage⟩ := h.of_ne hne
  exact ⟨List.mem_of_ne_of_mem hne ha, hspace ▸ hS, hstage ▸ hn⟩

/-- The first thread of a process comes to life in a new address space. -/
theorem Ok.admit (h : d.Ok) (hborn : Born d d' r T .waiting) (hT : d.spaces T = none)
    (hpages : 8 ≤ sp.numPages) (hqueue : sp.numPageQueue = [sp.numPages])
    (hspaces : d'.spaces = Function.update d.spaces T (some sp))
    (htable : d'.processTable = d.processTable) (halloc : ∀ a ∈ d.allocated, a ∈ d'.allocated)
    (hr : r ∈ d'.allocated) (hfree : ∀ p ∈ d.processTable, ∀ e ∈ p.threadStacks, e.1 ≠ r) :
  d'.Ok
  := by
  have hne : ∀ {S}, (d.spaces S).isSome → T ≠ S := by
    rintro S hS rfl
    rw [hT] at hS
    cases hS
  have hlive : ∀ {S}, (d.spaces S).isSome → (d'.spaces S).isSome := by
    intro S hS
    rw [hspaces, Function.update_of_ne (hne hS).symm]
    exact hS
  have hhome : ∀ a ∈ d.living, d.space a ≠ some T := by
    intro a ha haT
    obtain ⟨S, hS, hsome⟩ := h.home a ha
    exact hne hsome (Option.some.inj (haT.symm.trans hS))
  refine ⟨htable ▸ h.nodup, ?_, ?_, ?_, ?_, ?_, ?_, ?_⟩
  · intro p hp
    exact hlive (h.live p (htable ▸ hp))
  · intro p hp
    rw [htable] at hp
    refine (h.entries p hp).congr ?_ (fun a _ _ => halloc a) ?_
    · rw [hborn.threads, decide_eq_false (hne (h.live p hp))]
      rfl
    · intro a
      by_cases ha : a = r
      · subst ha
        right
        refine ⟨fun n hS hn => ?_, fun n _ hn => ?_⟩
        · exact hfree p hp _ ((h.entries p hp).recorded a n hS hn) rfl
        · cases hborn.self.2.symm.trans hn
      · exact .inl (hborn.of_ne ha)
  · rw [hborn.living]
    exact List.nodup_cons.mpr ⟨hborn.unborn, h.living⟩
  · intro a ha
    rw [hborn.living] at ha
    obtain rfl | ha := List.mem_cons.mp ha
    · exact hr
    · exact halloc a (h.allocated a ha)
  · intro a ha
    rw [hborn.living] at ha
    obtain rfl | ha := List.mem_cons.mp ha
    · refine ⟨T, hborn.self.1, ?_⟩
      rw [hspaces, Function.update_self]
      rfl
    · obtain ⟨S, hS, hsome⟩ := h.home a ha
      exact ⟨S, (hborn.of_ne (hborn.ne ha)).1.trans hS, hlive hsome⟩
  · intro a S n hS hn
    have ha : a ≠ r := by
      rintro rfl
      cases hborn.self.2.symm.trans hn
    obtain ⟨hspace, hstage⟩ := hborn.of_ne ha
    obtain ⟨p, hp, hpS⟩ := h.listed a S n (hspace ▸ hS) (hstage ▸ hn)
    exact ⟨p, htable ▸ hp, hpS⟩
  · intro S sp' hS
    by_cases hTS : T = S
    · subst hTS
      rw [hspaces, Function.update_self] at hS
      obtain rfl := Option.some.inj hS
      have hnone : ∀ a ∈ d'.living, d'.space a = some T → (d'.stage a).pages = none := by
        intro a ha haT
        cases hn : (d'.stage a).pages with
        | none => rfl
        | some n =>
            obtain ⟨ha', haT', -⟩ := hborn.pages rfl ha haT hn
            exact absurd haT' (hhome a ha')
      refine ⟨?_, ?_, ?_, ?_, ?_⟩
      · have hzero : d.waiting T = 0 := by
          rw [Data.waiting, List.countP_eq_zero]
          intro a ha
          simp [hhome a ha]
        rw [hborn.waiting, hzero, hqueue]
        simp
      · simp [hqueue, hpages]
      · simp [hqueue]
      · intro a ha haT n hn
        cases (hnone a ha haT).symm.trans hn
      · intro a ha b hb _ haT _ n m hn
        cases (hnone a ha haT).symm.trans hn
    · rw [hspaces, Function.update_of_ne (Ne.symm hTS)] at hS
      refine (h.stacked S sp' hS).mono ?_ (fun a ha haS n hn => hborn.pages rfl ha haS hn)
      rw [hborn.waiting]
      simp [hTS]

/-- A thread `u` is created and counted. -/
theorem Ok.fork (h : d.Ok) {i : ℕ} {p : Process} (hu : u ∉ d.allocated)
    (hi : d.processTable[i]? = some p) :
  ((d.modify i (fun p => { p with numThreads := p.numThreads + 1 })).createThread u p.space
    .unallocated).Ok
  := by
  set d' := (d.modify i (fun p => { p with numThreads := p.numThreads + 1 })).createThread u p.space
    .unallocated
  have hborn : Born d d' u p.space .unallocated :=
    ⟨fun hmem => hu (h.allocated u hmem), rfl, rfl, rfl⟩
  have hmap : d'.processTable.map Process.space = d.processTable.map Process.space :=
    map_space_modify (fun _ => rfl)
  have hlive := h.live p (List.mem_of_getElem? hi)
  have hfree : ∀ q ∈ d.processTable, ∀ e ∈ q.threadStacks, e.1 ≠ u := by
    rintro q hq e he rfl
    exact hu ((h.entries q hq).entry e he).1
  have hne : ∀ {a n}, d'.stage a = .recorded n → a ≠ u := by
    rintro a n hn rfl
    cases hborn.self.2.symm.trans hn
  refine ⟨hmap ▸ h.nodup, ?_, ?_, ?_, ?_, ?_, ?_, ?_⟩
  · intro q hq
    obtain ⟨j, p', hj, rfl⟩ := mem_modify hq
    have hlive' := h.live p' (List.mem_of_getElem? hj)
    split <;> exact hlive'
  · intro q hq
    obtain ⟨j, p', hj, rfl⟩ := mem_modify hq
    have hp' := List.mem_of_getElem? hj
    have hold := h.entries p' hp'
    have hentry : ∀ e ∈ p'.threadStacks, e.1 ∈ d'.allocated ∧ d'.space e.1 = some p'.space ∧
        ∃ n, d'.stage e.1 = .recorded n ∧ e.2 = stackOf n := by
      intro e he
      obtain ⟨hmem, hS, m, hm, hstack⟩ := hold.entry e he
      obtain ⟨hspace, hstage⟩ := hborn.of_ne (hfree p' hp' e he)
      exact ⟨List.mem_cons_of_mem u hmem, hspace.trans hS, m, hstage.trans hm, hstack⟩
    have hrecorded : ∀ a n, d'.space a = some p'.space → d'.stage a = .recorded n →
        (a, stackOf n) ∈ p'.threadStacks := by
      intro a n hS hn
      obtain ⟨hspace, hstage⟩ := hborn.of_ne (hne hn)
      exact hold.recorded a n (hspace ▸ hS) (hstage ▸ hn)
    split
    · rename_i hji
      subst hji
      obtain rfl := Option.some.inj (hj.symm.trans hi)
      refine ⟨?_, hold.nodup, hentry, hrecorded⟩
      rw [hborn.threads, ← hold.count]
      simp
    · rename_i hji
      refine ⟨?_, hold.nodup, hentry, hrecorded⟩
      have hspace : p.space ≠ p'.space := fun heq => hji (h.index_eq hj hi heq.symm)
      rw [hborn.threads, ← hold.count]
      simp [hspace]
  · exact List.nodup_cons.mpr ⟨hborn.unborn, h.living⟩
  · intro a ha
    obtain rfl | ha := List.mem_cons.mp ha
    · exact List.mem_cons_self
    · exact List.mem_cons_of_mem u (h.allocated a ha)
  · intro a ha
    obtain rfl | ha := List.mem_cons.mp ha
    · exact ⟨p.space, hborn.self.1, hlive⟩
    · obtain ⟨S, hS, hsome⟩ := h.home a ha
      exact ⟨S, (hborn.of_ne (hborn.ne ha)).1.trans hS, hsome⟩
  · intro a S n hS hn
    rw [listed_iff_of_map hmap]
    obtain ⟨hspace, hstage⟩ := hborn.of_ne (hne hn)
    exact h.listed a S n (hspace ▸ hS) (hstage ▸ hn)
  · intro S sp hS
    refine (h.stacked S sp hS).mono ?_ (fun a ha haS n hn => hborn.pages rfl ha haS hn)
    rw [hborn.waiting]
    simp

/-- How many threads are counted when the thread `t` is not counted any more. -/
theorem countP_erase {l : List ℕ} (ht : t ∈ l) (q : ℕ → Bool) :
  (l.erase t).countP q + (q t).toNat = l.countP q
  := by
  rw [(List.perm_cons_erase ht).countP_eq, List.countP_cons]
  cases q t <;> rfl

/-- How many threads a process has when `t` does not live any more. -/
theorem threads_erase (ht : t ∈ d.living) (hspace : d.space t = some T)
    (hliving : d'.living = d.living.erase t) (hspace' : d'.space = d.space) (S : ℕ) :
  d'.threads S + (decide (T = S)).toNat = d.threads S
  := by
  have hcount := countP_erase ht (fun r => decide (d.space r = some S))
  rw [hspace] at hcount
  rw [Data.threads, Data.threads, hliving, hspace', ← hcount]
  simp

/-- The thread `t`, whose stack is recorded, is not counted any more. -/
theorem Ok.leave (h : d.Ok) {i : ℕ} {p : Process} (ht : t ∈ d.living)
    (hspace : d.space t = some p.space) (hstage : d.stage t = .recorded n)
    (hi : d.processTable[i]? = some p) :
  Ok { d.modify i (fun p => { p with numThreads := p.numThreads - 1 }) with
    living := d.living.erase t }
  := by
  set d' : Data := { d.modify i (fun p => { p with numThreads := p.numThreads - 1 }) with
    living := d.living.erase t }
  have hmap : d'.processTable.map Process.space = d.processTable.map Process.space :=
    map_space_modify (fun _ => rfl)
  have hthreads : ∀ S, d'.threads S + (decide (p.space = S)).toNat = d.threads S :=
    threads_erase ht hspace rfl rfl
  refine ⟨hmap ▸ h.nodup, ?_, ?_, h.living.erase t, ?_, ?_, ?_, ?_⟩
  · intro q hq
    obtain ⟨j, p', hj, rfl⟩ := mem_modify hq
    have hlive := h.live p' (List.mem_of_getElem? hj)
    split <;> exact hlive
  · intro q hq
    obtain ⟨j, p', hj, rfl⟩ := mem_modify hq
    have hold := h.entries p' (List.mem_of_getElem? hj)
    have hcount := hthreads p'.space
    split
    · rename_i hji
      subst hji
      obtain rfl := Option.some.inj (hj.symm.trans hi)
      refine ⟨?_, hold.nodup, hold.entry, hold.recorded⟩
      have := hold.count
      simp only [decide_true, Bool.toNat_true] at hcount
      simp only
      omega
    · rename_i hji
      refine ⟨?_, hold.nodup, hold.entry, hold.recorded⟩
      have hne : p.space ≠ p'.space := fun heq => hji (h.index_eq hj hi heq.symm)
      rw [decide_eq_false hne] at hcount
      exact hold.count.trans hcount.symm
  · intro r hr
    exact h.allocated r (List.mem_of_mem_erase hr)
  · intro r hr
    exact h.home r (List.mem_of_mem_erase hr)
  · intro r S m hS hm
    rw [listed_iff_of_map hmap]
    exact h.listed r S m hS hm
  · intro S sp hS
    refine (h.stacked S sp hS).mono ?_ (fun r hr hS m hm => ⟨List.mem_of_mem_erase hr, hS, hm⟩)
    have hcount := countP_erase ht (fun r => decide (d.space r = some S ∧ d.stage r = .waiting))
    simp only [hstage, reduceCtorEq, and_false, decide_false, Bool.toNat_false] at hcount
    exact hcount

/-- No other thread is in the address space of a process with one thread. -/
theorem Ok.only (h : d.Ok) {p : Process} (hp : p ∈ d.processTable) (ht : t ∈ d.living)
    (hspace : d.space t = some p.space) (hone : p.numThreads ≤ 1) :
  ∀ r ∈ d.living, d.space r = some p.space → r = t
  := by
  intro r hr hS
  by_contra hrt
  have hcount := countP_erase ht (fun r => decide (d.space r = some p.space))
  have hpos : 0 < (d.living.erase t).countP (fun r => decide (d.space r = some p.space)) :=
    List.countP_pos_iff.mpr ⟨r, (List.mem_erase_of_ne hrt).mpr hr, decide_eq_true hS⟩
  have hthreads := (h.entries p hp).count
  rw [threads] at hthreads
  simp only [hspace, decide_true, Bool.toNat_true] at hcount
  omega

/-- The process whose only thread is `t` is deleted. -/
theorem Ok.delete (h : d.Ok) {i : ℕ} {p : Process} (ht : t ∈ d.living)
    (hspace : d.space t = some p.space) (hi : d.processTable[i]? = some p) (hone : p.numThreads ≤ 1)
    (hnone : ∀ r n, r ∉ d.living → d.space r = some p.space → d.stage r ≠ .recorded n) :
  ((d.deleteProcess p.space i t).setStage t .unallocated).Ok
  := by
  set d' := (d.deleteProcess p.space i t).setStage t .unallocated
  have hthreads : ∀ S, d'.threads S + (decide (p.space = S)).toNat = d.threads S :=
    threads_erase ht hspace rfl rfl
  have hmem := List.mem_of_getElem? hi
  have hother : ∀ r ∈ d.living.erase t, d.space r ≠ some p.space := by
    intro r hr hS
    obtain ⟨hrt, hr⟩ := h.living.mem_erase_iff.mp hr
    exact hrt (h.only hmem ht hspace hone r hr hS)
  have hstage : ∀ {r m}, d'.stage r = .recorded m → r ≠ t ∧ d.stage r = .recorded m := by
    intro r m hm
    by_cases hrt : r = t
    · subst hrt
      have hself : d'.stage r = .unallocated := Function.update_self _ _ _
      cases hself.symm.trans hm
    · exact ⟨hrt, (Function.update_of_ne hrt _ _).symm.trans hm⟩
  have hrecorded : ∀ {r m}, d'.stage r = .recorded m → d.space r ≠ some p.space := by
    intro r m hm hS
    obtain ⟨hrt, hm⟩ := hstage hm
    by_cases hr : r ∈ d.living
    · exact hother r ((List.mem_erase_of_ne hrt).mpr hr) hS
    · exact hnone r m hr hS hm
  have hrest : ∀ q, q ∈ d'.processTable ↔ q ∈ d.processTable ∧ q.space ≠ p.space := by
    intro q
    constructor
    · intro hq
      obtain ⟨j, hji, hj⟩ := List.mem_eraseIdx_iff_getElem?.mp hq
      exact ⟨List.mem_of_getElem? hj, fun heq => hji (h.index_eq hj hi heq)⟩
    · rintro ⟨hq, hne⟩
      obtain ⟨j, hj⟩ := List.mem_iff_getElem?.mp hq
      apply List.mem_eraseIdx_iff_getElem?.mpr
      refine ⟨j, ?_, hj⟩
      rintro rfl
      obtain rfl := Option.some.inj (hj.symm.trans hi)
      exact hne rfl
  have hspaces : ∀ {S}, S ≠ p.space → d'.spaces S = d.spaces S :=
    fun hS => Function.update_of_ne hS _ _
  refine ⟨?_, ?_, ?_, h.living.erase t, ?_, ?_, ?_, ?_⟩
  · exact List.Nodup.sublist ((List.eraseIdx_sublist _ _).map _) h.nodup
  · intro q hq
    obtain ⟨hq, hne⟩ := (hrest q).mp hq
    rw [hspaces hne]
    exact h.live q hq
  · intro q hq
    obtain ⟨hq, hne⟩ := (hrest q).mp hq
    refine (h.entries q hq).congr ?_ (fun _ _ _ => id) ?_
    · have hcount := hthreads q.space
      rw [decide_eq_false (Ne.symm hne)] at hcount
      exact hcount
    · intro r
      by_cases hrt : r = t
      · subst hrt
        have hS : d.space r ≠ some q.space := fun hS => hne (Option.some.inj (hS.symm.trans hspace))
        exact .inr ⟨fun _ hS' => absurd hS' hS, fun _ hS' => absurd hS' hS⟩
      · exact .inl ⟨rfl, Function.update_of_ne hrt _ _⟩
  · intro r hr
    exact h.allocated r (List.mem_of_mem_erase hr)
  · intro r hr
    obtain ⟨S, hS, hsome⟩ := h.home r (List.mem_of_mem_erase hr)
    have hne : S ≠ p.space := by
      rintro rfl
      exact hother r hr hS
    refine ⟨S, hS, ?_⟩
    rw [hspaces hne]
    exact hsome
  · intro r S m hS hm
    obtain ⟨q, hq, rfl⟩ := h.listed r S m hS (hstage hm).2
    refine ⟨q, (hrest q).mpr ⟨hq, ?_⟩, rfl⟩
    intro heq
    exact hrecorded hm (heq ▸ hS)
  · intro S sp hS
    have hne : S ≠ p.space := by
      rintro rfl
      have hself : d'.spaces p.space = none := Function.update_self _ _ _
      cases hself.symm.trans hS
    rw [hspaces hne] at hS
    have hrt : ∀ r ∈ d.living.erase t, r ≠ t := fun r hr => (h.living.mem_erase_iff.mp hr).1
    have hsame : ∀ r ∈ d.living.erase t, d'.stage r = d.stage r :=
      fun r hr => Function.update_of_ne (hrt r hr) _ _
    refine (h.stacked S sp hS).mono ?_ ?_
    · have hcount := countP_erase ht (fun r => decide (d.space r = some S ∧ d.stage r = .waiting))
      have hS' : ¬ d.space t = some S := fun hS' => hne (Option.some.inj (hS'.symm.trans hspace))
      simp only [hS', false_and, decide_false, Bool.toNat_false] at hcount
      rw [Data.waiting, Data.waiting, ← hcount]
      apply List.countP_congr
      intro r hr
      rw [hsame r hr]
      rfl
    · intro r hr hS' m hm
      exact ⟨List.mem_of_mem_erase hr, hS', hsame r hr ▸ hm⟩

/-- The thread `t` finishes. -/
theorem Ok.finish (h : d.Ok) (ht : t ∉ d.living) (hstage : d.stage t = .unallocated)
    (f : ℕ → Option Start) :
  Ok { d with allocated := d.allocated.erase t, space := Function.update d.space t none, start := f }
  := by
  set d' : Data :=
    { d with allocated := d.allocated.erase t, space := Function.update d.space t none, start := f }
  have hspace : ∀ {r}, r ≠ t → d'.space r = d.space r := fun hr => Function.update_of_ne hr _ _
  have hliving : ∀ {r}, r ∈ d.living → r ≠ t := by
    rintro r hr rfl
    exact ht hr
  have hrecorded : ∀ {r n}, d.stage r = .recorded n → r ≠ t := by
    rintro r n hn rfl
    cases hstage.symm.trans hn
  refine ⟨h.nodup, h.live, ?_, h.living, ?_, ?_, ?_, ?_⟩
  · intro p hp
    refine (h.entries p hp).congr ?_ ?_ ?_
    · apply List.countP_congr
      intro r hr
      rw [hspace (hliving hr)]
    · intro r n hn hr
      exact (List.mem_erase_of_ne (hrecorded hn)).mpr hr
    · intro r
      by_cases hr : r = t
      · subst hr
        exact .inr ⟨fun n _ hn => hrecorded hn rfl, fun n _ hn => hrecorded hn rfl⟩
      · exact .inl ⟨hspace hr, rfl⟩
  · intro r hr
    exact (List.mem_erase_of_ne (hliving hr)).mpr (h.allocated r hr)
  · intro r hr
    obtain ⟨S, hS, hsome⟩ := h.home r hr
    exact ⟨S, (hspace (hliving hr)).trans hS, hsome⟩
  · intro r S n hS hn
    exact h.listed r S n ((hspace (hrecorded hn)).symm.trans hS) hn
  · intro S sp hS
    refine (h.stacked S sp hS).mono ?_ ?_
    · apply List.countP_congr
      intro r hr
      rw [hspace (hliving hr)]
    · intro r hr hS' n hn
      exact ⟨hr, (hspace (hliving hr)).symm.trans hS', hn⟩

/-- The function that a thread has been forked with and the stack registers do not matter. -/
theorem Ok.register (h : d.Ok) (f : ℕ → Option Start) (g : ℕ → Option ℕ) :
  Ok { d with start := f, stackReg := g }
  := by
  refine ⟨h.nodup, h.live, ?_, h.living, h.allocated, h.home, h.listed, ?_⟩
  · intro p hp
    exact (h.entries p hp).congr rfl (fun _ _ _ => id) (fun r => .inl ⟨rfl, rfl⟩)
  · intro S sp hS
    exact (h.stacked S sp hS).congr rfl rfl (fun _ _ _ => ⟨rfl, Iff.rfl⟩)

end Data

end Nachos.Processes
