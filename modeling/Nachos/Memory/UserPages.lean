import Nachos.Memory.Coherence

/-!
# Pages of a user program under paging

A page of a user program is in the frame that holds it, or else where `IPTMiss` would read it from
(`VM.userPage`). A page fault leaves the pages of the running process as they are, except for one that
is evicted and that `HandleMemoryFull` finds clean (`VM.Lost`): what it is from then on is what is
outside memory (`VM.Ok.pageFault_pages`).
-/

namespace Nachos.Memory

namespace VM

/-! ### Pages -/

/-- Page `v` of the address space `S`, as its process sees it. -/
def userPage (m : VM) (S v : ℕ) : Page :=
  match m.lookup S v with
  | some f => m.mainMemory f
  | none => fun o => ((m.spaces S).map (fun sp => m.backing sp v o)).getD 0

/-- The byte at a virtual address of the address space `S`. -/
def userByte (m : VM) (S virtAddr : ℕ) : UInt8 :=
  m.userPage S (virtAddr / PageSize) (virtAddr % PageSize)

/-- `HandleMemoryFull` finds the page in frame `f` dirty. -/
def foundDirty (m : VM) (f : ℕ) : Bool := ((m.invalidateTLB f).IPT f).entry.dirty

/-- Page `v` is in the frame that is evicted when the running thread accesses memory at `virtAddr`,
and is found clean. -/
def Lost (PRand : Bool) (rand virtAddr : ℕ) (S v : ℕ) (m : VM) : Prop :=
  ∃ f ∈ m.evictedFrame PRand rand virtAddr, m.foundDirty f = false ∧ m.Holds f S v

instance (m : VM) (f S v : ℕ) : Decidable (m.Holds f S v) :=
  decidable_of_iff (f < NumPhysPages ∧ (m.IPT f).entry.valid = true ∧ (m.IPT f).owner = some S ∧
      (m.IPT f).entry.virtualPage = v)
    ⟨fun ⟨hlt, hvalid, howner, hpage⟩ => ⟨hlt, hvalid, howner, hpage⟩,
      fun ⟨hlt, hvalid, howner, hpage⟩ => ⟨hlt, hvalid, howner, hpage⟩⟩

instance (PRand : Bool) (rand virtAddr S v : ℕ) (m : VM) :
    Decidable (m.Lost PRand rand virtAddr S v) :=
  inferInstanceAs (Decidable (∃ f ∈ m.evictedFrame PRand rand virtAddr, _))

variable {m m' : VM} {S v f : ℕ} {sp : AddrSpace}

theorem foundDirty_eq (m : VM) (f : ℕ) :
  m.foundDirty f = m.lastDirty f TLBSize
  := by
  rw [foundDirty, invalidateTLB_eq]
  simp

theorem Mapping.lookup_of_holds (h : m.Mapping) (hholds : m.Holds f S v) :
  m.lookup S v = some f
  := by
  cases hlookup : m.lookup S v with
  | none => exact absurd hholds (lookup_none hlookup f)
  | some g => rw [h.eq_of_holds (h.lookup_some hlookup) hholds]

theorem Mapping.lookup_of_not_holds (h : m.Mapping) (hout : ∀ f, ¬ m.Holds f S v) :
  m.lookup S v = none
  := by
  cases hlookup : m.lookup S v with
  | none => rfl
  | some g => exact absurd (h.lookup_some hlookup) (hout g)

theorem Mapping.userPage_of_holds (h : m.Mapping) (hholds : m.Holds f S v) :
  m.userPage S v = m.mainMemory f
  := by
  rw [userPage, h.lookup_of_holds hholds]

theorem Mapping.userPage_of_not_holds (h : m.Mapping) (hout : ∀ f, ¬ m.Holds f S v)
    (hS : m.spaces S = some sp) :
  m.userPage S v = m.backing sp v
  := by
  rw [userPage, h.lookup_of_not_holds hout, hS]
  rfl

/-- Only the inverted page table, the frames and what is outside memory matter. -/
theorem userPage_congr (hframes : SameFrames m m') (hmemory : m'.mainMemory = m.mainMemory)
    (hspaces : m'.spaces = m.spaces) (hswap : m'.swapFile = m.swapFile) (S v : ℕ) :
  m'.userPage S v = m.userPage S v
  := by
  have hlookup : m'.lookup S v = m.lookup S v := by
    have hentry : ∀ i, (m'.IPT i).entry.virtualPage = (m.IPT i).entry.virtualPage ∧
        (m'.IPT i).owner = (m.IPT i).owner ∧ (m'.IPT i).entry.valid = (m.IPT i).entry.valid ∧
        (m'.IPT i).entry.physicalPage = (m.IPT i).entry.physicalPage := by
      intro i
      obtain ⟨howner, hvalid, hvirtual, hphysical⟩ := hframes i
      exact ⟨hvirtual, howner, hvalid, hphysical⟩
    have hfind : ∀ i, (m'.IPT i).entry.virtualPage = (m.IPT i).entry.virtualPage :=
      fun i => (hentry i).1
    simp only [lookup, hfind, fun i => (hentry i).2.1, fun i => (hentry i).2.2.1,
      fun i => (hentry i).2.2.2]
  have hbacking : ∀ sp v, m'.backing sp v = m.backing sp v := by
    intro sp v
    rw [backing, backing, hswap]
  rw [userPage, userPage, hlookup, hmemory, hspaces]
  simp only [hbacking]

/-! ### Freeing a frame -/

/-- What is known of page `u` of the address space `S` when frame `f` has been freed for a page of
this address space. -/
structure FreedPage (m m₁ : VM) (f S : ℕ) (sp sp₁ : AddrSpace) (u : ℕ) : Prop where
  kept : ¬ m.Holds f S u → m₁.backing sp₁ u = m.backing sp u
  clean : m.Holds f S u → m.foundDirty f = false → m₁.backing sp₁ u = m.backing sp u
  dirty : m.Holds f S u → m.foundDirty f = true → m₁.backing sp₁ u = m.mainMemory f

/-- A page that is found dirty has been written to the swap file. -/
theorem freedPage_swapped {m₁ : VM} {sp₁ tp : AddrSpace} {T t l u : ℕ} (hswap : m.SwapOk)
    (hholds : m.Holds f T t) (hT : m.spaces T = some tp) (hdirty : m.foundDirty f = true)
    (hfree : m.swapFileBitMap l = false)
    (hspaces : m₁.spaces = Function.update m.spaces T (some (tp.swappedPage t l)))
    (hfile : m₁.swapFile = Function.update m.swapFile l (m.mainMemory f))
    (hS : m.spaces S = some sp) (hS₁ : m₁.spaces S = some sp₁) (hu : u < sp.numPages) :
  FreedPage m m₁ f S sp sp₁ u
  := by
  by_cases hheld : m.Holds f S u
  · obtain ⟨rfl, rfl⟩ := hheld.eq_of_holds hholds
    rw [hspaces, Function.update_self] at hS₁
    obtain rfl := Option.some.inj hS₁
    refine ⟨fun hout => absurd hheld hout, ?_, ?_⟩
    · intro _ hclean
      rw [hdirty] at hclean
      cases hclean
    · intro _ _
      obtain ⟨hlocation, hslot⟩ := pageTable_swappedPage tp u l
      rw [VM.backing, hlocation, hslot, hfile]
      exact Function.update_self _ _ _
  · have hne : ¬ (S = T ∧ u = t) := by
      rintro ⟨rfl, rfl⟩
      exact hheld hholds
    obtain ⟨sp', hsp', hplace⟩ := place_swappedPage hT hspaces hS₁ hne
    obtain rfl := Option.some.inj (hS.symm.trans hsp')
    refine ⟨fun _ => ?_, fun hin => absurd hin hheld, fun hin => absurd hin hheld⟩
    apply hplace.backing
    intro hlocation
    rw [hfile]
    apply Function.update_of_ne
    intro heq
    have hmarked := hswap.marked S u _ ⟨sp, hS, hu, hlocation, rfl⟩
    rw [heq, hfree] at hmarked
    cases hmarked

/-- A page that is found clean is left where it is outside memory. -/
theorem freedPage_samePlaces {m₁ : VM} {sp₁ : AddrSpace} {u : ℕ} (hplaces : SamePlaces m m₁)
    (hclean : m.Holds f S u → m.foundDirty f = false) (hS : m.spaces S = some sp)
    (hS₁ : m₁.spaces S = some sp₁) :
  FreedPage m m₁ f S sp sp₁ u
  := by
  obtain ⟨sp', hsp', hplace⟩ := hplaces.place S sp₁ u hS₁
  obtain rfl := Option.some.inj (hS.symm.trans hsp')
  have hsame : m₁.backing sp₁ u = m.backing sp u :=
    hplace.backing (fun _ => by rw [hplaces.swapFile])
  refine ⟨fun _ => hsame, fun _ _ => hsame, ?_⟩
  intro hholds hdirty
  rw [hclean hholds] at hdirty
  cases hdirty

/-- The pages of an address space when a frame has been freed. -/
theorem Ok.freed_pages {PRand : Bool} {rand : ℕ} {m₁ : VM} {sp₁ : AddrSpace} (h : m.Ok)
    (hswap : m.SwapOk) (hfreed : Freed PRand rand m m₁ f) (hS : m.spaces S = some sp)
    (hS₁ : m₁.spaces S = some sp₁) :
  m₁.SwapOk ∧ m₁.mainMemory = m.mainMemory ∧
    ∀ u < sp.numPages, FreedPage m m₁ f S sp sp₁ u
  := by
  cases hfreed with
  | free hfind =>
      obtain ⟨hlt, hclear⟩ := find_some hfind
      have hplaces : SamePlaces m { m with
          mainMemoryBitMap := Function.update m.mainMemoryBitMap f true } :=
        samePlaces_of_eq rfl rfl rfl
      refine ⟨hswap.congr hplaces, rfl, ?_⟩
      intro u _
      apply freedPage_samePlaces hplaces _ hS hS₁
      intro hholds
      have hmarked := (h.mapping.bitMap f hlt).mpr hholds.valid
      rw [hclear] at hmarked
      cases hmarked
  | @full _ T t tp hfind hholds hT hevicted =>
      have hdirty : m.foundDirty (victim PRand rand m) = lastDirty { m with
          currentIPT := if PRand then m.currentIPT else (m.currentIPT + 1) % NumPhysPages }
            (victim PRand rand m) TLBSize := m.foundDirty_eq _
      have hmemory := (evicts_of_evicted hevicted).mainMemory
      rw [VM.evicted, invalidateTLB_eq, ← hdirty] at hevicted
      split at hevicted
      · rename_i hfound
        obtain ⟨l, hl, rfl⟩ := Option.map_eq_some_iff.mp hevicted
        have hfree : m.swapFileBitMap l = false := (find_some hl).2
        refine ⟨hswap.swap hT hfree rfl rfl, hmemory, ?_⟩
        intro u hu
        exact freedPage_swapped hswap hholds hT hfound hfree rfl rfl hS hS₁ hu
      · rename_i hfound
        obtain rfl := Option.some.inj hevicted
        refine ⟨hswap.congr (samePlaces_of_update hT rfl (samePlace_setPage rfl rfl rfl) rfl rfl),
          hmemory, ?_⟩
        intro u _
        exact freedPage_samePlaces
          (samePlaces_of_update hT rfl (samePlace_setPage rfl rfl rfl) rfl rfl)
          (fun _ => by simpa using hfound) hS hS₁

/-! ### Page faults -/

/-- A page whose frame is entered into the translation buffer has a slot. -/
theorem slotOf_updateTLB {ppn : ℕ} (hholds : m.Holds ppn S v) (hTLB : m.currentTLB < TLBSize)
    (hstep : m.updateTLB ppn = some m') :
  ∃ i, m'.slotOf v = some i
  := by
  obtain rfl := updateTLB_eq hstep
  have hframes : SameFrames m { m with IPT := m.propagated } := sameFrames_propagated rfl
  have hpage := hframes.holds_iff.mpr hholds
  apply Option.isSome_iff_exists.mp
  rw [slotOf, List.find?_isSome]
  refine ⟨m.currentTLB, List.mem_range.mpr hTLB, ?_⟩
  simp only [Function.update_self, Bool.and_eq_true, beq_iff_eq]
  exact ⟨hpage.valid, hpage.virtualPage⟩

/-- `updateTLB` changes neither the frames nor what is outside memory. -/
theorem frames_updateTLB {ppn : ℕ} (hstep : m.updateTLB ppn = some m') :
  SameFrames m m' ∧ SamePlaces m m' ∧ m'.mainMemory = m.mainMemory ∧ m'.spaces = m.spaces ∧
    m'.space = m.space
  := by
  obtain rfl := updateTLB_eq hstep
  exact ⟨sameFrames_propagated rfl, samePlaces_of_eq rfl rfl rfl, rfl, rfl, rfl⟩

/-- What a page fault of the address space `S` at `virtAddr` leads to. -/
structure Faulted (PRand : Bool) (rand virtAddr S : ℕ) (sp : AddrSpace) (m m' : VM) : Prop where
  ok : m'.Ok
  swap : m'.SwapOk
  space : m'.space = some S
  numPages : ∃ sp', m'.spaces S = some sp' ∧ sp'.numPages = sp.numPages
  slot : ∃ i, m'.slotOf (virtAddr / PageSize) = some i
  kept : ∀ u < sp.numPages, ¬ m.Lost PRand rand virtAddr S u → m'.userPage S u = m.userPage S u
  lost : ∀ u < sp.numPages, m.Lost PRand rand virtAddr S u →
    (∀ f, ¬ m'.Holds f S u) ∧ m'.userPage S u = m.backing sp u
  outside : ∀ u, u ≠ virtAddr / PageSize → (∀ f, ¬ m.Holds f S u) → ∀ f, ¬ m'.Holds f S u

/-- A page that is in memory gets a slot. -/
theorem Ok.faulted_of_lookup {PRand : Bool} {rand virtAddr ppn : ℕ} (h : m.Ok)
    (hswap : m.SwapOk) (hspace : m.space = some S) (hS : m.spaces S = some sp)
    (hlookup : m.lookup S (virtAddr / PageSize) = some ppn)
    (hok : m'.Ok) (hstep : m.updateTLB ppn = some m') :
  Faulted PRand rand virtAddr S sp m m'
  := by
  have hslot := slotOf_updateTLB (h.mapping.lookup_some hlookup) h.currentTLB hstep
  have hnever : ∀ u, ¬ m.Lost PRand rand virtAddr S u := by
    rintro u ⟨f, hf, -⟩
    obtain ⟨T, hT, hf⟩ := Option.bind_eq_some_iff.mp hf
    obtain rfl := Option.some.inj (hspace.symm.trans hT)
    rw [hlookup] at hf
    simp at hf
  obtain ⟨hframes, hplaces, hmemory, hspaces, hspace'⟩ := frames_updateTLB hstep
  refine ⟨hok, hswap.congr hplaces, hspace'.trans hspace, ⟨sp, hspaces ▸ hS, rfl⟩, hslot, ?_, ?_, ?_⟩
  · intro u _ _
    exact userPage_congr hframes hmemory hspaces hplaces.swapFile S u
  · intro u _ hlost
    exact absurd hlost (hnever u)
  · intro u _ hout f hholds
    exact hout f (hframes.holds_iff.mp hholds)

/-- Reading a page moves no page that is outside memory. -/
theorem backing_iptMiss (hS : m.spaces S = some sp) (v f : ℕ) :
  ∃ sp', (m.iptMiss S sp v f).spaces S = some sp' ∧ sp'.numPages = sp.numPages ∧
    ∀ u, (m.iptMiss S sp v f).backing sp' u = m.backing sp u
  := by
  have hplaces : SamePlaces m (m.iptMiss S sp v f) :=
    samePlaces_of_update hS rfl (samePlace_setPage rfl rfl rfl) rfl rfl
  refine ⟨_, Function.update_self _ _ _, rfl, ?_⟩
  intro u
  obtain ⟨sp', hsp', hplace⟩ := hplaces.place S _ u (Function.update_self _ _ _)
  obtain rfl := Option.some.inj (hS.symm.trans hsp')
  exact hplace.backing (fun _ => rfl)

/-- The frame that is freed is evicted if there is a page in it. -/
theorem Ok.evictedFrame_of_freed {PRand : Bool} {rand virtAddr T u : ℕ} {m₁ : VM} (h : m.Ok)
    (hspace : m.space = some S) (hslot : m.slotOf (virtAddr / PageSize) = none)
    (hlookup : m.lookup S (virtAddr / PageSize) = none) (hfreed : Freed PRand rand m m₁ f)
    (hholds : m.Holds f T u) :
  m.evictedFrame PRand rand virtAddr = some f
  := by
  cases hfreed with
  | free hfind =>
      have hmarked := (h.mapping.bitMap f hholds.lt).mpr hholds.valid
      rw [(find_some hfind).2] at hmarked
      cases hmarked
  | full hfind _ _ _ => simp [evictedFrame, hspace, hslot, hlookup, hfind]

/-- A frame that is evicted is freed. -/
theorem eq_of_evictedFrame {PRand : Bool} {rand virtAddr g : ℕ} {m₁ : VM}
    (hevicted : m.evictedFrame PRand rand virtAddr = some g) (hfreed : Freed PRand rand m m₁ f) :
  g = f
  := by
  obtain ⟨T, -, hevicted⟩ := Option.bind_eq_some_iff.mp hevicted
  split at hevicted
  · rename_i hnone
    obtain rfl := Option.some.inj hevicted
    cases hfreed with
    | free hfind =>
        rw [hnone.2.2] at hfind
        cases hfind
    | full _ _ _ _ => rfl
  · cases hevicted

/-- A page that is not in memory is read into a frame that has been freed, and gets a slot. -/
theorem Ok.faulted_of_freed {PRand : Bool} {rand virtAddr : ℕ} {m₁ : VM} {sp₁ : AddrSpace}
    (h : m.Ok) (hswap : m.SwapOk) (hspace : m.space = some S) (hS : m.spaces S = some sp)
    (hslot : m.slotOf (virtAddr / PageSize) = none)
    (hlookup : m.lookup S (virtAddr / PageSize) = none) (hv : virtAddr / PageSize < sp.numPages)
    (hfreed : Freed PRand rand m m₁ f) (hS₁ : m₁.spaces S = some sp₁) (hok : m'.Ok)
    (hstep : (m₁.iptMiss S sp₁ (virtAddr / PageSize) f).updateTLB f = some m') :
  Faulted PRand rand virtAddr S sp m m'
  := by
  have hfreedOk := h.freed hfreed
  have hlt := hfreedOk.vacant.lt
  obtain ⟨hswap₁, hmemory₁, hpages⟩ := h.freed_pages hswap hfreed hS hS₁
  obtain ⟨sp₂, hsp₂, hnum⟩ := hfreedOk.spaces S sp hS
  obtain rfl := Option.some.inj (hS₁.symm.trans hsp₂)
  have hout : ∀ g, ¬ m.Holds g S (virtAddr / PageSize) := lookup_none hlookup
  obtain ⟨hok₂, hholds₂⟩ := hfreedOk.iptMiss h hS₁ (by omega) (fun g hresident =>
    hout g ((h.mapping.holds_iff g S _).mpr hresident))
  have hslot' := slotOf_updateTLB hholds₂ hok₂.currentTLB hstep
  have hholds : ∀ g u, (m₁.iptMiss S sp₁ (virtAddr / PageSize) f).Holds g S u ↔
      g = f ∧ u = virtAddr / PageSize ∨ g ≠ f ∧ m.Holds g S u := by
    intro g u
    rw [holds_iptMiss hlt, hfreedOk.frames.holds_iff]
    simp
  have hmemory : ∀ g, g ≠ f →
      (m₁.iptMiss S sp₁ (virtAddr / PageSize) f).mainMemory g = m.mainMemory g := by
    intro g hg
    rw [← hmemory₁]
    exact Function.update_of_ne hg _ _
  have hread : (m₁.iptMiss S sp₁ (virtAddr / PageSize) f).mainMemory f =
      m₁.backing sp₁ (virtAddr / PageSize) := Function.update_self _ _ _
  have hswap₂ : (m₁.iptMiss S sp₁ (virtAddr / PageSize) f).SwapOk :=
    hswap₁.congr (samePlaces_of_update hS₁ rfl (samePlace_setPage rfl rfl rfl) rfl rfl)
  have hspace₂ : (m₁.iptMiss S sp₁ (virtAddr / PageSize) f).space = some S :=
    hfreedOk.space.trans hspace
  obtain ⟨sp', hsp', hnum', hbacking⟩ := backing_iptMiss hS₁ (virtAddr / PageSize) f
  generalize m₁.iptMiss S sp₁ (virtAddr / PageSize) f = m₂ at *
  have hgone : ∀ u, u ≠ virtAddr / PageSize → m.Holds f S u → ∀ g, ¬ m₂.Holds g S u := by
    intro u huv hf g hg
    obtain ⟨-, heq⟩ | ⟨hgf, hg⟩ := (hholds g u).mp hg
    · exact huv heq
    · exact hgf (h.mapping.eq_of_holds hg hf)
  obtain ⟨hframes, hplaces, hmemory', hspaces', hspace'⟩ := frames_updateTLB hstep
  have hsame := userPage_congr hframes hmemory' hspaces' hplaces.swapFile S
  refine ⟨hok, hswap₂.congr hplaces, hspace'.trans hspace₂, ⟨sp', hspaces' ▸ hsp', hnum'.trans hnum⟩,
    hslot', ?_, ?_, ?_⟩
  · intro u hu hkept
    rw [hsame]
    by_cases huv : u = virtAddr / PageSize
    · subst huv
      rw [hok₂.mapping.userPage_of_holds hholds₂, hread, (hpages _ hu).kept (hout f),
        h.mapping.userPage_of_not_holds hout hS]
    · by_cases hin : ∃ g, m.Holds g S u
      · obtain ⟨g, hg⟩ := hin
        rw [h.mapping.userPage_of_holds hg]
        by_cases hgf : g = f
        · subst hgf
          have hevicted := h.evictedFrame_of_freed hspace hslot hlookup hfreed hg
          have hdirty : m.foundDirty g = true := by
            by_contra hclean
            exact hkept ⟨g, hevicted, by simpa using hclean, hg⟩
          rw [hok₂.mapping.userPage_of_not_holds (hgone u huv hg) hsp', hbacking,
            (hpages u hu).dirty hg hdirty]
        · rw [hok₂.mapping.userPage_of_holds ((hholds g u).mpr (.inr ⟨hgf, hg⟩)), hmemory g hgf]
      · have hnot : ∀ g, ¬ m.Holds g S u := fun g hg => hin ⟨g, hg⟩
        have hnot₂ : ∀ g, ¬ m₂.Holds g S u := by
          intro g hg
          obtain ⟨-, heq⟩ | ⟨-, hg⟩ := (hholds g u).mp hg
          · exact huv heq
          · exact hnot g hg
        rw [hok₂.mapping.userPage_of_not_holds hnot₂ hsp', hbacking, (hpages u hu).kept (hnot f),
          h.mapping.userPage_of_not_holds hnot hS]
  · rintro u hu ⟨g, hevicted, hclean, hg⟩
    obtain rfl := eq_of_evictedFrame hevicted hfreed
    have huv : u ≠ virtAddr / PageSize := by
      rintro rfl
      exact hout g hg
    refine ⟨fun g' hg' => hgone u huv hg g' (hframes.holds_iff.mp hg'), ?_⟩
    rw [hsame, hok₂.mapping.userPage_of_not_holds (hgone u huv hg) hsp', hbacking,
      (hpages u hu).clean hg hclean]
  · intro u hu hold g hg
    obtain ⟨-, rfl⟩ | ⟨-, hg⟩ := (hholds g u).mp (hframes.holds_iff.mp hg)
    · exact hu rfl
    · exact hold g hg

/-- A page fault leaves the pages of the running process as they are, except for one that is lost. -/
theorem Ok.pageFault_pages {PRand : Bool} {rand virtAddr : ℕ} (h : m.Ok) (hswap : m.SwapOk)
    (hspace : m.space = some S) (hS : m.spaces S = some sp)
    (hslot : m.slotOf (virtAddr / PageSize) = none)
    (hstep : m.pageFault PRand rand virtAddr = some m') :
  Faulted PRand rand virtAddr S sp m m'
  := by
  have hok := h.pageFault hslot hstep
  simp only [VM.pageFault, hspace, hS, Option.bind_eq_bind, Option.bind_some] at hstep
  split at hstep
  · rename_i hv
    rw [VM.handlePageFault] at hstep
    split at hstep
    · rename_i hlookup
      exact h.faulted_of_lookup hswap hspace hS hlookup hok hstep
    · rename_i hlookup
      obtain ⟨⟨m₂, ppn⟩, hmiss, hstep⟩ := Option.bind_eq_some_iff.mp hstep
      obtain ⟨m₁, sp₁, hfreed, hsp₁, rfl⟩ := h.handleIPTMiss_cases hmiss
      exact h.faulted_of_freed hswap hspace hS hslot hlookup hv.2 hfreed hsp₁ hok hstep
  · cases hstep

/-! ### Page faults that are handled -/

/-- There is a free slot in the swap file if the page that is evicted is found dirty. -/
def Room (PRand : Bool) (rand virtAddr : ℕ) (m : VM) : Prop :=
  ∀ f ∈ m.evictedFrame PRand rand virtAddr, m.foundDirty f = true →
    (find swapSize m.swapFileBitMap).isSome

/-- The slot of the translation buffer that is replaced next names a frame if it is dirty. -/
def NamesFrame (m : VM) : Prop :=
  (m.tlb m.currentTLB).dirty = true → (m.tlb m.currentTLB).physicalPage < NumPhysPages

instance (PRand : Bool) (rand virtAddr : ℕ) (m : VM) : Decidable (m.Room PRand rand virtAddr) :=
  inferInstanceAs (Decidable (∀ f ∈ m.evictedFrame PRand rand virtAddr, _ → _))

instance (m : VM) : Decidable m.NamesFrame := inferInstanceAs (Decidable (_ → _))

theorem exists_updateTLB_iff {ppn : ℕ} :
  (∃ m', m.updateTLB ppn = some m') ↔ m.NamesFrame
  := by
  rw [updateTLB, NamesFrame]
  split
  · rename_i hdirty
    simp only [hdirty, true_implies]
    split
    · rename_i hlt
      simp [hlt]
    · rename_i hlt
      simp [hlt]
  · rename_i hdirty
    simp [hdirty]

/-- Freeing a frame does not change which slot is replaced next, and whether it names a frame. -/
theorem namesFrame_freed {PRand : Bool} {rand : ℕ} {m₁ : VM} (hfreed : Freed PRand rand m m₁ f) :
  m₁.NamesFrame ↔ m.NamesFrame
  := by
  cases hfreed with
  | free _ => rfl
  | full _ _ _ hevicted =>
      have hev := evicts_of_evicted hevicted
      have hcurrent : m₁.currentTLB = m.currentTLB := hev.currentTLB
      have htlb : m₁.tlb = m.invalidated (victim PRand rand m) TLBSize := hev.tlb
      rw [NamesFrame, NamesFrame, hcurrent, htlb, invalidated]
      split <;> rfl

/-- A page can be evicted when there is room in the swap file. -/
theorem exists_evict {T t : ℕ} {tp : AddrSpace} (hholds : m.Holds f T t)
    (hT : m.spaces T = some tp)
    (hroom : m.foundDirty f = true → (find swapSize m.swapFileBitMap).isSome) :
  ∃ m₁, evict f m = some m₁ ∧
    ∀ S sp, m.spaces S = some sp → ∃ sp₁, m₁.spaces S = some sp₁
  := by
  rw [foundDirty_eq] at hroom
  have hevict : ∃ m₁, evict f m = some m₁ := by
    rw [evict_eq hholds.owner hT, VM.evicted]
    split
    · rename_i hdirty
      obtain ⟨l, hl⟩ := Option.isSome_iff_exists.mp (hroom hdirty)
      simp [hl]
    · exact ⟨_, rfl⟩
  obtain ⟨m₁, hm₁⟩ := hevict
  refine ⟨m₁, hm₁, ?_⟩
  intro S sp hS
  rw [evict_eq hholds.owner hT] at hm₁
  obtain ⟨tp', -, hspaces⟩ := (evicts_of_evicted hm₁).page
  rw [hspaces, Function.update_apply]
  split
  · exact ⟨tp', rfl⟩
  · exact ⟨sp, hS⟩

/-- A page that is not in memory can be read when there is room in the swap file. -/
theorem Ok.exists_handleIPTMiss {PRand : Bool} {rand virtAddr : ℕ} (h : m.Ok)
    (hspace : m.space = some S) (hS : m.spaces S = some sp)
    (hslot : m.slotOf (virtAddr / PageSize) = none)
    (hlookup : m.lookup S (virtAddr / PageSize) = none) (hroom : m.Room PRand rand virtAddr) :
  ∃ m₂ ppn, m.handleIPTMiss PRand rand S (virtAddr / PageSize) = some (m₂, ppn)
  := by
  simp only [handleIPTMiss, Option.bind_eq_bind, Option.pure_def]
  cases hfind : find NumPhysPages m.mainMemoryBitMap with
  | some f => simp [hS]
  | none =>
      have hlt := victim_lt h.currentIPT PRand rand
      obtain ⟨T, t, hholds, tp, hT, -⟩ := h.mapping.loaded _ hlt (find_none hfind hlt)
      have hevicted : m.evictedFrame PRand rand virtAddr = some (victim PRand rand m) := by
        simp [evictedFrame, hspace, hslot, hlookup, hfind]
      have hframes : SameFrames m { m with
          currentIPT := if PRand then m.currentIPT else (m.currentIPT + 1) % NumPhysPages } :=
        sameFrames_of_eq rfl
      have hfound : foundDirty { m with
          currentIPT := if PRand then m.currentIPT else (m.currentIPT + 1) % NumPhysPages }
            (victim PRand rand m) = m.foundDirty (victim PRand rand m) := by
        rw [foundDirty_eq, foundDirty_eq]
        rfl
      obtain ⟨m₁, hm₁, hlive⟩ := exists_evict (hframes.holds_iff.mpr hholds) hT (by
        rw [hfound]
        exact hroom _ hevicted)
      obtain ⟨sp₁, hsp₁⟩ := hlive S sp hS
      simp [handleMemoryFull, hm₁, hsp₁]

/-- A page fault inside the address space is handled when there is room in the swap file, exactly if
the address is that of an `int` and the slot that is replaced names a frame. -/
theorem Ok.exists_pageFault_iff {PRand : Bool} {rand virtAddr : ℕ} (h : m.Ok)
    (hspace : m.space = some S) (hS : m.spaces S = some sp)
    (hslot : m.slotOf (virtAddr / PageSize) = none) (hv : virtAddr / PageSize < sp.numPages)
    (hroom : m.Room PRand rand virtAddr) :
  (∃ m', m.pageFault PRand rand virtAddr = some m') ↔ virtAddr < 2 ^ 31 ∧ m.NamesFrame
  := by
  simp only [VM.pageFault, hspace, hS, Option.bind_eq_bind, Option.bind_some, hv, and_true]
  split
  · rename_i hint
    simp only [hint, true_and]
    rw [VM.handlePageFault]
    cases hlookup : m.lookup S (virtAddr / PageSize) with
    | some ppn => exact exists_updateTLB_iff
    | none =>
        obtain ⟨m₂, ppn, hmiss⟩ := h.exists_handleIPTMiss hspace hS hslot hlookup hroom
        obtain ⟨m₁, sp₁, hfreed, -, rfl⟩ := h.handleIPTMiss_cases hmiss
        simp only [hmiss, Option.bind_eq_bind, Option.bind_some]
        rw [← namesFrame_freed hfreed]
        exact exists_updateTLB_iff
  · rename_i hint
    constructor
    · rintro ⟨m', hm'⟩
      cases hm'
    · rintro ⟨hlt, -⟩
      exact absurd hlt hint

end VM

end Nachos.Memory
