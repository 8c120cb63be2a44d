import Nachos.Memory.Stored

/-!
# Slots of the swap file

A bit of `swapFileBitMap` is set in `HandleMemoryFull`, when a dirty page is written to the swap file.
The code never clears it. A slot is in use when a page of an address space is in it. The bits are those
of the slots in use as long as no page is written that is in the swap file already, no process exits
and none allocates a stack while one of its pages is in the swap file (`Swap.slots_accounted`).

Beside the actions of `Nachos.Memory.Basic` there is `clearStack` (`userprog/addrspace.cc`), which a
thread calls that exits while other threads of its process go on. It frees the frames that are named
in the page table, even when the pages are not in memory.
-/

namespace Nachos.Memory

namespace VM

/-- The frame that is named in page `i` of the address space `S` is cleared. -/
def freePage (S : ℕ) (sp : AddrSpace) (i : ℕ) (m : VM) : VM :=
  let f := (sp.pageTable i).entry.physicalPage
  ({ m with
    mainMemoryBitMap := Function.update m.mainMemoryBitMap f false
    mainMemory := Function.update m.mainMemory f (fun _ => 0) }.setIPT f
      { m.IPT f with entry := { (m.IPT f).entry with valid := false } }).setSpace S (sp.invalidate i)

/-- One iteration of the loop of `clearStack` of the address space `S`. It is `none` where the
assertion in `BitMap::Clear` fails. -/
def clearStackPage (S : ℕ) (m : VM) (i : ℕ) : Option VM := do
  let sp ← m.spaces S
  if (sp.pageTable i).entry.physicalPage < NumPhysPages then return m.freePage S sp i
  else none

/-- `clearStack` of the address space `S`. It is `none` where the pages are not in the page table. -/
def clearStack (S : ℕ) (stack : ℕ) (m : VM) : Option VM := do
  let sp ← m.spaces S
  let stackEnd := stack / PageSize
  if 7 ≤ stackEnd ∧ stackEnd < sp.numPages then
    (List.range 8).foldlM (fun m j => m.clearStackPage S (stackEnd - 7 + j)) m
  else none

/-- The bits that are set are those of the slots in use, and a slot is used by one page. -/
structure Accounted (m : VM) : Prop extends SwapOk m where
  used : ∀ l, m.swapFileBitMap l = true → ∃ S v, m.Swapped S v l

/-- The page in frame `f` is not in the swap file, or `HandleMemoryFull` finds it clean. -/
def WrittenOnce (m : VM) (f : ℕ) : Prop :=
  ((m.invalidateTLB f).IPT f).entry.dirty = true → ∀ sp, (m.IPT f).owner.bind m.spaces = some sp →
    (sp.pageTable (m.IPT f).entry.virtualPage).location ≠ .swapfile

instance (m : VM) (f : ℕ) : Decidable (m.WrittenOnce f) :=
  inferInstanceAs (Decidable (_ → ∀ sp, _ = some sp → _))

/-- No page of the running process is in the swap file. -/
def NoneSwapped (m : VM) : Prop :=
  ∀ sp, m.space.bind m.spaces = some sp → ∀ v < sp.numPages, (sp.pageTable v).location ≠ .swapfile

instance (m : VM) : Decidable m.NoneSwapped :=
  inferInstanceAs (Decidable (∀ sp, _ = some sp → _))

end VM

namespace Swap

open VM

inductive Action where
  | memory (a : VM.Action)
  /-- The running thread exits, and it is not the last one of its process. -/
  | clearStack (stack : ℕ)

def step (PRand : Bool) (m : VM) : Action → Option VM
  | .memory a => VM.step PRand m a
  | .clearStack stack => do
      let S ← m.space
      m.clearStack S stack

/-- No slot is lost: a dirty page that is evicted is not in the swap file yet, and a process that
exits or allocates a stack has no page there. -/
def Careful (PRand : Bool) (m : VM) : Action → Prop
  | .memory (.load rand virtAddr _) =>
      ∀ f, m.evictedFrame PRand rand virtAddr = some f → m.WrittenOnce f
  | .memory (.store rand virtAddr _) =>
      ∀ f, m.evictedFrame PRand rand virtAddr = some f → m.WrittenOnce f
  | .memory (.allocateStack _) => m.NoneSwapped
  | .memory (.exit _) => m.NoneSwapped
  | _ => True

instance (PRand : Bool) (m : VM) : ∀ a, Decidable (Careful PRand m a)
  | .memory (.load _ _ _) | .memory (.store _ _ _) =>
      inferInstanceAs (Decidable (∀ f, _ = some f → m.WrittenOnce f))
  | .memory (.allocateStack _) | .memory (.exit _) => inferInstanceAs (Decidable m.NoneSwapped)
  | .memory (.create _ _ _ _) | .memory (.switch _) | .clearStack _ =>
      inferInstanceAs (Decidable True)

end Swap

/-! ### Frames that have been taken -/

namespace VM

variable {m m' : VM} {S v f : ℕ} {sp sp' : AddrSpace}

theorem Loaded.congr (h : m.Loaded) (hframes : SameFrames m m')
    (hbits : m'.mainMemoryBitMap = m.mainMemoryBitMap) (hspaces : m'.spaces = m.spaces) :
  m'.Loaded
  := by
  intro f hf hbit
  rw [hbits] at hbit
  obtain ⟨S, v, hholds, hresident⟩ := h f hf hbit
  exact ⟨S, v, hframes.holds_iff.mpr hholds, (resident_congr hspaces).mpr hresident⟩

/-- The frames other than `f` that have been taken hold pages that are in them. -/
def LoadedBut (m : VM) (f : ℕ) : Prop :=
  ∀ g < NumPhysPages, g ≠ f → m.mainMemoryBitMap g = true → ∃ S v, m.Holds g S v ∧ m.Resident S v g

/-- Page `v` of the address space `S`, which is in frame `f` if it is anywhere, is taken out of
memory. -/
theorem Loaded.without (h : m.Loaded) (hS : m.spaces S = some sp)
    (hframes : ∀ g, g ≠ f → ∀ T u, m'.Holds g T u ↔ m.Holds g T u)
    (hbits : ∀ g, g ≠ f → m'.mainMemoryBitMap g = m.mainMemoryBitMap g)
    (hspaces : m'.spaces = Function.update m.spaces S (some sp')) (hpage : WithoutPage sp sp' v)
    (hout : ∀ g, m.Resident S v g → g = f) :
  m'.LoadedBut f
  := by
  intro g hg hgf hbit
  rw [hbits g hgf] at hbit
  obtain ⟨T, u, hholds, hresident⟩ := h g hg hbit
  refine ⟨T, u, (hframes g hgf T u).mpr hholds, ?_⟩
  apply (resident_withoutPage hS hspaces hpage T u g).mpr
  refine ⟨hresident, ?_⟩
  rintro ⟨rfl, rfl⟩
  exact hgf (hout g hresident)

/-- A frame that is freed. -/
theorem LoadedBut.loaded (h : m.LoadedBut f) (hclear : m.mainMemoryBitMap f = false) :
  m.Loaded
  := by
  intro g hg hbit
  apply h g hg _ hbit
  rintro rfl
  rw [hclear] at hbit
  cases hbit

/-- The frame that a page is going to be read into. -/
theorem Loaded.freed {PRand : Bool} {rand : ℕ} (h : m.Loaded) (hIPT : m.currentIPT < NumPhysPages)
    (hfreed : Freed PRand rand m m' f) :
  f < NumPhysPages ∧ m'.LoadedBut f ∧ SameFrames m m' ∧ m'.currentIPT < NumPhysPages ∧
    ∀ T tp, m.spaces T = some tp → ∃ tp', m'.spaces T = some tp' ∧ tp'.numPages = tp.numPages
  := by
  cases hfreed with
  | free hfind =>
      obtain ⟨hlt, -⟩ := find_some hfind
      refine ⟨hlt, ?_, sameFrames_of_eq rfl, hIPT, fun T tp hT => ⟨tp, hT, rfl⟩⟩
      intro g hg hgf hbit
      simp only [Function.update_of_ne hgf] at hbit
      obtain ⟨S, v, hholds, hresident⟩ := h g hg hbit
      have hframes : SameFrames m { m with
          mainMemoryBitMap := Function.update m.mainMemoryBitMap f true } := sameFrames_of_eq rfl
      exact ⟨S, v, hframes.holds_iff.mpr hholds, hresident⟩
  | @full _ S v sp hfind hholds hS hevicted =>
      have hlt := victim_lt hIPT PRand rand
      have hevicts := evicts_of_evicted hevicted
      obtain ⟨sp', hpage, hspaces⟩ := hevicts.page
      obtain ⟨S', v', hholds', hresident⟩ := h _ hlt (find_none hfind hlt)
      obtain rfl : S' = S := Option.some.inj (hholds'.owner.symm.trans hholds.owner)
      obtain rfl : v' = v := hholds'.virtualPage.symm.trans hholds.virtualPage
      have hframes : SameFrames m m' := by
        intro g
        exact hevicts.frames g
      refine ⟨hlt, ?_, hframes, ?_, ?_⟩
      · refine h.without hS (fun g _ T u => hframes.holds_iff) (fun g _ => ?_) hspaces hpage ?_
        · rw [hevicts.bitMap]
        · rintro g ⟨tp, htp, -, -, rfl⟩
          obtain ⟨tp', htp', -, -, hphysical⟩ := hresident
          obtain rfl := Option.some.inj (htp.symm.trans htp')
          exact hphysical
      · rw [hevicts.currentIPT]
        simp only
        split
        · exact hIPT
        · exact Nat.mod_lt _ (by decide)
      · intro T tp hT
        rw [hspaces, Function.update_apply]
        split
        · rename_i hTS
          subst hTS
          obtain rfl := Option.some.inj (hT.symm.trans hS)
          exact ⟨sp', rfl, hpage.numPages⟩
        · exact ⟨tp, hT, rfl⟩

/-- A page that no frame holds is read into the frame. -/
theorem LoadedBut.iptMiss (h : m.LoadedBut f) (hlt : f < NumPhysPages) (hS : m.spaces S = some sp)
    (hv : v < sp.numPages) (hout : ∀ g, ¬ m.Holds g S v) :
  (m.iptMiss S sp v f).Loaded
  := by
  intro g hg hbit
  by_cases hgf : g = f
  · subst hgf
    use S, v
    exact ⟨(holds_iptMiss hlt g S v).mpr (.inl ⟨rfl, rfl, rfl⟩),
      (resident_iptMiss hS hv S v g).mpr (.inl ⟨rfl, rfl, rfl⟩)⟩
  · obtain ⟨T, u, hholds, hresident⟩ := h g hg hgf hbit
    use T, u, (holds_iptMiss hlt g T u).mpr (.inr ⟨hgf, hholds⟩)
    apply (resident_iptMiss hS hv T u g).mpr
    refine .inr ⟨?_, hresident⟩
    rintro ⟨rfl, rfl⟩
    exact hout g hholds

/-! ### Slots in use -/

/-- A change of one address space that leaves its pages in the swap file where they are. -/
theorem swapped_of_update (hS : m.spaces S = some sp)
    (hspaces : m'.spaces = Function.update m.spaces S (some sp')) (hplace : ∀ u, SamePlace sp sp' u)
    (T u l : ℕ) :
  m'.Swapped T u l ↔ m.Swapped T u l
  := by
  rw [Swapped, Swapped, hspaces, Function.update_apply]
  split
  · rename_i hTS
    subst hTS
    simp only [hS, Option.some.injEq, exists_eq_left']
    rw [(hplace u).numPages, (hplace u).location, (hplace u).swapLocation]
  · rfl

theorem Accounted.congr (h : m.Accounted) (hbits : m'.swapFileBitMap = m.swapFileBitMap)
    (hswapped : ∀ T u l, m'.Swapped T u l ↔ m.Swapped T u l) :
  m'.Accounted
  := by
  refine ⟨⟨?_, ?_⟩, ?_⟩
  · intro T u l hl
    rw [hbits]
    exact h.marked T u l ((hswapped T u l).mp hl)
  · intro T u T' u' l hl hl'
    exact h.unique T u T' u' l ((hswapped T u l).mp hl) ((hswapped T' u' l).mp hl')
  · intro l hl
    rw [hbits] at hl
    obtain ⟨T, u, hswap⟩ := h.used l hl
    exact ⟨T, u, (hswapped T u l).mpr hswap⟩

/-- A page that is not in the swap file is written to a slot that is not used. -/
theorem Accounted.swap (h : m.Accounted) {l : ℕ} (hS : m.spaces S = some sp) (hv : v < sp.numPages)
    (hfree : m.swapFileBitMap l = false) (hplace : (sp.pageTable v).location ≠ .swapfile)
    (hspaces : m'.spaces = Function.update m.spaces S (some (sp.swappedPage v l)))
    (hbits : m'.swapFileBitMap = Function.update m.swapFileBitMap l true) :
  m'.Accounted
  := by
  refine ⟨h.toSwapOk.swap hS hfree hspaces hbits, ?_⟩
  intro k hk
  rw [hbits, Function.update_apply] at hk
  split at hk
  · rename_i hkl
    subst hkl
    use S, v, sp.swappedPage v k
    refine ⟨?_, hv, pageTable_swappedPage sp v k⟩
    rw [hspaces, Function.update_self]
  · obtain ⟨T, u, tp, hT, hu, hlocation, hl⟩ := h.used k hk
    have hne : ¬ (T = S ∧ u = v) := by
      rintro ⟨rfl, rfl⟩
      obtain rfl := Option.some.inj (hT.symm.trans hS)
      exact hplace hlocation
    use T, u
    rw [Swapped, hspaces, Function.update_apply]
    split
    · rename_i hTS
      subst hTS
      obtain rfl := Option.some.inj (hT.symm.trans hS)
      refine ⟨_, rfl, hu, ?_⟩
      rw [(withoutPage_swappedPage tp v l).other u (fun huv => hne ⟨rfl, huv⟩)]
      exact ⟨hlocation, hl⟩
    · exact ⟨tp, hT, hu, hlocation, hl⟩

theorem WrittenOnce.location (h : m.WrittenOnce f) (hholds : m.Holds f S v)
    (hS : m.spaces S = some sp) (hdirty : m.lastDirty f TLBSize = true) :
  (sp.pageTable v).location ≠ .swapfile
  := by
  rw [← hholds.virtualPage]
  apply h
  · rw [invalidateTLB_eq]
    simpa using hdirty
  · rw [hholds.owner]
    exact hS

theorem NoneSwapped.not_swapped (h : m.NoneSwapped) (hspace : m.space = some S) (v l : ℕ) :
  ¬ m.Swapped S v l
  := by
  rintro ⟨sp, hS, hv, hlocation, -⟩
  refine h sp ?_ v hv hlocation
  rw [hspace]
  exact hS

/-- The page in the frame is evicted. -/
theorem Accounted.evicted {m₁ : VM} (h : m.Accounted)
    (hS : m.spaces S = some sp) (hv : v < sp.numPages)
    (honce : m.lastDirty f TLBSize = true → (sp.pageTable v).location ≠ .swapfile)
    (hevicted : m.evicted f S v sp = some m₁) :
  m₁.Accounted
  := by
  rw [VM.evicted] at hevicted
  split at hevicted
  · rename_i hdirty
    obtain ⟨l, hfind, rfl⟩ := Option.map_eq_some_iff.mp hevicted
    exact h.swap hS hv (find_some hfind).2 (honce hdirty) rfl rfl
  · obtain rfl := Option.some.inj hevicted
    refine h.congr ?_ (swapped_of_update hS rfl ?_)
    · rw [invalidateTLB_eq]
    · exact samePlace_setPage rfl rfl rfl

end VM

/-! ### The invariant -/

namespace Swap

open VM

variable {PRand : Bool} {m m' : VM} {S v f : ℕ} {sp : AddrSpace}

structure Ok (m : VM) : Prop where
  loaded : m.Loaded
  accounted : m.Accounted
  currentIPT : m.currentIPT < NumPhysPages

/-- A change of neither the frames, the address spaces nor the swap file. -/
theorem Ok.congr (h : Ok m) (hframes : SameFrames m m')
    (hbits : m'.mainMemoryBitMap = m.mainMemoryBitMap) (hspaces : m'.spaces = m.spaces)
    (hswap : m'.swapFileBitMap = m.swapFileBitMap) (hIPT : m'.currentIPT = m.currentIPT) :
  Ok m'
  := by
  refine ⟨h.loaded.congr hframes hbits hspaces, h.accounted.congr hswap ?_, ?_⟩
  · intro T u l
    rw [Swapped, Swapped, hspaces]
  · rw [hIPT]
    exact h.currentIPT

/-- A change of one address space that leaves its pages where they are. -/
theorem Ok.setSpace (h : Ok m) {sp' : AddrSpace}
    (hresident : ∀ v f, m.Resident S v f → (m.setSpace S sp').Resident S v f)
    (hswapped : ∀ u l, (m.setSpace S sp').Swapped S u l ↔ m.Swapped S u l) :
  Ok (m.setSpace S sp')
  := by
  have hother : ∀ T, T ≠ S → (m.setSpace S sp').spaces T = m.spaces T :=
    fun T hTS => Function.update_of_ne hTS _ _
  refine ⟨?_, h.accounted.congr rfl ?_, h.currentIPT⟩
  · intro f hf hbit
    obtain ⟨T, u, hholds, hold⟩ := h.loaded f hf hbit
    have hframes : SameFrames m (m.setSpace S sp') := sameFrames_of_eq rfl
    refine ⟨T, u, hframes.holds_iff.mpr hholds, ?_⟩
    by_cases hTS : T = S
    · subst hTS
      exact hresident u f hold
    · rw [Resident, hother T hTS]
      exact hold
  · intro T u l
    by_cases hTS : T = S
    · subst hTS
      exact hswapped u l
    · rw [Swapped, Swapped, hother T hTS]

/-- The page fault of the running thread. -/
theorem Ok.pageFault {rand virtAddr : ℕ} (h : Ok m)
    (hslot : m.slotOf (virtAddr / PageSize) = none)
    (hcareful : ∀ f, m.evictedFrame PRand rand virtAddr = some f → m.WrittenOnce f)
    (hstep : m.pageFault PRand rand virtAddr = some m') :
  Ok m'
  := by
  have hupdate : ∀ {m m' : VM} {ppn : ℕ}, Ok m → m.updateTLB ppn = some m' → Ok m' := by
    intro m m' ppn hm hm'
    obtain rfl := updateTLB_eq hm'
    exact hm.congr (sameFrames_propagated rfl) rfl rfl rfl rfl
  simp only [VM.pageFault, Option.bind_eq_bind] at hstep
  obtain ⟨S, hspace, hstep⟩ := Option.bind_eq_some_iff.mp hstep
  obtain ⟨sp, hS, hstep⟩ := Option.bind_eq_some_iff.mp hstep
  split at hstep
  · rename_i hv
    rw [handlePageFault] at hstep
    split at hstep
    · exact hupdate h hstep
    · rename_i hlookup
      obtain ⟨⟨m₂, ppn⟩, hmiss, hstep⟩ := Option.bind_eq_some_iff.mp hstep
      obtain ⟨m₁, sp₁, hfreed, hsp₁, rfl⟩ := h.loaded.handleIPTMiss_cases h.currentIPT hmiss
      obtain ⟨hlt, hbut, hframes, hIPT, hspaces⟩ := h.loaded.freed h.currentIPT hfreed
      obtain ⟨sp₂, hsp₂, hnum⟩ := hspaces S sp hS
      obtain rfl := Option.some.inj (hsp₁.symm.trans hsp₂)
      have haccounted : m₁.Accounted := by
        cases hfreed with
        | free hfind => exact h.accounted.congr rfl (fun _ _ _ => Iff.rfl)
        | @full _ T u tp hfind hholds hT hevicted =>
            obtain ⟨T', u', hholds', tp', hT', hu', -, -⟩ := h.loaded _ hlt (find_none hfind hlt)
            obtain rfl : T' = T := Option.some.inj (hholds'.owner.symm.trans hholds.owner)
            obtain rfl : u' = u := hholds'.virtualPage.symm.trans hholds.virtualPage
            obtain rfl := Option.some.inj (hT'.symm.trans hT)
            have honce : m.WrittenOnce (victim PRand rand m) := by
              apply hcareful
              simp [evictedFrame, hspace, hslot, hlookup, hfind]
            have hbefore : Accounted { m with currentIPT :=
                if PRand then m.currentIPT else (m.currentIPT + 1) % NumPhysPages } :=
              h.accounted.congr rfl (fun _ _ _ => Iff.rfl)
            exact hbefore.evicted hT hu' (fun hdirty => honce.location hholds hT hdirty) hevicted
      have hout : ∀ g, ¬ m₁.Holds g S (virtAddr / PageSize) := by
        intro g hg
        exact lookup_none hlookup g (hframes.holds_iff.mp hg)
      refine hupdate ⟨hbut.iptMiss hlt hsp₁ (by omega) hout, ?_, hIPT⟩ hstep
      exact haccounted.congr rfl (swapped_of_update hsp₁ rfl (samePlace_setPage rfl rfl rfl))
  · contradiction

theorem swapped_freePage (hS : m.spaces S = some sp) (i T u l : ℕ) :
  (m.freePage S sp i).Swapped T u l ↔ m.Swapped T u l
  := by
  apply swapped_of_update hS rfl
  exact samePlace_setPage rfl rfl rfl

/-- A frame is cleared. -/
theorem Ok.freePage (h : Ok m) (hS : m.spaces S = some sp) (i : ℕ) :
  Ok (m.freePage S sp i)
  := by
  refine ⟨?_, ?_, h.currentIPT⟩
  · have hbut : (m.freePage S sp i).LoadedBut (sp.pageTable i).entry.physicalPage := by
      refine h.loaded.without hS ?_ ?_ rfl (withoutPage_evictedPage sp i) ?_
      · intro g hg T u
        have hIPT : (m.freePage S sp i).IPT g = m.IPT g := Function.update_of_ne hg _ _
        constructor
        · rintro ⟨hlt, hvalid, howner, hpage⟩
          rw [hIPT] at hvalid howner hpage
          exact ⟨hlt, hvalid, howner, hpage⟩
        · rintro ⟨hlt, hvalid, howner, hpage⟩
          rw [← hIPT] at hvalid howner hpage
          exact ⟨hlt, hvalid, howner, hpage⟩
      · intro g hg
        exact Function.update_of_ne hg _ _
      · rintro g ⟨tp, hT, -, -, hphysical⟩
        obtain rfl := Option.some.inj (hT.symm.trans hS)
        exact hphysical.symm
    apply hbut.loaded
    exact Function.update_self _ _ _
  · exact h.accounted.congr rfl (swapped_freePage hS i)

/-- What `clearMem` does to the address space `S` in `k` iterations. -/
structure Cleared (S : ℕ) (sp : AddrSpace) (m : VM) (k : ℕ) (m' : VM) : Prop where
  ok : Ok m'
  space : ∃ sp', m'.spaces S = some sp' ∧ sp'.numPages = sp.numPages ∧
    ∀ v < k, (sp'.pageTable v).entry.valid = false
  swapped : ∀ T u l, m'.Swapped T u l ↔ m.Swapped T u l

theorem Cleared.step {k : ℕ} (h : Cleared S sp m k m') :
  Cleared S sp m (k + 1) (m'.clearPage S k)
  := by
  obtain ⟨sp', hS, hnum, hinvalid⟩ := h.space
  rw [clearPage, hS]
  dsimp only
  split
  · have hpage := withoutPage_evictedPage sp' k
    refine ⟨h.ok.freePage hS k, ⟨sp'.invalidate k, Function.update_self _ _ _, hnum, ?_⟩, ?_⟩
    · intro v hv
      by_cases hvk : v = k
      · rw [hvk]
        exact hpage.invalid
      · rw [← hinvalid v (by omega)]
        exact congrArg (fun e => e.entry.valid) (hpage.other v hvk)
    · intro T u l
      exact (swapped_freePage hS k T u l).trans (h.swapped T u l)
  · rename_i hclear
    refine ⟨h.ok, ⟨sp', hS, hnum, ?_⟩, h.swapped⟩
    intro v hv
    by_cases hvk : v = k
    · rw [hvk]
      exact Bool.eq_false_iff.mpr hclear
    · exact hinvalid v (by omega)

theorem Ok.cleared (h : Ok m) (hS : m.spaces S = some sp) (k : ℕ) :
  Cleared S sp m k ((List.range k).foldl (clearPage S) m)
  := by
  induction k with
  | zero => exact ⟨h, ⟨sp, hS, rfl, by simp⟩, fun _ _ _ => Iff.rfl⟩
  | succ k ih =>
      rw [List.range_succ, List.foldl_append]
      exact ih.step

/-- An address space is deleted that has pages neither in memory nor in the swap file. -/
theorem Ok.delete (h : Ok m) (hout : ∀ v f, ¬ m.Resident S v f) (hnone : ∀ v l, ¬ m.Swapped S v l) :
  Ok { m with spaces := Function.update m.spaces S none }
  := by
  have hother : ∀ T, T ≠ S → Function.update m.spaces S none T = m.spaces T :=
    fun T hTS => Function.update_of_ne hTS _ _
  refine ⟨?_, h.accounted.congr rfl ?_, h.currentIPT⟩
  · intro f hf hbit
    obtain ⟨T, u, hholds, hresident⟩ := h.loaded f hf hbit
    have hframes : SameFrames m { m with spaces := Function.update m.spaces S none } :=
      sameFrames_of_eq rfl
    refine ⟨T, u, hframes.holds_iff.mpr hholds, ?_⟩
    have hTS : T ≠ S := by
      rintro rfl
      exact hout u f hresident
    simp only [Resident, hother T hTS]
    exact hresident
  · intro T u l
    by_cases hTS : T = S
    · subst hTS
      simp only [hnone u l, iff_false]
      rintro ⟨tp, hT, -⟩
      simp at hT
    · simp only [Swapped, hother T hTS]

/-- A thread exits that is not the last one of its process. -/
theorem Ok.clearStack {stack : ℕ} (h : Ok m) (hstep : m.clearStack S stack = some m') :
  Ok m'
  := by
  simp only [VM.clearStack, Option.bind_eq_bind] at hstep
  obtain ⟨sp, -, hstep⟩ := Option.bind_eq_some_iff.mp hstep
  split at hstep
  · have hloop : ∀ (js : List ℕ) (m : VM), Ok m →
        js.foldlM (fun m j => m.clearStackPage S (stack / PageSize - 7 + j)) m = some m' →
        Ok m' := by
      intro js
      induction js with
      | nil =>
          intro m hm hm'
          obtain rfl := Option.some.inj hm'
          exact hm
      | cons j js ih =>
          intro m hm hm'
          rw [List.foldlM_cons] at hm'
          obtain ⟨m₁, hm₁, hm'⟩ := Option.bind_eq_some_iff.mp hm'
          apply ih m₁ _ hm'
          simp only [clearStackPage, Option.bind_eq_bind] at hm₁
          obtain ⟨tp, hT, hm₁⟩ := Option.bind_eq_some_iff.mp hm₁
          split at hm₁
          · obtain rfl := Option.some.inj hm₁
            exact hm.freePage hT _
          · cases hm₁
    exact hloop (List.range 8) m h hstep
  · cases hstep

/-- Every careful action keeps the invariant. -/
theorem Ok.step (h : Ok m) {a : Action} (hcareful : Careful PRand m a)
    (hstep : step PRand m a = some m') :
  Ok m'
  := by
  have hleave : ∀ {m : VM} (next : Option ℕ), Ok m → Ok { m.leave with space := next } := by
    intro m next hm
    rw [leave_eq]
    exact hm.congr (sameFrames_of_eq rfl) rfl rfl rfl rfl
  cases a with
  | clearStack stack =>
      obtain ⟨S, -, hstep⟩ := Option.bind_eq_some_iff.mp hstep
      exact h.clearStack hstep
  | memory a =>
      cases a with
      | create S g executable numPages =>
          simp only [Swap.step, VM.step] at hstep
          split at hstep
          · rename_i hS
            obtain rfl := Option.some.inj hstep
            apply h.setSpace
            · rintro v f ⟨sp, hsp, -⟩
              cases hS.symm.trans hsp
            · intro u l
              simp [Swapped, hS, VM.setSpace, AddrSpace.new, AddrSpace.newEntry]
          · cases hstep
      | switch S =>
          obtain ⟨sp, -, heq⟩ := Option.bind_eq_some_iff.mp hstep
          obtain rfl := Option.some.inj heq
          exact hleave _ h
      | load rand virtAddr size =>
          obtain ⟨⟨m₁, value⟩, hread, rfl⟩ := Option.map_eq_some_iff.mp hstep
          rw [readMem] at hread
          split at hread
          · split at hread
            · cases hread
            · rename_i hfault
              obtain ⟨m₂, hm₂, heq⟩ := Option.map_eq_some_iff.mp hread
              obtain ⟨rfl, -⟩ := Prod.mk.inj heq
              exact h.pageFault (slotOf_of_fault hfault) hcareful hm₂
            · obtain ⟨rfl, -⟩ := Prod.mk.inj (Option.some.inj hread)
              exact h.congr (sameFrames_of_eq rfl) rfl rfl rfl rfl
          · cases hread
      | store rand virtAddr bytes =>
          obtain ⟨⟨m₁, written⟩, hwrite, rfl⟩ := Option.map_eq_some_iff.mp hstep
          rw [writeMem] at hwrite
          split at hwrite
          · split at hwrite
            · cases hwrite
            · rename_i hfault
              obtain ⟨m₂, hm₂, heq⟩ := Option.map_eq_some_iff.mp hwrite
              obtain ⟨rfl, -⟩ := Prod.mk.inj heq
              exact h.pageFault (slotOf_of_fault hfault) hcareful hm₂
            · obtain ⟨rfl, -⟩ := Prod.mk.inj (Option.some.inj hwrite)
              exact h.congr (sameFrames_of_eq rfl) rfl rfl rfl rfl
          · cases hwrite
      | allocateStack g =>
          obtain ⟨S, hspace, hstep⟩ := Option.bind_eq_some_iff.mp hstep
          obtain ⟨sp, hS, heq⟩ := Option.bind_eq_some_iff.mp hstep
          obtain rfl := Option.some.inj heq
          have hself : (m.setSpace S (sp.allocateStack g)).spaces S = some (sp.allocateStack g) :=
            Function.update_self _ _ _
          apply h.setSpace
          · rintro v f ⟨tp, hT, hv, hvalid, hphysical⟩
            obtain rfl := Option.some.inj (hT.symm.trans hS)
            refine ⟨_, hself, ?_, ?_⟩
            · simp only [AddrSpace.allocateStack]
              omega
            · simp only [AddrSpace.allocateStack, if_pos hv]
              exact ⟨hvalid, hphysical⟩
          · intro u l
            have hnone : m.NoneSwapped := hcareful
            simp only [hnone.not_swapped hspace u l, iff_false]
            rintro ⟨tp, hT, hu, hlocation, -⟩
            obtain rfl := Option.some.inj (hself.symm.trans hT)
            by_cases hlt : u < sp.numPages
            · simp only [AddrSpace.allocateStack, if_pos hlt] at hlocation
              exact hnone.not_swapped hspace u _ ⟨sp, hS, hlt, hlocation, rfl⟩
            · simp [AddrSpace.allocateStack, hlt, AddrSpace.newEntry] at hlocation
      | exit next =>
          obtain ⟨S, hspace, hstep⟩ := Option.bind_eq_some_iff.mp hstep
          obtain ⟨sp, hS, hstep⟩ := Option.bind_eq_some_iff.mp hstep
          split at hstep
          · cases hstep
          · obtain rfl := Option.some.inj hstep
            have hcleared := h.cleared hS sp.numPages
            apply hleave
            apply hcleared.ok.delete
            · rintro v f ⟨tp, hT, hv, hvalid, -⟩
              obtain ⟨sp', hsp', hnum, hinvalid⟩ := hcleared.space
              obtain rfl := Option.some.inj (hT.symm.trans hsp')
              rw [hinvalid v (by omega)] at hvalid
              cases hvalid
            · intro v l hl
              have hnone : m.NoneSwapped := hcareful
              exact hnone.not_swapped hspace v l ((hcleared.swapped S v l).mp hl)

/-- The slots of a process that exits are lost. -/
theorem Ok.not_accounted_exit {l : ℕ} (h : Ok m) (hspace : m.space = some S) (hl : m.Swapped S v l)
    {next : Option ℕ} (hstep : Swap.step PRand m (.memory (.exit next)) = some m') :
  ¬ m'.Accounted
  := by
  obtain ⟨S', hspace', hstep⟩ := Option.bind_eq_some_iff.mp hstep
  obtain rfl := Option.some.inj (hspace.symm.trans hspace')
  obtain ⟨sp, hS, hstep⟩ := Option.bind_eq_some_iff.mp hstep
  split at hstep
  · cases hstep
  · obtain rfl := Option.some.inj hstep
    rw [leave_eq]
    intro haccounted
    have hcleared := h.cleared hS sp.numPages
    have hbit := hcleared.ok.accounted.marked S v l ((hcleared.swapped S v l).mpr hl)
    obtain ⟨T, u, tp, hT, hu⟩ := haccounted.used l hbit
    simp only [Function.update_apply] at hT
    split at hT
    · cases hT
    · rename_i hTS
      have hold := (hcleared.swapped T u l).mp ⟨tp, hT, hu⟩
      exact hTS (h.accounted.unique T u S v l hold hl).1

theorem ok_initial (tlb ipt : ℕ → TranslationEntry) :
  Ok (initial tlb ipt)
  := by
  refine ⟨?_, ⟨⟨?_, ?_⟩, ?_⟩, by simp [initial, NumPhysPages]⟩
  · intro f _ hbit
    cases hbit
  · rintro S v l ⟨sp, hS, -⟩
    cases hS
  · rintro S v T u l ⟨sp, hS, -⟩
    cases hS
  · intro l hl
    cases hl

/-- The bits of the swap file that are set are those of the pages in it, as long as no slot is
lost. -/
theorem slots_accounted {tlb ipt : ℕ → TranslationEntry} {as : List Action}
    (halong : Transition.Along (step PRand) (Careful PRand) (initial tlb ipt) as)
    (hrun : Transition.run (step PRand) (initial tlb ipt) as = some m) :
  m.Accounted
  := by
  have hok := @Transition.run_invariant _ _ _ Ok (Careful PRand)
    (fun m a m' hm ha hstep => hm.step ha hstep) _ _ _ (ok_initial tlb ipt) halong hrun
  exact hok.accounted

/-! ### A process whose pages are swapped -/

/-- The actions of `Nachos.Memory.Basic` run as they do there. -/
theorem run_memory {t t' : Traced} {as : List VM.Action}
    (hrun : Transition.run (Traced.step PRand) t as = some t') :
  Transition.run (step PRand) t.vm (as.map .memory) = some t'.vm
  := by
  induction as generalizing t with
  | nil =>
      obtain rfl := Option.some.inj hrun
      rfl
  | cons a as ih =>
      obtain ⟨t₁, ht₁, hrun⟩ := Transition.run_cons.mp hrun
      obtain ⟨m₁, hm₁, heq⟩ := Option.bind_eq_some_iff.mp ht₁
      obtain rfl := Option.some.inj heq
      exact Transition.run_cons.mpr ⟨m₁, hm₁, ih hrun⟩

/-- The process of `Nachos.Memory.Stored` fills memory. -/
theorem run_filled :
  Transition.run (step false) (VM.initial (fun _ => Traced.unused) (fun _ => Traced.unused))
    (Traced.filling.map .memory) = some (Traced.filled NumPhysPages)
  := by
  have hrun := run_memory Traced.run_filling
  simp only [Traced.initial] at hrun
  exact hrun

theorem along_loads {n : ℕ} (hn : n ≤ NumPhysPages) :
  Transition.Along (step false) (Careful false) (Traced.filled 0) ((Traced.loads n).map .memory)
  := by
  induction n with
  | zero => trivial
  | succ n ih =>
      rw [Traced.loads, List.range_succ, List.map_append, List.map_append]
      apply Transition.along_append.mpr
      refine ⟨ih (by omega), ?_⟩
      intro m hm
      have hloads := Traced.run_loads Traced.zeros (n := n) (by omega)
      obtain rfl := Option.some.inj ((run_memory hloads).symm.trans hm)
      refine ⟨?_, fun _ _ => trivial⟩
      intro f hf
      exact absurd hf (evictedFrame_of_free (Traced.find_filled (by omega)))

theorem along_filled :
  Transition.Along (step false) (Careful false)
    (VM.initial (fun _ => Traced.unused) (fun _ => Traced.unused)) (Traced.filling.map .memory)
  := by
  rw [Traced.filling, List.map_append]
  apply Transition.along_append.mpr
  refine ⟨⟨trivial, fun _ _ => ⟨trivial, fun _ _ => trivial⟩⟩, ?_⟩
  intro m hm
  obtain rfl := Option.some.inj ((run_memory Traced.run_creation).symm.trans hm)
  exact along_loads (Nat.le_refl _)

/-- The process modifies its first page and reads another page, and another process is created. -/
def swapping : List Action :=
  [.memory (.store 0 0 [1]), .memory (.store 0 0 [1]), .memory (.load 0 (NumPhysPages * PageSize) 1),
    .memory (.create 1 (fun _ => (0, 0)) [] 1)]

theorem along_swapping :
  Transition.Along (step false) (Careful false)
    (VM.initial (fun _ => Traced.unused) (fun _ => Traced.unused))
    (Traced.filling.map .memory ++ swapping)
  := by
  apply Transition.along_append.mpr
  refine ⟨along_filled, ?_⟩
  intro m hm
  obtain rfl := Option.some.inj (run_filled.symm.trans hm)
  decide +kernel

theorem slots_accounted_swapping :
  ∃ m, Transition.run (step false) (VM.initial (fun _ => Traced.unused) (fun _ => Traced.unused))
      (Traced.filling.map .memory ++ swapping) = some m ∧
    m.swapFileBitMap 0 = true ∧ m.Accounted
  := by
  have hbit : (Transition.run (step false) (Traced.filled NumPhysPages) swapping).map
      (fun m => m.swapFileBitMap 0) = some true := by
    decide +kernel
  obtain ⟨m, hm, hbit⟩ := Option.map_eq_some_iff.mp hbit
  have hrun := Transition.run_append.mpr ⟨_, run_filled, hm⟩
  exact ⟨m, hrun, hbit, slots_accounted along_swapping hrun⟩

/-- The first process exits, and its slot stays marked. -/
theorem not_slots_accounted :
  ¬ ∀ (PRand : Bool) (tlb ipt : ℕ → TranslationEntry) (as : List Action) (m : VM),
    Transition.run (step PRand) (VM.initial tlb ipt) as = some m → m.Accounted
  := by
  intro hall
  have hswapped : (Transition.run (step false) (Traced.filled NumPhysPages) swapping).bind (fun m =>
      (m.spaces 0).map (fun sp => (m.space, (sp.pageTable 0).location, (sp.pageTable 0).swapLocation,
        decide (0 < sp.numPages), (step false m (.memory (.exit (some 1)))).isSome))) =
      some (some 0, .swapfile, 0, true, true) := by
    decide +kernel
  obtain ⟨m, hm, hm'⟩ := Option.bind_eq_some_iff.mp hswapped
  obtain ⟨sp, hsp, heq⟩ := Option.map_eq_some_iff.mp hm'
  simp only [Prod.mk.injEq, decide_eq_true_eq] at heq
  obtain ⟨hspace, hlocation, hl, hnum, hexit⟩ := heq
  obtain ⟨m', hm'⟩ := Option.isSome_iff_exists.mp hexit
  have hrun := Transition.run_append.mpr ⟨_, run_filled, hm⟩
  have hok := @Transition.run_invariant _ _ _ Ok (Careful false)
    (fun m a m' hm ha hstep => hm.step ha hstep) _ _ _ (ok_initial _ _) along_swapping hrun
  have hrun' := Transition.run_append.mpr ⟨m, hrun, (Transition.run_singleton m _).trans hm'⟩
  have hnot := hok.not_accounted_exit hspace ⟨sp, hsp, hnum, hlocation, hl⟩ hm'
  exact hnot (hall false _ _ _ m' hrun')

end Swap

end Nachos.Memory
