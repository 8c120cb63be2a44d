import Nachos.Memory.Isolation

/-!
# Coherence of memory

A load should return what was stored last. The page of a frame that is evicted is written to the
swap file only if the dirty bit of the frame is set, and `HandleMemoryFull` takes this bit from the
last slot of the translation buffer that names the frame, even when another slot or the inverted
page table says that the page has been modified.

`VM.Coherent` says that the pages hold what has been stored in them. Page faults, reads, writes,
switches and new address spaces keep memory coherent, as long as no frame is evicted whose dirty bit
is overwritten by one that is not set (`VM.KeepsEvicted`).
-/

namespace Nachos.Memory

namespace VM

/-! ### Modified pages -/

/-- The inverted page table or a slot of the translation buffer says that the page in frame `f` has
been modified. -/
def Modified (m : VM) (f : ℕ) : Prop :=
  (m.IPT f).entry.dirty = true ∨
    ∃ i < TLBSize, (m.tlb i).physicalPage = f ∧ (m.tlb i).dirty = true

instance (m : VM) (f : ℕ) : Decidable (m.Modified f) :=
  inferInstanceAs (Decidable (_ ∨ ∃ i < TLBSize, _))

/-- If the page in frame `f` has been modified then every slot of the translation buffer that names
the frame and does not say so is followed by one that does. -/
def KeepsDirty (m : VM) (f : ℕ) : Prop :=
  m.Modified f → ∀ i < TLBSize, (m.tlb i).physicalPage = f → (m.tlb i).dirty = false →
    ∃ j < TLBSize, i < j ∧ (m.tlb j).physicalPage = f ∧ (m.tlb j).dirty = true

instance (m : VM) (f : ℕ) : Decidable (m.KeepsDirty f) :=
  inferInstanceAs (Decidable (_ → ∀ i < TLBSize, _ → _ → ∃ j < TLBSize, _))

theorem lastDirty_eq_true {m : VM} {f : ℕ} :
  ∀ {k : ℕ}, ((m.IPT f).entry.dirty = true ∨
      ∃ i < k, (m.tlb i).physicalPage = f ∧ (m.tlb i).dirty = true) →
    (∀ i < k, (m.tlb i).physicalPage = f → (m.tlb i).dirty = false →
      ∃ j < k, i < j ∧ (m.tlb j).physicalPage = f ∧ (m.tlb j).dirty = true) →
    m.lastDirty f k = true
  | 0, hmodified, _ => by
      obtain hdirty | ⟨i, hi, -⟩ := hmodified
      · apply hdirty
      · contradiction
  | k + 1, hmodified, hlast => by
      rw [lastDirty]
      split
      · rename_i hname
        by_contra hclean
        obtain ⟨j, hj, hkj, -⟩ := hlast k (Nat.lt_succ_self k) hname (by simpa using hclean)
        omega
      · rename_i hname
        apply lastDirty_eq_true
        · obtain hdirty | ⟨i, hi, hi', hdirty⟩ := hmodified
          · left
            apply hdirty
          · right
            have hne : i ≠ k := by
              rintro rfl
              contradiction
            exact ⟨i, by omega, hi', hdirty⟩
        · intro i hi hi' hclean
          obtain ⟨j, hj, hij, hj', hdirty⟩ := hlast i (by omega) hi' hclean
          have hne : j ≠ k := by
            rintro rfl
            contradiction
          exact ⟨j, by omega, hij, hj', hdirty⟩

theorem KeepsDirty.lastDirty {m : VM} {f : ℕ} (h : m.KeepsDirty f) (hmodified : m.Modified f) :
  m.lastDirty f TLBSize = true
  := lastDirty_eq_true hmodified (h hmodified)

/-- A change of the tables that forgets no modification. -/
def Remembers (m m' : VM) (f : ℕ) : Prop := m.Modified f → m'.Modified f

/-- Propagating the dirty bit of a slot before the slot is overwritten forgets nothing. -/
theorem remembers_updateTLB {m m' : VM} {ppn : ℕ} (h : m.updateTLB ppn = some m') (f : ℕ) :
  Remembers m m' f
  := by
  obtain rfl := updateTLB_eq h
  have hdirty : (m.IPT f).entry.dirty = true → (m.propagated f).entry.dirty = true := by
    intro hf
    rw [propagated]
    split
    · simp only [setDirty, setIPT, Function.update_apply]
      split
      · rfl
      · apply hf
    · apply hf
  rintro (hf | ⟨i, hi, hname, hslot⟩)
  · left
    apply hdirty hf
  · by_cases hcur : i = m.currentTLB
    · left
      subst hcur
      simp only [propagated, hslot, if_true, setDirty, setIPT, hname, Function.update_self]
    · right
      use i, hi
      simp only [Function.update_of_ne hcur]
      exact ⟨hname, hslot⟩

/-! ### The invariant -/

/-- The contents of page `v` of a flat memory. -/
def pageOf (memory : ℕ → UInt8) (v : ℕ) : Page := fun o => memory (v * PageSize + o)

/-- The pages `p` and `q` agree. -/
def SamePage (p q : Page) : Prop := ∀ o < PageSize, p o = q o

/-- Page `v` of the address space `S` is in the swap file when it is not in memory. -/
def Swapped (m : VM) (S v swapLocation : ℕ) : Prop :=
  ∃ sp, m.spaces S = some sp ∧ v < sp.numPages ∧ (sp.pageTable v).location = .swapfile ∧
    (sp.pageTable v).swapLocation = swapLocation

/-- The bit map marks the pages of the swap file that are used, each for one page. -/
structure SwapOk (m : VM) : Prop where
  marked : ∀ S v l, m.Swapped S v l → m.swapFileBitMap l = true
  unique : ∀ S v T u l, m.Swapped S v l → m.Swapped T u l → S = T ∧ v = u

/-- The pages of the address spaces hold what has been stored in them, those in the frames outside
`E` in memory. A page that has not been modified there, and a page that is not in memory, also holds
it in its executable or in the swap file. -/
structure Coherent (m : VM) (memory : ℕ → ℕ → UInt8) (E : ℕ → Prop) : Prop where
  swap : m.SwapOk
  resident : ∀ f S v, ¬ E f → m.Holds f S v → SamePage (m.mainMemory f) (pageOf (memory S) v)
  backing : ∀ S sp v, m.spaces S = some sp → v < sp.numPages →
    (∀ f, ¬ E f → m.Holds f S v → ¬ m.Modified f) →
    SamePage (m.backing sp v) (pageOf (memory S) v)

/-! ### Places of pages -/

/-- A page is in one frame. -/
theorem Mapping.eq_of_holds {m : VM} (h : m.Mapping) {f g S v : ℕ} (hf : m.Holds f S v)
    (hg : m.Holds g S v) :
  f = g
  := by
  obtain ⟨sp, hsp, -, -, rfl⟩ := (h.holds_iff f S v).mp hf
  obtain ⟨sp', hsp', -, -, rfl⟩ := (h.holds_iff g S v).mp hg
  obtain rfl := Option.some.inj (hsp.symm.trans hsp')
  rfl

/-- A frame holds one page. -/
theorem Holds.eq_of_holds {m : VM} {f S v T u : ℕ} (h : m.Holds f S v) (h' : m.Holds f T u) :
  S = T ∧ v = u
  := by
  constructor
  · apply Option.some.inj (h.owner.symm.trans h'.owner)
  · rw [← h.virtualPage, h'.virtualPage]

/-- Page `u` is at the same place in `sp` and in `sp'` when it is not in memory. -/
structure SamePlace (sp sp' : AddrSpace) (u : ℕ) : Prop where
  numPages : sp'.numPages = sp.numPages
  executable : sp'.executable = sp.executable
  location : (sp'.pageTable u).location = (sp.pageTable u).location
  byteOffset : (sp'.pageTable u).byteOffset = (sp.pageTable u).byteOffset
  swapLocation : (sp'.pageTable u).swapLocation = (sp.pageTable u).swapLocation

/-- A page table whose page `v` is overwritten by an entry for the same place. -/
theorem samePlace_setPage {sp : AddrSpace} {v : ℕ} {e : PageTableEntry}
    (hlocation : e.location = (sp.pageTable v).location)
    (hbyteOffset : e.byteOffset = (sp.pageTable v).byteOffset)
    (hswapLocation : e.swapLocation = (sp.pageTable v).swapLocation) (u : ℕ) :
  SamePlace sp (sp.setPage v e) u
  := by
  by_cases hu : u = v
  · subst hu
    constructor
    · rfl
    · rfl
    all_goals simpa [AddrSpace.setPage]
  · constructor
    · rfl
    · rfl
    all_goals simp [AddrSpace.setPage, hu]

theorem SamePlace.backing {m m' : VM} {sp sp' : AddrSpace} {u : ℕ} (h : SamePlace sp sp' u)
    (hswap : (sp.pageTable u).location = .swapfile →
      m'.swapFile (sp.pageTable u).swapLocation = m.swapFile (sp.pageTable u).swapLocation) :
  m'.backing sp' u = m.backing sp u
  := by
  rw [VM.backing, VM.backing, h.location, h.executable, h.byteOffset, h.swapLocation]
  split
  · rfl
  · rename_i hlocation
    apply hswap hlocation
  · rfl

/-- The pages that are not in memory are at the same places in `m` and in `m'`. -/
structure SamePlaces (m m' : VM) : Prop where
  place : ∀ S sp' v, m'.spaces S = some sp' → ∃ sp, m.spaces S = some sp ∧ SamePlace sp sp' v
  swapFile : m'.swapFile = m.swapFile
  swapFileBitMap : m'.swapFileBitMap = m.swapFileBitMap

theorem samePlaces_of_eq {m m' : VM} (hspaces : m'.spaces = m.spaces)
    (hswap : m'.swapFile = m.swapFile) (hbits : m'.swapFileBitMap = m.swapFileBitMap) :
  SamePlaces m m'
  := by
  constructor
  · intro S sp v hS
    rw [hspaces] at hS
    exact ⟨sp, hS, rfl, rfl, rfl, rfl, rfl⟩
  · apply hswap
  · apply hbits

/-- The places stay the same when those of one address space do. -/
theorem samePlaces_of_update {m m' : VM} {S : ℕ} {sp sp' : AddrSpace} (hS : m.spaces S = some sp)
    (hspaces : m'.spaces = Function.update m.spaces S (some sp'))
    (hplace : ∀ u, SamePlace sp sp' u) (hswap : m'.swapFile = m.swapFile)
    (hbits : m'.swapFileBitMap = m.swapFileBitMap) :
  SamePlaces m m'
  := by
  constructor
  · intro T tp u hT
    rw [hspaces, Function.update_apply] at hT
    split at hT
    · rename_i hTS
      obtain rfl := Option.some.inj hT
      exact ⟨sp, hTS ▸ hS, hplace u⟩
    · exact ⟨tp, hT, rfl, rfl, rfl, rfl, rfl⟩
  · apply hswap
  · apply hbits

theorem SwapOk.congr {m m' : VM} (h : m.SwapOk) (hplaces : SamePlaces m m') :
  m'.SwapOk
  := by
  have hswapped : ∀ S v l, m'.Swapped S v l → m.Swapped S v l := by
    rintro S v l ⟨sp', hS, hv, hlocation, hl⟩
    obtain ⟨sp, hsp, hplace⟩ := hplaces.place S sp' v hS
    exact ⟨sp, hsp, hplace.numPages ▸ hv, hplace.location ▸ hlocation, hplace.swapLocation ▸ hl⟩
  constructor
  · intro S v l hl
    rw [hplaces.swapFileBitMap]
    apply h.marked S v l (hswapped S v l hl)
  · intro S v T u l hS hT
    apply h.unique S v T u l (hswapped S v l hS) (hswapped T u l hT)

/-- A change that leaves the pages that are not in memory where they are, and which for a page in
memory forgets no modification, leaves what the pages hold outside memory. -/
theorem Coherent.backing_congr {m m' : VM} {memory : ℕ → ℕ → UInt8} {E E' : ℕ → Prop}
    (h : m.Coherent memory E) (hplaces : SamePlaces m m') {S v : ℕ} {sp' : AddrSpace}
    (hS : m'.spaces S = some sp') (hv : v < sp'.numPages)
    (hclean : ∀ f, ¬ E' f → m'.Holds f S v → ¬ m'.Modified f)
    (hkeeps : ∀ f, ¬ E f → m.Holds f S v → m.Modified f →
      ¬ E' f ∧ m'.Holds f S v ∧ m'.Modified f) :
  SamePage (m'.backing sp' v) (pageOf (memory S) v)
  := by
  obtain ⟨sp, hsp, hplace⟩ := hplaces.place S sp' v hS
  rw [hplace.backing (m := m) (fun _ => congrFun hplaces.swapFile _)]
  apply h.backing S sp v hsp (hplace.numPages ▸ hv)
  intro f hE hholds hmodified
  obtain ⟨hE', hholds', hmodified'⟩ := hkeeps f hE hholds hmodified
  apply hclean f hE' hholds' hmodified'

/-- A change of the tables that moves no page and forgets no modification. -/
theorem Coherent.congr {m m' : VM} {memory : ℕ → ℕ → UInt8} {E : ℕ → Prop}
    (h : m.Coherent memory E) (hframes : SameFrames m m') (hplaces : SamePlaces m m')
    (hmemory : m'.mainMemory = m.mainMemory) (hmodified : ∀ f, Remembers m m' f) :
  m'.Coherent memory E
  := by
  constructor
  · apply h.swap.congr hplaces
  · intro f S v hE hholds
    rw [hmemory]
    apply h.resident f S v hE (hframes.holds_iff.mp hholds)
  · intro S sp v hS hv hclean
    apply h.backing_congr hplaces hS hv hclean
    intro f hE hholds hmod
    exact ⟨hE, hframes.holds_iff.mpr hholds, hmodified f hmod⟩

/-! ### Page faults -/

/-- A free frame holds nothing. -/
theorem Coherent.free {m : VM} {memory : ℕ → ℕ → UInt8} (h : m.Coherent memory (fun _ => False))
    (hmapping : m.Mapping) {f : ℕ} (hfind : find NumPhysPages m.mainMemoryBitMap = some f) :
  Coherent { m with mainMemoryBitMap := Function.update m.mainMemoryBitMap f true } memory (· = f)
  := by
  obtain ⟨hlt, hclear⟩ := find_some hfind
  have hframes : SameFrames m
      { m with mainMemoryBitMap := Function.update m.mainMemoryBitMap f true } :=
    sameFrames_of_eq rfl
  have hplaces : SamePlaces m
      { m with mainMemoryBitMap := Function.update m.mainMemoryBitMap f true } :=
    samePlaces_of_eq rfl rfl rfl
  constructor
  · apply h.swap.congr hplaces
  · intro g S v _ hholds
    apply h.resident g S v id (hframes.holds_iff.mp hholds)
  · intro S sp v hS hv hclean
    apply h.backing_congr hplaces hS hv hclean
    intro g _ hholds hmodified
    have hne : g ≠ f := by
      rintro rfl
      have hmarked := (hmapping.bitMap g hlt).mpr hholds.valid
      rw [hclear] at hmarked
      contradiction
    exact ⟨hne, hframes.holds_iff.mpr hholds, hmodified⟩

/-- Invalidating the slots that name frame `f` forgets no modification of the other frames. -/
theorem remembers_invalidated {m m' : VM} {f g : ℕ} (hne : g ≠ f) (hIPT : m'.IPT g = m.IPT g)
    (htlb : m'.tlb = m.invalidated f TLBSize) :
  Remembers m m' g
  := by
  rintro (hdirty | ⟨i, hi, hname, hdirty⟩)
  · left
    rw [hIPT]
    apply hdirty
  · right
    use i, hi
    have hi' : ¬ (i < TLBSize ∧ (m.tlb i).physicalPage = f) := by
      rintro ⟨-, hf⟩
      apply hne
      rw [← hname, hf]
    rw [htlb, invalidated, if_neg hi']
    exact ⟨hname, hdirty⟩

/-- A page that has not been modified is also in its executable or in the swap file, so it can be
dropped. -/
theorem Coherent.drop {m m' : VM} {memory : ℕ → ℕ → UInt8}
    (h : m.Coherent memory (fun _ => False)) {f : ℕ} (hclean : ¬ m.Modified f)
    (hplaces : SamePlaces m m') (hframes : SameFrames m m')
    (hmemory : m'.mainMemory = m.mainMemory) (hmodified : ∀ g, g ≠ f → Remembers m m' g) :
  m'.Coherent memory (· = f)
  := by
  constructor
  · apply h.swap.congr hplaces
  · intro g T u _ hg
    rw [hmemory]
    apply h.resident g T u id (hframes.holds_iff.mp hg)
  · intro T tp u hT hu hclean'
    apply h.backing_congr hplaces hT hu hclean'
    intro g _ hg hmod
    have hne : g ≠ f := by
      rintro rfl
      apply hclean hmod
    exact ⟨hne, hframes.holds_iff.mpr hg, hmodified g hne hmod⟩

/-- The places of the pages when page `v` of the address space `S` has been written to the swap
file. -/
theorem place_swappedPage {m m' : VM} {S v l : ℕ} {sp : AddrSpace} (hS : m.spaces S = some sp)
    (hspaces : m'.spaces = Function.update m.spaces S (some (sp.swappedPage v l))) {T u : ℕ}
    {tp' : AddrSpace} (hT : m'.spaces T = some tp') (hne : ¬ (T = S ∧ u = v)) :
  ∃ tp, m.spaces T = some tp ∧ SamePlace tp tp' u
  := by
  rw [hspaces, Function.update_apply] at hT
  split at hT
  · rename_i hTS
    obtain rfl := Option.some.inj hT
    have hu : u ≠ v := fun hu => hne ⟨hTS, hu⟩
    use sp, hTS ▸ hS
    constructor
    · rfl
    · rfl
    all_goals rw [(withoutPage_swappedPage sp v l).other u hu]
  · exact ⟨tp', hT, rfl, rfl, rfl, rfl, rfl⟩

theorem pageTable_swappedPage (sp : AddrSpace) (v l : ℕ) :
  ((sp.swappedPage v l).pageTable v).location = .swapfile ∧
    ((sp.swappedPage v l).pageTable v).swapLocation = l
  := by
  simp [AddrSpace.swappedPage, AddrSpace.setPage]

/-- A page of the swap file that is not used can be used. -/
theorem SwapOk.swap {m m' : VM} (h : m.SwapOk) {S v l : ℕ} {sp : AddrSpace}
    (hS : m.spaces S = some sp) (hfree : m.swapFileBitMap l = false)
    (hspaces : m'.spaces = Function.update m.spaces S (some (sp.swappedPage v l)))
    (hbits : m'.swapFileBitMap = Function.update m.swapFileBitMap l true) :
  m'.SwapOk
  := by
  have hswapped : ∀ T u k, m'.Swapped T u k → T = S ∧ u = v ∧ k = l ∨ k ≠ l ∧ m.Swapped T u k := by
    rintro T u k ⟨tp', hT, hu, hlocation, rfl⟩
    by_cases hTu : T = S ∧ u = v
    · obtain ⟨rfl, rfl⟩ := hTu
      rw [hspaces, Function.update_self] at hT
      obtain rfl := Option.some.inj hT
      left
      exact ⟨rfl, rfl, (pageTable_swappedPage sp u l).2⟩
    · right
      obtain ⟨tp, htp, hplace⟩ := place_swappedPage hS hspaces hT hTu
      have hold : m.Swapped T u (tp'.pageTable u).swapLocation :=
        ⟨tp, htp, hplace.numPages ▸ hu, hplace.location ▸ hlocation, hplace.swapLocation.symm⟩
      constructor
      · intro hl
        have hmarked := h.marked T u _ hold
        rw [hl, hfree] at hmarked
        contradiction
      · apply hold
  constructor
  · intro T u k hk
    rw [hbits]
    obtain ⟨-, -, rfl⟩ | ⟨hne, hold⟩ := hswapped T u k hk
    · apply Function.update_self
    · rw [Function.update_of_ne hne]
      apply h.marked T u k hold
  · intro T u T' u' k hk hk'
    obtain ⟨rfl, rfl, rfl⟩ | ⟨hne, hold⟩ := hswapped T u k hk
    · obtain ⟨rfl, rfl, -⟩ | ⟨hne, -⟩ := hswapped T' u' k hk'
      · exact ⟨rfl, rfl⟩
      · contradiction
    · obtain ⟨-, -, rfl⟩ | ⟨-, hold'⟩ := hswapped T' u' k hk'
      · contradiction
      · apply h.unique T u T' u' k hold hold'

/-- A page that is written to the swap file is there. -/
theorem Coherent.swapOut {m m' : VM} {memory : ℕ → ℕ → UInt8}
    (h : m.Coherent memory (fun _ => False)) {f S v l : ℕ} {sp : AddrSpace}
    (hholds : m.Holds f S v) (hS : m.spaces S = some sp) (hfree : m.swapFileBitMap l = false)
    (hspaces : m'.spaces = Function.update m.spaces S (some (sp.swappedPage v l)))
    (hbits : m'.swapFileBitMap = Function.update m.swapFileBitMap l true)
    (hswap : m'.swapFile = Function.update m.swapFile l (m.mainMemory f))
    (hframes : SameFrames m m') (hmemory : m'.mainMemory = m.mainMemory)
    (hmodified : ∀ g, g ≠ f → Remembers m m' g) :
  m'.Coherent memory (· = f)
  := by
  constructor
  · apply h.swap.swap hS hfree hspaces hbits
  · intro g T u _ hg
    rw [hmemory]
    apply h.resident g T u id (hframes.holds_iff.mp hg)
  · intro T tp' u hT hu hclean
    by_cases hTu : T = S ∧ u = v
    · obtain ⟨rfl, rfl⟩ := hTu
      rw [hspaces, Function.update_self] at hT
      obtain rfl := Option.some.inj hT
      obtain ⟨hlocation, hl⟩ := pageTable_swappedPage sp u l
      rw [VM.backing, hlocation, hl, hswap, Function.update_self]
      apply h.resident f T u id hholds
    · obtain ⟨tp, htp, hplace⟩ := place_swappedPage hS hspaces hT hTu
      have hutp : u < tp.numPages := hplace.numPages ▸ hu
      rw [hplace.backing (m := m)]
      · apply h.backing T tp u htp hutp
        intro g _ hg hmod
        have hne : g ≠ f := by
          rintro rfl
          apply hTu (hg.eq_of_holds hholds)
        apply hclean g hne (hframes.holds_iff.mpr hg) (hmodified g hne hmod)
      · intro hlocation
        rw [hswap, Function.update_of_ne]
        intro hl
        have hmarked := h.swap.marked T u _ ⟨tp, htp, hutp, hlocation, rfl⟩
        rw [hl, hfree] at hmarked
        contradiction

/-- An eviction keeps memory coherent when it does not lose the modification of the page. -/
theorem Coherent.evicted {m m₁ : VM} {memory : ℕ → ℕ → UInt8}
    (h : m.Coherent memory (fun _ => False)) {f S v : ℕ} {sp : AddrSpace}
    (hholds : m.Holds f S v) (hS : m.spaces S = some sp) (hkeeps : m.KeepsDirty f)
    (hevicted : m.evicted f S v sp = some m₁) :
  m₁.Coherent memory (· = f)
  := by
  rw [VM.evicted, invalidateTLB_eq] at hevicted
  have hmodified : ∀ (m' : VM), m'.IPT = Function.update m.IPT f { m.IPT f with
      entry := { (m.IPT f).entry with dirty := m.lastDirty f TLBSize } } →
      m'.tlb = m.invalidated f TLBSize → ∀ g, g ≠ f → Remembers m m' g := by
    intro m' hIPT htlb g hne
    apply remembers_invalidated hne _ htlb
    rw [hIPT, Function.update_of_ne hne]
  split at hevicted
  · obtain ⟨l, hfind, rfl⟩ := Option.map_eq_some_iff.mp hevicted
    exact h.swapOut hholds hS (find_some hfind).2 rfl rfl rfl (sameFrames_of_dirty rfl) rfl
      (hmodified _ rfl rfl)
  · rename_i hlast
    obtain rfl := Option.some.inj hevicted
    have hclean : ¬ m.Modified f := fun hmod => hlast (hkeeps.lastDirty hmod)
    exact h.drop hclean
      (samePlaces_of_update hS rfl (samePlace_setPage rfl rfl rfl) rfl rfl)
      (sameFrames_of_dirty rfl) rfl (hmodified _ rfl rfl)

/-- A page that is read into a vacant frame is there. -/
theorem Coherent.iptMiss {m : VM} {memory : ℕ → ℕ → UInt8} {f S v : ℕ} {sp : AddrSpace}
    (h : m.Coherent memory (· = f)) (hlt : f < NumPhysPages) (hS : m.spaces S = some sp)
    (hv : v < sp.numPages) (hout : ∀ g, g ≠ f → ¬ m.Holds g S v) :
  (m.iptMiss S sp v f).Coherent memory (fun _ => False)
  := by
  have hplaces : SamePlaces m (m.iptMiss S sp v f) :=
    samePlaces_of_update hS rfl (samePlace_setPage rfl rfl rfl) rfl rfl
  constructor
  · apply h.swap.congr hplaces
  · intro g T u _ hholds
    obtain ⟨rfl, rfl, rfl⟩ | ⟨hne, hold⟩ := (holds_iptMiss hlt g T u).mp hholds
    · have hmemory : (m.iptMiss T sp u g).mainMemory g = m.backing sp u :=
        Function.update_self _ _ _
      rw [hmemory]
      apply h.backing T sp u hS hv
      intro g' hne hold
      apply absurd hold (hout g' hne)
    · have hmemory : (m.iptMiss S sp v f).mainMemory g = m.mainMemory g :=
        Function.update_of_ne hne _ _
      rw [hmemory]
      apply h.resident g T u hne hold
  · intro T tp u hT hu hclean
    apply h.backing_congr hplaces hT hu hclean
    intro g hne hold hmodified
    use id, (holds_iptMiss hlt g T u).mpr (.inr ⟨hne, hold⟩)
    have hIPT : (m.iptMiss S sp v f).IPT g = m.IPT g := Function.update_of_ne hne _ _
    rw [Modified, hIPT]
    apply hmodified

/-- The frame that is evicted when the running thread accesses memory at `virtAddr`. -/
def evictedFrame (PRand : Bool) (rand virtAddr : ℕ) (m : VM) : Option ℕ := do
  let S ← m.space
  if m.slotOf (virtAddr / PageSize) = none ∧ m.lookup S (virtAddr / PageSize) = none ∧
      find NumPhysPages m.mainMemoryBitMap = none then
    some (victim PRand rand m)
  else none

/-- The frame that is evicted, if there is one, is not thought to be clean when it has been
modified. -/
def KeepsEvicted (PRand : Bool) (rand virtAddr : ℕ) (m : VM) : Prop :=
  ∀ f, m.evictedFrame PRand rand virtAddr = some f → m.KeepsDirty f

instance (PRand : Bool) (rand virtAddr : ℕ) (m : VM) :
    Decidable (m.KeepsEvicted PRand rand virtAddr) :=
  inferInstanceAs (Decidable (∀ f, _ = some f → _))

/-- No frame is evicted as long as there is a free one. -/
theorem evictedFrame_of_free {PRand : Bool} {rand virtAddr f g : ℕ} {m : VM}
    (hfind : find NumPhysPages m.mainMemoryBitMap = some f) :
  m.evictedFrame PRand rand virtAddr ≠ some g
  := by
  intro hg
  obtain ⟨S, -, hg⟩ := Option.bind_eq_some_iff.mp hg
  split at hg
  · rename_i hfull
    rw [hfind] at hfull
    cases hfull.2.2
  · contradiction

theorem keepsEvicted_of_free {PRand : Bool} {rand virtAddr f : ℕ} {m : VM}
    (hfind : find NumPhysPages m.mainMemoryBitMap = some f) :
  m.KeepsEvicted PRand rand virtAddr
  := fun _ hg => absurd hg (evictedFrame_of_free hfind)

theorem Coherent.freed {PRand : Bool} {rand : ℕ} {m m₁ : VM} {memory : ℕ → ℕ → UInt8}
    (h : m.Coherent memory (fun _ => False)) (hok : m.Ok) {f : ℕ}
    (hfreed : Freed PRand rand m m₁ f)
    (hkeeps : find NumPhysPages m.mainMemoryBitMap = none → m.KeepsDirty (victim PRand rand m)) :
  m₁.Coherent memory (· = f)
  := by
  cases hfreed with
  | free hfind => apply h.free hok.mapping hfind
  | full hfind hholds hS hevicted =>
      have hframes : SameFrames m { m with
          currentIPT := if PRand then m.currentIPT else (m.currentIPT + 1) % NumPhysPages } :=
        sameFrames_of_eq rfl
      have hcoherent : Coherent { m with
          currentIPT := if PRand then m.currentIPT else (m.currentIPT + 1) % NumPhysPages }
            memory (fun _ => False) :=
        h.congr hframes (samePlaces_of_eq rfl rfl rfl) rfl (fun _ => id)
      exact hcoherent.evicted (hframes.holds_iff.mpr hholds) hS (hkeeps hfind) hevicted

theorem Coherent.updateTLB {m m' : VM} {memory : ℕ → ℕ → UInt8} {E : ℕ → Prop}
    (h : m.Coherent memory E) {ppn : ℕ} (hstep : m.updateTLB ppn = some m') :
  m'.Coherent memory E
  := by
  have hremembers := remembers_updateTLB hstep
  obtain rfl := updateTLB_eq hstep
  exact h.congr (sameFrames_propagated rfl) (samePlaces_of_eq rfl rfl rfl) rfl hremembers

/-- A page fault keeps memory coherent when it evicts no frame that is wrongly thought to be
clean. -/
theorem Coherent.pageFault {PRand : Bool} {rand virtAddr : ℕ} {m m' : VM}
    {memory : ℕ → ℕ → UInt8} (h : m.Coherent memory (fun _ => False)) (hok : m.Ok)
    (hslot : m.slotOf (virtAddr / PageSize) = none) (hkeeps : m.KeepsEvicted PRand rand virtAddr)
    (hstep : m.pageFault PRand rand virtAddr = some m') :
  m'.Coherent memory (fun _ => False)
  := by
  simp only [VM.pageFault, Option.bind_eq_bind] at hstep
  obtain ⟨S, hspace, hstep⟩ := Option.bind_eq_some_iff.mp hstep
  obtain ⟨sp, hS, hstep⟩ := Option.bind_eq_some_iff.mp hstep
  split at hstep
  · rename_i hv
    rw [handlePageFault] at hstep
    split at hstep
    · apply h.updateTLB hstep
    · rename_i hlookup
      obtain ⟨⟨m₂, ppn⟩, hmiss, hstep⟩ := Option.bind_eq_some_iff.mp hstep
      obtain ⟨m₁, sp₁, hfreed, hsp₁, rfl⟩ := hok.handleIPTMiss_cases hmiss
      have hfreedOk := hok.freed hfreed
      obtain ⟨sp₂, hsp₂, hnum⟩ := hfreedOk.spaces S sp hS
      obtain rfl := Option.some.inj (hsp₁.symm.trans hsp₂)
      have hcoherent : m₁.Coherent memory (· = ppn) := by
        apply h.freed hok hfreed
        intro hfind
        apply hkeeps
        simp [evictedFrame, hspace, hslot, hlookup, hfind]
      refine Coherent.updateTLB ?_ hstep
      apply hcoherent.iptMiss hfreedOk.vacant.lt hsp₁ (hnum ▸ hv.2)
      intro g _ hholds
      apply lookup_none hlookup g (hfreedOk.frames.holds_iff.mp hholds)
  · contradiction

/-! ### Reading and writing -/

/-- A translation uses a valid slot for the page. -/
theorem translate_hit {m : VM} {virtAddr i : ℕ} {writing : Bool}
    (h : m.translate virtAddr writing = some (.hit i)) :
  i < TLBSize ∧ (m.tlb i).valid = true ∧ (m.tlb i).virtualPage = virtAddr / PageSize
  := by
  rw [translate] at h
  split at h
  · cases h
  · rename_i j hslot
    have hi : j = i := by
      split at h
      · contradiction
      · split at h
        · contradiction
        · cases h
          rfl
    subst hi
    have hlt := List.mem_range.mp (List.mem_of_find?_eq_some hslot)
    have hvalid := List.find?_some hslot
    simp only [Bool.and_eq_true, beq_iff_eq] at hvalid
    exact ⟨hlt, hvalid⟩

/-- The slot that a translation uses names the frame that holds the page. -/
theorem Ok.translate_hit {m : VM} (h : m.Ok) {virtAddr i : ℕ} {writing : Bool}
    (hhit : m.translate virtAddr writing = some (.hit i)) :
  ∃ S, m.space = some S ∧ m.Holds (m.tlb i).physicalPage S (virtAddr / PageSize)
  := by
  obtain ⟨hi, hvalid, hpage⟩ := VM.translate_hit hhit
  rw [← hpage]
  apply h.buffered.slot i hi hvalid

/-- An access does not cross the end of a page. -/
theorem offset_add_le {virtAddr size : ℕ} (hsize : IsSize size) (halign : size ∣ virtAddr) :
  virtAddr % PageSize + size ≤ PageSize
  := by
  obtain ⟨k, rfl⟩ := halign
  rw [PageSize]
  obtain rfl | rfl | rfl := hsize <;> omega

theorem remembers_touch (m : VM) (i : ℕ) (writing : Bool) (f : ℕ) :
  Remembers m (m.touch i writing) f
  := by
  rintro (hdirty | ⟨j, hj, hname, hdirty⟩)
  · left
    apply hdirty
  · right
    use j, hj, (m.tlb_touch i writing j).2.2.trans hname
    simp only [touch, setTLB, Function.update_apply]
    split
    · rename_i hji
      simp [← hji, hdirty]
    · apply hdirty

/-- A slot that is used for writing says that its frame has been modified. -/
theorem modified_touch {m : VM} {i : ℕ} (hi : i < TLBSize) :
  (m.touch i true).Modified (m.tlb i).physicalPage
  := by
  right
  use i, hi, (m.tlb_touch i true i).2.2
  simp [touch, setTLB]

theorem Coherent.touch {m : VM} {memory : ℕ → ℕ → UInt8} {E : ℕ → Prop}
    (h : m.Coherent memory E) (i : ℕ) (writing : Bool) :
  (m.touch i writing).Coherent memory E
  := by
  exact h.congr (sameFrames_of_eq rfl) (samePlaces_of_eq rfl rfl rfl) rfl
    (m.remembers_touch i writing)

/-- What is read from a page of memory. -/
theorem SamePage.readBytes {p : Page} {memory : ℕ → UInt8} {virtAddr size : ℕ}
    (h : SamePage p (pageOf memory (virtAddr / PageSize)))
    (hle : virtAddr % PageSize + size ≤ PageSize) :
  readBytes p (virtAddr % PageSize) size = readBytes memory virtAddr size
  := by
  apply List.map_congr_left
  intro i hi
  have hlt := List.mem_range.mp hi
  rw [h _ (by omega), pageOf]
  congr 1
  rw [← Nat.add_assoc, Nat.div_add_mod']

/-- What is written to a page of memory. -/
theorem SamePage.writeBytes {p : Page} {memory : ℕ → UInt8} {virtAddr : ℕ} {bytes : List UInt8}
    (h : SamePage p (pageOf memory (virtAddr / PageSize))) :
  SamePage (writeBytes p (virtAddr % PageSize) bytes)
    (pageOf (writeBytes memory virtAddr bytes) (virtAddr / PageSize))
  := by
  intro o ho
  have hdiv := Nat.div_add_mod' virtAddr PageSize
  have hiff : (virtAddr % PageSize ≤ o ∧ o < virtAddr % PageSize + bytes.length) ↔
      virtAddr ≤ virtAddr / PageSize * PageSize + o ∧
        virtAddr / PageSize * PageSize + o < virtAddr + bytes.length := by
    omega
  have hindex : virtAddr / PageSize * PageSize + o - virtAddr = o - virtAddr % PageSize := by
    omega
  simp only [VM.writeBytes, pageOf, hiff, hindex]
  split
  · rfl
  · apply h o ho

/-- What is written to one page does not change the others. -/
theorem pageOf_writeBytes {memory : ℕ → UInt8} {virtAddr v : ℕ} {bytes : List UInt8}
    (hle : virtAddr % PageSize + bytes.length ≤ PageSize) (hv : v ≠ virtAddr / PageSize) :
  SamePage (pageOf memory v) (pageOf (writeBytes memory virtAddr bytes) v)
  := by
  intro o ho
  have hdiv := Nat.div_add_mod' virtAddr PageSize
  have hout : ¬ (virtAddr ≤ v * PageSize + o ∧ v * PageSize + o < virtAddr + bytes.length) := by
    rintro ⟨hfirst, hlast⟩
    apply hv
    symm
    have hpage : (v * PageSize + o) / PageSize = v := by
      rw [Nat.mul_comm, Nat.mul_add_div (by decide), Nat.div_eq_of_lt ho, Nat.add_zero]
    apply Nat.le_antisymm
    · rw [← hpage]
      apply Nat.div_le_div_right hfirst
    · rw [PageSize] at *
      omega
  simp only [VM.writeBytes, pageOf, if_neg hout]

/-- Writing to the frame of a page through a slot that then says so. -/
theorem Coherent.write {m : VM} {memory : ℕ → ℕ → UInt8} (h : m.Coherent memory (fun _ => False))
    (hmapping : m.Mapping) {i S virtAddr : ℕ} {bytes : List UInt8} (hi : i < TLBSize)
    (hholds : m.Holds (m.tlb i).physicalPage S (virtAddr / PageSize))
    (hle : virtAddr % PageSize + bytes.length ≤ PageSize) :
  Coherent { m.touch i true with
      mainMemory := Function.update m.mainMemory (m.tlb i).physicalPage
        (writeBytes (m.mainMemory (m.tlb i).physicalPage) (virtAddr % PageSize) bytes) }
    (Function.update memory S (writeBytes (memory S) virtAddr bytes)) (fun _ => False)
  := by
  set m' := { m.touch i true with
      mainMemory := Function.update m.mainMemory (m.tlb i).physicalPage
        (writeBytes (m.mainMemory (m.tlb i).physicalPage) (virtAddr % PageSize) bytes) }
  have hmemory : m'.mainMemory = Function.update m.mainMemory (m.tlb i).physicalPage
    (writeBytes (m.mainMemory (m.tlb i).physicalPage) (virtAddr % PageSize) bytes) := rfl
  have hframes : SameFrames m m' := sameFrames_of_eq rfl
  have hplaces : SamePlaces m m' := samePlaces_of_eq rfl rfl rfl
  have hmodified : ∀ f, Remembers m m' f := fun f => m.remembers_touch i true f
  -- The pages other than the one that is written to.
  have hother : ∀ T u, ¬ (T = S ∧ u = virtAddr / PageSize) → SamePage (pageOf (memory T) u)
      (pageOf (Function.update memory S (writeBytes (memory S) virtAddr bytes) T) u) := by
    intro T u hTu
    by_cases hT : T = S
    · subst hT
      rw [Function.update_self]
      apply pageOf_writeBytes hle
      intro hu
      apply hTu ⟨rfl, hu⟩
    · rw [Function.update_of_ne hT]
      intro o _
      rfl
  constructor
  · apply h.swap.congr hplaces
  · intro f T u _ hf
    have hold := hframes.holds_iff.mp hf
    by_cases hfi : f = (m.tlb i).physicalPage
    · subst hfi
      obtain ⟨rfl, rfl⟩ := hholds.eq_of_holds hold
      rw [hmemory, Function.update_self, Function.update_self]
      apply SamePage.writeBytes
      apply h.resident _ _ _ id hold
    · rw [hmemory, Function.update_of_ne hfi]
      have hTu : ¬ (T = S ∧ u = virtAddr / PageSize) := by
        rintro ⟨rfl, rfl⟩
        apply hfi (hmapping.eq_of_holds hold hholds)
      intro o ho
      rw [h.resident f T u id hold o ho]
      apply hother T u hTu o ho
  · intro T tp u hT hu hclean
    have hTu : ¬ (T = S ∧ u = virtAddr / PageSize) := by
      rintro ⟨rfl, rfl⟩
      apply hclean _ id (hframes.holds_iff.mpr hholds)
      exact modified_touch hi
    intro o ho
    rw [← hother T u hTu o ho]
    refine h.backing_congr hplaces hT hu hclean ?_ o ho
    intro f _ hf hmod
    exact ⟨id, hframes.holds_iff.mpr hf, hmodified f hmod⟩

/-- Leaving a thread moves no page and forgets no modification. -/
theorem Coherent.leave {m : VM} {memory : ℕ → ℕ → UInt8} {E : ℕ → Prop} (h : m.Coherent memory E)
    (next : Option ℕ) :
  Coherent { m.leave with space := next } memory E
  := by
  have htlb : ∀ i, (m.leave.tlb i).physicalPage = (m.tlb i).physicalPage ∧
      (m.leave.tlb i).dirty = (m.tlb i).dirty := by
    intro i
    rw [VM.leave]
    split
    · simp only [saveState]
      split
      · exact ⟨rfl, rfl⟩
      · exact ⟨rfl, rfl⟩
    · exact ⟨rfl, rfl⟩
  rw [leave_eq]
  refine h.congr (sameFrames_of_eq rfl) (samePlaces_of_eq rfl rfl rfl) rfl ?_
  rintro f (hdirty | ⟨i, hi, hname, hdirty⟩)
  · left
    apply hdirty
  · right
    exact ⟨i, hi, (htlb i).1.trans hname, (htlb i).2.trans hdirty⟩

/-- The image that an executable is loaded from. -/
def image (executable : List UInt8) : ℕ → UInt8 := fun a => executable.getD (headerSize + a) 0

/-- The pages of a new address space are in its executable. -/
theorem Coherent.create {m : VM} {memory : ℕ → ℕ → UInt8} (h : m.Coherent memory (fun _ => False))
    (hmapping : m.Mapping) {S : ℕ} (hS : m.spaces S = none) (g : AddrSpace.Garbage)
    (executable : List UInt8) (numPages : ℕ) :
  (m.setSpace S (AddrSpace.new g executable numPages)).Coherent
    (Function.update memory S (image executable)) (fun _ => False)
  := by
  set m' := m.setSpace S (AddrSpace.new g executable numPages)
  have hupdate : m'.spaces =
    Function.update m.spaces S (some (AddrSpace.new g executable numPages)) := rfl
  have hframes : SameFrames m m' := sameFrames_of_eq rfl
  have hspaces : ∀ T tp, m'.spaces T = some tp →
      T = S ∧ tp = AddrSpace.new g executable numPages ∨ T ≠ S ∧ m.spaces T = some tp := by
    intro T tp hT
    rw [hupdate, Function.update_apply] at hT
    split at hT
    · rename_i hTS
      left
      exact ⟨hTS, (Option.some.inj hT).symm⟩
    · rename_i hTS
      right
      exact ⟨hTS, hT⟩
  have hswapped : ∀ T u l, m'.Swapped T u l → m.Swapped T u l := by
    rintro T u l ⟨tp, hT, hu, hlocation, hl⟩
    obtain ⟨-, rfl⟩ | ⟨-, hold⟩ := hspaces T tp hT
    · contradiction
    · exact ⟨tp, hold, hu, hlocation, hl⟩
  constructor
  · constructor
    · intro T u l hl
      apply h.swap.marked T u l (hswapped T u l hl)
    · intro T u T' u' l hl hl'
      apply h.swap.unique T u T' u' l (hswapped T u l hl) (hswapped T' u' l hl')
  · intro f T u _ hf
    have hold := hframes.holds_iff.mp hf
    have hTS : T ≠ S := by
      rintro rfl
      obtain ⟨sp, hsp, -⟩ := (hmapping.holds_iff f T u).mp hold
      rw [hS] at hsp
      contradiction
    rw [Function.update_of_ne hTS]
    apply h.resident f T u id hold
  · intro T tp u hT hu hclean
    obtain ⟨rfl, rfl⟩ | ⟨hTS, hold⟩ := hspaces T tp hT
    · rw [Function.update_self]
      intro o _
      simp only [VM.backing, AddrSpace.new, AddrSpace.newEntry, readAt, pageOf, image,
        Nat.add_assoc]
    · rw [Function.update_of_ne hTS]
      have hbacking : m'.backing tp u = m.backing tp u := rfl
      rw [hbacking]
      apply h.backing T tp u hold hu
      intro f _ hf
      apply hclean f id (hframes.holds_iff.mpr hf)

end VM

end Nachos.Memory
