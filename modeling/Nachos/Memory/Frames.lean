import Nachos.Memory.Basic

/-!
# Frames and their owners

The bit map, the inverted page table, the page tables of the address spaces and the translation
buffer record the same mapping. `VM.Mapping` says that the first three of them agree, and
`VM.Buffered` that the valid slots of the translation buffer agree with the inverted page table.
While a page fault is handled the frame that is going to be used is `VM.Vacant`.

A page fault keeps the four tables in agreement (`VM.Ok.handlePageFault`).
-/

namespace Nachos.Memory

/-! ### The loop of `HandleMemoryFull` -/

namespace VM

/-- The dirty bit of frame `ppn` after the first `k` slots of the translation buffer have been
looked at. -/
def lastDirty (m : VM) (ppn : ℕ) : ℕ → Bool
  | 0 => (m.IPT ppn).entry.dirty
  | k + 1 => if (m.tlb k).physicalPage = ppn then (m.tlb k).dirty else m.lastDirty ppn k

/-- The translation buffer after the first `k` slots have been looked at. -/
def invalidated (m : VM) (ppn k : ℕ) (i : ℕ) : TranslationEntry :=
  if i < k ∧ (m.tlb i).physicalPage = ppn then { m.tlb i with valid := false } else m.tlb i

/-- The slots of the translation buffer that name the frame are invalidated, and the last one
determines the dirty bit of the frame. -/
theorem foldl_invalidateSlot (m : VM) (ppn k : ℕ) :
  (List.range k).foldl (invalidateSlot ppn) m =
    { m with
      tlb := m.invalidated ppn k
      IPT := Function.update m.IPT ppn { m.IPT ppn with
        entry := { (m.IPT ppn).entry with dirty := m.lastDirty ppn k } } }
  := by
  induction k with
  | zero =>
      have htlb : m.invalidated ppn 0 = m.tlb := by
        funext i
        simp [invalidated]
      have hIPT : Function.update m.IPT ppn { m.IPT ppn with
          entry := { (m.IPT ppn).entry with dirty := m.lastDirty ppn 0 } } = m.IPT :=
        Function.update_eq_self _ _
      rw [htlb, hIPT]
      rfl
  | succ k ih =>
      rw [List.range_succ, List.foldl_append, List.foldl_cons, List.foldl_nil, ih]
      have hk : m.invalidated ppn k k = m.tlb k := by simp [invalidated]
      simp only [invalidateSlot, hk]
      split
      · rename_i hname
        simp only [setDirty, setIPT, setTLB, Function.update_self, Function.update_idem,
          lastDirty, hname, if_true]
        congr 1
        funext i
        rw [Function.update_apply]
        split
        · rename_i hi
          simp [invalidated, hi, hname]
        · rename_i hi
          have hlt : i < k + 1 ↔ i < k := by omega
          simp [invalidated, hlt]
      · rename_i hname
        simp only [lastDirty, hname, if_false]
        congr 1
        funext i
        by_cases hi : i = k
        · subst hi
          simp [invalidated, hname]
        · have hlt : i < k + 1 ↔ i < k := by omega
          simp [invalidated, hlt]

theorem invalidateTLB_eq (m : VM) (ppn : ℕ) :
  m.invalidateTLB ppn =
    { m with
      tlb := m.invalidated ppn TLBSize
      IPT := Function.update m.IPT ppn { m.IPT ppn with
        entry := { (m.IPT ppn).entry with dirty := m.lastDirty ppn TLBSize } } }
  := m.foldl_invalidateSlot ppn TLBSize

/-- What `HandleMemoryFull` does to the page in the frame it evicts. -/
def evicted (m : VM) (ppn S vpn : ℕ) (sp : AddrSpace) : Option VM :=
  if m.lastDirty ppn TLBSize then
    (find swapSize m.swapFileBitMap).map (fun swapLocation =>
      { m.invalidateTLB ppn with
        swapFileBitMap := Function.update m.swapFileBitMap swapLocation true
        swapFile := Function.update m.swapFile swapLocation (m.mainMemory ppn)
        spaces := Function.update m.spaces S (some (sp.swappedPage vpn swapLocation)) })
  else
    some { m.invalidateTLB ppn with
      spaces := Function.update m.spaces S (some (sp.evictedPage vpn)) }

theorem evict_eq {m : VM} {ppn S : ℕ} {sp : AddrSpace} (howner : (m.IPT ppn).owner = some S)
    (hS : m.spaces S = some sp) :
  evict ppn m = m.evicted ppn S (m.IPT ppn).entry.virtualPage sp
  := by
  simp only [evict, evicted, invalidateTLB_eq, Function.update_self, howner, hS,
    Option.bind_eq_bind, Option.bind_some, Option.pure_def]
  split
  · cases find swapSize m.swapFileBitMap with
    | none => rfl
    | some swapLocation => rfl
  · rfl

/-! ### The invariant -/

/-- Frame `f` holds page `v` of the address space `S`. -/
structure Holds (m : VM) (f S v : ℕ) : Prop where
  lt : f < NumPhysPages
  valid : (m.IPT f).entry.valid = true
  owner : (m.IPT f).owner = some S
  virtualPage : (m.IPT f).entry.virtualPage = v

/-- Page `v` of the address space `S` is in frame `f`. -/
def Resident (m : VM) (S v f : ℕ) : Prop :=
  ∃ sp, m.spaces S = some sp ∧ v < sp.numPages ∧ (sp.pageTable v).entry.valid = true ∧
    (sp.pageTable v).entry.physicalPage = f

/-- The bit map, the inverted page table and the page tables agree. -/
structure Mapping (m : VM) : Prop where
  bitMap : ∀ f < NumPhysPages, m.mainMemoryBitMap f = true ↔ (m.IPT f).entry.valid = true
  physicalPage : ∀ f < NumPhysPages, (m.IPT f).entry.physicalPage = f
  owned : ∀ f < NumPhysPages, (m.IPT f).entry.valid = true → ∃ S v, m.Holds f S v
  holds_iff : ∀ f S v, m.Holds f S v ↔ m.Resident S v f

/-- The valid slots of the translation buffer agree with the inverted page table. -/
structure Buffered (m : VM) : Prop where
  slot : ∀ i < TLBSize, (m.tlb i).valid = true →
    ∃ S, m.space = some S ∧ m.Holds (m.tlb i).physicalPage S (m.tlb i).virtualPage
  unique : ∀ i < TLBSize, ∀ j < TLBSize, (m.tlb i).valid = true → (m.tlb j).valid = true →
    (m.tlb i).virtualPage = (m.tlb j).virtualPage → i = j

/-- The four tables agree. -/
structure Ok (m : VM) : Prop where
  mapping : m.Mapping
  buffered : m.Buffered
  currentTLB : m.currentTLB < TLBSize
  currentIPT : m.currentIPT < NumPhysPages
  live : ∀ S, m.space = some S → ∃ sp, m.spaces S = some sp

/-- The inverted page tables of `m` and `m'` map the frames to the same pages. -/
def SameFrames (m m' : VM) : Prop :=
  ∀ f, (m'.IPT f).owner = (m.IPT f).owner ∧
    (m'.IPT f).entry.valid = (m.IPT f).entry.valid ∧
    (m'.IPT f).entry.virtualPage = (m.IPT f).entry.virtualPage ∧
    (m'.IPT f).entry.physicalPage = (m.IPT f).entry.physicalPage

theorem sameFrames_of_eq {m m' : VM} (h : m'.IPT = m.IPT) :
  SameFrames m m'
  := by
  intro f
  rw [h]
  exact ⟨rfl, rfl, rfl, rfl⟩

/-- The frames are not changed by a new dirty bit. -/
theorem sameFrames_of_dirty {m m' : VM} {f : ℕ} {dirty : Bool}
    (h : m'.IPT = Function.update m.IPT f { m.IPT f with
      entry := { (m.IPT f).entry with dirty := dirty } }) :
  SameFrames m m'
  := by
  intro g
  rw [h, Function.update_apply]
  split
  · rename_i hg
    subst hg
    exact ⟨rfl, rfl, rfl, rfl⟩
  · exact ⟨rfl, rfl, rfl, rfl⟩

theorem SameFrames.holds_iff {m m' : VM} (h : SameFrames m m') {f S v : ℕ} :
  m'.Holds f S v ↔ m.Holds f S v
  := by
  obtain ⟨howner, hvalid, hvirtual, -⟩ := h f
  constructor
  · rintro ⟨hlt, hv, ho, hp⟩
    exact ⟨hlt, hvalid ▸ hv, howner ▸ ho, hvirtual ▸ hp⟩
  · rintro ⟨hlt, hv, ho, hp⟩
    exact ⟨hlt, hvalid.symm ▸ hv, howner.symm ▸ ho, hvirtual.symm ▸ hp⟩

theorem resident_congr {m m' : VM} (h : m'.spaces = m.spaces) {S v f : ℕ} :
  m'.Resident S v f ↔ m.Resident S v f
  := by
  rw [Resident, Resident, h]

theorem Mapping.congr {m m' : VM} (h : m.Mapping) (hframes : SameFrames m m')
    (hbits : m'.mainMemoryBitMap = m.mainMemoryBitMap) (hspaces : m'.spaces = m.spaces) :
  m'.Mapping
  := by
  constructor
  · intro f hf
    rw [hbits, (hframes f).2.1]
    apply h.bitMap f hf
  · intro f hf
    rw [(hframes f).2.2.2]
    apply h.physicalPage f hf
  · intro f hf hvalid
    rw [(hframes f).2.1] at hvalid
    obtain ⟨S, v, hholds⟩ := h.owned f hf hvalid
    exact ⟨S, v, hframes.holds_iff.mpr hholds⟩
  · intro f S v
    rw [hframes.holds_iff, resident_congr hspaces]
    apply h.holds_iff

/-- The slots that are still valid agree with the inverted page table. -/
theorem Buffered.mono {m m' : VM} (h : m.Buffered)
    (htlb : ∀ i < TLBSize, (m'.tlb i).valid = true → (m.tlb i).valid = true ∧
      (m'.tlb i).virtualPage = (m.tlb i).virtualPage ∧
      (m'.tlb i).physicalPage = (m.tlb i).physicalPage)
    (hholds : ∀ i < TLBSize, (m'.tlb i).valid = true → ∀ S,
      m.Holds (m.tlb i).physicalPage S (m.tlb i).virtualPage →
        m'.Holds (m.tlb i).physicalPage S (m.tlb i).virtualPage)
    (hspace : m'.space = m.space) :
  m'.Buffered
  := by
  constructor
  · intro i hi hvalid
    obtain ⟨hv, hvirtual, hphysical⟩ := htlb i hi hvalid
    obtain ⟨S, hS, hold⟩ := h.slot i hi hv
    use S
    rw [hspace, hvirtual, hphysical]
    exact ⟨hS, hholds i hi hvalid S hold⟩
  · intro i hi j hj hvi hvj heq
    obtain ⟨hi', hvirtual, -⟩ := htlb i hi hvi
    obtain ⟨hj', hvirtual', -⟩ := htlb j hj hvj
    apply h.unique i hi j hj hi' hj'
    rw [← hvirtual, ← hvirtual', heq]

/-! ### Finding a frame -/

theorem find_some {size i : ℕ} {bitMap : ℕ → Bool} (h : find size bitMap = some i) :
  i < size ∧ bitMap i = false
  := by
  constructor
  · apply List.mem_range.mp (List.mem_of_find?_eq_some h)
  · have hi := List.find?_some h
    simpa using hi

theorem find_none {size : ℕ} {bitMap : ℕ → Bool} (h : find size bitMap = none) {i : ℕ}
    (hi : i < size) :
  bitMap i = true
  := by
  have hfull := List.find?_eq_none.mp h i (List.mem_range.mpr hi)
  simpa using hfull

/-- A page that is found in the inverted page table is in its frame. -/
theorem Mapping.lookup_some {m : VM} (h : m.Mapping) {S v ppn : ℕ}
    (hlookup : m.lookup S v = some ppn) :
  m.Holds ppn S v
  := by
  obtain ⟨i, hfind, rfl⟩ := Option.map_eq_some_iff.mp hlookup
  have hlt := List.mem_range.mp (List.mem_of_find?_eq_some hfind)
  have hi := List.find?_some hfind
  simp only [Bool.and_eq_true, beq_iff_eq] at hi
  rw [h.physicalPage i hlt]
  exact ⟨hlt, hi.2, hi.1.2, hi.1.1⟩

theorem lookup_none {m : VM} {S v : ℕ} (hlookup : m.lookup S v = none) (f : ℕ) :
  ¬ m.Holds f S v
  := by
  rintro ⟨hlt, hvalid, howner, hpage⟩
  have hfind := Option.map_eq_none_iff.mp hlookup
  have hf := List.find?_eq_none.mp hfind f (List.mem_range.mpr hlt)
  simp [hvalid, howner, hpage] at hf

/-- Frame `f` has been taken but holds no page. The other frames are in order. -/
structure Vacant (m : VM) (f : ℕ) : Prop where
  lt : f < NumPhysPages
  marked : m.mainMemoryBitMap f = true
  bitMap : ∀ g < NumPhysPages, g ≠ f →
    (m.mainMemoryBitMap g = true ↔ (m.IPT g).entry.valid = true)
  physicalPage : ∀ g < NumPhysPages, (m.IPT g).entry.physicalPage = g
  owned : ∀ g < NumPhysPages, g ≠ f → (m.IPT g).entry.valid = true → ∃ S v, m.Holds g S v
  holds_iff : ∀ g S v, g ≠ f → (m.Holds g S v ↔ m.Resident S v g)
  empty : ∀ S v, ¬ m.Resident S v f

/-- A frame whose bit is clear is vacant when the bit has been set. -/
theorem Mapping.vacant_of_free {m : VM} (h : m.Mapping) {f : ℕ}
    (hfind : find NumPhysPages m.mainMemoryBitMap = some f) :
  Vacant { m with mainMemoryBitMap := Function.update m.mainMemoryBitMap f true } f
  := by
  obtain ⟨hlt, hclear⟩ := find_some hfind
  have hframes : SameFrames m
      { m with mainMemoryBitMap := Function.update m.mainMemoryBitMap f true } :=
    sameFrames_of_eq rfl
  constructor
  · apply hlt
  · apply Function.update_self
  · intro g hg hne
    simp only [Function.update_of_ne hne]
    apply h.bitMap g hg
  · apply h.physicalPage
  · intro g hg _ hvalid
    obtain ⟨S, v, hholds⟩ := h.owned g hg hvalid
    exact ⟨S, v, hframes.holds_iff.mpr hholds⟩
  · intro g S v _
    rw [hframes.holds_iff]
    apply h.holds_iff
  · intro S v hresident
    have hholds := (h.holds_iff f S v).mpr hresident
    have hmarked := (h.bitMap f hlt).mpr hholds.valid
    rw [hclear] at hmarked
    contradiction

/-- The pages of `sp'` are those of `sp`, except that page `v` is not in memory. -/
structure WithoutPage (sp sp' : AddrSpace) (v : ℕ) : Prop where
  numPages : sp'.numPages = sp.numPages
  invalid : (sp'.pageTable v).entry.valid = false
  other : ∀ u, u ≠ v → sp'.pageTable u = sp.pageTable u

theorem withoutPage_evictedPage (sp : AddrSpace) (v : ℕ) :
  WithoutPage sp (sp.evictedPage v) v
  := by
  constructor
  · rfl
  · simp [AddrSpace.evictedPage, AddrSpace.invalidate, AddrSpace.setPage]
  · intro u hu
    apply Function.update_of_ne hu

theorem withoutPage_swappedPage (sp : AddrSpace) (v swapLocation : ℕ) :
  WithoutPage sp (sp.swappedPage v swapLocation) v
  := by
  constructor
  · rfl
  · simp [AddrSpace.swappedPage, AddrSpace.invalidate, AddrSpace.setPage]
  · intro u hu
    simp [AddrSpace.swappedPage, AddrSpace.invalidate, AddrSpace.setPage,
      Function.update_of_ne hu]

/-- Taking page `v` of the address space `S` out of memory leaves the other pages where they
are. -/
theorem resident_withoutPage {m m' : VM} {S v : ℕ} {sp sp' : AddrSpace}
    (hS : m.spaces S = some sp) (hspaces : m'.spaces = Function.update m.spaces S (some sp'))
    (hpage : WithoutPage sp sp' v) (T u g : ℕ) :
  m'.Resident T u g ↔ m.Resident T u g ∧ ¬ (T = S ∧ u = v)
  := by
  rw [Resident, Resident, hspaces, Function.update_apply]
  by_cases hT : T = S
  · subst hT
    simp only [if_true, Option.some.injEq, exists_eq_left', hS, true_and, hpage.numPages]
    by_cases hu : u = v
    · subst hu
      simp [hpage.invalid]
    · simp [hpage.other u hu, hu]
  · simp [hT]

/-- The frame of a page that has been taken out of memory is vacant. -/
theorem Mapping.vacant_of_evicted {m m' : VM} (h : m.Mapping) {f S v : ℕ} {sp sp' : AddrSpace}
    (hholds : m.Holds f S v) (hS : m.spaces S = some sp) (hframes : SameFrames m m')
    (hbits : m'.mainMemoryBitMap = m.mainMemoryBitMap)
    (hspaces : m'.spaces = Function.update m.spaces S (some sp')) (hpage : WithoutPage sp sp' v) :
  m'.Vacant f
  := by
  have hiff := resident_withoutPage hS hspaces hpage
  constructor
  · apply hholds.lt
  · rw [hbits]
    apply (h.bitMap f hholds.lt).mpr hholds.valid
  · intro g hg _
    rw [hbits, (hframes g).2.1]
    apply h.bitMap g hg
  · intro g hg
    rw [(hframes g).2.2.2]
    apply h.physicalPage g hg
  · intro g hg _ hvalid
    rw [(hframes g).2.1] at hvalid
    obtain ⟨T, u, hT⟩ := h.owned g hg hvalid
    exact ⟨T, u, hframes.holds_iff.mpr hT⟩
  · intro g T u hne
    rw [hframes.holds_iff, h.holds_iff, hiff]
    constructor
    · intro hresident
      use hresident
      rintro ⟨rfl, rfl⟩
      obtain ⟨sp₁, hsp₁, -, -, hg⟩ := hresident
      obtain ⟨sp₂, hsp₂, -, -, hf⟩ := (h.holds_iff f T u).mp hholds
      obtain rfl := Option.some.inj (hsp₁.symm.trans hsp₂)
      apply hne
      rw [← hg, hf]
    · apply And.left
  · intro T u hresident
    obtain ⟨hold, hne⟩ := (hiff T u f).mp hresident
    have hholds' := (h.holds_iff f T u).mpr hold
    apply hne
    constructor
    · apply Option.some.inj (hholds'.owner.symm.trans hholds.owner)
    · rw [← hholds'.virtualPage, hholds.virtualPage]

/-! ### Reading a page -/

section IptMiss

variable {m : VM} {f S v : ℕ} {sp : AddrSpace}

theorem IPT_iptMiss (g : ℕ) :
  (m.iptMiss S sp v f).IPT g = if g = f then
    ⟨⟨v, f, true, (sp.pageTable v).entry.readOnly, (sp.pageTable v).entry.use,
      (sp.pageTable v).entry.dirty⟩, some S⟩ else m.IPT g
  := Function.update_apply _ _ _ _

/-- The frame that has been read into holds the page, and the other frames what they did. -/
theorem holds_iptMiss (hlt : f < NumPhysPages) (g T u : ℕ) :
  (m.iptMiss S sp v f).Holds g T u ↔
    g = f ∧ T = S ∧ u = v ∨ g ≠ f ∧ m.Holds g T u
  := by
  have hg := @IPT_iptMiss m f S v sp g
  by_cases hgf : g = f
  · subst hgf
    rw [if_pos rfl] at hg
    simp only [ne_eq, not_true_eq_false, true_and, false_and, or_false]
    constructor
    · rintro ⟨-, -, howner, hvirtual⟩
      rw [hg] at howner hvirtual
      exact ⟨(Option.some.inj howner).symm, hvirtual.symm⟩
    · rintro ⟨rfl, rfl⟩
      constructor
      · apply hlt
      all_goals rw [hg]
  · rw [if_neg hgf] at hg
    simp only [hgf, false_and, ne_eq, not_false_eq_true, true_and, false_or]
    constructor
    · rintro ⟨hlt', hvalid, howner, hvirtual⟩
      rw [hg] at hvalid howner hvirtual
      exact ⟨hlt', hvalid, howner, hvirtual⟩
    · rintro ⟨hlt', hvalid, howner, hvirtual⟩
      rw [← hg] at hvalid howner hvirtual
      exact ⟨hlt', hvalid, howner, hvirtual⟩

/-- The page that has been read is in its frame, and the other pages are where they were. -/
theorem resident_iptMiss (hS : m.spaces S = some sp) (hv : v < sp.numPages) (T u g : ℕ) :
  (m.iptMiss S sp v f).Resident T u g ↔
    T = S ∧ u = v ∧ g = f ∨ ¬ (T = S ∧ u = v) ∧ m.Resident T u g
  := by
  have hspaces : (m.iptMiss S sp v f).spaces = Function.update m.spaces S (some (sp.setPage v
      { sp.pageTable v with entry := { (sp.pageTable v).entry with
        valid := true, physicalPage := f } })) := rfl
  rw [Resident, Resident, hspaces, Function.update_apply]
  by_cases hT : T = S
  · subst hT
    simp only [if_true, Option.some.injEq, exists_eq_left', hS, true_and, AddrSpace.setPage,
      Function.update_apply]
    by_cases hu : u = v
    · subst hu
      simp only [if_true, hv, true_and, not_true_eq_false, false_and, or_false]
      apply eq_comm
    · simp [hu]
  · simp [hT]

/-- Reading a page into a vacant frame makes the tables agree. -/
theorem Vacant.iptMiss (h : m.Vacant f) (hS : m.spaces S = some sp) (hv : v < sp.numPages)
    (hout : ∀ g, ¬ m.Resident S v g) :
  (m.iptMiss S sp v f).Mapping
  := by
  have hbits : (m.iptMiss S sp v f).mainMemoryBitMap = m.mainMemoryBitMap := rfl
  constructor
  · intro g hg
    rw [hbits, IPT_iptMiss]
    split
    · rename_i hgf
      rw [hgf, h.marked]
    · rename_i hgf
      apply h.bitMap g hg hgf
  · intro g hg
    rw [IPT_iptMiss]
    split
    · rename_i hgf
      apply hgf.symm
    · apply h.physicalPage g hg
  · intro g hg hvalid
    by_cases hgf : g = f
    · use S, v
      apply (holds_iptMiss h.lt g S v).mpr
      left
      exact ⟨hgf, rfl, rfl⟩
    · rw [IPT_iptMiss, if_neg hgf] at hvalid
      obtain ⟨T, u, hT⟩ := h.owned g hg hgf hvalid
      use T, u
      apply (holds_iptMiss h.lt g T u).mpr
      right
      exact ⟨hgf, hT⟩
  · intro g T u
    rw [holds_iptMiss h.lt, resident_iptMiss hS hv]
    constructor
    · rintro (⟨hgf, hT, hu⟩ | ⟨hgf, hholds⟩)
      · left
        exact ⟨hT, hu, hgf⟩
      · right
        have hresident := (h.holds_iff g T u hgf).mp hholds
        use (by
          rintro ⟨rfl, rfl⟩
          apply hout g hresident)
    · rintro (⟨hT, hu, hgf⟩ | ⟨-, hresident⟩)
      · left
        exact ⟨hgf, hT, hu⟩
      · right
        have hgf : g ≠ f := by
          rintro rfl
          apply h.empty T u hresident
        exact ⟨hgf, (h.holds_iff g T u hgf).mpr hresident⟩

end IptMiss

/-! ### Page faults -/

/-- The inverted page table when the dirty bit of the current slot has been propagated. -/
def propagated (m : VM) : ℕ → IPTEntry :=
  if (m.tlb m.currentTLB).dirty then (m.setDirty (m.tlb m.currentTLB).physicalPage true).IPT
  else m.IPT

theorem updateTLB_eq {m m' : VM} {ppn : ℕ} (h : m.updateTLB ppn = some m') :
  m' = { m with
    IPT := m.propagated
    tlb := Function.update m.tlb m.currentTLB (m.propagated ppn).entry
    currentTLB := (m.currentTLB + 1) % TLBSize }
  := by
  simp only [updateTLB, Option.bind_eq_bind, Option.pure_def] at h
  split at h
  · rename_i hdirty
    split at h
    · obtain rfl := Option.some.inj h
      simp only [propagated, hdirty, if_true]
      rfl
    · contradiction
  · rename_i hdirty
    obtain rfl := Option.some.inj h
    simp only [propagated, hdirty]
    rfl

theorem sameFrames_propagated {m m' : VM} (h : m'.IPT = m.propagated) :
  SameFrames m m'
  := by
  rw [propagated] at h
  split at h
  · apply sameFrames_of_dirty h
  · apply sameFrames_of_eq h

/-- A page that is in memory and has no slot gets one. -/
theorem Ok.updateTLB {m m' : VM} (h : m.Ok) {ppn S v : ℕ} (hholds : m.Holds ppn S v)
    (hspace : m.space = some S)
    (hfault : ∀ i < TLBSize, (m.tlb i).valid = true → (m.tlb i).virtualPage ≠ v)
    (hstep : m.updateTLB ppn = some m') :
  m'.Ok
  := by
  obtain rfl := updateTLB_eq hstep
  have hframes : SameFrames m { m with
      IPT := m.propagated
      tlb := Function.update m.tlb m.currentTLB (m.propagated ppn).entry
      currentTLB := (m.currentTLB + 1) % TLBSize } := sameFrames_propagated rfl
  obtain ⟨-, -, hvirtual, hphysical⟩ := hframes ppn
  have hvirtual' : (m.propagated ppn).entry.virtualPage = v := hvirtual.trans hholds.virtualPage
  have hphysical' : (m.propagated ppn).entry.physicalPage = ppn :=
    hphysical.trans (h.mapping.physicalPage ppn hholds.lt)
  constructor
  · apply h.mapping.congr hframes rfl rfl
  · constructor
    · intro i hi hvalid
      simp only [Function.update_apply] at hvalid ⊢
      split at hvalid
      · rename_i hcur
        rw [if_pos hcur, hvirtual', hphysical']
        exact ⟨S, hspace, hframes.holds_iff.mpr hholds⟩
      · rename_i hcur
        rw [if_neg hcur]
        obtain ⟨T, hT, hholds'⟩ := h.buffered.slot i hi hvalid
        exact ⟨T, hT, hframes.holds_iff.mpr hholds'⟩
    · intro i hi j hj hvi hvj heq
      simp only [Function.update_apply] at hvi hvj heq
      split at hvi
      · rename_i hci
        rw [if_pos hci, hvirtual'] at heq
        split at hvj
        · rename_i hcj
          rw [hci, hcj]
        · rename_i hcj
          rw [if_neg hcj] at heq
          exact absurd heq.symm (hfault j hj hvj)
      · rename_i hci
        rw [if_neg hci] at heq
        split at hvj
        · rename_i hcj
          rw [if_pos hcj, hvirtual'] at heq
          exact absurd heq (hfault i hi hvi)
        · rename_i hcj
          rw [if_neg hcj] at heq
          apply h.buffered.unique i hi j hj hvi hvj heq
  · apply Nat.mod_lt
    decide
  · apply h.currentIPT
  · apply h.live

/-- The frame a page is going to be read into: a free one, or one whose page has been evicted. -/
inductive Freed (PRand : Bool) (rand : ℕ) (m : VM) : VM → ℕ → Prop where
  | free {f : ℕ} (hfind : find NumPhysPages m.mainMemoryBitMap = some f) :
      Freed PRand rand m
        { m with mainMemoryBitMap := Function.update m.mainMemoryBitMap f true } f
  | full {m₁ : VM} {S v : ℕ} {sp : AddrSpace}
      (hfind : find NumPhysPages m.mainMemoryBitMap = none)
      (hholds : m.Holds (victim PRand rand m) S v) (hS : m.spaces S = some sp)
      (hevicted : evicted { m with
        currentIPT := if PRand then m.currentIPT else (m.currentIPT + 1) % NumPhysPages }
          (victim PRand rand m) S v sp = some m₁) :
      Freed PRand rand m m₁ (victim PRand rand m)

theorem victim_lt {m : VM} (hIPT : m.currentIPT < NumPhysPages) (PRand : Bool) (rand : ℕ) :
  victim PRand rand m < NumPhysPages
  := by
  rw [victim]
  split
  · apply Nat.mod_lt
    decide
  · apply hIPT

/-- A frame that has been taken holds a page that is in it. -/
def Loaded (m : VM) : Prop :=
  ∀ f < NumPhysPages, m.mainMemoryBitMap f = true → ∃ S v, m.Holds f S v ∧ m.Resident S v f

theorem Mapping.loaded {m : VM} (h : m.Mapping) :
  m.Loaded
  := by
  intro f hf hbit
  obtain ⟨S, v, hholds⟩ := h.owned f hf ((h.bitMap f hf).mp hbit)
  exact ⟨S, v, hholds, (h.holds_iff f S v).mp hholds⟩

/-- A page that is not in memory is read into a frame that has been freed. -/
theorem Loaded.handleIPTMiss_cases {PRand : Bool} {rand : ℕ} {m m' : VM} (h : m.Loaded)
    (hIPT : m.currentIPT < NumPhysPages) {S v ppn : ℕ}
    (hstep : m.handleIPTMiss PRand rand S v = some (m', ppn)) :
  ∃ m₁ sp₁, Freed PRand rand m m₁ ppn ∧ m₁.spaces S = some sp₁ ∧ m' = m₁.iptMiss S sp₁ v ppn
  := by
  simp only [handleIPTMiss, Option.bind_eq_bind, Option.pure_def] at hstep
  cases hfind : find NumPhysPages m.mainMemoryBitMap with
  | some f =>
      simp only [hfind, Option.bind_some] at hstep
      obtain ⟨sp, hsp, heq⟩ := Option.bind_eq_some_iff.mp hstep
      obtain ⟨rfl, rfl⟩ := Prod.mk.inj (Option.some.inj heq)
      exact ⟨_, sp, .free hfind, hsp, rfl⟩
  | none =>
      simp only [hfind] at hstep
      obtain ⟨⟨m₁, ppn'⟩, hfull, hstep⟩ := Option.bind_eq_some_iff.mp hstep
      obtain ⟨sp, hsp, heq⟩ := Option.bind_eq_some_iff.mp hstep
      obtain ⟨rfl, rfl⟩ := Prod.mk.inj (Option.some.inj heq)
      simp only [handleMemoryFull, Option.bind_eq_bind, Option.pure_def] at hfull
      obtain ⟨m₂, hevict, heq⟩ := Option.bind_eq_some_iff.mp hfull
      obtain ⟨rfl, rfl⟩ := Prod.mk.inj (Option.some.inj heq)
      have hlt := victim_lt hIPT PRand rand
      obtain ⟨T, u, hholds, sp', hsp', -⟩ := h _ hlt (find_none hfind hlt)
      have heq := evict_eq (m := { m with
        currentIPT := if PRand then m.currentIPT else (m.currentIPT + 1) % NumPhysPages })
        hholds.owner hsp'
      rw [hevict] at heq
      have hu : (m.IPT (victim PRand rand m)).entry.virtualPage = u := hholds.virtualPage
      rw [hu] at heq
      exact ⟨_, sp, .full hfind hholds hsp' heq.symm, hsp, rfl⟩

theorem Ok.handleIPTMiss_cases {PRand : Bool} {rand : ℕ} {m m' : VM} (h : m.Ok) {S v ppn : ℕ}
    (hstep : m.handleIPTMiss PRand rand S v = some (m', ppn)) :
  ∃ m₁ sp₁, Freed PRand rand m m₁ ppn ∧ m₁.spaces S = some sp₁ ∧ m' = m₁.iptMiss S sp₁ v ppn
  := h.mapping.loaded.handleIPTMiss_cases h.currentIPT hstep

/-- What an eviction changes, but for the swap file. -/
structure Evicts (m : VM) (f S v : ℕ) (sp : AddrSpace) (m₁ : VM) : Prop where
  page : ∃ sp', WithoutPage sp sp' v ∧ m₁.spaces = Function.update m.spaces S (some sp')
  frames : SameFrames m m₁
  tlb : m₁.tlb = m.invalidated f TLBSize
  bitMap : m₁.mainMemoryBitMap = m.mainMemoryBitMap
  mainMemory : m₁.mainMemory = m.mainMemory
  space : m₁.space = m.space
  currentTLB : m₁.currentTLB = m.currentTLB
  currentIPT : m₁.currentIPT = m.currentIPT

theorem evicts_of_evicted {m m₁ : VM} {f S v : ℕ} {sp : AddrSpace}
    (h : m.evicted f S v sp = some m₁) :
  m.Evicts f S v sp m₁
  := by
  rw [evicted, invalidateTLB_eq] at h
  split at h
  · obtain ⟨swapLocation, -, rfl⟩ := Option.map_eq_some_iff.mp h
    constructor
    · exact ⟨_, withoutPage_swappedPage sp v swapLocation, rfl⟩
    · apply sameFrames_of_dirty rfl
    all_goals rfl
  · obtain rfl := Option.some.inj h
    constructor
    · exact ⟨_, withoutPage_evictedPage sp v, rfl⟩
    · apply sameFrames_of_dirty rfl
    all_goals rfl

/-- The slots that are still valid after an eviction name other frames. -/
theorem valid_invalidated {m : VM} {f i : ℕ} (hi : i < TLBSize)
    (h : (m.invalidated f TLBSize i).valid = true) :
  m.invalidated f TLBSize i = m.tlb i ∧ (m.tlb i).physicalPage ≠ f
  := by
  rw [invalidated] at h ⊢
  split at h
  · contradiction
  · rename_i hname
    rw [if_neg hname]
    use rfl
    intro hf
    apply hname ⟨hi, hf⟩

/-- What is known when a frame has been freed. -/
structure FreedOk (m m₁ : VM) (f : ℕ) : Prop where
  vacant : m₁.Vacant f
  frames : SameFrames m m₁
  tlb : ∀ i < TLBSize, (m₁.tlb i).valid = true →
    m₁.tlb i = m.tlb i ∧ (m.tlb i).physicalPage ≠ f
  space : m₁.space = m.space
  currentTLB : m₁.currentTLB < TLBSize
  currentIPT : m₁.currentIPT < NumPhysPages
  resident : ∀ S v g, m₁.Resident S v g → m.Resident S v g
  spaces : ∀ S sp, m.spaces S = some sp →
    ∃ sp₁, m₁.spaces S = some sp₁ ∧ sp₁.numPages = sp.numPages

theorem Ok.freed {PRand : Bool} {rand : ℕ} {m m₁ : VM} (h : m.Ok) {f : ℕ}
    (hfreed : Freed PRand rand m m₁ f) :
  FreedOk m m₁ f
  := by
  cases hfreed with
  | free hfind =>
      obtain ⟨hlt, hclear⟩ := find_some hfind
      constructor
      · apply h.mapping.vacant_of_free hfind
      · apply sameFrames_of_eq rfl
      · intro i hi hvalid
        use rfl
        intro hf
        obtain ⟨S, -, hholds⟩ := h.buffered.slot i hi hvalid
        rw [hf] at hholds
        have hmarked := (h.mapping.bitMap f hlt).mpr hholds.valid
        rw [hclear] at hmarked
        contradiction
      · rfl
      · apply h.currentTLB
      · apply h.currentIPT
      · intro S v g
        apply (resident_congr rfl).mp
      · intro S sp hS
        exact ⟨sp, hS, rfl⟩
  | @full _ S v sp hfind hholds hS hevicted =>
      have hev := evicts_of_evicted hevicted
      obtain ⟨sp', hpage, hspaces⟩ := hev.page
      have hframes : SameFrames m m₁ := hev.frames
      constructor
      · apply h.mapping.vacant_of_evicted hholds hS hframes hev.bitMap hspaces hpage
      · apply hframes
      · intro i hi hvalid
        rw [hev.tlb] at hvalid ⊢
        apply valid_invalidated hi hvalid
      · apply hev.space
      · rw [hev.currentTLB]
        apply h.currentTLB
      · rw [hev.currentIPT]
        simp only
        split
        · apply h.currentIPT
        · apply Nat.mod_lt
          decide
      · intro T u g hresident
        apply ((resident_withoutPage hS hspaces hpage T u g).mp hresident).1
      · intro T sp₁ hT
        rw [hspaces, Function.update_apply]
        split
        · rename_i hTS
          rw [hTS, hS] at hT
          obtain rfl := Option.some.inj hT
          exact ⟨sp', rfl, hpage.numPages⟩
        · exact ⟨sp₁, hT, rfl⟩

/-- The tables agree when a page has been read into a frame that has been freed. -/
theorem FreedOk.iptMiss {m m₁ : VM} {f S v : ℕ} {sp₁ : AddrSpace} (h : FreedOk m m₁ f)
    (hok : m.Ok) (hS : m₁.spaces S = some sp₁) (hv : v < sp₁.numPages)
    (hout : ∀ g, ¬ m.Resident S v g) :
  (m₁.iptMiss S sp₁ v f).Ok ∧ (m₁.iptMiss S sp₁ v f).Holds f S v
  := by
  have hlt := h.vacant.lt
  constructor
  · constructor
    · apply h.vacant.iptMiss hS hv
      intro g hresident
      apply hout g (h.resident S v g hresident)
    · apply hok.buffered.mono
      · intro i hi hvalid
        obtain ⟨heq, -⟩ := h.tlb i hi hvalid
        have hsame : (m₁.iptMiss S sp₁ v f).tlb i = m.tlb i := heq
        rw [hsame] at hvalid ⊢
        exact ⟨hvalid, rfl, rfl⟩
      · intro i hi hvalid T hholds
        obtain ⟨-, hne⟩ := h.tlb i hi hvalid
        apply (holds_iptMiss hlt _ _ _).mpr
        right
        exact ⟨hne, h.frames.holds_iff.mpr hholds⟩
      · apply h.space
    · apply h.currentTLB
    · apply h.currentIPT
    · intro T hT
      have hspaces : (m₁.iptMiss S sp₁ v f).spaces = Function.update m₁.spaces S _ := rfl
      rw [hspaces, Function.update_apply]
      split
      · exact ⟨_, rfl⟩
      · obtain ⟨sp, hsp⟩ := hok.live T (h.space ▸ hT)
        obtain ⟨sp', hsp', -⟩ := h.spaces T sp hsp
        exact ⟨sp', hsp'⟩
  · apply (holds_iptMiss hlt _ _ _).mpr
    left
    exact ⟨rfl, rfl, rfl⟩

/-- A page fault keeps the tables in agreement. -/
theorem Ok.handlePageFault {PRand : Bool} {rand : ℕ} {m m' : VM} (h : m.Ok) {S v : ℕ}
    {sp : AddrSpace} (hspace : m.space = some S) (hS : m.spaces S = some sp)
    (hv : v < sp.numPages)
    (hfault : ∀ i < TLBSize, (m.tlb i).valid = true → (m.tlb i).virtualPage ≠ v)
    (hstep : m.handlePageFault PRand rand S v = some m') :
  m'.Ok
  := by
  rw [VM.handlePageFault] at hstep
  split at hstep
  · rename_i ppn hlookup
    apply h.updateTLB (h.mapping.lookup_some hlookup) hspace hfault hstep
  · rename_i hlookup
    have hout : ∀ g, ¬ m.Resident S v g := by
      intro g hresident
      apply lookup_none hlookup g
      apply (h.mapping.holds_iff g S v).mpr hresident
    obtain ⟨⟨m₂, ppn⟩, hmiss, hstep⟩ := Option.bind_eq_some_iff.mp hstep
    obtain ⟨m₁, sp₁, hfreed, hsp₁, rfl⟩ := h.handleIPTMiss_cases hmiss
    have hfreedOk := h.freed hfreed
    obtain ⟨sp₂, hsp₂, hnum⟩ := hfreedOk.spaces S sp hS
    obtain rfl := Option.some.inj (hsp₁.symm.trans hsp₂)
    obtain ⟨hok, hholds⟩ := hfreedOk.iptMiss h hsp₁ (by omega) hout
    apply hok.updateTLB hholds _ _ hstep
    · rw [← hspace]
      apply hfreedOk.space
    · intro i hi hvalid
      obtain ⟨heq, -⟩ := hfreedOk.tlb i hi hvalid
      have hsame : (m₁.iptMiss S sp₁ v ppn).tlb i = m.tlb i := heq
      rw [hsame] at hvalid ⊢
      apply hfault i hi hvalid

end VM

end Nachos.Memory
