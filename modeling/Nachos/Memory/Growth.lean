import Nachos.Memory.Coherence

/-!
# Growing an address space

`AddrSpace::allocateStack` (`userprog/addrspace.cc`) copies the page table into a larger one, field
by field, and leaves out `swapLocation`. The pages keep their contents when none of them is in the
swap file, or when the new table happens to hold the slots of those that are
(`VM.allocateStack_grows_iff`).
-/

namespace Nachos.Memory

namespace VM

/-! ### Descriptors -/

/-- `IPTMiss` uses `e` and `e'` in the same way. It reads `swapLocation` of a page in the swap file
only. -/
structure SameDescriptor (e e' : PageTableEntry) : Prop where
  entry : e'.entry = e.entry
  location : e'.location = e.location
  byteOffset : e'.byteOffset = e.byteOffset
  swapLocation : e.location = .swapfile → e'.swapLocation = e.swapLocation

/-- The page that the next access to page `v` of the address space `S` finds: the frame it is in, or
else the frame `ppn` that `IPTMiss` reads it into. -/
def nextAccess (m : VM) (S : ℕ) (sp : AddrSpace) (v ppn : ℕ) : Page :=
  match m.lookup S v with
  | some f => m.mainMemory f
  | none => (m.iptMiss S sp v ppn).mainMemory ppn

/-- The address space `S` has grown by eight pages of zeros, and its other pages are what they
were. -/
structure Grows (m m' : VM) (S : ℕ) (sp sp' : AddrSpace) : Prop where
  numPages : sp'.numPages = sp.numPages + 8
  descriptor : ∀ v < sp.numPages, SameDescriptor (sp.pageTable v) (sp'.pageTable v)
  content : ∀ v < sp.numPages, ∀ ppn, m'.nextAccess S sp' v ppn = m.nextAccess S sp v ppn
  zeros : ∀ v, sp.numPages ≤ v → v < sp'.numPages → ∀ ppn o,
    (m'.iptMiss S sp' v ppn).mainMemory ppn o = 0

/-! ### The new page table -/

section AllocateStack

variable {m : VM} {S v : ℕ} {sp : AddrSpace} {g : AddrSpace.Garbage}

theorem pageTable_allocateStack (hv : v < sp.numPages) :
  (sp.allocateStack g).pageTable v = { sp.pageTable v with swapLocation := (g v).2 }
  := if_pos hv

theorem pageTable_allocateStack_new (hv : sp.numPages ≤ v) :
  (sp.allocateStack g).pageTable v = AddrSpace.newEntry g .neither v
  := if_neg (Nat.not_lt.mpr hv)

/-- The frame that a page is read into. -/
theorem mainMemory_iptMiss (ppn : ℕ) :
  (m.iptMiss S sp v ppn).mainMemory ppn = m.backing sp v
  := Function.update_self _ _ _

/-- A page whose descriptor stays the same is read as before. -/
theorem SameDescriptor.backing {m' : VM} {sp' : AddrSpace}
    (h : SameDescriptor (sp.pageTable v) (sp'.pageTable v))
    (hexecutable : sp'.executable = sp.executable) (hswap : m'.swapFile = m.swapFile) :
  m'.backing sp' v = m.backing sp v
  := by
  rw [VM.backing, VM.backing, h.location, h.byteOffset, hexecutable, hswap]
  cases hlocation : (sp.pageTable v).location with
  | executable | neither => rfl
  | swapfile => rw [h.swapLocation hlocation]

theorem backing_allocateStack_new (hv : sp.numPages ≤ v) (o : ℕ) :
  m.backing (sp.allocateStack g) v o = 0
  := by
  rw [backing, pageTable_allocateStack_new hv]
  rfl

/-- The address space grows as it should exactly when the slots of its pages in the swap file are
what the new table holds there. -/
theorem grows_allocateStack_iff :
  m.Grows (m.setSpace S (sp.allocateStack g)) S sp (sp.allocateStack g) ↔
    ∀ v < sp.numPages, (sp.pageTable v).location = .swapfile →
      (g v).2 = (sp.pageTable v).swapLocation
  := by
  constructor
  · intro h v hv hlocation
    have hsame := (h.descriptor v hv).swapLocation hlocation
    rw [pageTable_allocateStack hv] at hsame
    exact hsame
  · intro h
    have hdescriptor : ∀ v < sp.numPages,
        SameDescriptor (sp.pageTable v) ((sp.allocateStack g).pageTable v) := by
      intro v hv
      rw [pageTable_allocateStack hv]
      exact ⟨rfl, rfl, rfl, h v hv⟩
    refine ⟨rfl, hdescriptor, ?_, ?_⟩
    · intro v hv ppn
      have hlookup : (m.setSpace S (sp.allocateStack g)).lookup S v = m.lookup S v := rfl
      rw [nextAccess, nextAccess, hlookup]
      split
      · rfl
      · rw [mainMemory_iptMiss, mainMemory_iptMiss]
        exact (hdescriptor v hv).backing rfl rfl
    · intro v hv _ ppn o
      rw [mainMemory_iptMiss]
      exact backing_allocateStack_new hv o

/-- Whatever the new table holds, the address space grows as it should exactly when none of its
pages is in the swap file. -/
theorem forall_grows_allocateStack_iff :
  (∀ g, m.Grows (m.setSpace S (sp.allocateStack g)) S sp (sp.allocateStack g)) ↔
    ∀ v < sp.numPages, (sp.pageTable v).location ≠ .swapfile
  := by
  constructor
  · intro h v hv hlocation
    have hslot := grows_allocateStack_iff.mp
      (h (fun _ => (0, (sp.pageTable v).swapLocation + 1))) v hv hlocation
    simp at hslot
  · intro h g
    apply grows_allocateStack_iff.mpr
    intro v hv hlocation
    exact absurd hlocation (h v hv)

end AllocateStack

/-- When the running thread forks a thread, its address space grows as it should exactly when the
slots of its pages in the swap file are what the new table holds there. -/
theorem allocateStack_grows_iff {PRand : Bool} {m : VM} {S : ℕ} {sp : AddrSpace}
    {g : AddrSpace.Garbage} (hspace : m.space = some S) (hS : m.spaces S = some sp) :
  ∃ m' sp', step PRand m (.allocateStack g) = some m' ∧ m'.spaces S = some sp' ∧
    (m.Grows m' S sp sp' ↔ ∀ v < sp.numPages, (sp.pageTable v).location = .swapfile →
      (g v).2 = (sp.pageTable v).swapLocation)
  := by
  refine ⟨m.setSpace S (sp.allocateStack g), sp.allocateStack g, ?_, ?_, ?_⟩
  · rw [step, hspace]
    simp [hS]
  · exact Function.update_self _ _ _
  · exact grows_allocateStack_iff

/-- A process with one page, which is in slot 5 of the swap file. -/
def swappedOut : VM :=
  { initial (fun _ => ⟨0, 0, false, false, false, false⟩)
      (fun _ => ⟨0, 0, false, false, false, false⟩) with
    swapFileBitMap := fun l => decide (l = 5)
    spaces := fun S => if S = 0 then
        some ((AddrSpace.new (fun _ => (0, 0)) [] 1).swappedPage 0 5)
      else none
    space := some 0 }

theorem allocateStack_grows_swappedOut :
  ∃ m' sp', step false swappedOut (.allocateStack (fun _ => (0, 5))) = some m' ∧
    m'.spaces 0 = some sp' ∧
    swappedOut.Grows m' 0 ((AddrSpace.new (fun _ => (0, 0)) [] 1).swappedPage 0 5) sp'
  := by
  obtain ⟨m', sp', hstep, hsp', hiff⟩ := @allocateStack_grows_iff false swappedOut 0
    ((AddrSpace.new (fun _ => (0, 0)) [] 1).swappedPage 0 5) (fun _ => (0, 5)) rfl rfl
  exact ⟨m', sp', hstep, hsp', hiff.mpr (by decide)⟩

/-- The new table holds another slot. -/
theorem not_allocateStack_grows :
  ¬ ∀ (PRand : Bool) (m m' : VM) (S : ℕ) (sp sp' : AddrSpace) (g : AddrSpace.Garbage),
    m.space = some S → m.spaces S = some sp → step PRand m (.allocateStack g) = some m' →
    m'.spaces S = some sp' → m.Grows m' S sp sp'
  := by
  intro hall
  have hgrows := hall false swappedOut _ 0 _ _ (fun _ => (0, 0)) rfl rfl rfl rfl
  have hslot := (hgrows.descriptor 0 (by decide)).swapLocation rfl
  exact absurd hslot (by decide)

end VM

end Nachos.Memory
