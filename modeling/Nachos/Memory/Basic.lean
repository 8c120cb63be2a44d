import Mathlib.Algebra.Order.Ring.Nat
import Mathlib.Data.List.Basic
import Nachos.Library.Run

/-!
# Virtual memory

The machine's memory and its translation buffer (`machine/translate.cc`), the inverted page table
and the handling of page faults (`userprog/exception.cc`), and the page tables of the address
spaces (`userprog/addrspace.cc`).

Arrays are functions of their index. An address space is named by its address, which may be used
again when it has been deleted. What an array holds when it is allocated is part of the action that
allocates it. The kernel's locks are left out: every action is executed as a whole.
-/

namespace Nachos.Memory

def PageSize : ℕ := 128

def NumPhysPages : ℕ := 256

def TLBSize : ℕ := 4

/-- The size of the bit map of the swap file. -/
def swapSize : ℕ := 4096

/-- The size of the header of an executable. -/
def headerSize : ℕ := 40

structure TranslationEntry where
  virtualPage : ℕ
  physicalPage : ℕ
  valid : Bool
  readOnly : Bool
  use : Bool
  dirty : Bool

structure IPTEntry where
  entry : TranslationEntry
  owner : Option ℕ

/-- Where a page is when it is not in memory: `0`, `1` and `2`. -/
inductive Location where
  | swapfile
  | executable
  | neither
deriving DecidableEq

structure PageTableEntry where
  entry : TranslationEntry
  location : Location
  byteOffset : ℕ
  swapLocation : ℕ

structure AddrSpace where
  pageTable : ℕ → PageTableEntry
  numPages : ℕ
  /-- The contents of the executable. -/
  executable : List UInt8

/-- The contents of a page. -/
abbrev Page := ℕ → UInt8

@[ext]
structure VM where
  /-- The physical pages of the main memory. -/
  mainMemory : ℕ → Page
  mainMemoryBitMap : ℕ → Bool
  IPT : ℕ → IPTEntry
  currentIPT : ℕ
  tlb : ℕ → TranslationEntry
  currentTLB : ℕ
  /-- The pages of the swap file. -/
  swapFile : ℕ → Page
  swapFileBitMap : ℕ → Bool
  /-- The address spaces that have been created and not deleted. -/
  spaces : ℕ → Option AddrSpace
  /-- The address space of the running thread. -/
  space : Option ℕ

/-- `BitMap::Find`, without marking the bit. -/
def find (size : ℕ) (bitMap : ℕ → Bool) : Option ℕ :=
  (List.range size).find? (fun i => !bitMap i)

/-- The `PageSize` bytes at `offset` of a file, read into a page of zeros. -/
def readAt (file : List UInt8) (offset : ℕ) : Page := fun o => file.getD (offset + o) 0

/-! ### Address spaces -/

namespace AddrSpace

/-- What the fields of a page table hold that the code does not set: `physicalPage` and
`swapLocation`. -/
abbrev Garbage := ℕ → ℕ × ℕ

/-- A new page of an address space. -/
def newEntry (g : Garbage) (location : Location) (i : ℕ) : PageTableEntry :=
  { entry := ⟨i, (g i).1, false, false, false, false⟩
    location := location
    byteOffset := headerSize + i * PageSize
    swapLocation := (g i).2 }

/-- The constructor, for an executable that needs `numPages` pages. -/
def new (g : Garbage) (executable : List UInt8) (numPages : ℕ) : AddrSpace :=
  ⟨newEntry g .executable, numPages, executable⟩

/-- Page `i` overwritten. -/
def setPage (sp : AddrSpace) (i : ℕ) (e : PageTableEntry) : AddrSpace :=
  { sp with pageTable := Function.update sp.pageTable i e }

/-- `entry.valid = false` for page `vpn`. -/
def invalidate (sp : AddrSpace) (vpn : ℕ) : AddrSpace :=
  sp.setPage vpn { sp.pageTable vpn with
    entry := { (sp.pageTable vpn).entry with valid := false } }

def swappedPage (sp : AddrSpace) (vpn swapLocation : ℕ) : AddrSpace :=
  (sp.invalidate vpn).setPage vpn { (sp.invalidate vpn).pageTable vpn with
    location := .swapfile, swapLocation := swapLocation }

def evictedPage (sp : AddrSpace) (vpn : ℕ) : AddrSpace := sp.invalidate vpn

/-- `allocateStack`: a new page table with eight more pages. It does not copy `swapLocation`. -/
def allocateStack (g : Garbage) (sp : AddrSpace) : AddrSpace :=
  { sp with
    numPages := sp.numPages + 8
    pageTable := fun i =>
      if i < sp.numPages then { sp.pageTable i with swapLocation := (g i).2 }
      else newEntry g .neither i }

end AddrSpace

namespace VM

/-- Where a page of an address space is when it is not in memory. -/
def backing (m : VM) (sp : AddrSpace) (vpn : ℕ) : Page :=
  match (sp.pageTable vpn).location with
  | .executable => readAt sp.executable (sp.pageTable vpn).byteOffset
  | .swapfile => m.swapFile (sp.pageTable vpn).swapLocation
  | .neither => fun _ => 0

/-- Entry `f` of the inverted page table overwritten. -/
def setIPT (m : VM) (f : ℕ) (e : IPTEntry) : VM := { m with IPT := Function.update m.IPT f e }

/-- The address space `S` overwritten. -/
def setSpace (m : VM) (S : ℕ) (sp : AddrSpace) : VM :=
  { m with spaces := Function.update m.spaces S (some sp) }

/-- Slot `i` of the translation buffer overwritten. -/
def setTLB (m : VM) (i : ℕ) (e : TranslationEntry) : VM :=
  { m with tlb := Function.update m.tlb i e }

/-- The dirty bit of entry `f` of the inverted page table overwritten. -/
def setDirty (m : VM) (f : ℕ) (dirty : Bool) : VM :=
  m.setIPT f { m.IPT f with entry := { (m.IPT f).entry with dirty := dirty } }

/-- `AddrSpace::IPTMiss` of the address space `S`: its page `vpn` is read into frame `ppn`. -/
def iptMiss (m : VM) (S : ℕ) (sp : AddrSpace) (vpn ppn : ℕ) : VM :=
  let page := sp.pageTable vpn
  ({ m with mainMemory := Function.update m.mainMemory ppn (m.backing sp vpn) }.setSpace S
      (sp.setPage vpn { page with
        entry := { page.entry with valid := true, physicalPage := ppn } })).setIPT ppn
    { owner := some S
      entry := ⟨vpn, ppn, true, page.entry.readOnly, page.entry.use, page.entry.dirty⟩ }

/-! ### Page faults -/

/-- `updateTLB`. It is `none` where the code writes outside the inverted page table. -/
def updateTLB (m : VM) (ppn : ℕ) : Option VM := do
  let m ←
    if (m.tlb m.currentTLB).dirty then
      if (m.tlb m.currentTLB).physicalPage < NumPhysPages then
        some (m.setDirty (m.tlb m.currentTLB).physicalPage true)
      else none
    else some m
  return { m.setTLB m.currentTLB (m.IPT ppn).entry with
    currentTLB := (m.currentTLB + 1) % TLBSize }

/-- One iteration of the loop of `HandleMemoryFull`. -/
def invalidateSlot (ppn : ℕ) (m : VM) (i : ℕ) : VM :=
  if (m.tlb i).physicalPage = ppn then
    (m.setTLB i { m.tlb i with valid := false }).setDirty ppn (m.tlb i).dirty
  else m

/-- The frame `HandleMemoryFull` evicts; `rand` is the value of `rand()`. -/
def victim (PRand : Bool) (rand : ℕ) (m : VM) : ℕ :=
  if PRand then rand % NumPhysPages else m.currentIPT

/-- The loop of `HandleMemoryFull`. -/
def invalidateTLB (ppn : ℕ) (m : VM) : VM :=
  (List.range TLBSize).foldl (invalidateSlot ppn) m

/-- `HandleMemoryFull` once the frame has been chosen. It is `none` where the swap file is full and
where the frame has no owner. -/
def evict (ppn : ℕ) (m : VM) : Option VM := do
  let m := m.invalidateTLB ppn
  let S ← (m.IPT ppn).owner
  let sp ← m.spaces S
  let vpn := (m.IPT ppn).entry.virtualPage
  if (m.IPT ppn).entry.dirty then
    let swapLocation ← find swapSize m.swapFileBitMap
    return { m with
      swapFileBitMap := Function.update m.swapFileBitMap swapLocation true
      swapFile := Function.update m.swapFile swapLocation (m.mainMemory ppn)
    }.setSpace S (sp.swappedPage vpn swapLocation)
  else return m.setSpace S (sp.evictedPage vpn)

/-- `HandleMemoryFull`: the memory and the frame that is free now. -/
def handleMemoryFull (PRand : Bool) (rand : ℕ) (m : VM) : Option (VM × ℕ) := do
  let ppn := victim PRand rand m
  let m ← evict ppn { m with
    currentIPT := if PRand then m.currentIPT else (m.currentIPT + 1) % NumPhysPages }
  return (m, ppn)

/-- `HandleIPTMiss` for page `vpn` of the address space `S`. -/
def handleIPTMiss (PRand : Bool) (rand : ℕ) (S vpn : ℕ) (m : VM) : Option (VM × ℕ) := do
  let (m, ppn) ←
    match find NumPhysPages m.mainMemoryBitMap with
    | some ppn =>
        some ({ m with mainMemoryBitMap := Function.update m.mainMemoryBitMap ppn true }, ppn)
    | none => handleMemoryFull PRand rand m
  let sp ← m.spaces S
  return (m.iptMiss S sp vpn ppn, ppn)

/-- The frame of page `vpn` of the address space `S`, if it is in memory. -/
def lookup (m : VM) (S vpn : ℕ) : Option ℕ :=
  ((List.range NumPhysPages).find? (fun i =>
      (m.IPT i).entry.virtualPage == vpn && (m.IPT i).owner == some S &&
        (m.IPT i).entry.valid)).map (fun i => (m.IPT i).entry.physicalPage)

/-- `HandlePageFault` for page `vpn` of the address space `S`. -/
def handlePageFault (PRand : Bool) (rand : ℕ) (S vpn : ℕ) (m : VM) : Option VM :=
  match m.lookup S vpn with
  | some ppn => m.updateTLB ppn
  | none => do
      let (m, ppn) ← handleIPTMiss PRand rand S vpn m
      m.updateTLB ppn

/-! ### User instructions -/

/-- The slot of the translation buffer that maps page `vpn`. -/
def slotOf (m : VM) (vpn : ℕ) : Option ℕ :=
  (List.range TLBSize).find? (fun i => (m.tlb i).valid && (m.tlb i).virtualPage == vpn)

/-- The size of an access to memory is one, two or four bytes. -/
def IsSize (size : ℕ) : Prop := size = 1 ∨ size = 2 ∨ size = 4

instance (size : ℕ) : Decidable (IsSize size) := by
  unfold IsSize
  infer_instance

/-- `size` bytes of a frame. -/
def readBytes (page : Page) (offset size : ℕ) : List UInt8 :=
  (List.range size).map (fun i => page (offset + i))

/-- Bytes written to a page. -/
def writeBytes (page : Page) (offset : ℕ) (bytes : List UInt8) : Page := fun o =>
  if offset ≤ o ∧ o < offset + bytes.length then bytes.getD (o - offset) 0 else page o

/-- What an attempt to read or to write memory leads to. -/
inductive Access where
  /-- The page is not in the translation buffer. -/
  | fault
  /-- The translation, with the slot that was used. -/
  | hit (slot : ℕ)

/-- `Machine::Translate`, for an address with the right alignment. It is `none` for the exceptions
that stop the machine. -/
def translate (m : VM) (virtAddr : ℕ) (writing : Bool) : Option Access :=
  match m.slotOf (virtAddr / PageSize) with
  | none => some .fault
  | some i =>
      if (m.tlb i).readOnly && writing then none
      else if NumPhysPages ≤ (m.tlb i).physicalPage then none
      else some (.hit i)

/-- The use bit and, for a write, the dirty bit of slot `i` are set. -/
def touch (m : VM) (i : ℕ) (writing : Bool) : VM :=
  m.setTLB i { m.tlb i with use := true, dirty := (m.tlb i).dirty || writing }

/-- The page fault of the running thread at `virtAddr`. It is `none` where the page is not in the
page table. -/
def pageFault (PRand : Bool) (rand : ℕ) (virtAddr : ℕ) (m : VM) : Option VM := do
  let S ← m.space
  let sp ← m.spaces S
  if virtAddr < 2 ^ 31 ∧ virtAddr / PageSize < sp.numPages then
    handlePageFault PRand rand S (virtAddr / PageSize) m
  else none

/-- `ReadMem`, with the bytes that are read unless there is a page fault. -/
def readMem (PRand : Bool) (rand virtAddr size : ℕ) (m : VM) : Option (VM × Option (List UInt8)) :=
  if IsSize size ∧ size ∣ virtAddr then
    match m.translate virtAddr false with
    | none => none
    | some .fault => (m.pageFault PRand rand virtAddr).map (·, none)
    | some (.hit i) =>
        some (m.touch i false,
          some (readBytes (m.mainMemory (m.tlb i).physicalPage) (virtAddr % PageSize) size))
  else none

/-- `WriteMem`, and whether the bytes have been written. -/
def writeMem (PRand : Bool) (rand virtAddr : ℕ) (bytes : List UInt8) (m : VM) :
    Option (VM × Bool) :=
  if IsSize bytes.length ∧ bytes.length ∣ virtAddr then
    match m.translate virtAddr true with
    | none => none
    | some .fault => (m.pageFault PRand rand virtAddr).map (·, false)
    | some (.hit i) =>
        some ({ m.touch i true with
          mainMemory := Function.update m.mainMemory (m.tlb i).physicalPage
            (writeBytes (m.mainMemory (m.tlb i).physicalPage) (virtAddr % PageSize) bytes) }, true)
  else none

/-! ### Threads and processes -/

/-- `SaveState`. -/
def saveState (m : VM) : VM := { m with tlb := fun i =>
  if i < TLBSize then { m.tlb i with valid := false } else m.tlb i }

/-- The running thread is switched from. -/
def leave (m : VM) : VM :=
  match m.space with
  | some _ => m.saveState
  | none => m

/-- One iteration of the loop of `clearMem`, for the address space `S`. -/
def clearPage (S : ℕ) (m : VM) (i : ℕ) : VM :=
  match m.spaces S with
  | none => m
  | some sp =>
      if (sp.pageTable i).entry.valid then
        let f := (sp.pageTable i).entry.physicalPage
        ({ m with
          mainMemoryBitMap := Function.update m.mainMemoryBitMap f false
          mainMemory := Function.update m.mainMemory f (fun _ => 0) }.setIPT f
            { m.IPT f with entry := { (m.IPT f).entry with valid := false } }).setSpace S
              (sp.invalidate i)
      else m

/-- `clearMem` of the address space `S`. -/
def clearMem (S : ℕ) (sp : AddrSpace) (m : VM) : VM :=
  (List.range sp.numPages).foldl (clearPage S) m

/-- The memory of a machine that has just been started; `tlb` and `ipt` are what the translation
buffer and the inverted page table hold when they are allocated. -/
def initial (tlb ipt : ℕ → TranslationEntry) : VM where
  mainMemory _ _ := 0
  mainMemoryBitMap _ := false
  IPT i := ⟨{ ipt i with valid := false, physicalPage := i }, none⟩
  currentIPT := 0
  tlb i := { tlb i with valid := false }
  currentTLB := 0
  swapFile _ _ := 0
  swapFileBitMap _ := false
  spaces _ := none
  space := none

/-- What can happen to the memory. -/
inductive Action where
  /-- An address space is created at the address `S`, which is not in use. -/
  | create (S : ℕ) (g : AddrSpace.Garbage) (executable : List UInt8) (numPages : ℕ)
  /-- A thread of the address space `S` is switched to. -/
  | switch (S : ℕ)
  /-- The running thread attempts to read memory. -/
  | load (rand virtAddr size : ℕ)
  /-- The running thread attempts to write memory. -/
  | store (rand virtAddr : ℕ) (bytes : List UInt8)
  /-- The running thread forks a thread. -/
  | allocateStack (g : AddrSpace.Garbage)
  /-- The running thread is the last one of its process and exits. -/
  | exit (next : Option ℕ)

/-- One action. -/
def step (PRand : Bool) (m : VM) : Action → Option VM
  | .create S g executable numPages =>
      match m.spaces S with
      | none => some (m.setSpace S (AddrSpace.new g executable numPages))
      | some _ => none
  | .switch S => do
      let _ ← m.spaces S
      return { m.leave with space := some S }
  | .load rand virtAddr size => (m.readMem PRand rand virtAddr size).map (·.1)
  | .store rand virtAddr bytes => (m.writeMem PRand rand virtAddr bytes).map (·.1)
  | .allocateStack g => do
      let S ← m.space
      let sp ← m.spaces S
      return m.setSpace S (sp.allocateStack g)
  | .exit next => do
      let S ← m.space
      let sp ← m.spaces S
      if next = some S ∨ next.any (fun T => (m.spaces T).isNone) then none
      else
        let m := m.clearMem S sp
        return { { m with spaces := Function.update m.spaces S none }.leave with space := next }

end VM

end Nachos.Memory
