import Mathlib.Algebra.Order.Ring.Nat
import Mathlib.Data.List.Basic
import Nachos.Library.Run
import Nachos.Library.Words

/-!
# The file system

The disk, the map of free sectors, the headers of files, the directory, and the file system built
from them (`filesys/`, `userprog/bitmap.cc`).

A memory is a function of the address, and a pointer is the memory from an address on. What a buffer
holds when it is allocated is part of the action that allocates it. The integers in headers and in the
directory are never negative. The position of an access to a file is an offset within it.
-/

namespace Nachos.Filesys

def SectorSize : ℕ := 128

def NumSectors : ℕ := 1024

def NumDirect : ℕ := 30

def MaxFileSize : ℕ := NumDirect * SectorSize

def FreeMapSector : ℕ := 0

def DirectorySector : ℕ := 1

def FreeMapFileSize : ℕ := NumSectors / 8

def FileNameMaxLen : ℕ := 9

def NumDirEntries : ℕ := 10

/-- `sizeof(DirectoryEntry)`. -/
def directoryEntrySize : ℕ := 20

def DirectoryFileSize : ℕ := directoryEntrySize * NumDirEntries

def divRoundUp (n s : ℕ) : ℕ := n / s + if n % s > 0 then 1 else 0

abbrev Bytes := ℕ → UInt8

/-- The sectors of a disk. -/
abbrev Disk := ℕ → Bytes

/-- `bcopy`: `n` bytes are copied to the address `a`. -/
def copy (source : Bytes) (n : ℕ) (memory : Bytes) (a : ℕ) : Bytes := fun o =>
  if a ≤ o ∧ o < a + n then source (o - a) else memory o

/-- The first `n` characters of a string. -/
def characters (n : ℕ) (string : Bytes) : List UInt8 :=
  ((List.range n).map string).takeWhile (· ≠ 0)

/-- `SynchDisk::ReadSector`. It is `none` where there is no such sector. -/
def readSector (disk : Disk) (sector : ℕ) : Option Bytes :=
  if sector < NumSectors then some (disk sector) else none

/-- `SynchDisk::WriteSector`. It is `none` where there is no such sector. -/
def writeSector (disk : Disk) (sector : ℕ) (data : Bytes) : Option Disk :=
  if sector < NumSectors then some (Function.update disk sector data) else none

/-! ### Bit maps -/

/-- The words of a map of all sectors. -/
structure BitMap where
  map : ℕ → BitVec 32

namespace BitMap

def new : BitMap := ⟨fun _ => 0⟩

def mark (m : BitMap) (which : ℕ) : BitMap :=
  ⟨Function.update m.map (which / 32) (m.map (which / 32) ||| 1#32 <<< (which % 32))⟩

def clear (m : BitMap) (which : ℕ) : BitMap :=
  ⟨Function.update m.map (which / 32) (m.map (which / 32) &&& ~~~(1#32 <<< (which % 32)))⟩

def test (m : BitMap) (which : ℕ) : Bool :=
  m.map (which / 32) &&& 1#32 <<< (which % 32) != 0#32

/-- The first bit that is clear. -/
def firstClear (m : BitMap) : Option ℕ := (List.range NumSectors).find? (fun i => !m.test i)

/-- `Find`: the first bit that is clear, and the map where it is marked. -/
def find (m : BitMap) : Option ℕ × BitMap := (m.firstClear, m.firstClear.elim m m.mark)

def numClear (m : BitMap) : ℕ := (List.range NumSectors).countP (fun i => !m.test i)

def toBytes (m : BitMap) : Bytes := Words.store (fun i => (m.map i).toNat)

def ofBytes (memory : Bytes) : BitMap := ⟨fun i => BitVec.ofNat 32 (Words.load memory (4 * i))⟩

end BitMap

/-! ### File headers -/

structure FileHeader where
  numBytes : ℕ
  numSectors : ℕ
  dataSectors : ℕ → ℕ

namespace FileHeader

def toBytes (hdr : FileHeader) : Bytes := Words.store fun
  | 0 => hdr.numBytes
  | 1 => hdr.numSectors
  | i + 2 => hdr.dataSectors i

def ofBytes (memory : Bytes) : FileHeader where
  numBytes := Words.load memory 0
  numSectors := Words.load memory 4
  dataSectors i := Words.load memory (4 * (i + 2))

/-- One iteration of the loop of `Allocate`. -/
def allocateSector (s : FileHeader × BitMap) (i : ℕ) : FileHeader × BitMap :=
  ({ s.1 with dataSectors := Function.update s.1.dataSectors i (s.2.find.1.getD (2 ^ 32 - 1)) },
    s.2.find.2)

/-- `Allocate`, for a header that holds what `hdr` does. It is `none` where it returns false. -/
def allocate (hdr : FileHeader) (freeMap : BitMap) (fileSize : ℕ) : Option (FileHeader × BitMap) :=
  let numSectors := divRoundUp fileSize SectorSize
  if freeMap.numClear < numSectors then none
  else some ((List.range numSectors).foldl allocateSector
    ({ hdr with numBytes := fileSize, numSectors := numSectors }, freeMap))

/-- One iteration of the loop of `Deallocate`. It is `none` where an assertion fails. -/
def deallocateSector (hdr : FileHeader) (freeMap : BitMap) (i : ℕ) : Option BitMap :=
  if hdr.dataSectors i < NumSectors ∧ freeMap.test (hdr.dataSectors i) then
    some (freeMap.clear (hdr.dataSectors i))
  else none

def deallocate (hdr : FileHeader) (freeMap : BitMap) : Option BitMap :=
  (List.range hdr.numSectors).foldlM hdr.deallocateSector freeMap

def byteToSector (hdr : FileHeader) (offset : ℕ) : ℕ := hdr.dataSectors (offset / SectorSize)

end FileHeader

def fetchHeader (disk : Disk) (sector : ℕ) : Option FileHeader :=
  (readSector disk sector).map .ofBytes

/-! ### Open files -/

structure OpenFile where
  hdr : FileHeader

namespace OpenFile

/-- The constructor. -/
def new (disk : Disk) (sector : ℕ) : Option OpenFile := (fetchHeader disk sector).map .mk

def length (f : OpenFile) : ℕ := f.hdr.numBytes

/-- How many of `numBytes` bytes at `position` are in the file. -/
def clip (f : OpenFile) (numBytes position : ℕ) : ℕ :=
  if f.length < position + numBytes then f.length - position else numBytes

/-- Nothing is read or written. -/
def Idle (f : OpenFile) (numBytes position : ℕ) : Prop := numBytes = 0 ∨ f.length ≤ position

instance (f : OpenFile) (numBytes position : ℕ) : Decidable (f.Idle numBytes position) := by
  unfold Idle
  infer_instance

/-- The sectors from `firstSector` on are read into `buf`. -/
def readSectors (disk : Disk) (f : OpenFile) (firstSector numSectors : ℕ) (buf : Bytes) :
    Option Bytes :=
  (List.range numSectors).foldlM (fun buf i => do
    let data ← readSector disk (f.hdr.byteToSector ((firstSector + i) * SectorSize))
    return copy data SectorSize buf (i * SectorSize)) buf

/-- The sectors from `firstSector` on are written from `buf`. -/
def writeSectors (f : OpenFile) (firstSector numSectors : ℕ) (buf : Bytes) (disk : Disk) :
    Option Disk :=
  (List.range numSectors).foldlM (fun disk i =>
    writeSector disk (f.hdr.byteToSector ((firstSector + i) * SectorSize))
      (fun o => buf (i * SectorSize + o))) disk

/-- `ReadAt`: how many bytes are read, and what they are. It is `none` where an assertion fails or an
addition overflows. -/
def readAt (disk : Disk) (f : OpenFile) (numBytes position : ℕ) : Option (ℕ × Bytes) :=
  if f.Idle numBytes position then some (0, fun _ => 0)
  else if 2 ^ 31 ≤ position + numBytes then none
  else do
    let numBytes := f.clip numBytes position
    let firstSector := position / SectorSize
    let lastSector := (position + numBytes - 1) / SectorSize
    let buf ← readSectors disk f firstSector (1 + lastSector - firstSector) (fun _ => 0)
    return (numBytes, fun o => buf (position - firstSector * SectorSize + o))

/-- `ReadAt` into the memory at the address `a`. -/
def readInto (disk : Disk) (f : OpenFile) (memory : Bytes) (a numBytes position : ℕ) :
    Option Bytes :=
  (readAt disk f numBytes position).map (fun r => copy r.2 r.1 memory a)

/-- If `c` holds, a sector is read into the buffer at the address `a`. -/
def readSectorIf (c : Prop) [Decidable c] (disk : Disk) (f : OpenFile) (buf : Bytes) (a sector : ℕ) :
    Option Bytes :=
  if c then readInto disk f buf a SectorSize (sector * SectorSize) else some buf

/-- `WriteAt`: how many bytes are written, and the disk; `buf` is what the buffer holds when it is
allocated. -/
def writeAt (buf : Bytes) (disk : Disk) (f : OpenFile) (source : Bytes) (numBytes position : ℕ) :
    Option (ℕ × Disk) :=
  if f.Idle numBytes position then some (0, disk)
  else if 2 ^ 31 ≤ position + numBytes then none
  else do
    let numBytes := f.clip numBytes position
    let firstSector := position / SectorSize
    let lastSector := (position + numBytes - 1) / SectorSize
    let firstAligned := position = firstSector * SectorSize
    let lastAligned := position + numBytes = (lastSector + 1) * SectorSize
    let buf ← readSectorIf (¬ firstAligned) disk f buf 0 firstSector
    let buf ← readSectorIf (¬ lastAligned ∧ (firstSector ≠ lastSector ∨ firstAligned)) disk f buf
      ((lastSector - firstSector) * SectorSize) lastSector
    let buf := copy source numBytes buf (position - firstSector * SectorSize)
    let disk ← writeSectors f firstSector (1 + lastSector - firstSector) buf disk
    return (numBytes, disk)

end OpenFile

namespace BitMap

def fetchFrom (disk : Disk) (f : OpenFile) (m : BitMap) : Option BitMap :=
  (f.readInto disk m.toBytes 0 FreeMapFileSize 0).map .ofBytes

def writeBack (buf : Bytes) (disk : Disk) (f : OpenFile) (m : BitMap) : Option Disk :=
  (f.writeAt buf disk m.toBytes FreeMapFileSize 0).map (·.2)

end BitMap

/-! ### Directories -/

/-- The memory of the table. An entry has a byte for `inUse`, the sector as its second word, and the
name behind it. -/
structure Directory where
  table : Bytes

namespace Directory

def inUse (d : Directory) (i : ℕ) : Bool := d.table (i * directoryEntrySize) != 0

def sector (d : Directory) (i : ℕ) : ℕ := Words.load d.table (i * directoryEntrySize + 4)

def name (d : Directory) (i : ℕ) : Bytes := fun k => d.table (i * directoryEntrySize + 8 + k)

def setInUse (d : Directory) (i : ℕ) (inUse : Bool) : Directory :=
  ⟨copy (fun _ => if inUse then 1 else 0) 1 d.table (i * directoryEntrySize)⟩

def setSector (d : Directory) (i : ℕ) (sector : ℕ) : Directory :=
  ⟨copy (fun k => (Words.bytes 4 sector).getD k 0) 4 d.table (i * directoryEntrySize + 4)⟩

/-- `strncpy` to the name. -/
def setName (d : Directory) (i : ℕ) (name : Bytes) : Directory :=
  ⟨copy (fun k => (characters FileNameMaxLen name).getD k 0) FileNameMaxLen d.table
    (i * directoryEntrySize + 8)⟩

/-- The constructor, for a table that holds what `d` does. -/
def new (d : Directory) : Directory :=
  (List.range NumDirEntries).foldl (fun d i => d.setInUse i false) d

def fetchFrom (disk : Disk) (f : OpenFile) (d : Directory) : Option Directory :=
  (f.readInto disk d.table 0 DirectoryFileSize 0).map .mk

def writeBack (buf : Bytes) (disk : Disk) (f : OpenFile) (d : Directory) : Option Disk :=
  (f.writeAt buf disk d.table DirectoryFileSize 0).map (·.2)

/-- The names are compared by `strncmp`. -/
def findIndex (d : Directory) (name : Bytes) : Option ℕ :=
  (List.range NumDirEntries).find? (fun i =>
    d.inUse i && characters FileNameMaxLen (d.name i) == characters FileNameMaxLen name)

def find (d : Directory) (name : Bytes) : Option ℕ := (d.findIndex name).map d.sector

/-- `Add`. It is `none` where it returns false. -/
def add (d : Directory) (name : Bytes) (newSector : ℕ) : Option Directory :=
  match d.findIndex name with
  | some _ => none
  | none => ((List.range NumDirEntries).find? (fun i => !d.inUse i)).map (fun i =>
      ((d.setInUse i true).setName i name).setSector i newSector)

/-- `Remove`. It is `none` where it returns false. -/
def remove (d : Directory) (name : Bytes) : Option Directory :=
  (d.findIndex name).map (fun i => d.setInUse i false)

end Directory

/-! ### The file system -/

/-- What memory holds when it is allocated: a directory, a header and a buffer. -/
structure Garbage where
  directory : Directory
  hdr : FileHeader
  buf : Bytes

structure FileSystem where
  disk : Disk
  freeMapFile : OpenFile
  directoryFile : OpenFile
  /-- The open files that are still in the directory, each with the sector of its header. -/
  opened : ℕ → Option (ℕ × OpenFile)

namespace FileSystem

/-- The constructor, for a disk that is to be formatted. It is `none` where an assertion fails. -/
def format (g g' : Garbage) (disk : Disk) : Option FileSystem := do
  let freeMap := (BitMap.new.mark FreeMapSector).mark DirectorySector
  let (mapHdr, freeMap) ← g.hdr.allocate freeMap FreeMapFileSize
  let (dirHdr, freeMap) ← g'.hdr.allocate freeMap DirectoryFileSize
  let disk ← writeSector disk FreeMapSector mapHdr.toBytes
  let disk ← writeSector disk DirectorySector dirHdr.toBytes
  let freeMapFile ← OpenFile.new disk FreeMapSector
  let directoryFile ← OpenFile.new disk DirectorySector
  let disk ← freeMap.writeBack g.buf disk freeMapFile
  let disk ← (Directory.new g.directory).writeBack g'.buf disk directoryFile
  return ⟨disk, freeMapFile, directoryFile, fun _ => none⟩

def fetchDirectory (g : Garbage) (fs : FileSystem) : Option Directory :=
  (Directory.new g.directory).fetchFrom fs.disk fs.directoryFile

def fetchFreeMap (fs : FileSystem) : Option BitMap := BitMap.new.fetchFrom fs.disk fs.freeMapFile

/-- `Create`, and what it returns. -/
def create (g : Garbage) (fs : FileSystem) (name : Bytes) (initialSize : ℕ) :
    Option (FileSystem × Bool) := do
  let directory ← fs.fetchDirectory g
  match directory.find name with
  | some _ => return (fs, false)
  | none =>
      let freeMap ← fs.fetchFreeMap
      match freeMap.find with
      | (none, _) => return (fs, false)
      | (some sector, freeMap) =>
          match directory.add name sector with
          | none => return (fs, false)
          | some directory =>
              match g.hdr.allocate freeMap initialSize with
              | none => return (fs, false)
              | some (hdr, freeMap) =>
                  let disk ← writeSector fs.disk sector hdr.toBytes
                  let disk ← directory.writeBack g.buf disk fs.directoryFile
                  let disk ← freeMap.writeBack g.buf disk fs.freeMapFile
                  return ({ fs with disk := disk }, true)

/-- `Open`: the file, with the sector of its header. -/
def openFile (g : Garbage) (fs : FileSystem) (name : Bytes) : Option (Option (ℕ × OpenFile)) := do
  let directory ← fs.fetchDirectory g
  match directory.find name with
  | none => return none
  | some sector => (OpenFile.new fs.disk sector).map (fun f => some (sector, f))

/-- `Remove`, and what it returns. It is `none` where an assertion fails. -/
def remove (g : Garbage) (fs : FileSystem) (name : Bytes) : Option (FileSystem × Bool) := do
  let directory ← fs.fetchDirectory g
  match directory.find name with
  | none => return (fs, false)
  | some sector =>
      let fileHdr ← fetchHeader fs.disk sector
      let freeMap ← fs.fetchFreeMap
      let freeMap ← fileHdr.deallocate freeMap
      if sector < NumSectors then
        let disk ← (freeMap.clear sector).writeBack g.buf fs.disk fs.freeMapFile
        let disk ← ((directory.remove name).getD directory).writeBack g.buf disk fs.directoryFile
        return ({ fs with
          disk := disk
          opened := fun handle => (fs.opened handle).filter (fun f => f.1 ≠ sector) }, true)
      else none

/-- `WriteAt` of an open file that is still in the directory. -/
def writeAt (buf : Bytes) (fs : FileSystem) (handle : ℕ) (source : Bytes)
    (numBytes position : ℕ) : Option FileSystem := do
  let (_, f) ← fs.opened handle
  let (_, disk) ← f.writeAt buf fs.disk source numBytes position
  return { fs with disk := disk }

inductive Action where
  | create (g : Garbage) (name : Bytes) (initialSize : ℕ)
  | remove (g : Garbage) (name : Bytes)
  /-- The file that is opened gets the name `handle`. -/
  | openFile (g : Garbage) (name : Bytes) (handle : ℕ)
  | writeAt (buf : Bytes) (handle : ℕ) (source : Bytes) (numBytes position : ℕ)

/-- One operation. A file is created with a size a header has room for. -/
def step (fs : FileSystem) : Action → Option FileSystem
  | .create g name initialSize =>
      if initialSize ≤ MaxFileSize then (fs.create g name initialSize).map (·.1) else none
  | .remove g name => (fs.remove g name).map (·.1)
  | .openFile g name handle => (fs.openFile g name).map (fun f =>
      { fs with opened := Function.update fs.opened handle f })
  | .writeAt buf handle source numBytes position =>
      fs.writeAt buf handle source numBytes position

end FileSystem

end Nachos.Filesys
