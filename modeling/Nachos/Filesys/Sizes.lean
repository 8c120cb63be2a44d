import Nachos.Filesys.Runs

/-!
# Sizes that are ints

The sizes of files and of accesses are of type `int`, and may be negative. `ReadAt` and `WriteAt`
check what they are asked for, and a file is an array of bytes for them, whatever they are asked for
(`OpenFile.access_spec`). `Create` does not check the size: it only fails when the file is there
already, or when there is no room for it on the disk (`FileSystem.create_iff`).
-/

namespace Nachos.Filesys

/-- The word that holds an `int`. -/
def word (n : ℤ) : ℕ := (n % 2 ^ 32).toNat

/-- The `int` in a word. -/
def signed (w : ℕ) : ℤ := if w < 2 ^ 31 then w else w - 2 ^ 32

/-- `divRoundUp` of ints. -/
def divRoundUpInt (n s : ℤ) : ℤ := n.tdiv s + if n.tmod s > 0 then 1 else 0

theorem word_natCast {n : ℕ} (h : n < 2 ^ 32) :
  word n = n
  := by
  rw [word]
  omega

theorem divRoundUpInt_natCast (n s : ℕ) :
  divRoundUpInt n s = divRoundUp n s
  := by
  rw [divRoundUpInt, divRoundUp, ← Int.ofNat_tdiv, ← Int.ofNat_tmod]
  by_cases h : n % s > 0
  · rw [if_pos h, if_pos (by exact_mod_cast h)]
    simp
  · rw [if_neg h, if_neg (by exact_mod_cast h)]
    simp

/-! ### Accesses -/

namespace OpenFile

/-- `FileLength`. -/
def fileLength (f : OpenFile) : ℤ := signed f.hdr.numBytes

/-- The check of a request: there is nothing to do. -/
def Refused (f : OpenFile) (numBytes : ℤ) (position : ℕ) : Prop :=
  numBytes ≤ 0 ∨ f.fileLength ≤ position

instance (f : OpenFile) (numBytes : ℤ) (position : ℕ) : Decidable (f.Refused numBytes position) :=
  inferInstanceAs (Decidable (_ ∨ _))

/-- `ReadAt` of `numBytes` bytes to `into`. Nothing is negative when the request has been checked. -/
def readAtInt (disk : Disk) (f : OpenFile) (into : Bytes) (numBytes : ℤ) (position : ℕ) :
    Option (ℤ × Bytes) :=
  if f.Refused numBytes position then some (0, into)
  else (readAt disk f numBytes.toNat position).map (fun r => ((r.1 : ℤ), copy r.2 r.1 into 0))

/-- `WriteAt` of `numBytes` bytes; `buf` is what the buffer holds when it is allocated. -/
def writeAtInt (buf : Bytes) (disk : Disk) (f : OpenFile) (source : Bytes) (numBytes : ℤ)
    (position : ℕ) : Option (ℤ × Disk) :=
  if f.Refused numBytes position then some (0, disk)
  else (writeAt buf disk f source numBytes.toNat position).map (fun r => ((r.1 : ℤ), r.2))

/-- How many bytes should be read or written. -/
def countInt (f : OpenFile) (numBytes : ℤ) (position : ℕ) : ℤ :=
  max 0 (min numBytes (f.fileLength - position))

/-- The header, whose length is a word, has a sector for each byte of the file, and these are
different from each other. -/
structure Lists (f : OpenFile) : Prop where
  word : f.hdr.numBytes < 2 ^ 32
  lt : ∀ i : ℕ, ((i * SectorSize : ℕ) : ℤ) < f.fileLength →
    i < NumDirect ∧ f.hdr.dataSectors i < NumSectors
  injective : ∀ i j : ℕ, ((i * SectorSize : ℕ) : ℤ) < f.fileLength →
    ((j * SectorSize : ℕ) : ℤ) < f.fileLength → f.hdr.dataSectors i = f.hdr.dataSectors j → i = j

/-- The sector is one of those of the file. -/
def Listed (f : OpenFile) (s : ℕ) : Prop :=
  ∃ i : ℕ, ((i * SectorSize : ℕ) : ℤ) < f.fileLength ∧ f.hdr.dataSectors i = s

variable {f : OpenFile} {numBytes : ℤ} {position : ℕ}

theorem countInt_of_refused (h : f.Refused numBytes position) :
  f.countInt numBytes position = 0
  := by
  rw [Refused] at h
  rw [countInt]
  omega

/-- The file, with as many sectors as it needs. -/
def trimmed (f : OpenFile) : OpenFile :=
  ⟨{ f.hdr with numSectors := divRoundUp f.hdr.numBytes SectorSize }⟩

theorem mul_lt_of_lt_divRoundUp {i n : ℕ} (h : i < divRoundUp n SectorSize) :
  i * SectorSize < n
  := by
  rw [divRoundUp] at h
  rw [SectorSize] at *
  split at h <;> omega

/-- The length of a file with a byte is not negative. -/
theorem Lists.fileLength_eq (h : f.Lists) (hreq : ¬ f.Refused numBytes position) :
  f.fileLength = f.length
  := by
  have hword := h.word
  rw [Refused, fileLength, signed] at hreq
  rw [fileLength, signed, length]
  split
  · rfl
  · rename_i hlt
    rw [if_neg hlt] at hreq
    omega

theorem Lists.ok (h : f.Lists) (hreq : ¬ f.Refused numBytes position) :
  f.trimmed.hdr.Ok
  := by
  have hlength := h.fileLength_eq hreq
  have hlt : ∀ i < divRoundUp f.hdr.numBytes SectorSize,
      ((i * SectorSize : ℕ) : ℤ) < f.fileLength := by
    intro i hi
    rw [hlength]
    exact_mod_cast mul_lt_of_lt_divRoundUp hi
  constructor
  · rfl
  · by_contra hsize
    have hbyte : ((NumDirect * SectorSize : ℕ) : ℤ) < f.fileLength := by
      rw [hlength]
      exact_mod_cast Nat.lt_of_not_le hsize
    exact absurd (h.lt NumDirect hbyte).1 (Nat.lt_irrefl _)
  · apply List.Nodup.map_on
    · intro i hi j hj heq
      exact h.injective i j (hlt i (List.mem_range.mp hi)) (hlt j (List.mem_range.mp hj)) heq
    · exact List.nodup_range
  · intro s hs
    obtain ⟨i, hi, rfl⟩ := FileHeader.mem_sectors.mp hs
    exact (h.lt i (hlt i hi)).2

theorem Lists.count_eq (h : f.Lists) (hreq : ¬ f.Refused numBytes position) :
  f.countInt numBytes position = f.trimmed.count numBytes.toNat position
  := by
  have hlength := h.fileLength_eq hreq
  rw [Refused] at hreq
  rw [countInt, count, show f.trimmed.length = f.length from rfl]
  omega

/-- What `ReadAt` does on the disk `disk`. -/
def Reads (disk : Disk) (f : OpenFile) (into : Bytes) (numBytes : ℤ) (position : ℕ) (source : Bytes) :
    Prop :=
  ∃ into', readAtInt disk f into numBytes position = some (f.countInt numBytes position, into') ∧
    ∀ o : ℕ, into' o = if (o : ℤ) < f.countInt numBytes position then source o else into o

/-- What `WriteAt` leads to. -/
structure Writes (f : OpenFile) (source : Bytes) (numBytes : ℤ) (position : ℕ) (disk disk' : Disk) :
    Prop where
  other : ∀ s, ¬ f.Listed s → disk' s = disk s
  bytes : ∀ q : ℕ, (q : ℤ) < f.fileLength → contents disk' f.hdr q =
    if position ≤ q ∧ (q : ℤ) < position + f.countInt numBytes position then source (q - position)
    else contents disk f.hdr q

theorem Lists.reads (h : f.Lists) (disk : Disk) (into : Bytes) (hlt : position + numBytes < 2 ^ 31) :
  f.Reads disk into numBytes position (fun o => contents disk f.hdr (position + o))
  := by
  rw [Reads, readAtInt]
  by_cases hreq : f.Refused numBytes position
  · rw [if_pos hreq, countInt_of_refused hreq]
    refine ⟨into, rfl, ?_⟩
    intro o
    rw [if_neg (by omega)]
  · have hlt' : position + numBytes.toNat < 2 ^ 31 := by
      rw [Refused] at hreq
      omega
    obtain ⟨bytes, hread, hbytes⟩ := readAt_spec (h.ok hreq) disk hlt'
    rw [if_neg hreq, h.count_eq hreq]
    refine ⟨copy bytes (f.trimmed.count numBytes.toNat position) into 0, ?_, ?_⟩
    · rw [show readAt disk f = readAt disk f.trimmed from rfl, hread]
      rfl
    · intro o
      by_cases ho : o < f.trimmed.count numBytes.toNat position
      · rw [if_pos (by omega), copy, if_pos (by omega)]
        exact hbytes o ho
      · rw [if_neg (by omega), copy, if_neg (by omega)]

theorem Lists.writes (h : f.Lists) (disk : Disk) (buf source : Bytes)
    (hlt : position + numBytes < 2 ^ 31) :
  ∃ disk', writeAtInt buf disk f source numBytes position =
      some (f.countInt numBytes position, disk') ∧
    f.Writes source numBytes position disk disk'
  := by
  rw [writeAtInt]
  by_cases hreq : f.Refused numBytes position
  · rw [if_pos hreq, countInt_of_refused hreq]
    refine ⟨disk, rfl, fun _ _ => rfl, ?_⟩
    intro q _
    rw [countInt_of_refused hreq, if_neg (by omega)]
  · have hlt' : position + numBytes.toNat < 2 ^ 31 := by
      rw [Refused] at hreq
      omega
    have hlength := h.fileLength_eq hreq
    obtain ⟨disk', hwrite, hother, hbytes⟩ := writeAt_spec (h.ok hreq) disk buf source hlt'
    rw [if_neg hreq, h.count_eq hreq]
    refine ⟨disk', ?_, ?_, ?_⟩
    · rw [show writeAt buf disk f = writeAt buf disk f.trimmed from rfl, hwrite]
      rfl
    · intro s hs
      apply hother
      intro hmem
      obtain ⟨i, hi, rfl⟩ := FileHeader.mem_sectors.mp hmem
      apply hs
      refine ⟨i, ?_, rfl⟩
      rw [hlength]
      exact_mod_cast mul_lt_of_lt_divRoundUp hi
    · intro q hq
      rw [h.count_eq hreq]
      rw [hlength] at hq
      have hbyte := hbytes q (by exact_mod_cast hq)
      refine Eq.trans hbyte ?_
      by_cases hin : position ≤ q ∧ q < position + f.trimmed.count numBytes.toNat position
      · rw [if_pos hin, if_pos (by omega)]
      · rw [if_neg hin, if_neg (by omega)]
        rfl

/-- A file is an array of bytes: `ReadAt` reads the bytes at the position, `WriteAt` overwrites them
and changes nothing else, and they are read back. -/
theorem access_spec (h : f.Lists) (disk : Disk) (buf into source : Bytes)
    (hlt : position + numBytes < 2 ^ 31) :
  f.Reads disk into numBytes position (fun o => contents disk f.hdr (position + o)) ∧
    ∃ disk', writeAtInt buf disk f source numBytes position =
        some (f.countInt numBytes position, disk') ∧
      f.Writes source numBytes position disk disk' ∧
      f.Reads disk' into numBytes position source
  := by
  obtain ⟨disk', hwrite, hwrites⟩ := h.writes disk buf source hlt
  refine ⟨h.reads disk into hlt, disk', hwrite, hwrites, ?_⟩
  obtain ⟨into', hread, hbytes⟩ := h.reads disk' into hlt
  refine ⟨into', hread, ?_⟩
  intro o
  rw [hbytes o]
  split
  · rename_i ho
    have hq : ((position + o : ℕ) : ℤ) < f.fileLength := by
      rw [countInt] at ho
      omega
    simp only
    rw [hwrites.bytes _ hq, if_pos (by omega), Nat.add_sub_cancel_left]
  · rfl

/-- A file of 200 bytes in the sectors 5 and 6. -/
def two : OpenFile := ⟨⟨200, 2, fun i => i + 5⟩⟩

theorem two_lists :
  two.Lists
  := by
  refine ⟨by decide, ?_, fun i j _ _ heq => Nat.add_right_cancel heq⟩
  intro i hi
  have hlength : two.fileLength = 200 := by decide
  rw [hlength, SectorSize] at hi
  simp only [two, NumDirect, NumSectors]
  omega

/-- Of 100 bytes at 150, 50 are read and written. -/
theorem access_two :
  two.Reads (fun _ _ => 0) (fun _ => 0) 100 150 (fun o => contents (fun _ _ => 0) two.hdr (150 + o)) ∧
    ∃ disk', writeAtInt (fun _ => 0) (fun _ _ => 0) two (fun _ => 1) 100 150 =
        some (two.countInt 100 150, disk') ∧
      two.Writes (fun _ => 1) 100 150 (fun _ _ => 0) disk' ∧
      two.Reads disk' (fun _ => 0) 100 150 (fun _ => 1)
  := access_spec two_lists (fun _ _ => 0) (fun _ => 0) (fun _ => 0) (fun _ => 1) (by decide)

end OpenFile

/-! ### Files that are created -/

namespace FileHeader

/-- `numSectors` of a file that is created. -/
def sectorsInt (fileSize : ℤ) : ℤ := divRoundUpInt fileSize SectorSize

/-- The places in `dataSectors` that the loop of `Allocate` writes. -/
def written (fileSize : ℤ) : List ℕ := List.range (sectorsInt fileSize).toNat

/-- `Allocate`. It is `none` where it returns false. -/
def allocateInt (hdr : FileHeader) (freeMap : BitMap) (fileSize : ℤ) : Option (FileHeader × BitMap) :=
  if freeMap.numClear < sectorsInt fileSize then none
  else some ((written fileSize).foldl allocateSector
    ({ hdr with numBytes := word fileSize, numSectors := word (sectorsInt fileSize) }, freeMap))

/-- For a size that is not negative it is `allocate`. -/
theorem allocateInt_natCast (hdr : FileHeader) (freeMap : BitMap) {n : ℕ} (h : n < 2 ^ 31) :
  hdr.allocateInt freeMap n = hdr.allocate freeMap n
  := by
  have hsectors : sectorsInt n = divRoundUp n SectorSize := divRoundUpInt_natCast n SectorSize
  have hlt : divRoundUp n SectorSize < 2 ^ 32 := by
    rw [divRoundUp, SectorSize]
    split <;> omega
  rw [allocateInt, allocate, written, hsectors, word_natCast hlt, word_natCast (by omega),
    Int.toNat_natCast]
  simp only [Int.ofNat_lt]

theorem allocateInt_eq_none_iff {hdr : FileHeader} {freeMap : BitMap} {fileSize : ℤ} :
  hdr.allocateInt freeMap fileSize = none ↔ freeMap.numClear < sectorsInt fileSize
  := by
  rw [allocateInt]
  split
  · rename_i h
    exact ⟨fun _ => h, fun _ => rfl⟩
  · rename_i h
    exact ⟨fun hnone => absurd hnone (Option.some_ne_none _), fun hlt => absurd hlt h⟩

/-- A header has room for the sectors of a size exactly if it is at most `MaxFileSize`. -/
theorem sectorsInt_le_iff {fileSize : ℤ} :
  sectorsInt fileSize ≤ NumDirect ↔ fileSize ≤ MaxFileSize
  := by
  rw [sectorsInt, divRoundUpInt, MaxFileSize, NumDirect, SectorSize]
  obtain ⟨n, rfl | rfl⟩ := fileSize.eq_nat_or_neg
  · rw [← Int.ofNat_tdiv, ← Int.ofNat_tmod]
    split <;> omega
  · rw [Int.neg_tdiv, Int.neg_tmod, ← Int.ofNat_tdiv, ← Int.ofNat_tmod]
    rw [if_neg (by omega)]
    omega

/-- `Allocate` stays inside the header exactly if the size is possible, or it returns false. -/
theorem written_lt_iff (hdr : FileHeader) (freeMap : BitMap) (fileSize : ℤ) :
  ((hdr.allocateInt freeMap fileSize).isSome → ∀ i ∈ written fileSize, i < NumDirect) ↔
    fileSize ≤ MaxFileSize ∨ freeMap.numClear < sectorsInt fileSize
  := by
  have hinside : (∀ i ∈ written fileSize, i < NumDirect) ↔ fileSize ≤ MaxFileSize := by
    rw [← sectorsInt_le_iff, written]
    constructor
    · intro h
      by_contra hgt
      exact absurd (h NumDirect (List.mem_range.mpr (by omega))) (Nat.lt_irrefl _)
    · intro hle i hi
      have hlt := List.mem_range.mp hi
      omega
  rw [hinside, ← allocateInt_eq_none_iff, ← Option.not_isSome_iff_eq_none, or_comm,
    ← imp_iff_not_or]

end FileHeader

namespace FileSystem

/-- `Create`, and what it returns. -/
def createInt (g : Garbage) (fs : FileSystem) (name : Bytes) (initialSize : ℤ) :
    Option (FileSystem × Bool) := do
  let directory ← fs.fetchDirectory g
  match directory.find name with
  | some _ => return (fs, false)
  | none =>
      let freeMap ← fs.fetchFreeMap
      match freeMap.find with
      | (none, _) => return (fs, false)
      | (some sector, freeMap) =>
          match directory.add name sector with
          | none => return (fs, false)
          | some directory =>
              match g.hdr.allocateInt freeMap initialSize with
              | none => return (fs, false)
              | some (hdr, freeMap) =>
                  let disk ← writeSector fs.disk sector hdr.toBytes
                  let disk ← directory.writeBack g.buf disk fs.directoryFile
                  let disk ← freeMap.writeBack g.buf disk fs.freeMapFile
                  return ({ fs with disk := disk }, true)

/-- For a size that is not negative it is `create`. -/
theorem createInt_natCast (g : Garbage) (fs : FileSystem) (name : Bytes) {n : ℕ} (h : n < 2 ^ 31) :
  fs.createInt g name n = fs.create g name n
  := by
  rw [createInt, create]
  apply Option.bind_congr
  intro d _
  cases d.find name with
  | some s => rfl
  | none =>
      apply Option.bind_congr
      intro m _
      cases m.find with
      | mk s m' =>
          have hallocate := FileHeader.allocateInt_natCast g.hdr m' h
          cases s with
          | none => rfl
          | some sector =>
              simp only
              cases d.add name sector with
              | none => rfl
              | some d' =>
                  cases hsome : g.hdr.allocate m' n with
                  | none | some r => simp only [hallocate.trans hsome]

/-- The size is negative or more than a header has room for. -/
def Impossible (initialSize : ℤ) : Prop := initialSize < 0 ∨ MaxFileSize < initialSize

/-- The name is in the directory, there is no free sector for the header, the directory is full, or
there are fewer free sectors than the size is rounded up to. -/
def NoRoom (d : Directory) (freeMap : BitMap) (name : Bytes) (initialSize : ℤ) : Prop :=
  d.find name ≠ none ∨ freeMap.firstClear = none ∨ (∀ i < NumDirEntries, d.inUse i = true) ∨
    freeMap.find.2.numClear < FileHeader.sectorsInt initialSize

variable {g : Garbage} {fs : FileSystem} {d : Directory} {m : BitMap} {name : Bytes}
  {initialSize : ℤ}

theorem add_eq_none_iff {sector : ℕ} (hfind : d.find name = none) :
  d.add name sector = none ↔ ∀ i < NumDirEntries, d.inUse i = true
  := by
  rw [Directory.find, Option.map_eq_none_iff] at hfind
  rw [Directory.add, hfind]
  simp

/-- `Create` returns false only where it has no room, whatever the size is. -/
theorem createInt_eq_false_iff (hd : fs.fetchDirectory g = some d) (hm : fs.fetchFreeMap = some m) :
  fs.createInt g name initialSize = some (fs, false) ↔ NoRoom d m name initialSize
  := by
  rw [NoRoom]
  simp only [createInt, hd, hm, Option.bind_eq_bind, Option.bind_some, Option.pure_def]
  cases hfind : d.find name with
  | some s => exact ⟨fun _ => .inl (Option.some_ne_none s), fun _ => rfl⟩
  | none =>
      simp only [BitMap.find]
      cases hfirst : m.firstClear with
      | none => exact ⟨fun _ => .inr (.inl rfl), fun _ => rfl⟩
      | some sector =>
          have hnone : d.add name sector = none ↔ ∀ i < NumDirEntries, d.inUse i = true :=
            add_eq_none_iff hfind
          cases hadd : d.add name sector with
          | none =>
              rw [hadd] at hnone
              simp only [Option.elim_some, hadd, true_iff]
              exact .inr (.inr (.inl (hnone.mp rfl)))
          | some d' =>
              rw [hadd] at hnone
              have hspace : ¬ ∀ i < NumDirEntries, d.inUse i = true :=
                fun hall => Option.some_ne_none d' (hnone.mpr hall)
              have hnospace : g.hdr.allocateInt (m.mark sector) initialSize = none ↔
                  (m.mark sector).numClear < FileHeader.sectorsInt initialSize :=
                FileHeader.allocateInt_eq_none_iff
              simp only [Option.elim_some, hadd, hspace, ne_eq, not_true_eq_false, reduceCtorEq,
                false_or, ← hnospace]
              cases hallocate : g.hdr.allocateInt (m.mark sector) initialSize with
              | none => simp
              | some r =>
                  -- nothing else fails, and then it returns true
                  simp only [reduceCtorEq, iff_false]
                  intro hfalse
                  obtain ⟨disk₁, -, hfalse⟩ := Option.bind_eq_some_iff.mp hfalse
                  obtain ⟨disk₂, -, hfalse⟩ := Option.bind_eq_some_iff.mp hfalse
                  obtain ⟨disk₃, -, hfalse⟩ := Option.bind_eq_some_iff.mp hfalse
                  simp at hfalse

/-- `Create` rejects an impossible size exactly where it has no room, and `Allocate` stays inside the
header exactly for a size that is not too large, or if it returns false. -/
theorem create_iff (hd : fs.fetchDirectory g = some d) (hm : fs.fetchFreeMap = some m) :
  ((Impossible initialSize → fs.createInt g name initialSize = some (fs, false)) ↔
    (Impossible initialSize → NoRoom d m name initialSize)) ∧
  ∀ (hdr : FileHeader) (freeMap : BitMap),
    ((hdr.allocateInt freeMap initialSize).isSome →
      ∀ i ∈ FileHeader.written initialSize, i < NumDirect) ↔
    initialSize ≤ MaxFileSize ∨ freeMap.numClear < FileHeader.sectorsInt initialSize
  := by
  rw [createInt_eq_false_iff hd hm]
  exact ⟨Iff.rfl, fun hdr freeMap => FileHeader.written_lt_iff hdr freeMap initialSize⟩

/-- On a disk that has been formatted, there is no room for a file of 2000 sectors. -/
theorem create_formatted :
  ∃ fs d m, format zeros zeros (fun _ _ => 0) = some fs ∧ fs.fetchDirectory zeros = some d ∧
    fs.fetchFreeMap = some m ∧
    ((Impossible 256000 → fs.createInt zeros (fun _ => 97) 256000 = some (fs, false)) ↔
      (Impossible 256000 → NoRoom d m (fun _ => 97) 256000))
  := by
  obtain ⟨fs, hformat, hok⟩ := format_spec zeros zeros (fun _ _ => 0)
  obtain ⟨d, hd, -⟩ := hok.fetchDirectory_spec zeros
  obtain ⟨m, hm, -⟩ := hok.fetchFreeMap_spec
  exact ⟨fs, d, m, hformat, hd, hm, (create_iff hd hm).1⟩

/-- On a disk that has been formatted there is room for a file. -/
theorem room_formatted :
  ∃ fs ∈ format zeros zeros (fun _ _ => 0), ∃ d ∈ fs.fetchDirectory zeros, ∃ m ∈ fs.fetchFreeMap,
    d.find (fun _ => 97) = none ∧ m.firstClear ≠ none ∧ d.inUse 0 = false
  := by
  decide +kernel

/-- A file of -1 bytes is created. -/
theorem not_create :
  ¬ ∀ (g : Garbage) (fs : FileSystem) (name : Bytes) (initialSize : ℤ), fs.Ok →
    Impossible initialSize → fs.createInt g name initialSize = some (fs, false)
  := by
  intro hall
  obtain ⟨fs, hformat, d, hd, m, hm, hfind, hfirst, hentry⟩ := room_formatted
  obtain ⟨fs', hformat', hok⟩ := format_spec zeros zeros (fun _ _ => 0)
  obtain rfl := Option.some.inj (hformat.symm.trans hformat')
  have hfalse := hall zeros fs (fun _ => 97) (-1) hok (.inl (by decide))
  obtain hname | hheader | hfull | hdata := (createInt_eq_false_iff hd hm).mp hfalse
  · exact hname hfind
  · exact hfirst hheader
  · rw [hfull 0 (by decide)] at hentry
    cases hentry
  · have hsectors : FileHeader.sectorsInt (-1) = 0 := by decide
    rw [hsectors] at hdata
    omega

end FileSystem

end Nachos.Filesys
