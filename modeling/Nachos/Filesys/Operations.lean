import Nachos.Filesys.Layout

/-!
# Operations of the file system

Every operation keeps the layout of the disk. A file that is created is there until it is removed, and
an operation that fails leaves the disk as it is.
-/

namespace Nachos.Filesys

namespace FileSystem

/-- The directory on the disk. -/
def directory (fs : FileSystem) : Directory := ⟨contents fs.disk (header fs.disk DirectorySector)⟩

/-- The free map on the disk. -/
def freeMap (fs : FileSystem) : BitMap := .ofBytes (contents fs.disk (header fs.disk FreeMapSector))

/-- The header in `sector` is that of an entry of the directory. -/
def Listed (d : Directory) (sector : ℕ) : Prop :=
  ∃ i < NumDirEntries, d.inUse i = true ∧ d.sector i = sector

/-- The invariant of the operations. -/
structure Ok (fs : FileSystem) : Prop where
  layout : Layout fs.disk fs.directory fs.freeMap.test
  numSectors : ∀ s ∈ headers fs.directory,
    (header fs.disk s).numSectors = divRoundUp (header fs.disk s).numBytes SectorSize
  size : ∀ s ∈ headers fs.directory, (header fs.disk s).numBytes ≤ MaxFileSize
  freeMapFile : fs.freeMapFile.hdr = header fs.disk FreeMapSector
  freeMapLength : fs.freeMapFile.length = FreeMapFileSize
  directoryFile : fs.directoryFile.hdr = header fs.disk DirectorySector
  directoryLength : fs.directoryFile.length = DirectoryFileSize
  opened : ∀ handle sector f, fs.opened handle = some (sector, f) →
    f.hdr = header fs.disk sector ∧ Listed fs.directory sector

theorem freeMapSector_mem (d : Directory) :
  FreeMapSector ∈ headers d
  := mem_headers.mpr (.inl rfl)

theorem directorySector_mem (d : Directory) :
  DirectorySector ∈ headers d
  := mem_headers.mpr (.inr (.inl rfl))

theorem Listed.mem {d : Directory} {s : ℕ} (h : Listed d s) :
  s ∈ headers d
  := mem_headers.mpr (.inr (.inr h))

theorem Listed.adds {d d' : Directory} {name : Bytes} {sector i s : ℕ} (h : Listed d s)
    (hadds : d.Adds name sector i d') :
  Listed d' s
  := by
  obtain ⟨j, hj, hinUse, hsector⟩ := h
  have hji : j ≠ i := by
    rintro rfl
    rw [hadds.free] at hinUse
    contradiction
  use j, hj
  rw [(hadds.other j hji).inUse, (hadds.other j hji).sector]
  exact ⟨hinUse, hsector⟩

theorem Listed.removes {d d' : Directory} {name : Bytes} {i s : ℕ} (h : Listed d s)
    (hremoves : d.Removes name i d') (hne : s ≠ d.sector i) :
  Listed d' s
  := by
  obtain ⟨j, hj, hinUse, hsector⟩ := h
  have hji : j ≠ i := by
    rintro rfl
    apply hne hsector.symm
  use j, hj
  rw [(hremoves.other j hji).inUse, (hremoves.other j hji).sector]
  exact ⟨hinUse, hsector⟩

theorem Listed.congr {d d' : Directory} {s : ℕ} (h : Listed d s)
    (hentries : ∀ i < NumDirEntries, d.SameEntry d' i) :
  Listed d' s
  := by
  obtain ⟨i, hi, hinUse, hsector⟩ := h
  use i, hi
  rw [(hentries i hi).inUse, (hentries i hi).sector]
  exact ⟨hinUse, hsector⟩

variable {fs : FileSystem}

namespace Ok

theorem headerOk (h : fs.Ok) {s : ℕ} (hs : s ∈ headers fs.directory) :
  (header fs.disk s).Ok
  := h.layout.headerOk hs (h.numSectors s hs) (h.size s hs)

theorem freeMapOk (h : fs.Ok) :
  fs.freeMapFile.hdr.Ok
  := h.freeMapFile ▸ h.headerOk (freeMapSector_mem _)

theorem directoryOk (h : fs.Ok) :
  fs.directoryFile.hdr.Ok
  := h.directoryFile ▸ h.headerOk (directorySector_mem _)

/-- The data sectors of two files are different. -/
theorem disjoint (h : fs.Ok) {s s' : ℕ} (hs : s ∈ headers fs.directory)
    (hs' : s' ∈ headers fs.directory) (hne : s ≠ s') :
  (header fs.disk s).sectors.Disjoint (header fs.disk s').sectors
  := by
  intro t ht ht'
  apply hne
  apply h.layout.disjoint hs hs' (List.mem_cons_of_mem s ht) (List.mem_cons_of_mem s' ht')

theorem disjoint_tables (h : fs.Ok) :
  fs.freeMapFile.hdr.sectors.Disjoint fs.directoryFile.hdr.sectors
  := by
  rw [h.freeMapFile, h.directoryFile]
  apply h.disjoint (freeMapSector_mem _) (directorySector_mem _) (by decide)

theorem fetchDirectory_spec (h : fs.Ok) (g : Garbage) :
  ∃ d, fs.fetchDirectory g = some d ∧ ∀ i < NumDirEntries, fs.directory.SameEntry d i
  := by
  obtain ⟨d, hfetch, hentries⟩ := Directory.fetchFrom_spec h.directoryOk h.directoryLength fs.disk
    (Directory.new g.directory)
  use d, hfetch
  rw [directory, ← h.directoryFile]
  apply hentries

theorem fetchFreeMap_spec (h : fs.Ok) :
  ∃ m, fs.fetchFreeMap = some m ∧ ∀ i < NumSectors, m.test i = fs.freeMap.test i
  := by
  obtain ⟨m, hfetch, hbits⟩ := BitMap.fetchFrom_spec h.freeMapOk h.freeMapLength fs.disk BitMap.new
  use m, hfetch
  rw [freeMap, ← h.freeMapFile]
  apply hbits

/-- The headers are where they were when the two tables have been written. -/
theorem header_rewritten (h : fs.Ok) {disk disk' : Disk} {d : Directory} {m : BitMap}
    (hrewritten : Rewritten fs.freeMapFile.hdr fs.directoryFile.hdr disk d m disk') {s : ℕ}
    (hs : s ∈ headers fs.directory) (hdisk : disk s = fs.disk s) :
  disk' s = fs.disk s
  := by
  rw [hrewritten.other, hdisk]
  · rw [h.freeMapFile]
    apply h.layout.header_not_mem hs (freeMapSector_mem _)
  · rw [h.directoryFile]
    apply h.layout.header_not_mem hs (directorySector_mem _)

end Ok

/-- The invariant holds when it does for tables with the same entries and the same bits. -/
theorem ok_of_tables {d : Directory} {m : BitMap}
    (hd : ∀ i < NumDirEntries, d.SameEntry fs.directory i)
    (hm : ∀ i < NumSectors, fs.freeMap.test i = m.test i) (hlayout : Layout fs.disk d m.test)
    (hnum : ∀ s ∈ headers d,
      (header fs.disk s).numSectors = divRoundUp (header fs.disk s).numBytes SectorSize)
    (hsize : ∀ s ∈ headers d, (header fs.disk s).numBytes ≤ MaxFileSize)
    (hopened : ∀ handle sector f, fs.opened handle = some (sector, f) →
      f.hdr = header fs.disk sector ∧ Listed d sector)
    (hfreeMapFile : fs.freeMapFile.hdr = header fs.disk FreeMapSector)
    (hfreeMapLength : fs.freeMapFile.length = FreeMapFileSize)
    (hdirectoryFile : fs.directoryFile.hdr = header fs.disk DirectorySector)
    (hdirectoryLength : fs.directoryFile.length = DirectoryFileSize) :
  fs.Ok
  := by
  have hheaders := headers_congr hd
  constructor
  · apply hlayout.congr (fun _ _ => rfl) hd hm
  · intro s hs
    apply hnum s (hheaders ▸ hs)
  · intro s hs
    apply hsize s (hheaders ▸ hs)
  · apply hfreeMapFile
  · apply hfreeMapLength
  · apply hdirectoryFile
  · apply hdirectoryLength
  · intro handle sector f hf
    obtain ⟨hhdr, hlisted⟩ := hopened handle sector f hf
    exact ⟨hhdr, hlisted.congr hd⟩

/-- The state when both tables have been written. -/
structure Stored (fs fs' : FileSystem) (d : Directory) (m : BitMap) : Prop where
  directory : ∀ i < NumDirEntries, d.SameEntry fs'.directory i
  freeMap : ∀ i < NumSectors, fs'.freeMap.test i = m.test i
  freeMapHdr : header fs'.disk FreeMapSector = header fs.disk FreeMapSector
  directoryHdr : header fs'.disk DirectorySector = header fs.disk DirectorySector
  freeMapFile : fs'.freeMapFile = fs.freeMapFile
  directoryFile : fs'.directoryFile = fs.directoryFile

theorem Ok.stored (h : fs.Ok) {disk disk' : Disk} {d : Directory} {m : BitMap}
    (hrewritten : Rewritten fs.freeMapFile.hdr fs.directoryFile.hdr disk d m disk')
    (hdisk : ∀ s ∈ headers fs.directory, disk s = fs.disk s)
    (opened : ℕ → Option (ℕ × OpenFile)) :
  Stored fs { fs with disk := disk', opened := opened } d m
  := by
  have hmap : header disk' FreeMapSector = header fs.disk FreeMapSector := by
    rw [header, h.header_rewritten hrewritten (freeMapSector_mem _) (hdisk _ (freeMapSector_mem _))]
    rfl
  have hdir : header disk' DirectorySector = header fs.disk DirectorySector := by
    rw [header, h.header_rewritten hrewritten (directorySector_mem _)
      (hdisk _ (directorySector_mem _))]
    rfl
  constructor
  · intro i hi
    rw [FileSystem.directory]
    simp only [hdir, ← h.directoryFile]
    apply Directory.sameEntry_of_agree _ hi
    intro o ho
    apply hrewritten.directory o ho
  · intro i hi
    rw [FileSystem.freeMap]
    simp only [hmap, ← h.freeMapFile]
    apply hrewritten.freeMap i hi
  · apply hmap
  · apply hdir
  · rfl
  · rfl

theorem Ok.of_stored (h : fs.Ok) {fs' : FileSystem} {d : Directory} {m : BitMap}
    (hstored : Stored fs fs' d m) (hlayout : Layout fs'.disk d m.test)
    (hnum : ∀ s ∈ headers d,
      (header fs'.disk s).numSectors = divRoundUp (header fs'.disk s).numBytes SectorSize)
    (hsize : ∀ s ∈ headers d, (header fs'.disk s).numBytes ≤ MaxFileSize)
    (hopened : ∀ handle sector f, fs'.opened handle = some (sector, f) →
      f.hdr = header fs'.disk sector ∧ Listed d sector) :
  fs'.Ok
  := by
  apply ok_of_tables hstored.directory hstored.freeMap hlayout hnum hsize hopened
  · rw [hstored.freeMapFile, h.freeMapFile, hstored.freeMapHdr]
  · rw [hstored.freeMapFile, h.freeMapLength]
  · rw [hstored.directoryFile, h.directoryFile, hstored.directoryHdr]
  · rw [hstored.directoryFile, h.directoryLength]

/-! ### Operations -/

/-- The directory has a file of length `n` with this name. -/
def Has (fs : FileSystem) (name : Bytes) (n : ℕ) : Prop :=
  ∃ i < NumDirEntries, fs.directory.inUse i = true ∧
    fs.directory.stored i = characters FileNameMaxLen name ∧
    (header fs.disk (fs.directory.sector i)).numBytes = n

/-- A file that was there is still there. -/
theorem Has.stored {fs' : FileSystem} {name : Bytes} {n i : ℕ} {d : Directory} {m : BitMap}
    (hstored : Stored fs fs' d m) (hi : i < NumDirEntries)
    (hinUse : d.inUse i = true) (hname : d.stored i = characters FileNameMaxLen name)
    (hlength : (header fs'.disk (d.sector i)).numBytes = n) :
  fs'.Has name n
  := by
  have hsame := hstored.directory i hi
  use i, hi
  rw [hsame.inUse, hsame.stored, hsame.sector]
  exact ⟨hinUse, hname, hlength⟩

/-- A file is created. -/
theorem Ok.create_success (h : fs.Ok) {g : Garbage} {name : Bytes} {n sector : ℕ}
    (hn : n ≤ MaxFileSize) {d d' : Directory} {m m₁ m₂ : BitMap} {hdr : FileHeader}
    (hd : ∀ i < NumDirEntries, fs.directory.SameEntry d i)
    (hm : ∀ i < NumSectors, m.test i = fs.freeMap.test i) (hfind : m.find = (some sector, m₁))
    (hadd : d.add name sector = some d') (hallocate : g.hdr.allocate m₁ n = some (hdr, m₂)) :
  ∃ disk₁ disk₂ disk₃, writeSector fs.disk sector hdr.toBytes = some disk₁ ∧
    d'.writeBack g.buf disk₁ fs.directoryFile = some disk₂ ∧
    m₂.writeBack g.buf disk₂ fs.freeMapFile = some disk₃ ∧
    Ok { fs with disk := disk₃ } ∧ Has { fs with disk := disk₃ } name n ∧
    ∀ name' n', fs.Has name' n' → Has { fs with disk := disk₃ } name' n'
  := by
  have hlayout : Layout fs.disk d m.test := h.layout.congr (fun _ _ => rfl) hd hm
  have hheaders := headers_congr hd
  obtain ⟨hlt, hfree, rfl⟩ := BitMap.find_spec hfind
  have hexact := hlayout.exact.mark hlt hfree (fun t _ => m.test_mark sector t)
  obtain ⟨hbytes, hsectors, hexact⟩ := FileHeader.allocate_spec hexact hallocate
  obtain ⟨i, hadds⟩ := Directory.add_spec hadd
  have hfresh : sector ∉ usedSectors fs.disk d :=
    (List.nodup_cons.mp (hlayout.exact.mark hlt hfree (fun t _ => m.test_mark sector t)).nodup).1
  have hdisk : ∀ s ∈ headers fs.directory,
      Function.update fs.disk sector hdr.toBytes s = fs.disk s := by
    intro s hs
    apply Function.update_of_ne
    rintro rfl
    apply hfresh (Layout.mem_usedSectors (hheaders ▸ hs) List.mem_cons_self)
  obtain ⟨disk₂, disk₃, hwrite₂, hwrite₃, hrewritten⟩ := rewritten_directory_freeMap _ _ h.freeMapOk
    h.directoryOk h.freeMapLength h.directoryLength h.disjoint_tables
    (Function.update fs.disk sector hdr.toBytes) g.buf d' m₂
  have hstored := h.stored hrewritten hdisk fs.opened
  have hkept : ∀ s ∈ headers d, disk₃ s = fs.disk s := by
    intro s hs
    rw [hheaders] at hs
    apply h.header_rewritten hrewritten hs (hdisk s hs)
  have hnew : header disk₃ sector = .ofBytes hdr.toBytes := by
    rw [header, hrewritten.other, Function.update_self]
    · intro hmem
      rw [h.freeMapFile] at hmem
      apply hfresh
      apply Layout.mem_usedSectors (freeMapSector_mem _) (List.mem_cons_of_mem _ hmem)
    · intro hmem
      rw [h.directoryFile] at hmem
      apply hfresh
      apply Layout.mem_usedSectors (directorySector_mem _) (List.mem_cons_of_mem _ hmem)
  obtain ⟨hlength, hcount, hdata⟩ := FileHeader.readBack hn hbytes hsectors
    (fun s hs => hexact.lt s (List.mem_append_left _ hs))
  rw [← hnew] at hlength hcount hdata
  have hother : ∀ s ∈ headers d, header disk₃ s = header fs.disk s := by
    intro s hs
    rw [header, hkept s hs]
    rfl
  use Function.update fs.disk sector hdr.toBytes, disk₂, disk₃, if_pos hlt, hwrite₂, hwrite₃
  refine ⟨?_, ?_, ?_⟩
  · apply h.of_stored hstored
    · apply hlayout.add hadds hlt hkept
      apply hexact.perm
      rw [fileSectors, hdata]
      apply List.perm_middle
    · intro s hs
      cases (hadds.mem_headers hlt).mp hs with
      | inl heq => rw [heq, hcount, hlength]
      | inr hmem =>
          rw [hother s hmem]
          apply h.numSectors s (hheaders ▸ hmem)
    · intro s hs
      cases (hadds.mem_headers hlt).mp hs with
      | inl heq =>
          rw [heq, hlength]
          apply hn
      | inr hmem =>
          rw [hother s hmem]
          apply h.size s (hheaders ▸ hmem)
    · intro handle s f hf
      obtain ⟨hhdr, hlisted⟩ := h.opened handle s f hf
      have hlisted := hlisted.congr hd
      rw [hother s hlisted.mem]
      exact ⟨hhdr, hlisted.adds hadds⟩
  · apply Has.stored hstored hadds.lt hadds.inUse hadds.stored
    rw [hadds.sector_eq hlt]
    apply hlength
  · rintro name' n' ⟨j, hj, hinUse, hname, hlen⟩
    have hji : j ≠ i := by
      rintro rfl
      rw [← (hd j hj).inUse, hadds.free] at hinUse
      contradiction
    have hsame := (hd j hj).trans (hadds.other j hji)
    apply Has.stored hstored hj (hsame.inUse.trans hinUse) (hsame.stored.trans hname)
    rw [hsame.sector, hother, hlen]
    rw [hheaders]
    exact Listed.mem ⟨j, hj, hinUse, rfl⟩

/-- `Create` returns. When it fails the disk is as it was, and when it succeeds there is the file. -/
theorem Ok.create (h : fs.Ok) (g : Garbage) (name : Bytes) {n : ℕ} (hn : n ≤ MaxFileSize) :
  ∃ fs' success, fs.create g name n = some (fs', success) ∧ fs'.Ok ∧
    (success = false → fs' = fs) ∧ (success = true → fs'.Has name n) ∧
    ∀ name' n', fs.Has name' n' → fs'.Has name' n'
  := by
  obtain ⟨d, hfetch, hd⟩ := h.fetchDirectory_spec g
  obtain ⟨m, hfetchMap, hm⟩ := h.fetchFreeMap_spec
  have hfailed : fs.Ok ∧ (false = false → fs = fs) ∧ (false = true → fs.Has name n) ∧
      ∀ name' n', fs.Has name' n' → fs.Has name' n' :=
    ⟨h, fun _ => rfl, fun hfalse => Bool.noConfusion hfalse, fun _ _ => id⟩
  simp only [FileSystem.create, hfetch, hfetchMap, Option.bind_eq_bind, Option.bind_some,
    Option.pure_def]
  cases d.find name with
  | some s => exact ⟨fs, false, rfl, hfailed⟩
  | none =>
      cases hfind : m.find with
      | mk s m₁ =>
          cases s with
          | none => exact ⟨fs, false, rfl, hfailed⟩
          | some sector =>
              cases hadd : d.add name sector with
              | none => exact ⟨fs, false, by simp [hadd], hfailed⟩
              | some d' =>
                  cases hallocate : g.hdr.allocate m₁ n with
                  | none => exact ⟨fs, false, by simp [hadd, hallocate], hfailed⟩
                  | some r =>
                      obtain ⟨disk₁, disk₂, disk₃, hwrite₁, hwrite₂, hwrite₃, hok, hhas, hkeeps⟩ :=
                        h.create_success hn hd hm hfind hadd hallocate
                      refine ⟨{ fs with disk := disk₃ }, true, ?_, hok, ?_, fun _ => hhas, hkeeps⟩
                      · simp [hadd, hallocate, hwrite₁, hwrite₂, hwrite₃]
                      · intro hfalse
                        cases hfalse

/-- A file is removed. -/
theorem Ok.remove_success (h : fs.Ok) (buf : Bytes) {name : Bytes} {i : ℕ} {d d' : Directory}
    {m : BitMap} (hd : ∀ i < NumDirEntries, fs.directory.SameEntry d i)
    (hm : ∀ i < NumSectors, m.test i = fs.freeMap.test i) (hremoves : d.Removes name i d') :
  ∃ m₁ disk₁ disk₂, (header fs.disk (d.sector i)).deallocate m = some m₁ ∧
    d.sector i < NumSectors ∧
    (m₁.clear (d.sector i)).writeBack buf fs.disk fs.freeMapFile = some disk₁ ∧
    d'.writeBack buf disk₁ fs.directoryFile = some disk₂ ∧
    Ok { fs with
      disk := disk₂
      opened := fun handle => (fs.opened handle).filter (fun f => f.1 ≠ d.sector i) } ∧
    ∀ name' n', characters FileNameMaxLen name ≠ characters FileNameMaxLen name' →
      fs.Has name' n' → Has { fs with
        disk := disk₂
        opened := fun handle => (fs.opened handle).filter (fun f => f.1 ≠ d.sector i) } name' n'
  := by
  have hlayout : Layout fs.disk d m.test := h.layout.congr (fun _ _ => rfl) hd hm
  have hheaders := headers_congr hd
  have hperm := usedSectors_perm fs.disk hremoves.lt hremoves.free hremoves.inUse
    (fun j hj => (hremoves.other j hj).symm)
  have hsector : d.sector i ∈ headers d := hremoves.mem_headers.mpr (.inl rfl)
  have hlt : d.sector i < NumSectors :=
    hlayout.exact.lt _ (Layout.mem_usedSectors hsector List.mem_cons_self)
  obtain ⟨m₁, hdeallocate, hexact⟩ := FileHeader.deallocate_spec
    (hlayout.exact.perm (hperm.trans List.perm_middle.symm))
  have hcleared := hexact.clear (fun t _ => m₁.test_clear (d.sector i) t)
  obtain ⟨disk₁, disk₂, hwrite₁, hwrite₂, hrewritten⟩ := rewritten_freeMap_directory _ _ h.freeMapOk
    h.directoryOk h.freeMapLength h.directoryLength h.disjoint_tables fs.disk buf buf d'
    (m₁.clear (d.sector i))
  have hstored := h.stored hrewritten (fun _ _ => rfl)
    (fun handle => (fs.opened handle).filter (fun f => f.1 ≠ d.sector i))
  have hkept : ∀ s ∈ headers d, disk₂ s = fs.disk s := by
    intro s hs
    rw [hheaders] at hs
    apply h.header_rewritten hrewritten hs rfl
  have hother : ∀ s ∈ headers d, header disk₂ s = header fs.disk s := by
    intro s hs
    rw [header, hkept s hs]
    rfl
  have hmem : ∀ s ∈ headers d', s ∈ headers d := fun s hs => hremoves.mem_headers.mpr (.inr hs)
  use m₁, disk₁, disk₂, hdeallocate, hlt, hwrite₁, hwrite₂
  constructor
  · apply h.of_stored hstored
    · apply hlayout.remove hremoves (fun s hs => hkept s (hmem s hs)) hcleared
    · intro s hs
      rw [hother s (hmem s hs)]
      apply h.numSectors s (hheaders ▸ hmem s hs)
    · intro s hs
      rw [hother s (hmem s hs)]
      apply h.size s (hheaders ▸ hmem s hs)
    · intro handle s f hf
      simp only [Option.filter_eq_some_iff, decide_eq_true_eq] at hf
      obtain ⟨hhdr, hlisted⟩ := h.opened handle s f hf.1
      have hlisted := hlisted.congr hd
      rw [hother s hlisted.mem]
      exact ⟨hhdr, hlisted.removes hremoves hf.2⟩
  · rintro name' n' hne ⟨j, hj, hinUse, hname, hlen⟩
    have hji : j ≠ i := by
      rintro rfl
      apply hne
      rw [← hremoves.stored, (hd j hj).stored, hname]
    have hsame := (hd j hj).trans (hremoves.other j hji)
    apply Has.stored hstored hj (hsame.inUse.trans hinUse) (hsame.stored.trans hname)
    rw [hsame.sector, hother, hlen]
    rw [hheaders]
    exact Listed.mem ⟨j, hj, hinUse, rfl⟩

/-- `Remove` returns, and its assertions hold. When it fails the disk is as it was. -/
theorem Ok.remove (h : fs.Ok) (g : Garbage) (name : Bytes) :
  ∃ fs' success, fs.remove g name = some (fs', success) ∧ fs'.Ok ∧ (success = false → fs' = fs) ∧
    ∀ name' n', characters FileNameMaxLen name ≠ characters FileNameMaxLen name' →
      fs.Has name' n' → fs'.Has name' n'
  := by
  obtain ⟨d, hfetch, hd⟩ := h.fetchDirectory_spec g
  obtain ⟨m, hfetchMap, hm⟩ := h.fetchFreeMap_spec
  simp only [FileSystem.remove, hfetch, hfetchMap, Option.bind_eq_bind, Option.bind_some,
    Option.pure_def]
  cases hfind : d.find name with
  | none => exact ⟨fs, false, rfl, h, fun _ => rfl, fun _ _ _ => id⟩
  | some sector =>
      obtain ⟨i, rfl, hremoves⟩ := Directory.remove_spec hfind
      obtain ⟨m₁, disk₁, disk₂, hdeallocate, hlt, hwrite₁, hwrite₂, hok, hkeeps⟩ :=
        h.remove_success g.buf hd hm hremoves
      have hheader : fetchHeader fs.disk (d.sector i) = some (header fs.disk (d.sector i)) := by
        rw [fetchHeader, readSector, if_pos hlt]
        rfl
      refine ⟨_, true, ?_, hok, ?_, hkeeps⟩
      · simp only [hheader, hdeallocate, hlt, hwrite₁, hwrite₂, Option.bind_some, if_true]
      · intro hfalse
        cases hfalse

/-- `Open` opens a file of the directory. -/
theorem Ok.openFile (h : fs.Ok) (g : Garbage) (name : Bytes) :
  ∃ r, fs.openFile g name = some r ∧
    (∀ sector f, r = some (sector, f) → f.hdr = header fs.disk sector ∧ Listed fs.directory sector) ∧
    ∀ n, fs.Has name n → ∃ sector f, r = some (sector, f) ∧ f.length = n
  := by
  obtain ⟨d, hfetch, hd⟩ := h.fetchDirectory_spec g
  simp only [FileSystem.openFile, hfetch, Option.bind_eq_bind, Option.bind_some, Option.pure_def]
  cases hindex : d.findIndex name with
  | none =>
      use none
      refine ⟨?_, ?_, ?_⟩
      · simp [Directory.find, hindex]
      · intro _ _ hfalse
        cases hfalse
      · rintro n ⟨i, hi, hinUse, hname, -⟩
        have hne := Directory.findIndex_none hindex hi ((hd i hi).inUse.trans hinUse)
        rw [(hd i hi).stored] at hne
        contradiction
  | some i =>
      obtain ⟨hi, hinUse, hstored⟩ := Directory.findIndex_some hindex
      rw [(hd i hi).inUse] at hinUse
      rw [(hd i hi).stored] at hstored
      have hlisted : Listed fs.directory (d.sector i) := ⟨i, hi, hinUse, (hd i hi).sector.symm⟩
      have hlt : d.sector i < NumSectors :=
        h.layout.exact.lt _ (Layout.mem_usedSectors hlisted.mem List.mem_cons_self)
      use some (d.sector i, ⟨header fs.disk (d.sector i)⟩)
      refine ⟨?_, ?_, ?_⟩
      · simp [Directory.find, hindex, OpenFile.new, fetchHeader, readSector, hlt, header]
      · intro sector f heq
        cases heq
        exact ⟨rfl, hlisted⟩
      · rintro n ⟨j, hj, hinUse', hname, hlength⟩
        obtain rfl := h.layout.names i hi j hj hinUse hinUse' (hstored.trans hname.symm)
        refine ⟨_, _, rfl, ?_⟩
        rw [(hd i hi).sector]
        apply hlength

theorem Ok.listed_ne (h : fs.Ok) {s : ℕ} (hs : Listed fs.directory s) :
  s ≠ FreeMapSector ∧ s ≠ DirectorySector
  := by
  obtain ⟨i, hi, hinUse, hsector⟩ := hs
  have hmem : s ∈ (List.range NumDirEntries).flatMap (fun i =>
      if fs.directory.inUse i then [fs.directory.sector i] else []) := by
    apply List.mem_flatMap.mpr
    use i, List.mem_range.mpr hi
    rw [if_pos hinUse, hsector]
    exact List.mem_singleton_self s
  have hnodup := h.layout.nodup_headers
  rw [headers, List.nodup_cons, List.nodup_cons, List.mem_cons, not_or] at hnodup
  constructor
  · rintro rfl
    apply hnodup.1.2 hmem
  · rintro rfl
    apply hnodup.2.1 hmem

/-- The disk is changed in the data sectors of a file that is in the directory. -/
theorem Ok.of_data (h : fs.Ok) {sector : ℕ} (hlisted : Listed fs.directory sector) {disk' : Disk}
    (hother : ∀ s, s ∉ (header fs.disk sector).sectors → disk' s = fs.disk s) :
  Ok { fs with disk := disk' } ∧ ∀ name n, fs.Has name n → Has { fs with disk := disk' } name n
  := by
  have hkept : ∀ s ∈ headers fs.directory, header disk' s = header fs.disk s := by
    intro s hs
    rw [header, hother s (h.layout.header_not_mem hs hlisted.mem)]
    rfl
  have hcontents : ∀ s ∈ headers fs.directory, s ≠ sector → ∀ o < (header fs.disk s).numBytes,
      contents disk' (header disk' s) o = contents fs.disk (header fs.disk s) o := by
    intro s hs hne o ho
    rw [hkept s hs]
    apply contents_congr (h.headerOk hs) _ ho
    intro t ht
    apply hother
    intro ht'
    apply h.disjoint hs hlisted.mem hne ht ht'
  have hne := h.listed_ne hlisted
  have hstored : Stored fs { fs with disk := disk' } fs.directory fs.freeMap := by
    constructor
    · intro i hi
      apply Directory.sameEntry_of_agree _ hi
      intro o ho
      apply hcontents _ (directorySector_mem _) hne.2.symm
      rw [← h.directoryFile]
      apply ho.trans_eq h.directoryLength.symm
    · intro i hi
      apply BitMap.test_ofBytes_congr _ hi
      intro o ho
      apply hcontents _ (freeMapSector_mem _) hne.1.symm
      rw [← h.freeMapFile]
      apply ho.trans_eq h.freeMapLength.symm
    · apply hkept _ (freeMapSector_mem _)
    · apply hkept _ (directorySector_mem _)
    · rfl
    · rfl
  constructor
  · apply h.of_stored hstored
    · apply h.layout.congr _ (fun _ _ => ⟨rfl, rfl, rfl⟩) (fun _ _ => rfl)
      intro s hs
      apply hother s (h.layout.header_not_mem hs hlisted.mem)
    · intro s hs
      rw [hkept s hs]
      apply h.numSectors s hs
    · intro s hs
      rw [hkept s hs]
      apply h.size s hs
    · intro handle s f hf
      obtain ⟨hhdr, hs⟩ := h.opened handle s f hf
      rw [hkept s hs.mem]
      exact ⟨hhdr, hs⟩
  · rintro name n ⟨i, hi, hinUse, hname, hlength⟩
    apply Has.stored hstored hi hinUse hname
    rw [hkept, hlength]
    exact Listed.mem ⟨i, hi, hinUse, rfl⟩

/-- `WriteAt` changes the data sectors of its file only. -/
theorem Ok.writeAt (h : fs.Ok) {fs' : FileSystem} {handle sector : ℕ} {f : OpenFile}
    (hf : fs.opened handle = some (sector, f)) {buf source : Bytes} {numBytes position : ℕ}
    (hstep : fs.writeAt buf handle source numBytes position = some fs') :
  fs'.Ok ∧ (∀ s, s ∉ (header fs.disk sector).sectors → fs'.disk s = fs.disk s) ∧
    ∀ name n, fs.Has name n → fs'.Has name n
  := by
  obtain ⟨hhdr, hlisted⟩ := h.opened handle sector f hf
  simp only [FileSystem.writeAt, hf, Option.bind_eq_bind, Option.bind_some, Option.pure_def]
    at hstep
  obtain ⟨⟨n, disk'⟩, hwrite, heq⟩ := Option.bind_eq_some_iff.mp hstep
  obtain rfl := Option.some.inj heq
  have hother : ∀ s, s ∉ (header fs.disk sector).sectors → disk' s = fs.disk s := by
    intro s hs
    rw [← hhdr] at hs
    apply OpenFile.writeAt_other _ hwrite hs
    rw [hhdr]
    apply h.headerOk hlisted.mem
  obtain ⟨hok, hkeeps⟩ := h.of_data hlisted hother
  exact ⟨hok, hother, hkeeps⟩

/-- `WriteAt` returns when the end of the access is an `int`. -/
theorem Ok.writeAt_total (h : fs.Ok) {handle sector : ℕ} {f : OpenFile}
    (hf : fs.opened handle = some (sector, f)) (buf source : Bytes) {numBytes position : ℕ}
    (hlt : position + numBytes < 2 ^ 31) :
  ∃ fs', fs.writeAt buf handle source numBytes position = some fs'
  := by
  obtain ⟨hhdr, hlisted⟩ := h.opened handle sector f hf
  have hfok : f.hdr.Ok := hhdr ▸ h.headerOk hlisted.mem
  obtain ⟨disk', hwrite, -⟩ := OpenFile.writeAt_spec hfok fs.disk buf source hlt
  use { fs with disk := disk' }
  simp [FileSystem.writeAt, hf, hwrite]

end FileSystem

end Nachos.Filesys
