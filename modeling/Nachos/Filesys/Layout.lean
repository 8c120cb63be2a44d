import Mathlib.Data.List.Pairwise
import Nachos.Filesys.Tables

/-!
# The layout of the disk

The free map marks the headers of the free map, of the directory and of the files in the directory,
and the data sectors of all of these. They are different from each other (`Layout`). Every operation
keeps this.
-/

namespace Nachos.Filesys

/-! ### Headers -/

/-- The header in a sector. -/
def header (disk : Disk) (sector : ℕ) : FileHeader := .ofBytes (disk sector)

namespace FileHeader

variable {hdr hdr' : FileHeader} {m m' : BitMap} {used : List ℕ}

/-- A header that has been written is read back, as far as words go. -/
theorem ofBytes_toBytes (hdr : FileHeader) :
  ofBytes hdr.toBytes = ⟨hdr.numBytes % 2 ^ 32, hdr.numSectors % 2 ^ 32,
    fun i => hdr.dataSectors i % 2 ^ 32⟩
  := by
  simp only [ofBytes, toBytes]
  congr 1
  · exact Words.load_store _ 0
  · exact Words.load_store _ 1
  · funext i
    exact Words.load_store _ (i + 2)

/-- The header of a file of `n` bytes that has been written and read back. -/
theorem readBack {n : ℕ} (hn : n ≤ MaxFileSize) (hbytes : hdr.numBytes = n)
    (hsectors : hdr.numSectors = divRoundUp n SectorSize) (hlt : ∀ s ∈ hdr.sectors, s < NumSectors) :
  (ofBytes hdr.toBytes).numBytes = n ∧
    (ofBytes hdr.toBytes).numSectors = divRoundUp n SectorSize ∧
    (ofBytes hdr.toBytes).sectors = hdr.sectors
  := by
  have hnum : hdr.numSectors % 2 ^ 32 = hdr.numSectors := by
    apply Nat.mod_eq_of_lt
    rw [hsectors, divRoundUp]
    rw [MaxFileSize, NumDirect, SectorSize] at *
    split
    · omega
    · omega
  rw [ofBytes_toBytes]
  refine ⟨?_, ?_, ?_⟩
  · rw [hbytes]
    apply Nat.mod_eq_of_lt
    rw [MaxFileSize, NumDirect, SectorSize] at hn
    omega
  · rw [hnum, hsectors]
  · rw [sectors, sectors, hnum]
    apply List.map_congr_left
    intro i hi
    have hs := hlt _ (mem_sectors.mpr ⟨i, List.mem_range.mp hi, rfl⟩)
    apply Nat.mod_eq_of_lt
    rw [NumSectors] at hs
    omega

/-- After `k` iterations of the loop of `Allocate`, `k` sectors have been given out. -/
theorem foldl_allocateSector (hdr : FileHeader) (h : Allocation.Exact NumSectors m.test used) {k : ℕ}
    (hk : k + used.length ≤ NumSectors) :
  ∃ hdr' m', (List.range k).foldl allocateSector (hdr, m) = (hdr', m') ∧
    hdr'.numBytes = hdr.numBytes ∧ hdr'.numSectors = hdr.numSectors ∧
    Allocation.Exact NumSectors m'.test ((List.range k).map hdr'.dataSectors ++ used)
  := by
  induction k with
  | zero => exact ⟨hdr, m, rfl, rfl, rfl, h⟩
  | succ k ih =>
      obtain ⟨hdr₁, m₁, hloop, hbytes, hsectors, hexact⟩ := ih (by omega)
      rw [List.range_succ, List.foldl_append, hloop, List.foldl_cons, List.foldl_nil]
      cases hfind : m₁.find with
      | mk s m₂ =>
          cases s with
          | none =>
              have hlength := hexact.length_of_find_none (Prod.mk.inj hfind).1
              simp only [List.length_append, List.length_map, List.length_range] at hlength
              omega
          | some s =>
              obtain ⟨hlt, hfree, rfl⟩ := BitMap.find_spec hfind
              refine ⟨_, _, rfl, hbytes, hsectors, ?_⟩
              simp only [hfind, Option.getD_some]
              have hrest : (List.range k).map (Function.update hdr₁.dataSectors k s) =
                  (List.range k).map hdr₁.dataSectors := by
                apply List.map_congr_left
                intro i hi
                apply Function.update_of_ne
                exact Nat.ne_of_lt (List.mem_range.mp hi)
              rw [List.map_append, List.map_singleton, Function.update_self, hrest,
                List.append_assoc]
              apply (hexact.mark hlt hfree (fun t _ => m₁.test_mark s t)).perm
              exact (List.perm_middle).symm

/-- `Allocate` gives out sectors that were free. -/
theorem allocate_spec {n : ℕ} (h : Allocation.Exact NumSectors m.test used)
    (hallocate : hdr.allocate m n = some (hdr', m')) :
  hdr'.numBytes = n ∧ hdr'.numSectors = divRoundUp n SectorSize ∧
    Allocation.Exact NumSectors m'.test (hdr'.sectors ++ used)
  := by
  have hcount := h.countP_add_length
  simp only [allocate] at hallocate
  split at hallocate
  · contradiction
  · rename_i hclear
    rw [BitMap.numClear] at hclear
    obtain ⟨hdr₁, m₁, hloop, hbytes, hsectors, hexact⟩ := foldl_allocateSector
      { hdr with numBytes := n, numSectors := divRoundUp n SectorSize } h
      (k := divRoundUp n SectorSize) (by omega)
    rw [hloop] at hallocate
    cases hallocate
    rw [sectors, hsectors]
    exact ⟨hbytes, rfl, hexact⟩

/-- `Allocate` returns true when there are enough sectors. -/
theorem allocate_of_le (hdr : FileHeader) {n : ℕ} (h : Allocation.Exact NumSectors m.test used)
    (hle : divRoundUp n SectorSize + used.length ≤ NumSectors) :
  ∃ hdr' m', hdr.allocate m n = some (hdr', m')
  := by
  have hcount := h.countP_add_length
  have hclear : ¬ m.numClear < divRoundUp n SectorSize := by
    rw [BitMap.numClear]
    omega
  simp only [allocate, hclear, if_false]
  exact ⟨_, _, rfl⟩

/-- The assertions of `Deallocate` hold, and the sectors are free again. -/
theorem foldlM_deallocateSector {l : List ℕ}
    (h : Allocation.Exact NumSectors m.test (l.map hdr.dataSectors ++ used)) :
  ∃ m', l.foldlM hdr.deallocateSector m = some m' ∧ Allocation.Exact NumSectors m'.test used
  := by
  induction l generalizing m with
  | nil => exact ⟨m, rfl, h⟩
  | cons i l ih =>
      rw [List.map_cons, List.cons_append] at h
      have hlt := h.lt (hdr.dataSectors i) List.mem_cons_self
      have htest := (h.mem_iff _ hlt).mpr List.mem_cons_self
      obtain ⟨m', hloop, hexact⟩ := ih (h.clear (fun t _ => m.test_clear (hdr.dataSectors i) t))
      use m'
      constructor
      · rw [List.foldlM_cons, deallocateSector, if_pos ⟨hlt, htest⟩]
        exact hloop
      · apply hexact

theorem deallocate_spec (h : Allocation.Exact NumSectors m.test (hdr.sectors ++ used)) :
  ∃ m', hdr.deallocate m = some m' ∧ Allocation.Exact NumSectors m'.test used
  := foldlM_deallocateSector h

end FileHeader

/-! ### Sectors in use -/

/-- The sectors of the headers. -/
def headers (d : Directory) : List ℕ :=
  FreeMapSector :: DirectorySector :: (List.range NumDirEntries).flatMap (fun i =>
    if d.inUse i then [d.sector i] else [])

/-- The header and the data sectors of a file. -/
def fileSectors (disk : Disk) (sector : ℕ) : List ℕ := sector :: (header disk sector).sectors

def usedSectors (disk : Disk) (d : Directory) : List ℕ := (headers d).flatMap (fileSectors disk)

/-- The free map marks the sectors in use, which are different from each other, and the names in the
directory are different from each other. -/
structure Layout (disk : Disk) (d : Directory) (marked : ℕ → Bool) : Prop where
  exact : Allocation.Exact NumSectors marked (usedSectors disk d)
  names : ∀ i < NumDirEntries, ∀ j < NumDirEntries, d.inUse i = true → d.inUse j = true →
    d.stored i = d.stored j → i = j

theorem mem_headers {d : Directory} {s : ℕ} :
  s ∈ headers d ↔ s = FreeMapSector ∨ s = DirectorySector ∨
    ∃ i < NumDirEntries, d.inUse i = true ∧ d.sector i = s
  := by
  simp only [headers, List.mem_cons, List.mem_flatMap, List.mem_range]
  constructor
  · rintro (h | h | ⟨i, hi, h⟩)
    · exact .inl h
    · exact .inr (.inl h)
    · split at h
      · rename_i hinUse
        exact .inr (.inr ⟨i, hi, hinUse, (List.mem_singleton.mp h).symm⟩)
      · cases h
  · rintro (h | h | ⟨i, hi, hinUse, h⟩)
    · exact .inl h
    · exact .inr (.inl h)
    · refine .inr (.inr ⟨i, hi, ?_⟩)
      rw [if_pos hinUse, h]
      exact List.mem_singleton_self s

theorem headers_congr {d d' : Directory} (h : ∀ i < NumDirEntries, d.SameEntry d' i) :
  headers d' = headers d
  := by
  rw [headers, headers]
  congr 2
  apply List.flatMap_congr
  intro i hi
  have hsame := h i (List.mem_range.mp hi)
  rw [hsame.inUse, hsame.sector]

theorem fileSectors_congr {disk disk' : Disk} {s : ℕ} (h : disk' s = disk s) :
  fileSectors disk' s = fileSectors disk s
  := by
  rw [fileSectors, fileSectors, header, header, h]

theorem usedSectors_congr {disk disk' : Disk} {d d' : Directory}
    (hdisk : ∀ s ∈ headers d, disk' s = disk s) (h : ∀ i < NumDirEntries, d.SameEntry d' i) :
  usedSectors disk' d' = usedSectors disk d
  := by
  rw [usedSectors, usedSectors, headers_congr h]
  apply List.flatMap_congr
  intro s hs
  apply fileSectors_congr (hdisk s hs)

namespace Layout

variable {disk disk' : Disk} {d d' : Directory} {marked marked' : ℕ → Bool}

theorem congr (h : Layout disk d marked) (hdisk : ∀ s ∈ headers d, disk' s = disk s)
    (hentries : ∀ i < NumDirEntries, d.SameEntry d' i)
    (hmarked : ∀ s < NumSectors, marked' s = marked s) :
  Layout disk' d' marked'
  := by
  constructor
  · rw [usedSectors_congr hdisk hentries]
    apply h.exact.congr hmarked
  · intro i hi j hj hinUse hinUse' hname
    rw [(hentries i hi).inUse] at hinUse
    rw [(hentries j hj).inUse] at hinUse'
    rw [(hentries i hi).stored, (hentries j hj).stored] at hname
    apply h.names i hi j hj hinUse hinUse' hname

theorem nodup_fileSectors (h : Layout disk d marked) {s : ℕ} (hs : s ∈ headers d) :
  (fileSectors disk s).Nodup
  := (List.nodup_flatMap.mp h.exact.nodup).1 s hs

theorem mem_usedSectors {s t : ℕ} (hs : s ∈ headers d) (ht : t ∈ fileSectors disk s) :
  t ∈ usedSectors disk d
  := List.mem_flatMap.mpr ⟨s, hs, ht⟩

/-- Two files share no sector. -/
theorem disjoint (h : Layout disk d marked) {s s' t : ℕ} (hs : s ∈ headers d) (hs' : s' ∈ headers d)
    (ht : t ∈ fileSectors disk s) (ht' : t ∈ fileSectors disk s') :
  s = s'
  := by
  by_contra hne
  have hpairs := (List.nodup_flatMap.mp h.exact.nodup).2
  have : Std.Symm (Function.onFun List.Disjoint (fileSectors disk)) := ⟨fun _ _ hd _ h₁ h₂ => hd h₂ h₁⟩
  exact hpairs.forall hs hs' hne ht ht'

/-- No header is a data sector. -/
theorem header_not_mem (h : Layout disk d marked) {s s' : ℕ} (hs : s ∈ headers d)
    (hs' : s' ∈ headers d) :
  s ∉ (header disk s').sectors
  := by
  intro hmem
  obtain rfl := h.disjoint hs hs' List.mem_cons_self (List.mem_cons_of_mem s' hmem)
  exact (List.nodup_cons.mp (h.nodup_fileSectors hs)).1 hmem

/-- The headers are different from each other. -/
theorem nodup_headers (h : Layout disk d marked) :
  (headers d).Nodup
  := by
  apply (List.nodup_flatMap.mp h.exact.nodup).2.imp
  rintro s _ hdisjoint rfl
  apply hdisjoint List.mem_cons_self List.mem_cons_self

/-- The header of a file, when it has as many sectors as the file needs. -/
theorem headerOk (h : Layout disk d marked) {s : ℕ} (hs : s ∈ headers d)
    (hnum : (header disk s).numSectors = divRoundUp (header disk s).numBytes SectorSize)
    (hsize : (header disk s).numBytes ≤ MaxFileSize) :
  (header disk s).Ok
  := by
  constructor
  · apply hnum
  · apply hsize
  · exact (List.nodup_cons.mp (h.nodup_fileSectors hs)).2
  · intro t ht
    apply h.exact.lt
    apply mem_usedSectors hs (List.mem_cons_of_mem s ht)

end Layout

/-! ### Adding and removing entries -/

section Entries

variable {disk disk' : Disk} {d d' : Directory} {marked marked' : ℕ → Bool} {name : Bytes}
  {sector i : ℕ}

/-- Entry `i` comes into use. -/
theorem headers_perm (hi : i < NumDirEntries) (hfree : d.inUse i = false) (hinUse : d'.inUse i = true)
    (hother : ∀ j, j ≠ i → d.SameEntry d' j) :
  (headers d').Perm (d'.sector i :: headers d)
  := by
  have hentries : ((List.range NumDirEntries).flatMap (fun j =>
      if d'.inUse j then [d'.sector j] else [])).Perm
        ([d'.sector i] ++ (List.range NumDirEntries).flatMap (fun j =>
          if d.inUse j then [d.sector j] else [])) := by
    apply Allocation.flatMap_perm List.nodup_range (List.mem_range.mpr hi)
    · simp [hfree]
    · simp [hinUse]
    · intro j _ hj
      rw [(hother j hj).inUse, (hother j hj).sector]
  rw [headers, headers]
  apply ((hentries.cons DirectorySector).cons FreeMapSector).trans
  apply ((List.Perm.swap _ _ _).cons FreeMapSector).trans
  apply List.Perm.swap

theorem usedSectors_perm (disk : Disk) (hi : i < NumDirEntries) (hfree : d.inUse i = false)
    (hinUse : d'.inUse i = true) (hother : ∀ j, j ≠ i → d.SameEntry d' j) :
  (usedSectors disk d').Perm (fileSectors disk (d'.sector i) ++ usedSectors disk d)
  := (headers_perm hi hfree hinUse hother).flatMap_right (fileSectors disk)

theorem Directory.Adds.sector_eq (h : d.Adds name sector i d') (hlt : sector < NumSectors) :
  d'.sector i = sector
  := by
  rw [h.sector]
  apply Nat.mod_eq_of_lt
  rw [NumSectors] at hlt
  omega

theorem Directory.Adds.mem_headers (h : d.Adds name sector i d') (hlt : sector < NumSectors) {s : ℕ} :
  s ∈ headers d' ↔ s = sector ∨ s ∈ headers d
  := by
  rw [(headers_perm h.lt h.free h.inUse h.other).mem_iff, List.mem_cons, h.sector_eq hlt]

/-- A file is added whose sectors are marked. -/
theorem Layout.add (h : Layout disk d marked) (hadds : d.Adds name sector i d')
    (hlt : sector < NumSectors) (hdisk : ∀ s ∈ headers d, disk' s = disk s)
    (hexact : Allocation.Exact NumSectors marked'
      (fileSectors disk' sector ++ usedSectors disk d)) :
  Layout disk' d' marked'
  := by
  constructor
  · have hperm := usedSectors_perm disk' hadds.lt hadds.free hadds.inUse hadds.other
    have hused : usedSectors disk' d = usedSectors disk d :=
      usedSectors_congr hdisk (fun _ _ => ⟨rfl, rfl, rfl⟩)
    rw [hadds.sector_eq hlt, hused] at hperm
    apply hexact.perm hperm.symm
  · intro j hj k hk hinUse hinUse' hname
    by_cases hji : j = i
    · by_cases hki : k = i
      · rw [hji, hki]
      · rw [hji, hadds.stored, (hadds.other k hki).stored] at hname
        rw [(hadds.other k hki).inUse] at hinUse'
        exact absurd hname.symm (hadds.fresh k hk hinUse')
    · rw [(hadds.other j hji).inUse] at hinUse
      rw [(hadds.other j hji).stored] at hname
      by_cases hki : k = i
      · rw [hki, hadds.stored] at hname
        exact absurd hname (hadds.fresh j hj hinUse)
      · rw [(hadds.other k hki).inUse] at hinUse'
        rw [(hadds.other k hki).stored] at hname
        apply h.names j hj k hk hinUse hinUse' hname

/-- The entries that are in use when an entry has been removed. -/
theorem Directory.Removes.inUse_iff (h : d.Removes name i d') {j : ℕ} :
  d'.inUse j = true ↔ j ≠ i ∧ d.inUse j = true
  := by
  by_cases hji : j = i
  · subst hji
    simp [h.free]
  · rw [(h.other j hji).inUse]
    simp [hji]

theorem Directory.Removes.mem_headers (h : d.Removes name i d') {s : ℕ} :
  s ∈ headers d ↔ s = d.sector i ∨ s ∈ headers d'
  := by
  rw [(headers_perm h.lt h.free h.inUse (fun j hj => (h.other j hj).symm)).mem_iff, List.mem_cons]

/-- A file is removed whose sectors are free again. -/
theorem Layout.remove (h : Layout disk d marked) (hremoves : d.Removes name i d')
    (hdisk : ∀ s ∈ headers d', disk' s = disk s)
    (hexact : Allocation.Exact NumSectors marked' (usedSectors disk d')) :
  Layout disk' d' marked'
  := by
  constructor
  · rw [usedSectors_congr hdisk (fun _ _ => ⟨rfl, rfl, rfl⟩)]
    apply hexact
  · intro j hj k hk hinUse hinUse' hname
    obtain ⟨hji, hj'⟩ := hremoves.inUse_iff.mp hinUse
    obtain ⟨hki, hk'⟩ := hremoves.inUse_iff.mp hinUse'
    rw [(hremoves.other j hji).stored, (hremoves.other k hki).stored] at hname
    apply h.names j hj k hk hj' hk' hname

end Entries

/-! ### Writing both tables -/

/-- The directory and the free map have been written to their files, and nothing else. -/
structure Rewritten (mapHdr dirHdr : FileHeader) (disk : Disk) (d : Directory) (m : BitMap)
    (disk' : Disk) : Prop where
  other : ∀ s, s ∉ mapHdr.sectors → s ∉ dirHdr.sectors → disk' s = disk s
  directory : ∀ o < DirectoryFileSize, contents disk' dirHdr o = d.table o
  freeMap : ∀ i < NumSectors, (BitMap.ofBytes (contents disk' mapHdr)).test i = m.test i

section Rewritten

variable (mapFile dirFile : OpenFile)

theorem rewritten_directory_freeMap (hmap : mapFile.hdr.Ok) (hdir : dirFile.hdr.Ok)
    (hmapLength : mapFile.length = FreeMapFileSize) (hdirLength : dirFile.length = DirectoryFileSize)
    (hdisjoint : mapFile.hdr.sectors.Disjoint dirFile.hdr.sectors) (disk : Disk) (buf : Bytes)
    (d : Directory) (m : BitMap) :
  ∃ disk₁ disk₂, d.writeBack buf disk dirFile = some disk₁ ∧
    m.writeBack buf disk₁ mapFile = some disk₂ ∧
    Rewritten mapFile.hdr dirFile.hdr disk d m disk₂
  := by
  obtain ⟨disk₁, hwrite₁, hother₁, htable⟩ := Directory.writeBack_spec hdir hdirLength disk buf d
  obtain ⟨disk₂, hwrite₂, hother₂, hbits⟩ := BitMap.writeBack_spec hmap hmapLength disk₁ buf m
  use disk₁, disk₂, hwrite₁, hwrite₂
  constructor
  · intro s hsmap hsdir
    rw [hother₂ s hsmap, hother₁ s hsdir]
  · intro o ho
    rw [contents_congr hdir _ (ho.trans_eq hdirLength.symm), htable o ho]
    intro s hs
    apply hother₂
    intro hs'
    apply hdisjoint hs' hs
  · apply hbits

theorem rewritten_freeMap_directory (hmap : mapFile.hdr.Ok) (hdir : dirFile.hdr.Ok)
    (hmapLength : mapFile.length = FreeMapFileSize) (hdirLength : dirFile.length = DirectoryFileSize)
    (hdisjoint : mapFile.hdr.sectors.Disjoint dirFile.hdr.sectors) (disk : Disk) (buf buf' : Bytes)
    (d : Directory) (m : BitMap) :
  ∃ disk₁ disk₂, m.writeBack buf disk mapFile = some disk₁ ∧
    d.writeBack buf' disk₁ dirFile = some disk₂ ∧
    Rewritten mapFile.hdr dirFile.hdr disk d m disk₂
  := by
  obtain ⟨disk₁, hwrite₁, hother₁, hbits⟩ := BitMap.writeBack_spec hmap hmapLength disk buf m
  obtain ⟨disk₂, hwrite₂, hother₂, htable⟩ := Directory.writeBack_spec hdir hdirLength disk₁ buf' d
  use disk₁, disk₂, hwrite₁, hwrite₂
  constructor
  · intro s hsmap hsdir
    rw [hother₂ s hsdir, hother₁ s hsmap]
  · apply htable
  · intro i hi
    rw [← hbits i hi]
    apply BitMap.test_ofBytes_congr _ hi
    intro o ho
    apply contents_congr hmap _ (ho.trans_eq hmapLength.symm)
    intro s hs
    apply hother₂
    intro hs'
    apply hdisjoint hs hs'

end Rewritten

end Nachos.Filesys
