import Mathlib.Data.List.GetD
import Mathlib.Data.List.TakeWhile
import Nachos.Library.Bits
import Nachos.Library.Allocation
import Nachos.Filesys.OpenFile

/-!
# The free map and the directory

What the operations on the free map and on the directory do to the bits and to the entries, and that
both can be read from the disk and written to it.
-/

namespace Nachos.Filesys

/-! ### Files that are read and written as a whole -/

namespace OpenFile

variable {f : OpenFile}

theorem readInto_all (h : f.hdr.Ok) (disk : Disk) (memory : Bytes) {n : ℕ} (hn : f.length = n) :
  ∃ memory', readInto disk f memory 0 n 0 = some memory' ∧
    ∀ o < n, memory' o = contents disk f.hdr o
  := by
  have hsize : f.length ≤ 3840 := h.size
  obtain ⟨memory', hread, hin, -⟩ :=
    readInto_spec h disk memory 0 (show 0 + n < 2 ^ 31 by omega)
  use memory', hread
  intro o ho
  have heq := hin o (by rw [count]; omega)
  rw [Nat.zero_add] at heq
  apply heq

theorem writeAt_all (h : f.hdr.Ok) (disk : Disk) (buf source : Bytes) {n : ℕ} (hn : f.length = n) :
  ∃ disk', (writeAt buf disk f source n 0).map (·.2) = some disk' ∧
    (∀ s, s ∉ f.hdr.sectors → disk' s = disk s) ∧ ∀ o < n, contents disk' f.hdr o = source o
  := by
  have hsize : f.length ≤ 3840 := h.size
  obtain ⟨disk', hwrite, hother, hin⟩ :=
    writeAt_spec h disk buf source (show 0 + n < 2 ^ 31 by omega)
  use disk'
  refine ⟨?_, hother, ?_⟩
  · rw [hwrite]
    rfl
  · intro o ho
    rw [hin o (by omega), if_pos, Nat.sub_zero]
    rw [count]
    omega

end OpenFile

/-- The bytes of a file are those of its sectors. -/
theorem contents_congr {disk disk' : Disk} {hdr : FileHeader} (h : hdr.Ok)
    (hsame : ∀ s ∈ hdr.sectors, disk' s = disk s) {o : ℕ} (ho : o < hdr.numBytes) :
  contents disk' hdr o = contents disk hdr o
  := by
  rw [contents, contents, hsame]
  apply FileHeader.mem_sectors.mpr
  exact ⟨_, h.sector_lt ho, rfl⟩

/-! ### Bit maps -/

namespace BitMap

theorem test_eq (m : BitMap) (i : ℕ) :
  m.test i = (m.map (i / 32)).getLsbD (i % 32)
  := Bits.and_mask_ne_zero _ (Nat.mod_lt i (by decide))

/-- Two bits are the same if they are at the same place of the same word. -/
theorem eq_iff_place (i j : ℕ) :
  j / 32 = i / 32 ∧ j % 32 = i % 32 ↔ j = i
  := by
  omega

theorem test_mark (m : BitMap) (i j : ℕ) :
  (m.mark i).test j = (m.test j || decide (j = i))
  := by
  have hset := Bits.getLsbD_set m.map (i / 32) (j / 32) (Nat.mod_lt i (by decide)) (j % 32)
  rw [decide_eq_decide.mpr (eq_iff_place i j)] at hset
  rw [test_eq, test_eq, Bool.or_comm]
  exact hset

theorem test_clear (m : BitMap) (i j : ℕ) :
  (m.clear i).test j = (m.test j && !decide (j = i))
  := by
  have hclear := Bits.getLsbD_clear m.map (i / 32) (j / 32) (i % 32) (Nat.mod_lt j (by decide))
  rw [decide_eq_decide.mpr (eq_iff_place i j)] at hclear
  rw [test_eq, test_eq, Bool.and_comm]
  exact hclear

theorem test_new (i : ℕ) :
  new.test i = false
  := by
  simp [test, new]

theorem test_ofBytes_congr {memory memory' : Bytes} (h : ∀ o < FreeMapFileSize, memory o = memory' o)
    {i : ℕ} (hi : i < NumSectors) :
  (ofBytes memory).test i = (ofBytes memory').test i
  := by
  have hload : Words.load memory (4 * (i / 32)) = Words.load memory' (4 * (i / 32)) := by
    apply Words.load_congr
    intro k hk
    apply h
    rw [FreeMapFileSize]
    rw [NumSectors] at *
    omega
  rw [test, test, ofBytes, ofBytes]
  simp only [hload]

theorem ofBytes_toBytes (m : BitMap) :
  ofBytes m.toBytes = m
  := by
  cases m with
  | mk map =>
      rw [ofBytes, toBytes]
      congr 1
      funext i
      rw [Words.load_store, Nat.mod_eq_of_lt (map i).isLt, BitVec.ofNat_toNat, BitVec.setWidth_eq]

/-- The first bit that is clear is marked. -/
theorem find_spec {m m' : BitMap} {s : ℕ} (h : m.find = (some s, m')) :
  s < NumSectors ∧ m.test s = false ∧ m' = m.mark s
  := by
  obtain ⟨hfirst, hmark⟩ := Prod.mk.inj h
  obtain ⟨hlt, hclear⟩ := Allocation.find_some hfirst
  rw [hfirst] at hmark
  exact ⟨hlt, hclear, hmark.symm⟩

variable {f : OpenFile}

theorem fetchFrom_spec (h : f.hdr.Ok) (hlength : f.length = FreeMapFileSize) (disk : Disk)
    (m : BitMap) :
  ∃ m', fetchFrom disk f m = some m' ∧
    ∀ i < NumSectors, m'.test i = (ofBytes (contents disk f.hdr)).test i
  := by
  obtain ⟨memory', hread, hall⟩ := OpenFile.readInto_all h disk m.toBytes hlength
  use ofBytes memory'
  constructor
  · rw [fetchFrom, hread]
    rfl
  · intro i hi
    apply test_ofBytes_congr hall hi

theorem writeBack_spec (h : f.hdr.Ok) (hlength : f.length = FreeMapFileSize) (disk : Disk)
    (buf : Bytes) (m : BitMap) :
  ∃ disk', writeBack buf disk f m = some disk' ∧
    (∀ s, s ∉ f.hdr.sectors → disk' s = disk s) ∧
    ∀ i < NumSectors, (ofBytes (contents disk' f.hdr)).test i = m.test i
  := by
  obtain ⟨disk', hwrite, hother, hall⟩ := OpenFile.writeAt_all h disk buf m.toBytes hlength
  use disk', hwrite, hother
  intro i hi
  rw [test_ofBytes_congr hall hi, ofBytes_toBytes]

end BitMap

/-! ### Names -/

/-- A string that has been copied by `strncpy` has the same characters. -/
theorem characters_copied (n : ℕ) (name : Bytes) :
  characters n (fun k => (characters n name).getD k 0) = characters n name
  := by
  generalize hcs : characters n name = cs
  have hlength : cs.length ≤ n := by
    rw [← hcs, characters]
    apply (List.takeWhile_sublist _).length_le.trans
    simp
  have hne : ∀ c ∈ cs, c ≠ 0 := by
    intro c hc
    rw [← hcs] at hc
    simpa using List.mem_takeWhile_imp hc
  have hpad : (List.range n).map (fun k => cs.getD k 0) = cs ++ List.replicate (n - cs.length) 0 := by
    apply List.ext_getElem
    · simp [hlength]
    · intro k hk _
      simp only [List.length_map, List.length_range] at hk
      rw [List.getElem_map, List.getElem_range]
      by_cases hkc : k < cs.length
      · rw [List.getElem_append_left hkc, List.getD_eq_getElem _ _ hkc]
      · rw [List.getElem_append_right (by omega), List.getD_eq_default _ _ (by omega),
          List.getElem_replicate]
  rw [characters, hpad, List.takeWhile_append_of_pos (by simpa using hne)]
  cases n - cs.length with
  | zero => simp
  | succ k => simp [List.replicate_succ]

theorem characters_congr {n : ℕ} {name name' : Bytes} (h : ∀ k < n, name k = name' k) :
  characters n name = characters n name'
  := by
  rw [characters, characters]
  congr 1
  apply List.map_congr_left
  intro k hk
  apply h k (List.mem_range.mp hk)

/-! ### The directory -/

namespace Directory

variable {d d' : Directory} {i j : ℕ}

/-- The name of an entry, as far as it is compared. -/
def stored (d : Directory) (i : ℕ) : List UInt8 := characters FileNameMaxLen (d.name i)

/-- Two tables have the same entry. -/
structure SameEntry (d d' : Directory) (i : ℕ) : Prop where
  inUse : d'.inUse i = d.inUse i
  sector : d'.sector i = d.sector i
  stored : d'.stored i = d.stored i

theorem sameEntry_of_table
    (h : ∀ k < directoryEntrySize, d'.table (i * directoryEntrySize + k) =
      d.table (i * directoryEntrySize + k)) :
  SameEntry d d' i
  := by
  rw [directoryEntrySize] at h
  constructor
  · have hbyte := h 0 (by decide)
    rw [Directory.inUse, Directory.inUse, directoryEntrySize]
    rw [Nat.add_zero] at hbyte
    rw [hbyte]
  · apply Words.load_congr
    intro k hk
    rw [directoryEntrySize, Nat.add_assoc]
    apply h
    omega
  · apply characters_congr
    intro k hk
    rw [Directory.name, Directory.name, directoryEntrySize, Nat.add_assoc]
    apply h
    rw [FileNameMaxLen] at hk
    omega

theorem SameEntry.trans {d'' : Directory} (h : SameEntry d d' i) (h' : SameEntry d' d'' i) :
  SameEntry d d'' i
  := ⟨h'.inUse.trans h.inUse, h'.sector.trans h.sector, h'.stored.trans h.stored⟩

theorem SameEntry.symm (h : SameEntry d d' i) :
  SameEntry d' d i
  := ⟨h.inUse.symm, h.sector.symm, h.stored.symm⟩

/-- The entries are those of the bytes in the table. -/
theorem sameEntry_of_agree (h : ∀ o < DirectoryFileSize, d'.table o = d.table o)
    (hi : i < NumDirEntries) :
  SameEntry d d' i
  := by
  apply sameEntry_of_table
  intro k hk
  apply h
  rw [DirectoryFileSize]
  rw [directoryEntrySize, NumDirEntries] at *
  omega

/-! Overwriting one entry. -/

theorem copy_of_mem {source memory : Bytes} {n a o : ℕ} (h : a ≤ o ∧ o < a + n) :
  copy source n memory a o = source (o - a)
  := if_pos h

theorem copy_of_not_mem {source memory : Bytes} {n a o : ℕ} (h : ¬ (a ≤ o ∧ o < a + n)) :
  copy source n memory a o = memory o
  := if_neg h

/-- Bytes of entry `i` are overwritten. -/
theorem sameEntry_copy (d : Directory) (source : Bytes) {n a : ℕ} (ha : a + n ≤ directoryEntrySize) (hj : j ≠ i) :
  SameEntry d ⟨copy source n d.table (i * directoryEntrySize + a)⟩ j
  := by
  apply sameEntry_of_table
  intro k hk
  apply if_neg
  rw [directoryEntrySize] at *
  omega

theorem setInUse_self (d : Directory) (i : ℕ) (inUse : Bool) :
  (d.setInUse i inUse).inUse i = inUse ∧ (d.setInUse i inUse).sector i = d.sector i ∧
    (d.setInUse i inUse).stored i = d.stored i
  := by
  refine ⟨?_, ?_, ?_⟩
  · simp only [Directory.inUse, setInUse]
    rw [copy_of_mem (by omega)]
    cases inUse with
    | false => rfl
    | true => rfl
  · apply Words.load_congr
    intro k _
    apply if_neg
    omega
  · apply characters_congr
    intro k _
    apply if_neg
    omega

theorem setInUse_other (d : Directory) (inUse : Bool) (hj : j ≠ i) :
  SameEntry d (d.setInUse i inUse) j
  := by
  have hsame := sameEntry_copy d (fun _ => if inUse then 1 else 0) (n := 1) (a := 0) (by decide) hj
  rw [Nat.add_zero] at hsame
  apply hsame

theorem setName_self (d : Directory) (i : ℕ) (name : Bytes) :
  (d.setName i name).inUse i = d.inUse i ∧
    (d.setName i name).stored i = characters FileNameMaxLen name
  := by
  constructor
  · simp only [Directory.inUse, setName]
    rw [copy_of_not_mem (by omega)]
  · rw [stored, ← characters_copied FileNameMaxLen name]
    apply characters_congr
    intro k hk
    simp only [Directory.name, setName]
    rw [copy_of_mem (by omega), Nat.add_sub_cancel_left]

theorem setName_other (d : Directory) (name : Bytes) (hj : j ≠ i) :
  SameEntry d (d.setName i name) j
  := sameEntry_copy d _ (by decide) hj

theorem setSector_self (d : Directory) (i sector : ℕ) :
  (d.setSector i sector).inUse i = d.inUse i ∧ (d.setSector i sector).sector i = sector % 2 ^ 32 ∧
    (d.setSector i sector).stored i = d.stored i
  := by
  refine ⟨?_, ?_, ?_⟩
  · simp only [Directory.inUse, setSector]
    rw [copy_of_not_mem (by omega)]
  · apply Words.load_bytes
    intro k hk
    simp only [setSector]
    rw [copy_of_mem (by omega), Nat.add_sub_cancel_left]
  · apply characters_congr
    intro k _
    apply if_neg
    omega

theorem setSector_other (d : Directory) (sector : ℕ) (hj : j ≠ i) :
  SameEntry d (d.setSector i sector) j
  := sameEntry_copy d _ (by decide) hj

/-! ### Finding, adding and removing -/

theorem findIndex_some {name : Bytes} (h : d.findIndex name = some i) :
  i < NumDirEntries ∧ d.inUse i = true ∧ d.stored i = characters FileNameMaxLen name
  := by
  have hfind := List.find?_some h
  rw [Bool.and_eq_true, beq_iff_eq] at hfind
  exact ⟨List.mem_range.mp (List.mem_of_find?_eq_some h), hfind.1, hfind.2⟩

theorem findIndex_none {name : Bytes} (h : d.findIndex name = none) (hi : i < NumDirEntries)
    (hinUse : d.inUse i = true) :
  d.stored i ≠ characters FileNameMaxLen name
  := by
  have hnot := List.find?_eq_none.mp h i (List.mem_range.mpr hi)
  rw [Bool.and_eq_true, beq_iff_eq, not_and] at hnot
  apply hnot hinUse

/-- The new table when an entry has been added: entry `i`, which was not in use. -/
structure Adds (d : Directory) (name : Bytes) (sector i : ℕ) (d' : Directory) : Prop where
  lt : i < NumDirEntries
  free : d.inUse i = false
  fresh : ∀ j < NumDirEntries, d.inUse j = true → d.stored j ≠ characters FileNameMaxLen name
  inUse : d'.inUse i = true
  sector : d'.sector i = sector % 2 ^ 32
  stored : d'.stored i = characters FileNameMaxLen name
  other : ∀ j, j ≠ i → SameEntry d d' j

theorem add_spec {name : Bytes} {sector : ℕ} (h : d.add name sector = some d') :
  ∃ i, Adds d name sector i d'
  := by
  rw [add] at h
  cases hindex : d.findIndex name with
  | some i =>
      rw [hindex] at h
      contradiction
  | none =>
      rw [hindex] at h
      obtain ⟨i, hfind, rfl⟩ := Option.map_eq_some_iff.mp h
      obtain ⟨hlt, hfree⟩ := Allocation.find_some hfind
      have hset := setSector_self ((d.setInUse i true).setName i name) i sector
      have hname := setName_self (d.setInUse i true) i name
      use i
      constructor
      · apply hlt
      · apply hfree
      · intro j hj hinUse
        apply findIndex_none hindex hj hinUse
      · rw [hset.1, hname.1]
        apply (setInUse_self d i true).1
      · apply hset.2.1
      · rw [hset.2.2]
        apply hname.2
      · intro j hj
        apply (setInUse_other d true hj).trans
        apply (setName_other _ name hj).trans
        apply setSector_other _ sector hj

/-- The new table when an entry has been removed: entry `i`, which was in use. -/
structure Removes (d : Directory) (name : Bytes) (i : ℕ) (d' : Directory) : Prop where
  lt : i < NumDirEntries
  inUse : d.inUse i = true
  stored : d.stored i = characters FileNameMaxLen name
  free : d'.inUse i = false
  other : ∀ j, j ≠ i → SameEntry d d' j

theorem remove_spec {name : Bytes} {sector : ℕ} (h : d.find name = some sector) :
  ∃ i, d.sector i = sector ∧ Removes d name i ((d.remove name).getD d)
  := by
  obtain ⟨i, hindex, hsector⟩ := Option.map_eq_some_iff.mp h
  obtain ⟨hlt, hinUse, hstored⟩ := findIndex_some hindex
  use i, hsector
  rw [remove, hindex]
  constructor
  · apply hlt
  · apply hinUse
  · apply hstored
  · apply (setInUse_self d i false).1
  · intro j hj
    apply setInUse_other d false hj

/-- No entry of a new table is in use. -/
theorem new_inUse (d : Directory) (hi : i < NumDirEntries) :
  (new d).inUse i = false
  := by
  have hall : ∀ k, ∀ j < k, ((List.range k).foldl (fun d i => d.setInUse i false) d).inUse j = false := by
    intro k
    induction k with
    | zero =>
        intro j hj
        exact absurd hj (Nat.not_lt_zero j)
    | succ k ih =>
        intro j hj
        rw [List.range_succ, List.foldl_append, List.foldl_cons, List.foldl_nil]
        by_cases hjk : j = k
        · subst hjk
          apply (setInUse_self _ j false).1
        · rw [(setInUse_other _ false hjk).inUse]
          apply ih j (by omega)
  apply hall NumDirEntries i hi

variable {f : OpenFile}

theorem fetchFrom_spec (h : f.hdr.Ok) (hlength : f.length = DirectoryFileSize) (disk : Disk)
    (d : Directory) :
  ∃ d', fetchFrom disk f d = some d' ∧
    ∀ i < NumDirEntries, SameEntry ⟨contents disk f.hdr⟩ d' i
  := by
  obtain ⟨memory', hread, hall⟩ := OpenFile.readInto_all h disk d.table hlength
  use ⟨memory'⟩
  constructor
  · rw [fetchFrom, hread]
    rfl
  · intro i hi
    apply sameEntry_of_agree hall hi

theorem writeBack_spec (h : f.hdr.Ok) (hlength : f.length = DirectoryFileSize) (disk : Disk)
    (buf : Bytes) (d : Directory) :
  ∃ disk', writeBack buf disk f d = some disk' ∧
    (∀ s, s ∉ f.hdr.sectors → disk' s = disk s) ∧
    ∀ o < DirectoryFileSize, contents disk' f.hdr o = d.table o
  := OpenFile.writeAt_all h disk buf d.table hlength

end Directory

end Nachos.Filesys
