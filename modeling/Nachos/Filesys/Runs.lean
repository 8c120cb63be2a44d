import Nachos.Filesys.Operations

/-!
# Runs of the file system

A disk can be formatted. In every run from there the layout of the disk is kept, the assertions hold,
and a file keeps its length until it is removed (`FileSystem.layout_run`).
-/

namespace Nachos.Filesys

namespace FileSystem

variable {fs : FileSystem}

/-! ### Formatting -/

theorem headers_new (d : Directory) :
  headers (Directory.new d) = [FreeMapSector, DirectorySector]
  := by
  have hnone : (List.range NumDirEntries).flatMap (fun i =>
      if (Directory.new d).inUse i then [(Directory.new d).sector i] else []) = [] := by
    apply List.flatMap_eq_nil_iff.mpr
    intro i hi
    apply if_neg
    simp [Directory.new_inUse d (List.mem_range.mp hi)]
  rw [headers, hnone]

/-- A header that has been written can be opened. -/
theorem new_of_written {disk : Disk} {sector : ℕ} {hdr : FileHeader} (hlt : sector < NumSectors)
    (h : disk sector = hdr.toBytes) :
  OpenFile.new disk sector = some ⟨.ofBytes hdr.toBytes⟩
  := by
  rw [OpenFile.new, fetchHeader, readSector, if_pos hlt, h]
  rfl

/-- The layout of an empty disk. -/
theorem layout_new {disk : Disk} {d : Directory} {m : BitMap} {mapHdr dirHdr : FileHeader}
    (hexact : Allocation.Exact NumSectors m.test
      (FreeMapSector :: mapHdr.sectors ++ DirectorySector :: dirHdr.sectors))
    (hmap : (header disk FreeMapSector).sectors = mapHdr.sectors)
    (hdir : (header disk DirectorySector).sectors = dirHdr.sectors) :
  Layout disk (Directory.new d) m.test
  := by
  constructor
  · rw [usedSectors, headers_new, List.flatMap_cons, List.flatMap_singleton, fileSectors,
      fileSectors, hmap, hdir]
    apply hexact
  · intro i hi _ _ hinUse
    rw [Directory.new_inUse d hi] at hinUse
    contradiction

/-- A disk can be formatted. -/
theorem format_spec (g g' : Garbage) (disk : Disk) :
  ∃ fs, format g g' disk = some fs ∧ fs.Ok
  := by
  have hexact₀ : Allocation.Exact NumSectors ((BitMap.new.mark FreeMapSector).mark DirectorySector).test
      [DirectorySector, FreeMapSector] := by
    apply Allocation.Exact.mark _ (by decide) (by decide) (fun t _ => BitMap.test_mark _ _ t)
    apply Allocation.Exact.mark _ (by decide) (by decide) (fun t _ => BitMap.test_mark _ _ t)
    exact Allocation.exact_nil (fun s _ => BitMap.test_new s)
  -- The headers of the two files.
  obtain ⟨mapHdr, m₁, hmapAllocate⟩ := FileHeader.allocate_of_le g.hdr hexact₀
    (show divRoundUp FreeMapFileSize SectorSize + 2 ≤ NumSectors by decide)
  obtain ⟨hmapBytes, hmapSectors, hexact₁⟩ := FileHeader.allocate_spec hexact₀ hmapAllocate
  have hmapCount : mapHdr.sectors.length = 1 := by
    rw [FileHeader.sectors, List.length_map, List.length_range, hmapSectors]
    rfl
  obtain ⟨dirHdr, m₂, hdirAllocate⟩ := FileHeader.allocate_of_le g'.hdr hexact₁
    (show divRoundUp DirectoryFileSize SectorSize + (mapHdr.sectors ++ _).length ≤ NumSectors by
      rw [List.length_append, hmapCount]
      decide)
  obtain ⟨hdirBytes, hdirSectors, hexact₂⟩ := FileHeader.allocate_spec hexact₁ hdirAllocate
  have hused : Allocation.Exact NumSectors m₂.test
      (FreeMapSector :: mapHdr.sectors ++ DirectorySector :: dirHdr.sectors) := by
    apply hexact₂.perm
    apply List.perm_iff_count.mpr
    intro s
    simp only [List.count_append, List.count_cons, List.count_nil]
    omega
  obtain ⟨hmapLength, hmapNum, hmapData⟩ := FileHeader.readBack (by decide) hmapBytes hmapSectors
    (fun s hs => hexact₁.lt s (List.mem_append_left _ hs))
  obtain ⟨hdirLength, hdirNum, hdirData⟩ := FileHeader.readBack (by decide) hdirBytes hdirSectors
    (fun s hs => hexact₂.lt s (List.mem_append_left _ hs))
  have hnodup := List.nodup_append.mp hused.nodup
  have hmap := List.nodup_cons.mp hnodup.1
  have hdir := List.nodup_cons.mp hnodup.2.1
  have hmapOk : (FileHeader.ofBytes mapHdr.toBytes).Ok := by
    constructor
    · rw [hmapNum, hmapLength]
    · rw [hmapLength]
      decide
    · rw [hmapData]
      apply hmap.2
    · rw [hmapData]
      intro s hs
      apply hexact₁.lt s (List.mem_append_left _ hs)
  have hdirOk : (FileHeader.ofBytes dirHdr.toBytes).Ok := by
    constructor
    · rw [hdirNum, hdirLength]
    · rw [hdirLength]
      decide
    · rw [hdirData]
      apply hdir.2
    · rw [hdirData]
      intro s hs
      apply hexact₂.lt s (List.mem_append_left _ hs)
  -- The disk with the headers, and with the two tables.
  generalize hdisk₂ : Function.update (Function.update disk FreeMapSector mapHdr.toBytes)
    DirectorySector dirHdr.toBytes = disk₂
  have hmap₂ : disk₂ FreeMapSector = mapHdr.toBytes := by
    rw [← hdisk₂, Function.update_of_ne (by decide), Function.update_self]
  have hdir₂ : disk₂ DirectorySector = dirHdr.toBytes := by
    rw [← hdisk₂, Function.update_self]
  obtain ⟨disk₃, disk₄, hwrite₃, hwrite₄, hrewritten⟩ := rewritten_freeMap_directory
    ⟨.ofBytes mapHdr.toBytes⟩ ⟨.ofBytes dirHdr.toBytes⟩ hmapOk hdirOk hmapLength hdirLength (by
      intro s hs hs'
      rw [hmapData] at hs
      rw [hdirData] at hs'
      exact hnodup.2.2 s (List.mem_cons_of_mem _ hs) s (List.mem_cons_of_mem _ hs') rfl)
    disk₂ g.buf g'.buf (Directory.new g.directory) m₂
  have hkept : ∀ s, s = FreeMapSector ∨ s = DirectorySector → disk₄ s = disk₂ s := by
    rintro s (rfl | rfl)
    · apply hrewritten.other
      · simp only [hmapData]
        apply hmap.1
      · simp only [hdirData]
        intro hs
        exact hnodup.2.2 _ List.mem_cons_self _ (List.mem_cons_of_mem _ hs) rfl
    · apply hrewritten.other
      · simp only [hmapData]
        intro hs
        exact hnodup.2.2 _ (List.mem_cons_of_mem _ hs) _ List.mem_cons_self rfl
      · simp only [hdirData]
        apply hdir.1
  have hmap₄ : header disk₄ FreeMapSector = .ofBytes mapHdr.toBytes := by
    rw [header, hkept _ (.inl rfl), hmap₂]
  have hdir₄ : header disk₄ DirectorySector = .ofBytes dirHdr.toBytes := by
    rw [header, hkept _ (.inr rfl), hdir₂]
  use ⟨disk₄, ⟨.ofBytes mapHdr.toBytes⟩, ⟨.ofBytes dirHdr.toBytes⟩, fun _ => none⟩
  constructor
  · have hmapLt : FreeMapSector < NumSectors := by decide
    have hdirLt : DirectorySector < NumSectors := by decide
    simp only [format, hmapAllocate, hdirAllocate, writeSector, hmapLt, hdirLt, if_true,
      Option.bind_eq_bind, Option.bind_some, Option.pure_def, hdisk₂, new_of_written hmapLt hmap₂,
      new_of_written hdirLt hdir₂, hwrite₃, hwrite₄]
  · have hboth : ∀ s ∈ headers (Directory.new g.directory),
        (header disk₄ s).numSectors = divRoundUp (header disk₄ s).numBytes SectorSize ∧
          (header disk₄ s).numBytes ≤ MaxFileSize := by
      intro s hs
      rw [headers_new, List.mem_pair] at hs
      cases hs with
      | inl heq =>
          rw [heq, hmap₄]
          exact ⟨hmapOk.numSectors, hmapOk.size⟩
      | inr heq =>
          rw [heq, hdir₄]
          exact ⟨hdirOk.numSectors, hdirOk.size⟩
    apply ok_of_tables (d := Directory.new g.directory) (m := m₂)
    · intro i hi
      rw [directory]
      simp only [hdir₄]
      apply Directory.sameEntry_of_agree _ hi
      apply hrewritten.directory
    · intro i hi
      rw [freeMap]
      simp only [hmap₄]
      apply hrewritten.freeMap i hi
    · apply layout_new hused
      · simp only [hmap₄, hmapData]
      · simp only [hdir₄, hdirData]
    · exact fun s hs => (hboth s hs).1
    · exact fun s hs => (hboth s hs).2
    · intro handle sector f hf
      cases hf
    · simp only [hmap₄]
    · apply hmapLength
    · simp only [hdir₄]
    · apply hdirLength

/-! ### Runs -/

/-- The operation removes the file with this name. -/
def Action.Removes (name : Bytes) : Action → Prop
  | .remove _ name' => characters FileNameMaxLen name' = characters FileNameMaxLen name
  | _ => False

/-- Every operation keeps the invariant, and the files that it does not remove. -/
theorem Ok.step (h : fs.Ok) {fs' : FileSystem} {a : Action} (hstep : step fs a = some fs') :
  fs'.Ok ∧ ∀ name n, ¬ a.Removes name → fs.Has name n → fs'.Has name n
  := by
  cases a with
  | create g name n =>
      simp only [FileSystem.step] at hstep
      split at hstep
      · rename_i hn
        obtain ⟨fs₁, success, hcreate, hok, -, -, hkeeps⟩ := h.create g name hn
        rw [hcreate] at hstep
        obtain rfl := Option.some.inj hstep
        exact ⟨hok, fun name n _ => hkeeps name n⟩
      · contradiction
  | remove g name =>
      obtain ⟨fs₁, success, hremove, hok, -, hkeeps⟩ := h.remove g name
      simp only [FileSystem.step, hremove] at hstep
      obtain rfl := Option.some.inj hstep
      exact ⟨hok, hkeeps⟩
  | openFile g name handle =>
      obtain ⟨r, hopen, hr, -⟩ := h.openFile g name
      simp only [FileSystem.step, hopen] at hstep
      obtain rfl := Option.some.inj hstep
      constructor
      · constructor
        · apply h.layout
        · apply h.numSectors
        · apply h.size
        · apply h.freeMapFile
        · apply h.freeMapLength
        · apply h.directoryFile
        · apply h.directoryLength
        · intro handle' sector f hf
          by_cases hhandle : handle' = handle
          · subst hhandle
            have heq : Function.update fs.opened handle' r handle' = some (sector, f) := hf
            rw [Function.update_self] at heq
            apply hr sector f heq
          · have heq : Function.update fs.opened handle r handle' = some (sector, f) := hf
            rw [Function.update_of_ne hhandle] at heq
            apply h.opened handle' sector f heq
      · exact fun _ _ _ hhas => hhas
  | writeAt buf handle source numBytes position =>
      cases hf : fs.opened handle with
      | none => simp [FileSystem.step, FileSystem.writeAt, hf] at hstep
      | some p =>
          obtain ⟨hok, -, hkeeps⟩ := h.writeAt hf hstep
          exact ⟨hok, fun name n _ => hkeeps name n⟩

theorem Ok.run (h : fs.Ok) {fs' : FileSystem} {as : List Action}
    (hrun : Transition.run FileSystem.step fs as = some fs') :
  fs'.Ok
  := by
  apply Transition.run_invariant (I := Ok) _ h
    (Transition.along_of_forall (P := fun _ _ => True) _ _ _) hrun
  · intro s a s' hs _ hstep
    apply (hs.step hstep).1
  · intro _ _
    trivial

/-- A file stays in the directory until it is removed. -/
theorem Has.run {name : Bytes} {n : ℕ} (hhas : fs.Has name n) (h : fs.Ok) {fs' : FileSystem}
    {as : List Action} (hrun : Transition.run FileSystem.step fs as = some fs')
    (hremoves : ∀ a ∈ as, ¬ a.Removes name) :
  fs'.Has name n
  := by
  induction as generalizing fs with
  | nil =>
      obtain rfl := Option.some.inj hrun
      apply hhas
  | cons a as ih =>
      obtain ⟨fs₁, hstep, hrun⟩ := Transition.run_cons.mp hrun
      obtain ⟨hok, hkeeps⟩ := h.step hstep
      apply ih (hkeeps name n (hremoves a List.mem_cons_self) hhas) hok hrun
      intro b hb
      apply hremoves b (List.mem_cons_of_mem a hb)

/-- What memory holds when it has been cleared. -/
def zeros : Garbage := ⟨⟨fun _ => 0⟩, ⟨0, 0, fun _ => 0⟩, fun _ => 0⟩

end FileSystem

end Nachos.Filesys
