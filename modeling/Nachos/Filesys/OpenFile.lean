import Mathlib.Data.List.Nodup
import Nachos.Filesys.Basic

/-!
# Open files

A file is the sequence of the bytes in its data sectors. `ReadAt` reads the bytes at an offset of the
file, and `WriteAt` overwrites them and nothing else, although the disk only reads and writes whole
sectors.
-/

namespace Nachos.Filesys

/-- The data sectors of a file. -/
def FileHeader.sectors (hdr : FileHeader) : List ℕ :=
  (List.range hdr.numSectors).map hdr.dataSectors

/-- The bytes of a file. -/
def contents (disk : Disk) (hdr : FileHeader) : Bytes := fun o =>
  disk (hdr.dataSectors (o / SectorSize)) (o % SectorSize)

/-- A header with as many sectors as the file needs, which are different from each other. -/
structure FileHeader.Ok (hdr : FileHeader) : Prop where
  numSectors : hdr.numSectors = divRoundUp hdr.numBytes SectorSize
  size : hdr.numBytes ≤ MaxFileSize
  nodup : hdr.sectors.Nodup
  lt : ∀ s ∈ hdr.sectors, s < NumSectors

theorem FileHeader.mem_sectors {hdr : FileHeader} {s : ℕ} :
  s ∈ hdr.sectors ↔ ∃ i < hdr.numSectors, hdr.dataSectors i = s
  := by
  simp [FileHeader.sectors]

/-- The sector of an offset. -/
theorem div_lt_divRoundUp {o n : ℕ} (h : o < n) :
  o / SectorSize < divRoundUp n SectorSize
  := by
  rw [SectorSize, divRoundUp]
  split
  · omega
  · omega

namespace FileHeader.Ok

variable {hdr : FileHeader}

theorem dataSectors_lt (h : hdr.Ok) {i : ℕ} (hi : i < hdr.numSectors) :
  hdr.dataSectors i < NumSectors
  := h.lt _ (mem_sectors.mpr ⟨i, hi, rfl⟩)

theorem injective (h : hdr.Ok) {i j : ℕ} (hi : i < hdr.numSectors) (hj : j < hdr.numSectors)
    (heq : hdr.dataSectors i = hdr.dataSectors j) :
  i = j
  := List.inj_on_of_nodup_map h.nodup (List.mem_range.mpr hi) (List.mem_range.mpr hj) heq

/-- The sectors of a part of the file are sectors of the file. -/
theorem sector_lt (h : hdr.Ok) {o : ℕ} (ho : o < hdr.numBytes) :
  o / SectorSize < hdr.numSectors
  := h.numSectors ▸ div_lt_divRoundUp ho

end FileHeader.Ok

/-! ### Sectors of a file -/

namespace OpenFile

variable {f : OpenFile} {disk : Disk} {buf : Bytes}

theorem byteToSector_mul (hdr : FileHeader) (i : ℕ) :
  hdr.byteToSector (i * SectorSize) = hdr.dataSectors i
  := by
  rw [FileHeader.byteToSector, Nat.mul_div_cancel i (by decide)]

/-- After `k` iterations of the loop of `ReadAt`, the buffer holds `k` sectors. -/
theorem readSectors_spec (disk : Disk) (buf : Bytes) {firstSector k : ℕ}
    (hlt : ∀ i < k, f.hdr.dataSectors (firstSector + i) < NumSectors) :
  ∃ buf', readSectors disk f firstSector k buf = some buf' ∧
    ∀ o < k * SectorSize, buf' o = contents disk f.hdr (firstSector * SectorSize + o)
  := by
  induction k with
  | zero =>
      use buf, rfl
      intro o ho
      rw [Nat.zero_mul] at ho
      exact absurd ho (Nat.not_lt_zero o)
  | succ k ih =>
      obtain ⟨buf₁, hbuf₁, hread⟩ := ih (fun i hi => hlt i (by omega))
      rw [readSectors] at hbuf₁
      use copy (disk (f.hdr.dataSectors (firstSector + k))) SectorSize buf₁ (k * SectorSize)
      constructor
      · rw [readSectors, List.range_succ, List.foldlM_append, hbuf₁]
        simp [byteToSector_mul, readSector, hlt k (Nat.lt_succ_self k)]
      · intro o ho
        rw [copy]
        split
        · rename_i hin
          have hsector : (firstSector * SectorSize + o) / SectorSize = firstSector + k := by
            rw [SectorSize] at *
            omega
          have hoffset : (firstSector * SectorSize + o) % SectorSize = o - k * SectorSize := by
            rw [SectorSize] at *
            omega
          rw [contents, hsector, hoffset]
        · rename_i hout
          apply hread
          rw [SectorSize] at *
          omega

/-- After `k` iterations of the loop of `WriteAt`, `k` sectors have been written. -/
theorem writeSectors_spec (h : f.hdr.Ok) (disk : Disk) (buf : Bytes) {firstSector k : ℕ}
    (hle : firstSector + k ≤ f.hdr.numSectors) :
  ∃ disk', writeSectors f firstSector k buf disk = some disk' ∧
    (∀ i < k, disk' (f.hdr.dataSectors (firstSector + i)) = fun o => buf (i * SectorSize + o)) ∧
    ∀ s, (∀ i < k, s ≠ f.hdr.dataSectors (firstSector + i)) → disk' s = disk s
  := by
  induction k with
  | zero =>
      use disk, rfl
      constructor
      · intro i hi
        exact absurd hi (Nat.not_lt_zero i)
      · intro s _
        rfl
  | succ k ih =>
      obtain ⟨disk₁, hdisk₁, hwritten, hother⟩ := ih (by omega)
      rw [writeSectors] at hdisk₁
      use Function.update disk₁ (f.hdr.dataSectors (firstSector + k))
        (fun o => buf (k * SectorSize + o))
      refine ⟨?_, ?_, ?_⟩
      · rw [writeSectors, List.range_succ, List.foldlM_append, hdisk₁]
        have hlt : f.hdr.dataSectors (firstSector + k) < NumSectors := h.dataSectors_lt (by omega)
        simp [byteToSector_mul, writeSector, hlt]
      · intro i hi
        by_cases hik : i = k
        · subst hik
          apply Function.update_self
        · have hne : f.hdr.dataSectors (firstSector + i) ≠ f.hdr.dataSectors (firstSector + k) := by
            intro heq
            apply hik
            have hinj := h.injective (by omega) (by omega) heq
            omega
          rw [Function.update_of_ne hne]
          apply hwritten i (by omega)
      · intro s hs
        rw [Function.update_of_ne (hs k (Nat.lt_succ_self k))]
        apply hother s (fun i hi => hs i (by omega))

/-! ### Reading and writing -/

/-- The part of an access that is in the file. -/
def count (f : OpenFile) (numBytes position : ℕ) : ℕ := min numBytes (f.length - position)

theorem count_of_idle {numBytes position : ℕ} (h : f.Idle numBytes position) :
  f.count numBytes position = 0
  := by
  rw [Idle] at h
  rw [count]
  omega

theorem clip_eq {numBytes position : ℕ} (h : ¬ f.Idle numBytes position) :
  f.clip numBytes position = f.count numBytes position ∧ 0 < f.count numBytes position ∧
    position + f.count numBytes position ≤ f.length
  := by
  rw [Idle] at h
  rw [clip, count]
  split
  · omega
  · omega

/-- `ReadAt` reads the part of the file at an offset. -/
theorem readAt_spec (h : f.hdr.Ok) (disk : Disk) {numBytes position : ℕ} (hlt : position + numBytes < 2 ^ 31) :
  ∃ bytes, readAt disk f numBytes position = some (f.count numBytes position, bytes) ∧
    ∀ o < f.count numBytes position, bytes o = contents disk f.hdr (position + o)
  := by
  rw [readAt]
  by_cases hidle : f.Idle numBytes position
  · rw [if_pos hidle, count_of_idle hidle]
    use fun _ => 0, rfl
    intro o ho
    exact absurd ho (Nat.not_lt_zero o)
  · obtain ⟨hclip, hpos, hle⟩ := clip_eq hidle
    rw [if_neg hidle, if_neg (by omega), hclip]
    generalize hn : f.count numBytes position = n at *
    have hlast : (position + n - 1) / SectorSize < f.hdr.numSectors := by
      apply h.sector_lt
      rw [length] at hle
      omega
    have hfirst : position / SectorSize ≤ (position + n - 1) / SectorSize := by
      apply Nat.div_le_div_right
      omega
    have hsectors : ∀ i < 1 + (position + n - 1) / SectorSize - position / SectorSize,
        f.hdr.dataSectors (position / SectorSize + i) < NumSectors :=
      fun i hi => h.dataSectors_lt (by omega)
    obtain ⟨buf, hbuf, hread⟩ := readSectors_spec disk (fun _ => 0) hsectors
    use fun o => buf (position - position / SectorSize * SectorSize + o)
    simp only [hbuf, Option.bind_eq_bind, Option.bind_some, Option.pure_def, true_and]
    intro o ho
    rw [hread]
    · congr 1
      rw [SectorSize] at *
      omega
    · rw [SectorSize] at *
      omega

theorem readInto_spec (h : f.hdr.Ok) (disk : Disk) (memory : Bytes) (a : ℕ) {numBytes position : ℕ}
    (hlt : position + numBytes < 2 ^ 31) :
  ∃ memory', readInto disk f memory a numBytes position = some memory' ∧
    (∀ o < f.count numBytes position, memory' (a + o) = contents disk f.hdr (position + o)) ∧
    ∀ o, ¬ (a ≤ o ∧ o < a + f.count numBytes position) → memory' o = memory o
  := by
  obtain ⟨bytes, hread, hbytes⟩ := readAt_spec h disk hlt
  use copy bytes (f.count numBytes position) memory a
  refine ⟨?_, ?_, ?_⟩
  · rw [readInto, hread]
    rfl
  · intro o ho
    rw [copy, if_pos (by omega), Nat.add_sub_cancel_left]
    apply hbytes o ho
  · intro o ho
    apply if_neg ho

/-- A sector of the file is read into memory, as far as the file goes. -/
theorem readInto_sector (h : f.hdr.Ok) (disk : Disk) (memory : Bytes) (a : ℕ) {j : ℕ}
    (hj : j * SectorSize < f.length) :
  ∃ memory', readInto disk f memory a SectorSize (j * SectorSize) = some memory' ∧
    (∀ q, q / SectorSize = j → q < f.length →
      memory' (a + q % SectorSize) = contents disk f.hdr q) ∧
    ∀ o, o < a ∨ a + SectorSize ≤ o → memory' o = memory o
  := by
  have hsize : f.length ≤ 3840 := h.size
  have hlt : j * SectorSize + SectorSize < 2 ^ 31 := by
    rw [SectorSize] at *
    omega
  obtain ⟨memory', hread, hin, hout⟩ := readInto_spec h disk memory a hlt
  use memory', hread
  constructor
  · intro q hq hlength
    have hoffset : j * SectorSize + q % SectorSize = q := by
      rw [← hq]
      apply Nat.div_add_mod'
    rw [hin, hoffset]
    rw [count]
    rw [SectorSize] at *
    omega
  · intro o ho
    apply hout
    rw [count]
    omega

/-- The buffer of `WriteAt` for `n` bytes at `position`, when the sectors that are partially
overwritten have been read into it. -/
structure Prepared (disk : Disk) (f : OpenFile) (position n : ℕ) (buf : Bytes) : Prop where
  before : ∀ q, position / SectorSize * SectorSize ≤ q → q < position →
    buf (q - position / SectorSize * SectorSize) = contents disk f.hdr q
  after : ∀ q, position + n ≤ q → q < f.length → q / SectorSize = (position + n - 1) / SectorSize →
    buf (q - position / SectorSize * SectorSize) = contents disk f.hdr q

/-- The first sector is read unless it is overwritten from its beginning. -/
theorem prepared_first (h : f.hdr.Ok) (disk : Disk) (buf : Bytes) {position firstSector : ℕ}
    (hfirst : position / SectorSize = firstSector) (hlt : position < f.length) :
  ∃ buf₁, readSectorIf (¬ position = firstSector * SectorSize) disk f buf 0 firstSector = some buf₁ ∧
    (position ≠ firstSector * SectorSize → ∀ q, q / SectorSize = firstSector → q < f.length →
      buf₁ (q - firstSector * SectorSize) = contents disk f.hdr q)
  := by
  rw [readSectorIf]
  by_cases haligned : position = firstSector * SectorSize
  · rw [if_neg (not_not.mpr haligned)]
    use buf, rfl
    intro hne
    contradiction
  · rw [if_pos haligned]
    have hj : firstSector * SectorSize < f.length := by
      rw [SectorSize] at *
      omega
    obtain ⟨buf₁, hbuf₁, hin, -⟩ := readInto_sector h disk buf 0 hj
    use buf₁, hbuf₁
    intro _ q hq hlength
    have hoffset : q - firstSector * SectorSize = 0 + q % SectorSize := by
      rw [SectorSize] at *
      omega
    rw [hoffset]
    apply hin q hq hlength

/-- The last sector is read unless it is overwritten to its end or has been read. -/
theorem prepared_last (h : f.hdr.Ok) (disk : Disk) {buf₁ : Bytes} {position n first last : ℕ}
    (hfirst : position / SectorSize = first) (hlast : (position + n - 1) / SectorSize = last)
    (hn : 0 < n) (hle : position + n ≤ f.length)
    (hbuf₁ : position ≠ first * SectorSize → ∀ q, q / SectorSize = first → q < f.length →
      buf₁ (q - first * SectorSize) = contents disk f.hdr q) :
  ∃ buf₂, readSectorIf (¬ position + n = (last + 1) * SectorSize ∧
      (first ≠ last ∨ position = first * SectorSize)) disk f buf₁ ((last - first) * SectorSize) last =
        some buf₂ ∧
    Prepared disk f position n buf₂
  := by
  rw [readSectorIf]
  split
  · rename_i hread
    have hj : last * SectorSize < f.length := by
      rw [SectorSize] at *
      omega
    obtain ⟨buf₂, hbuf₂, hin, hout⟩ := readInto_sector h disk buf₁ ((last - first) * SectorSize) hj
    use buf₂, hbuf₂
    constructor
    · intro q hge hlt
      rw [hfirst] at hge ⊢
      rw [hout, hbuf₁]
      · rw [SectorSize] at *
        omega
      · rw [SectorSize] at *
        omega
      · omega
      · left
        rw [SectorSize] at *
        omega
    · intro q hge hlt hq
      rw [hlast] at hq
      rw [hfirst]
      have hoffset : q - first * SectorSize = (last - first) * SectorSize + q % SectorSize := by
        rw [SectorSize] at *
        omega
      rw [hoffset]
      apply hin q hq hlt
  · rename_i hread
    use buf₁, rfl
    constructor
    · intro q hge hlt
      rw [hfirst] at hge ⊢
      apply hbuf₁
      · rw [SectorSize] at *
        omega
      · rw [SectorSize] at *
        omega
      · omega
    · intro q hge hlt hq
      rw [hlast] at hq
      rw [hfirst]
      apply hbuf₁ _ q _ hlt
      · rw [SectorSize] at *
        omega
      · rw [SectorSize] at *
        omega

/-- `WriteAt` overwrites the part of the file at an offset. It changes nothing else of the file, and
no sector of another file. -/
theorem writeAt_spec (h : f.hdr.Ok) (disk : Disk) (buf source : Bytes) {numBytes position : ℕ}
    (hlt : position + numBytes < 2 ^ 31) :
  ∃ disk', writeAt buf disk f source numBytes position =
      some (f.count numBytes position, disk') ∧
    (∀ s, s ∉ f.hdr.sectors → disk' s = disk s) ∧
    ∀ q < f.length, contents disk' f.hdr q =
      if position ≤ q ∧ q < position + f.count numBytes position then source (q - position)
      else contents disk f.hdr q
  := by
  rw [writeAt]
  by_cases hidle : f.Idle numBytes position
  · rw [if_pos hidle, count_of_idle hidle]
    use disk, rfl
    constructor
    · intro s _
      rfl
    · intro q _
      rw [if_neg (by omega)]
  · obtain ⟨hclip, hpos, hle⟩ := clip_eq hidle
    rw [if_neg hidle, if_neg (by omega), hclip]
    generalize hn : f.count numBytes position = n at *
    generalize hfirst : position / SectorSize = first
    generalize hlast : (position + n - 1) / SectorSize = last
    have hfl : first ≤ last := by
      rw [← hfirst, ← hlast]
      apply Nat.div_le_div_right
      omega
    have hsector : last < f.hdr.numSectors := by
      rw [← hlast]
      apply h.sector_lt
      rw [length] at hle
      omega
    obtain ⟨buf₁, hbuf₁, hread₁⟩ := prepared_first h disk buf hfirst (by omega)
    obtain ⟨buf₂, hbuf₂, hprepared⟩ := prepared_last h disk hfirst hlast hpos hle hread₁
    have hcount : first + (1 + last - first) ≤ f.hdr.numSectors := by omega
    obtain ⟨disk', hdisk', hwritten, hother⟩ :=
      writeSectors_spec h disk (copy source n buf₂ (position - first * SectorSize)) hcount
    use disk'
    refine ⟨?_, ?_, ?_⟩
    · simp only [hlast, hbuf₁, hbuf₂, hdisk', Option.bind_eq_bind, Option.bind_some,
        Option.pure_def]
    · intro s hs
      apply hother
      intro i hi heq
      apply hs
      rw [heq]
      exact FileHeader.mem_sectors.mpr ⟨first + i, by omega, rfl⟩
    · intro q hq
      have hqsector : q / SectorSize < f.hdr.numSectors := h.sector_lt hq
      by_cases hin : first ≤ q / SectorSize ∧ q / SectorSize ≤ last
      · have hsame : first + (q / SectorSize - first) = q / SectorSize := by omega
        have hwrite := hwritten (q / SectorSize - first) (by omega)
        rw [hsame] at hwrite
        have hoffset : (q / SectorSize - first) * SectorSize + q % SectorSize =
            q - first * SectorSize := by
          rw [SectorSize] at *
          omega
        rw [contents, hwrite]
        simp only [hoffset]
        by_cases hpart : position ≤ q ∧ q < position + n
        · rw [if_pos hpart, copy, if_pos]
          · congr 1
            rw [SectorSize] at *
            omega
          · rw [SectorSize] at *
            omega
        · rw [if_neg hpart, copy, if_neg]
          · by_cases hbefore : q < position
            · rw [← hfirst]
              apply hprepared.before q _ hbefore
              rw [SectorSize] at *
              omega
            · rw [← hfirst]
              apply hprepared.after q (by omega) hq
              rw [SectorSize] at *
              omega
          · rw [SectorSize] at *
            omega
      · rw [if_neg]
        · rw [contents, contents, hother]
          intro i hi heq
          have hinj := h.injective hqsector (by omega) heq
          omega
        · rw [SectorSize] at *
          omega

/-- Whatever is written, no other sector changes. -/
theorem writeAt_other (h : f.hdr.Ok) {disk disk' : Disk} {buf source : Bytes}
    {numBytes position n : ℕ}
    (hwrite : writeAt buf disk f source numBytes position = some (n, disk')) {s : ℕ}
    (hs : s ∉ f.hdr.sectors) :
  disk' s = disk s
  := by
  by_cases hlt : position + numBytes < 2 ^ 31
  · obtain ⟨disk₁, hwrite₁, hother, -⟩ := writeAt_spec h disk buf source hlt
    rw [hwrite] at hwrite₁
    cases hwrite₁
    apply hother s hs
  · rw [writeAt] at hwrite
    split at hwrite
    · cases hwrite
      rfl
    · rw [if_pos (by omega)] at hwrite
      contradiction

end OpenFile

end Nachos.Filesys
