import Mathlib.Algebra.BigOperators.Group.List.Basic
import Nachos.Library.Words

/-!
# Converting object files

`bin/coff2noff.c`: the sections of a COFF file are gathered in the three segments of a NOFF file. The
bytes of code and of initialised data are copied behind the header. A file that is rejected is `none`.

The headers of the file and the names that are printed are left out. `sections` is the table of section
headers, `file` is the whole file.
-/

namespace Nachos.Coff2noff

/-- A section header. Sizes and positions in the file are not negative. -/
structure Section where
  s_name : String
  s_paddr : BitVec 32
  s_size : BitVec 32
  s_scnptr : BitVec 32
  size_lt : s_size.toNat < 2 ^ 31
  scnptr_lt : s_scnptr.toNat < 2 ^ 31

structure Segment where
  virtualAddr : BitVec 32
  inFileAddr : BitVec 32
  size : BitVec 32

structure NoffHeader where
  noffMagic : BitVec 32
  code : Segment
  initData : Segment
  uninitData : Segment

def NOFFMAGIC : BitVec 32 := 0xbadfad#32

/-- The header and what is written behind it. -/
structure Noff where
  noffH : NoffHeader
  body : List UInt8
  inNoffFile : BitVec 32

/-- `sizeof(NoffHeader)` -/
def headerSize : ℕ := 40

/-- The bytes of a section are read. The file may be too short. -/
def read (file : List UInt8) (s : Section) : Option (List UInt8) :=
  if s.s_scnptr.toNat + s.s_size.toNat ≤ file.length then
    some ((file.drop s.s_scnptr.toNat).take s.s_size.toNat)
  else none

/-- The segment of a section that is copied. -/
def Noff.copied (t : Noff) (s : Section) : Segment := ⟨s.s_paddr, t.inNoffFile, s.s_size⟩

/-- One iteration of the loop over the sections. -/
def convertSection (file : List UInt8) (t : Noff) (s : Section) : Option Noff :=
  if s.s_size = 0#32 then some t
  else if s.s_name = ".text" then do
    let buffer ← read file s
    return { t with
      noffH := { t.noffH with code := t.copied s }
      body := t.body ++ buffer
      inNoffFile := t.inNoffFile + s.s_size }
  else if s.s_name = ".data" ∨ s.s_name = ".rdata" then
    if t.noffH.initData.size ≠ 0#32 then none
    else do
      let buffer ← read file s
      return { t with
        noffH := { t.noffH with initData := t.copied s }
        body := t.body ++ buffer
        inNoffFile := t.inNoffFile + s.s_size }
  else if s.s_name = ".bss" ∨ s.s_name = ".sbss" then
    if t.noffH.uninitData.size ≠ 0#32 then
      if s.s_paddr = t.noffH.uninitData.virtualAddr + t.noffH.uninitData.size then none
      else some { t with noffH := { t.noffH with uninitData :=
        { t.noffH.uninitData with size := t.noffH.uninitData.size + s.s_size } } }
    else some { t with noffH := { t.noffH with uninitData :=
      { t.noffH.uninitData with virtualAddr := s.s_paddr, size := s.s_size } } }
  else none

/-- The header before the loop. It is allocated with what is in memory, `garbage`. -/
def initialHeader (garbage : NoffHeader) : NoffHeader where
  noffMagic := NOFFMAGIC
  code := { garbage.code with size := 0#32 }
  initData := { garbage.initData with size := 0#32 }
  uninitData := { garbage.uninitData with size := 0#32 }

def convertSections (file : List UInt8) (t : Noff) (sections : List Section) : Option Noff :=
  sections.foldlM (convertSection file) t

/-- `main`, from the loop on. -/
def convert (file : List UInt8) (garbage : NoffHeader) (sections : List Section) : Option Noff :=
  convertSections file ⟨initialHeader garbage, [], BitVec.ofNat 32 headerSize⟩ sections

def Segment.toBytes (segment : Segment) : List UInt8 :=
  Words.bytes 4 segment.virtualAddr.toNat ++ Words.bytes 4 segment.inFileAddr.toNat ++
    Words.bytes 4 segment.size.toNat

def NoffHeader.toBytes (noffH : NoffHeader) : List UInt8 :=
  Words.bytes 4 noffH.noffMagic.toNat ++ noffH.code.toBytes ++ noffH.initData.toBytes ++
    noffH.uninitData.toBytes

/-- The file that is written. -/
def Noff.toBytes (t : Noff) : List UInt8 := t.noffH.toBytes ++ t.body

/-! ### Kinds of sections -/

/-- What a section that is not empty becomes. -/
inductive Kind where
  | code
  | initData
  | uninitData
deriving DecidableEq

def Section.kind (s : Section) : Option Kind :=
  if s.s_size = 0#32 then none
  else if s.s_name = ".text" then some .code
  else if s.s_name = ".data" ∨ s.s_name = ".rdata" then some .initData
  else if s.s_name = ".bss" ∨ s.s_name = ".sbss" then some .uninitData
  else none

/-- The names that are known. -/
def Section.Named (s : Section) : Prop :=
  s.s_name ∈ [".text", ".data", ".rdata", ".bss", ".sbss"]

def count (kind : Kind) (sections : List Section) : ℕ :=
  sections.countP (fun s => s.kind = some kind)

/-! ### What should be converted -/

/-- Some further uninitialised section does not start where those before it end, at `next`. -/
def Gap : Option ℕ → List Section → Prop
  | _, [] => False
  | next, s :: sections =>
      if s.kind = some .uninitData then
        match next with
        | none => Gap (some (s.s_paddr.toNat + s.s_size.toNat)) sections
        | some next => s.s_paddr.toNat ≠ next ∨ Gap (some (next + s.s_size.toNat)) sections
      else Gap next sections

/-- The layouts that cannot be described by a header. -/
def ToReject (sections : List Section) : Prop := 2 ≤ count .initData sections ∨ Gap none sections

/-- The segment holds the section of its kind, and it is empty if there is none. -/
def Segment.Holds (segment : Segment) (t : Noff) (file : List UInt8) (kind : Kind)
    (sections : List Section) : Prop :=
  (count kind sections = 0 → segment.size = 0#32) ∧
    ∀ s ∈ sections, s.kind = some kind → segment.virtualAddr = s.s_paddr ∧ segment.size = s.s_size ∧
      (t.toBytes.drop segment.inFileAddr.toNat).take segment.size.toNat =
        (file.drop s.s_scnptr.toNat).take s.s_size.toNat

/-- The file that is written describes the program. -/
structure Noff.Describes (t : Noff) (file : List UInt8) (sections : List Section) : Prop where
  code : t.noffH.code.Holds t file .code sections
  initData : t.noffH.initData.Holds t file .initData sections
  uninitData : ∀ a : ℕ, t.noffH.uninitData.virtualAddr.toNat ≤ a ∧
      a < t.noffH.uninitData.virtualAddr.toNat + t.noffH.uninitData.size.toNat ↔
    ∃ s ∈ sections, s.kind = some .uninitData ∧
      s.s_paddr.toNat ≤ a ∧ a < s.s_paddr.toNat + s.s_size.toNat

/-- The file is converted as it should be. -/
def Converts (file : List UInt8) (garbage : NoffHeader) (sections : List Section) : Prop :=
  (ToReject sections → convert file garbage sections = none) ∧
    (¬ ToReject sections → ∃ t, convert file garbage sections = some t ∧ t.Describes file sections)

/-! ### One section -/

variable {file : List UInt8} {t t' : Noff} {s : Section} {sections : List Section}

/-- The bytes of the section are in the file. -/
def Present (file : List UInt8) (s : Section) : Prop :=
  s.kind = some .code ∨ s.kind = some .initData →
    s.s_scnptr.toNat + s.s_size.toNat ≤ file.length

def sectionBytes (file : List UInt8) (s : Section) : List UInt8 :=
  (file.drop s.s_scnptr.toNat).take s.s_size.toNat

theorem convertSection_of_empty (hnamed : s.Named) (hkind : s.kind = none) :
  convertSection file t s = some t
  := by
  have hempty : s.s_size = 0#32 := by
    by_contra hne
    rw [Section.kind, if_neg hne] at hkind
    simp only [Section.Named, List.mem_cons, List.not_mem_nil, or_false] at hnamed
    split_ifs at hkind
    simp_all
  rw [convertSection, if_pos hempty]

/-- The names of the kinds, and that there is something in the section. -/
theorem kind_iff (s : Section) (kind : Kind) :
  s.kind = some kind ↔ s.s_size ≠ 0#32 ∧
    match kind with
    | .code => s.s_name = ".text"
    | .initData => s.s_name ≠ ".text" ∧ (s.s_name = ".data" ∨ s.s_name = ".rdata")
    | .uninitData => s.s_name ≠ ".text" ∧ ¬ (s.s_name = ".data" ∨ s.s_name = ".rdata") ∧
        (s.s_name = ".bss" ∨ s.s_name = ".sbss")
  := by
  rw [Section.kind]
  cases kind <;> split_ifs <;> simp_all

theorem convertSection_code (hkind : s.kind = some .code) (hpresent : Present file s) :
  convertSection file t s = some { t with
    noffH := { t.noffH with code := t.copied s }
    body := t.body ++ sectionBytes file s
    inNoffFile := t.inNoffFile + s.s_size }
  := by
  obtain ⟨hsize, hname⟩ := (kind_iff s .code).mp hkind
  rw [convertSection, if_neg hsize, if_pos hname, read, if_pos (hpresent (.inl hkind))]
  rfl

theorem convertSection_initData (hkind : s.kind = some .initData) (hpresent : Present file s)
    (hsize : t.noffH.initData.size = 0#32) :
  convertSection file t s = some { t with
    noffH := { t.noffH with initData := t.copied s }
    body := t.body ++ sectionBytes file s
    inNoffFile := t.inNoffFile + s.s_size }
  := by
  obtain ⟨hne, hname, hdata⟩ := (kind_iff s .initData).mp hkind
  rw [convertSection, if_neg hne, if_neg hname, if_pos hdata, if_neg (not_not_intro hsize), read,
    if_pos (hpresent (.inr hkind))]
  rfl

theorem convertSection_second (hkind : s.kind = some .initData) (hsize : t.noffH.initData.size ≠ 0#32) :
  convertSection file t s = none
  := by
  obtain ⟨hne, hname, hdata⟩ := (kind_iff s .initData).mp hkind
  rw [convertSection, if_neg hne, if_neg hname, if_pos hdata, if_pos hsize]

theorem convertSection_missing (h : ¬ Present file s) :
  convertSection file t s = none
  := by
  obtain ⟨hkind, hlong⟩ := Classical.not_imp.mp h
  rcases hkind with hkind | hkind
  · obtain ⟨hsize, hname⟩ := (kind_iff s .code).mp hkind
    rw [convertSection, if_neg hsize, if_pos hname, read, if_neg hlong]
    rfl
  · obtain ⟨hne, hname, hdata⟩ := (kind_iff s .initData).mp hkind
    rw [convertSection, if_neg hne, if_neg hname, if_pos hdata, read, if_neg hlong]
    split <;> rfl

/-- The segment of uninitialised data with one more section. -/
def Segment.extend (segment : Segment) (s : Section) : Segment :=
  if segment.size = 0#32 then { segment with virtualAddr := s.s_paddr, size := s.s_size }
  else { segment with size := segment.size + s.s_size }

theorem convertSection_uninitData (hkind : s.kind = some .uninitData) :
  convertSection file t s =
    if t.noffH.uninitData.size ≠ 0#32 ∧
        s.s_paddr = t.noffH.uninitData.virtualAddr + t.noffH.uninitData.size then none
    else some { t with noffH := { t.noffH with uninitData := t.noffH.uninitData.extend s } }
  := by
  obtain ⟨hne, hname, hdata, hbss⟩ := (kind_iff s .uninitData).mp hkind
  rw [convertSection, if_neg hne, if_neg hname, if_neg hdata, if_pos hbss, Segment.extend]
  by_cases hsize : t.noffH.uninitData.size = 0#32
  · rw [if_neg (not_not_intro hsize), if_neg (fun h => h.1 hsize), if_pos hsize]
  · rw [if_pos hsize, if_neg hsize]
    by_cases hmeets : s.s_paddr = t.noffH.uninitData.virtualAddr + t.noffH.uninitData.size
    · rw [if_pos hmeets, if_pos ⟨hsize, hmeets⟩]
    · rw [if_neg hmeets, if_neg (fun h => hmeets h.2)]

/-! ### Files that are rejected -/

/-- Some further uninitialised section starts at `start + size`, where those before it end. -/
def Meets : BitVec 32 → BitVec 32 → List Section → Prop
  | _, _, [] => False
  | start, size, s :: sections =>
      if s.kind = some .uninitData then
        if size = 0#32 then Meets s.s_paddr s.s_size sections
        else s.s_paddr = start + size ∨ Meets start (size + s.s_size) sections
      else Meets start size sections

theorem convertSections_cons (file : List UInt8) (t : Noff) (s : Section) (sections : List Section) :
  convertSections file t (s :: sections) =
    (convertSection file t s).bind (fun t' => convertSections file t' sections)
  := rfl

theorem count_cons_of_ne {kind : Kind} (h : s.kind ≠ some kind) :
  count kind (s :: sections) = count kind sections
  := List.countP_cons_of_neg (by simpa using h)

theorem count_cons_of_eq {kind : Kind} (h : s.kind = some kind) :
  count kind (s :: sections) = count kind sections + 1
  := List.countP_cons_of_pos (by simpa using h)

theorem meets_cons_of_ne {start size : BitVec 32} (h : s.kind ≠ some .uninitData) :
  Meets start size (s :: sections) ↔ Meets start size sections
  := by
  rw [Meets, if_neg h]

/-- The sections that are rejected, when the loop starts with the segments of `t`. -/
theorem convertSections_eq_none_iff (hnamed : ∀ s ∈ sections, s.Named) :
  convertSections file t sections = none ↔
    (if t.noffH.initData.size = 0#32 then 2 else 1) ≤ count .initData sections ∨
      Meets t.noffH.uninitData.virtualAddr t.noffH.uninitData.size sections ∨
      ∃ s ∈ sections, ¬ Present file s
  := by
  induction sections generalizing t with
  | nil =>
      have hcount : ¬ (if t.noffH.initData.size = 0#32 then 2 else 1) ≤ count .initData [] := by
        split <;> simp [count]
      simp [convertSections, Meets, hcount]
  | cons s sections ih =>
      rw [List.forall_mem_cons] at hnamed
      have ih := fun t => ih (t := t) hnamed.2
      rw [convertSections_cons, List.exists_mem_cons_iff]
      by_cases hpresent : Present file s
      · rw [or_iff_right (not_not_intro hpresent)]
        cases hkind : s.kind with
        | none =>
            rw [convertSection_of_empty hnamed.1 hkind, Option.bind_some, ih,
              meets_cons_of_ne (by simp [hkind]), count_cons_of_ne (by simp [hkind])]
        | some kind =>
            cases kind with
            | code =>
                rw [convertSection_code hkind hpresent, Option.bind_some, ih,
                  meets_cons_of_ne (by simp [hkind]), count_cons_of_ne (by simp [hkind])]
            | initData =>
                have hsize := ((kind_iff s .initData).mp hkind).1
                rw [meets_cons_of_ne (by simp [hkind]), count_cons_of_eq hkind]
                by_cases hfirst : t.noffH.initData.size = 0#32
                · rw [convertSection_initData hkind hpresent hfirst, Option.bind_some, ih, if_pos hfirst]
                  simp [Noff.copied, hsize]
                · rw [convertSection_second hkind hfirst, Option.bind_none, if_neg hfirst]
                  simp
            | uninitData =>
                have hsize := ((kind_iff s .uninitData).mp hkind).1
                rw [convertSection_uninitData hkind, count_cons_of_ne (by simp [hkind]), Meets,
                  if_pos hkind]
                by_cases hfirst : t.noffH.uninitData.size = 0#32
                · rw [if_neg (fun h => h.1 hfirst), Option.bind_some, ih, if_pos hfirst]
                  simp [Segment.extend, hfirst]
                · rw [if_neg hfirst]
                  by_cases hmeets : s.s_paddr =
                      t.noffH.uninitData.virtualAddr + t.noffH.uninitData.size
                  · rw [if_pos ⟨hfirst, hmeets⟩]
                    simp [hmeets]
                  · rw [if_neg (fun h => hmeets h.2), Option.bind_some, ih, or_iff_right hmeets]
                    simp [Segment.extend, hfirst]
      · rw [convertSection_missing hpresent]
        simp [hpresent]

theorem not_meets_of_count_eq_zero {start size : BitVec 32} (h : count .uninitData sections = 0) :
  ¬ Meets start size sections
  := by
  induction sections with
  | nil => exact not_false
  | cons s sections ih =>
      by_cases hkind : s.kind = some .uninitData
      · rw [count_cons_of_eq hkind] at h
        contradiction
      · rw [count_cons_of_ne hkind] at h
        rw [meets_cons_of_ne hkind]
        exact ih h

/-- Where a segment without sections would start does not matter. -/
theorem meets_zero (start start' : BitVec 32) (sections : List Section) :
  Meets start 0#32 sections ↔ Meets start' 0#32 sections
  := by
  induction sections with
  | nil => rfl
  | cons s sections ih =>
      by_cases hkind : s.kind = some .uninitData
      · rw [Meets, Meets, if_pos hkind, if_pos hkind, if_pos rfl, if_pos rfl]
      · rw [meets_cons_of_ne hkind, meets_cons_of_ne hkind]
        exact ih

/-- A section that starts where it should is taken for one that does not. -/
theorem meets_of_not_gap {start size : BitVec 32} (hsize : size ≠ 0#32)
    (hgap : ¬ Gap (some (start.toNat + size.toNat)) sections)
    (hcount : 1 ≤ count .uninitData sections) :
  Meets start size sections
  := by
  induction sections with
  | nil => contradiction
  | cons s sections ih =>
      by_cases hkind : s.kind = some .uninitData
      · rw [Gap, if_pos hkind, not_or, ne_eq, not_not] at hgap
        rw [Meets, if_pos hkind, if_neg hsize]
        left
        apply BitVec.eq_of_toNat_eq
        have hlt := s.s_paddr.isLt
        rw [BitVec.toNat_add, hgap.1, Nat.mod_eq_of_lt (hgap.1 ▸ hlt)]
      · rw [Gap, if_neg hkind] at hgap
        rw [count_cons_of_ne hkind] at hcount
        rw [meets_cons_of_ne hkind]
        exact ih hgap hcount

theorem meets_iff_of_not_gap {start : BitVec 32} (hgap : ¬ Gap none sections) :
  Meets start 0#32 sections ↔ 2 ≤ count .uninitData sections
  := by
  induction sections with
  | nil => exact iff_of_false not_false (by simp [count])
  | cons s sections ih =>
      by_cases hkind : s.kind = some .uninitData
      · have hsize := ((kind_iff s .uninitData).mp hkind).1
        rw [Gap, if_pos hkind] at hgap
        rw [Meets, if_pos hkind, if_pos rfl, count_cons_of_eq hkind]
        constructor
        · intro hmeets
          by_contra hlt
          exact not_meets_of_count_eq_zero (by omega) hmeets
        · intro hcount
          exact meets_of_not_gap hsize hgap (by omega)
      · rw [Gap, if_neg hkind] at hgap
        rw [meets_cons_of_ne hkind, count_cons_of_ne hkind]
        exact ih hgap

/-! ### What is written -/

/-- The position in the file is the one behind what has been written. -/
def Noff.Located (t : Noff) : Prop := t.inNoffFile = BitVec.ofNat 32 (headerSize + t.body.length)

/-- The segment of a kind of sections. -/
def NoffHeader.segment (noffH : NoffHeader) : Kind → Segment
  | .code => noffH.code
  | .initData => noffH.initData
  | .uninitData => noffH.uninitData

theorem length_sectionBytes (hpresent : Present file s)
    (hkind : s.kind = some .code ∨ s.kind = some .initData) :
  (sectionBytes file s).length = s.s_size.toNat
  := by
  have hle := hpresent hkind
  rw [sectionBytes, List.length_take, List.length_drop]
  omega

/-- What an iteration does to the segments, and what it writes. -/
structure Converted (file : List UInt8) (t : Noff) (s : Section) (t' : Noff) : Prop where
  present : Present file s
  same : ∀ kind, s.kind ≠ some kind → t'.noffH.segment kind = t.noffH.segment kind
  copied : ∀ kind, kind = .code ∨ kind = .initData → s.kind = some kind →
    t'.noffH.segment kind = t.copied s
  extended : s.kind = some .uninitData →
    t'.noffH.uninitData = t.noffH.uninitData.extend s
  body : t'.body = t.body ++ if s.kind = some .code ∨ s.kind = some .initData then
    sectionBytes file s else []
  located : t.Located → t'.Located

theorem Converted.of_eq_some (hnamed : s.Named) (h : convertSection file t s = some t') :
  Converted file t s t'
  := by
  have hpresent : Present file s := by
    by_contra hmissing
    rw [convertSection_missing hmissing] at h
    contradiction
  have hlocated (hkind : s.kind = some .code ∨ s.kind = some .initData) (hl : t.Located) :
      t.inNoffFile + s.s_size =
        BitVec.ofNat 32 (headerSize + (t.body ++ sectionBytes file s).length) := by
    rw [List.length_append, length_sectionBytes hpresent hkind, ← Nat.add_assoc, BitVec.ofNat_add,
      ← hl, BitVec.ofNat_toNat, BitVec.setWidth_eq]
  cases hkind : s.kind with
  | none =>
      rw [convertSection_of_empty hnamed hkind] at h
      obtain rfl := Option.some.inj h
      refine ⟨hpresent, ?_, ?_, ?_, ?_, fun hl => hl⟩ <;> simp [hkind]
  | some kind =>
      cases kind with
      | code =>
          rw [convertSection_code hkind hpresent] at h
          obtain rfl := Option.some.inj h
          refine ⟨hpresent, ?_, ?_, by simp [hkind], by simp [hkind], hlocated (.inl hkind)⟩
          · intro kind hne
            cases kind <;> first | rfl | exact absurd hkind hne
          · intro kind _ hk
            obtain rfl : Kind.code = kind := Option.some.inj (hkind.symm.trans hk)
            rfl
      | initData =>
          have hsize : t.noffH.initData.size = 0#32 := by
            by_contra hne
            rw [convertSection_second hkind hne] at h
            contradiction
          rw [convertSection_initData hkind hpresent hsize] at h
          obtain rfl := Option.some.inj h
          refine ⟨hpresent, ?_, ?_, by simp [hkind], by simp [hkind], hlocated (.inr hkind)⟩
          · intro kind hne
            cases kind <;> first | rfl | exact absurd hkind hne
          · intro kind _ hk
            obtain rfl : Kind.initData = kind := Option.some.inj (hkind.symm.trans hk)
            rfl
      | uninitData =>
          rw [convertSection_uninitData hkind] at h
          split at h
          · contradiction
          · obtain rfl := Option.some.inj h
            refine ⟨hpresent, ?_, ?_, fun _ => rfl, by simp [hkind], fun hl => hl⟩
            · intro kind hne
              cases kind <;> first | rfl | exact absurd hkind hne
            · intro kind hcopied hk
              rw [hkind] at hk
              rcases hcopied with rfl | rfl <;> cases hk

theorem convertSections_cons_eq_some (hnamed : ∀ r ∈ s :: sections, r.Named)
    (h : convertSections file t (s :: sections) = some t') :
  ∃ t₁, Converted file t s t₁ ∧ convertSections file t₁ sections = some t'
  := by
  rw [convertSections_cons] at h
  obtain ⟨t₁, hstep, hrest⟩ := Option.bind_eq_some_iff.mp h
  exact ⟨t₁, .of_eq_some (hnamed s List.mem_cons_self) hstep, hrest⟩

/-- What the loop writes, and where it is then. -/
theorem body_convertSections (hnamed : ∀ s ∈ sections, s.Named) (hl : t.Located)
    (h : convertSections file t sections = some t') :
  t'.Located ∧ ∃ r, t'.body = t.body ++ r
  := by
  induction sections generalizing t with
  | nil =>
      obtain rfl := Option.some.inj h
      exact ⟨hl, [], (List.append_nil _).symm⟩
  | cons s sections ih =>
      obtain ⟨t₁, hstep, hrest⟩ := convertSections_cons_eq_some hnamed h
      obtain ⟨hl', r, hr⟩ := ih (fun s hs => hnamed s (List.mem_cons_of_mem _ hs))
        (hstep.located hl) hrest
      exact ⟨hl', _, by rw [hr, hstep.body, List.append_assoc]⟩

/-- A segment without sections of its kind is left as it is. -/
theorem segment_convertSections (hnamed : ∀ s ∈ sections, s.Named) {kind : Kind}
    (hcount : count kind sections = 0) (h : convertSections file t sections = some t') :
  t'.noffH.segment kind = t.noffH.segment kind
  := by
  induction sections generalizing t with
  | nil =>
      obtain rfl := Option.some.inj h
      rfl
  | cons s sections ih =>
      obtain ⟨t₁, hstep, hrest⟩ := convertSections_cons_eq_some hnamed h
      by_cases hkind : s.kind = some kind
      · rw [count_cons_of_eq hkind] at hcount
        contradiction
      · rw [count_cons_of_ne hkind] at hcount
        rw [ih (fun s hs => hnamed s (List.mem_cons_of_mem _ hs)) hcount hrest, hstep.same kind hkind]

theorem not_copied_of_count {kind : Kind} (h : count kind (s :: sections) = 0) :
  s.kind ≠ some kind ∧ count kind sections = 0
  := by
  by_cases hkind : s.kind = some kind
  · rw [count_cons_of_eq hkind] at h
    contradiction
  · exact ⟨hkind, count_cons_of_ne hkind ▸ h⟩

theorem body_of_count_eq_zero (hnamed : ∀ s ∈ sections, s.Named) (hcode : count .code sections = 0)
    (hdata : count .initData sections = 0) (h : convertSections file t sections = some t') :
  t'.body = t.body
  := by
  induction sections generalizing t with
  | nil =>
      obtain rfl := Option.some.inj h
      rfl
  | cons s sections ih =>
      obtain ⟨t₁, hstep, hrest⟩ := convertSections_cons_eq_some hnamed h
      obtain ⟨hcode, hcodes⟩ := not_copied_of_count hcode
      obtain ⟨hdata, hdatas⟩ := not_copied_of_count hdata
      rw [ih (fun s hs => hnamed s (List.mem_cons_of_mem _ hs)) hcodes hdatas hrest, hstep.body,
        if_neg (not_or.mpr ⟨hcode, hdata⟩), List.append_nil]

/-- At most one section is copied before another one. -/
theorem length_body_lt (hnamed : ∀ s ∈ sections, s.Named)
    (hcount : count .code sections + count .initData sections ≤ 1)
    (h : convertSections file t sections = some t') :
  t'.body.length < t.body.length + 2 ^ 31
  := by
  induction sections generalizing t with
  | nil =>
      obtain rfl := Option.some.inj h
      omega
  | cons s sections ih =>
      have hnamed' : ∀ s ∈ sections, s.Named := fun s hs => hnamed s (List.mem_cons_of_mem _ hs)
      obtain ⟨t₁, hstep, hrest⟩ := convertSections_cons_eq_some hnamed h
      by_cases hkind : s.kind = some .code ∨ s.kind = some .initData
      · have hzero : count .code sections = 0 ∧ count .initData sections = 0 := by
          rcases hkind with hkind | hkind
          · rw [count_cons_of_eq hkind, count_cons_of_ne (by simp [hkind])] at hcount
            omega
          · rw [count_cons_of_ne (by simp [hkind]), count_cons_of_eq hkind] at hcount
            omega
        have hsize := s.size_lt
        have htake : (sectionBytes file s).length ≤ s.s_size.toNat := List.length_take_le _ _
        rw [body_of_count_eq_zero hnamed' hzero.1 hzero.2 hrest, hstep.body, if_pos hkind,
          List.length_append]
        omega
      · obtain ⟨hcode, hdata⟩ := not_or.mp hkind
        rw [count_cons_of_ne hcode, count_cons_of_ne hdata] at hcount
        have hlt := ih hnamed' hcount hrest
        rwa [hstep.body, if_neg hkind, List.append_nil] at hlt

theorem convertSections_append (file : List UInt8) (t : Noff) (l₁ l₂ : List Section) :
  convertSections file t (l₁ ++ l₂) =
    (convertSections file t l₁).bind (fun t' => convertSections file t' l₂)
  := List.foldlM_append

theorem length_toBytes (noffH : NoffHeader) :
  noffH.toBytes.length = headerSize
  := by
  simp [NoffHeader.toBytes, Segment.toBytes, headerSize]

theorem count_append (kind : Kind) (l₁ l₂ : List Section) :
  count kind (l₁ ++ l₂) = count kind l₁ + count kind l₂
  := List.countP_append

/-- A segment that is copied from the only section of its kind. -/
theorem holds_segment {garbage : NoffHeader} (hnamed : ∀ s ∈ sections, s.Named) {kind : Kind}
    (hkind : kind = .code ∨ kind = .initData) (hcode : count .code sections ≤ 1)
    (hdata : count .initData sections ≤ 1) (h : convert file garbage sections = some t') :
  (t'.noffH.segment kind).Holds t' file kind sections
  := by
  constructor
  · intro hzero
    rw [segment_convertSections hnamed hzero h]
    rcases hkind with rfl | rfl <;> rfl
  · intro s hs hk
    obtain ⟨l₁, l₂, rfl⟩ := List.append_of_mem hs
    have hnamed₁ : ∀ s ∈ l₁, s.Named := fun s hs => hnamed s (List.mem_append_left _ hs)
    have hnamed₂ : ∀ r ∈ s :: l₂, r.Named := fun s hs => hnamed s (List.mem_append_right _ hs)
    rw [convert, convertSections_append] at h
    obtain ⟨t₁, hbefore, hrest⟩ := Option.bind_eq_some_iff.mp h
    obtain ⟨t₂, hstep, hafter⟩ := convertSections_cons_eq_some hnamed₂ hrest
    have hnamed₃ : ∀ s ∈ l₂, s.Named := fun s hs => hnamed₂ s (List.mem_cons_of_mem _ hs)
    have hcopied : s.kind = some .code ∨ s.kind = some .initData := by
      rcases hkind with rfl | rfl
      · exact .inl hk
      · exact .inr hk
    -- No other section is of this kind, and at most one is copied before this one.
    have hcounts : count .code l₁ + count .initData l₁ ≤ 1 ∧ count kind l₂ = 0 := by
      rw [count_append] at hcode hdata
      rcases hkind with rfl | rfl
      · rw [count_cons_of_eq hk] at hcode
        omega
      · rw [count_cons_of_eq hk] at hdata
        omega
    obtain ⟨hlocated, -⟩ := body_convertSections hnamed₁
      (by rw [Noff.Located, List.length_nil, Nat.add_zero]) hbefore
    have hlength := length_body_lt hnamed₁ hcounts.1 hbefore
    obtain ⟨-, r, hr⟩ := body_convertSections hnamed₃ (hstep.located hlocated) hafter
    have hsegment : t'.noffH.segment kind = t₁.copied s :=
      (segment_convertSections hnamed₃ hcounts.2 hafter).trans (hstep.copied kind hkind hk)
    have hposition : t₁.inNoffFile.toNat = headerSize + t₁.body.length := by
      rw [hlocated, BitVec.toNat_ofNat, headerSize]
      rw [List.length_nil] at hlength
      omega
    rw [hsegment]
    refine ⟨rfl, rfl, ?_⟩
    have hfile : t'.toBytes =
        (t'.noffH.toBytes ++ t₁.body) ++ (sectionBytes file s ++ r) := by
      rw [Noff.toBytes, hr, hstep.body, if_pos hcopied]
      simp only [List.append_assoc]
    have hoffset : t₁.inNoffFile.toNat = (t'.noffH.toBytes ++ t₁.body).length := by
      rw [hposition, List.length_append, length_toBytes]
    change (t'.toBytes.drop t₁.inNoffFile.toNat).take s.s_size.toNat = sectionBytes file s
    rw [hfile, hoffset, List.drop_left, ← length_sectionBytes hstep.present hcopied, List.take_left]

/-- The segment of uninitialised data, when there is at most one section. -/
theorem uninitData_convertSections (hnamed : ∀ s ∈ sections, s.Named)
    (hsize : t.noffH.uninitData.size = 0#32) (hcount : count .uninitData sections ≤ 1)
    (h : convertSections file t sections = some t') (a : ℕ) :
  t'.noffH.uninitData.virtualAddr.toNat ≤ a ∧
      a < t'.noffH.uninitData.virtualAddr.toNat + t'.noffH.uninitData.size.toNat ↔
    ∃ s ∈ sections, s.kind = some .uninitData ∧
      s.s_paddr.toNat ≤ a ∧ a < s.s_paddr.toNat + s.s_size.toNat
  := by
  induction sections generalizing t with
  | nil =>
      obtain rfl := Option.some.inj h
      rw [hsize]
      simp
  | cons s sections ih =>
      have hnamed' : ∀ s ∈ sections, s.Named := fun s hs => hnamed s (List.mem_cons_of_mem _ hs)
      obtain ⟨t₁, hstep, hrest⟩ := convertSections_cons_eq_some hnamed h
      rw [List.exists_mem_cons_iff]
      by_cases hkind : s.kind = some .uninitData
      · rw [count_cons_of_eq hkind] at hcount
        have hzero : count .uninitData sections = 0 := by omega
        have hsegment : t'.noffH.uninitData = t₁.noffH.uninitData :=
          segment_convertSections hnamed' hzero hrest
        have hother : ¬ ∃ r ∈ sections, r.kind = some .uninitData ∧
            r.s_paddr.toNat ≤ a ∧ a < r.s_paddr.toNat + r.s_size.toNat := by
          rintro ⟨r, hr, hkind, -⟩
          exact (List.countP_eq_zero.mp hzero r hr) (by simpa using hkind)
        rw [or_iff_left hother, and_iff_right hkind, hsegment, hstep.extended hkind, Segment.extend,
          if_pos hsize]
      · rw [count_cons_of_ne hkind] at hcount
        have hsame : t₁.noffH.uninitData = t.noffH.uninitData := hstep.same .uninitData hkind
        rw [or_iff_right (fun h => hkind h.1)]
        exact ih hnamed' (hsame ▸ hsize) hcount hrest

theorem convert_eq_none_iff (file : List UInt8) (garbage : NoffHeader)
    (hnamed : ∀ s ∈ sections, s.Named) :
  convert file garbage sections = none ↔
    2 ≤ count .initData sections ∨ Meets 0#32 0#32 sections ∨ ∃ s ∈ sections, ¬ Present file s
  := by
  rw [convert, convertSections_eq_none_iff hnamed, if_pos (by rfl)]
  exact or_congr_right (or_congr_left (meets_zero _ _ _))

/-- A file that should not be rejected is described, unless it is rejected. -/
theorem describes_of_eq_some {garbage : NoffHeader} (hnamed : ∀ s ∈ sections, s.Named)
    (hcode : count .code sections ≤ 1) (haccept : ¬ ToReject sections)
    (hcount : count .uninitData sections ≤ 1) (h : convert file garbage sections = some t) :
  t.Describes file sections
  := by
  obtain ⟨hdata, -⟩ := not_or.mp haccept
  have hdata' : count .initData sections ≤ 1 := by omega
  exact ⟨holds_segment hnamed (.inl rfl) hcode hdata' h, holds_segment hnamed (.inr rfl) hcode hdata' h,
    uninitData_convertSections hnamed rfl hcount h⟩

/-- The files that are converted as they should be. The check for further uninitialised sections is
the wrong way round. -/
theorem converts_iff (file : List UInt8) (garbage : NoffHeader) {sections : List Section}
    (hnamed : ∀ s ∈ sections, s.Named) (hcode : count .code sections ≤ 1) :
  Converts file garbage sections ↔
    ToReject sections ∧ (2 ≤ count .initData sections ∨ Meets 0#32 0#32 sections ∨
      ∃ s ∈ sections, ¬ Present file s) ∨
    ¬ ToReject sections ∧ count .uninitData sections ≤ 1 ∧ ∀ s ∈ sections, Present file s
  := by
  have hnone := convert_eq_none_iff file garbage hnamed
  rw [Converts]
  by_cases hreject : ToReject sections
  · simp only [hreject, not_true, false_and, or_false, true_and, forall_true_left, false_imp_iff,
      and_true]
    exact hnone
  · obtain ⟨hdata, hgap⟩ := not_or.mp hreject
    rw [or_iff_right hdata, meets_iff_of_not_gap hgap] at hnone
    simp only [hreject, not_false_iff, false_and, false_or, true_and, forall_true_left,
      false_imp_iff]
    constructor
    · rintro ⟨t, ht, -⟩
      have hsome : ¬ (2 ≤ count .uninitData sections ∨ ∃ s ∈ sections, ¬ Present file s) := by
        rw [← hnone, ht]
        exact nofun
      obtain ⟨hcount, hpresent⟩ := not_or.mp hsome
      exact ⟨by omega, fun s hs => by_contra (fun h => hpresent ⟨s, hs, h⟩)⟩
    · rintro ⟨hcount, hpresent⟩
      obtain ⟨t, ht⟩ : ∃ t, convert file garbage sections = some t := by
        apply Option.ne_none_iff_exists'.mp
        rw [ne_eq, hnone]
        rintro (hmore | ⟨s, hs, hmissing⟩)
        · omega
        · exact hmissing (hpresent s hs)
      exact ⟨t, ht, describes_of_eq_some hnamed hcode hreject hcount ht⟩

/-- What may be in memory before the header is written. -/
def zeros : NoffHeader :=
  ⟨0#32, ⟨0#32, 0#32, 0#32⟩, ⟨0#32, 0#32, 0#32⟩, ⟨0#32, 0#32, 0#32⟩⟩

def bss : Section := ⟨".bss", 0x400#32, 16#32, 0#32, by decide, by decide⟩

/-- A section that starts where `bss` ends. -/
def sbss : Section := ⟨".sbss", 0x410#32, 8#32, 0#32, by decide, by decide⟩

theorem kind_bss :
  bss.kind = some .uninitData
  := by
  simp [Section.kind, bss]

theorem kind_sbss :
  sbss.kind = some .uninitData
  := by
  simp [Section.kind, sbss]

theorem not_toReject_bss_sbss :
  ¬ ToReject [bss, sbss]
  := by
  simp [ToReject, count, Gap, kind_bss, kind_sbss]
  simp [bss, sbss]

/-- Two uninitialised sections, one behind the other, are rejected. -/
theorem not_converts :
  ¬ ∀ (file : List UInt8) (garbage : NoffHeader) (sections : List Section),
    (∀ s ∈ sections, s.Named) → count .code sections ≤ 1 → Converts file garbage sections
  := by
  intro h
  have hnamed : ∀ s ∈ [bss, sbss], s.Named := by simp [Section.Named, bss, sbss]
  have hconverts := h [] zeros [bss, sbss] hnamed (by simp [count, kind_bss, kind_sbss])
  obtain ⟨t, ht, -⟩ := hconverts.2 not_toReject_bss_sbss
  have hmeets : Meets 0#32 0#32 [bss, sbss] := by
    simp [Meets, kind_bss, kind_sbss]
    simp [bss, sbss]
  rw [(convert_eq_none_iff [] zeros hnamed).mpr (.inr (.inl hmeets))] at ht
  contradiction

theorem converts_iff_bss :
  Converts [] zeros [bss]
  := by
  apply (converts_iff [] zeros (by simp [Section.Named, bss]) (by simp [count, kind_bss])).mpr
  right
  simp [ToReject, count, Gap, kind_bss, Present]

end Nachos.Coff2noff
