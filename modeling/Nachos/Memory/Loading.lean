import Mathlib.Data.List.GetD
import Nachos.Library.Words
import Nachos.Memory.Coherence

/-!
# Loading executables

`coff2noff` (`bin/coff2noff.c`) converts an object file to the format of Nachos: a header with the
places of three segments, the code, and the initialised data. The constructor of an address space
(`userprog/addrspace.cc`) takes the sizes from the header. Apart from that the header is not used:
page `i` is what the file holds from `40 + i * PageSize` on.

When the linker has laid out the sections as `test/newscript` says, the first page fault for a page
reads what it would hold if the segments had been copied to their virtual addresses, and the rest of
memory were zero (`VM.first_fault`).

The headers of an object file are given by what `coff2noff` uses of them. The host has the byte order
of the simulated machine, and a `long` has 32 bits.
-/

namespace Nachos.Memory

/-! ### Object files -/

/-- The header of a section, `scnhdr`. -/
structure Scnhdr where
  sName : String
  sPaddr : ℕ
  sSize : ℕ
  sScnptr : ℕ

/-- An object file: the numbers of the file header and of the system header, the section headers, and
all its bytes. -/
structure Coff where
  fMagic : ℕ
  magic : ℕ
  sections : List Scnhdr
  contents : List UInt8

structure Segment where
  virtualAddr : ℕ
  inFileAddr : ℕ
  size : ℕ

structure NoffHeader where
  noffMagic : ℕ
  code : Segment
  initData : Segment
  uninitData : Segment

def mipselMagic : ℕ := 0x0162

def oMagic : ℕ := 0o407

def noffMagicNumber : ℕ := 0xbadfad

namespace NoffHeader

def words (h : NoffHeader) : List ℕ :=
  [h.noffMagic, h.code.virtualAddr, h.code.inFileAddr, h.code.size, h.initData.virtualAddr,
    h.initData.inFileAddr, h.initData.size, h.uninitData.virtualAddr, h.uninitData.inFileAddr,
    h.uninitData.size]

/-- The header of a file. -/
def read (file : List UInt8) : NoffHeader where
  noffMagic := Words.word file 0
  code := ⟨Words.word file 1, Words.word file 2, Words.word file 3⟩
  initData := ⟨Words.word file 4, Words.word file 5, Words.word file 6⟩
  uninitData := ⟨Words.word file 7, Words.word file 8, Words.word file 9⟩

/-- A header that has been written is read back, as far as words go. -/
theorem read_encode (h : NoffHeader) (rest : List UInt8) :
  read (Words.encode h.words ++ rest) =
    { noffMagic := h.noffMagic % 2 ^ 32
      code := ⟨h.code.virtualAddr % 2 ^ 32, h.code.inFileAddr % 2 ^ 32, h.code.size % 2 ^ 32⟩
      initData := ⟨h.initData.virtualAddr % 2 ^ 32, h.initData.inFileAddr % 2 ^ 32,
        h.initData.size % 2 ^ 32⟩
      uninitData := ⟨h.uninitData.virtualAddr % 2 ^ 32, h.uninitData.inFileAddr % 2 ^ 32,
        h.uninitData.size % 2 ^ 32⟩ }
  := by
  have hword : ∀ i (hi : i < h.words.length), Words.word (Words.encode h.words ++ rest) i =
      h.words[i] % 2 ^ 32 := fun i hi => Words.word_encode_append _ _ hi
  simp only [words, List.length_cons, List.length_nil] at hword
  simp [read, words, hword]

end NoffHeader

/-! ### The converter -/

namespace Coff

/-- The state of the loop of `main`: the header, what has been written behind it, and where the next
segment goes. -/
structure Writer where
  noffH : NoffHeader
  out : List UInt8
  inNoffFile : ℕ

/-- `size` bytes at `offset`. It is `none` where the file is too short. -/
def readBytes (contents : List UInt8) (offset size : ℕ) : Option (List UInt8) :=
  if offset + size ≤ contents.length then some ((contents.drop offset).take size) else none

/-- The segment of a section is copied. -/
def copySegment (contents : List UInt8) (s : Scnhdr) (w : Writer) : Option (Writer × Segment) := do
  let buffer ← readBytes contents s.sScnptr s.sSize
  return ({ w with out := w.out ++ buffer, inNoffFile := w.inNoffFile + s.sSize },
    ⟨s.sPaddr, w.inNoffFile, s.sSize⟩)

/-- One iteration of the loop of `main`. It is `none` where the program exits with an error. -/
def copySection (contents : List UInt8) (w : Writer) (s : Scnhdr) : Option Writer :=
  if s.sSize = 0 then some w
  else if s.sName = ".text" then do
    let (w, segment) ← copySegment contents s w
    return { w with noffH := { w.noffH with code := segment } }
  else if s.sName = ".data" ∨ s.sName = ".rdata" then
    if w.noffH.initData.size ≠ 0 then none
    else do
      let (w, segment) ← copySegment contents s w
      return { w with noffH := { w.noffH with initData := segment } }
  else if s.sName = ".bss" ∨ s.sName = ".sbss" then
    let uninitData := w.noffH.uninitData
    if uninitData.size ≠ 0 then
      if s.sPaddr = uninitData.virtualAddr + uninitData.size then none
      else some { w with noffH := { w.noffH with
        uninitData := { uninitData with size := uninitData.size + s.sSize } } }
    else some { w with noffH := { w.noffH with
      uninitData := { uninitData with virtualAddr := s.sPaddr, size := s.sSize } } }
  else none

/-- The header before the loop. The fields that are not set are those of `g`. -/
def emptyHeader (g : NoffHeader) : NoffHeader where
  noffMagic := noffMagicNumber
  code := { g.code with size := 0 }
  initData := { g.initData with size := 0 }
  uninitData := { g.uninitData with size := 0 }

/-- `main`: the file that is written. It is `none` where the program exits with an error. -/
def coff2noff (g : NoffHeader) (coff : Coff) : Option (List UInt8) :=
  if coff.fMagic ≠ mipselMagic then none
  else if coff.magic ≠ oMagic then none
  else do
    let w ← coff.sections.foldlM (copySection coff.contents) ⟨emptyHeader g, [], headerSize⟩
    return Words.encode w.noffH.words ++ w.out

/-- The sections that are not empty are laid out as `test/newscript` says: the text at address `0`,
directly after it the initialised data, and directly after that `bss` bytes of other data. A size is
a `long`, and the sections fit in an address space of 32 bits. -/
structure Newscript (coff : Coff) (text data : List UInt8) (bss : ℕ) : Prop where
  sections : ∃ textptr dataptr bssptr,
    readBytes coff.contents textptr text.length = some text ∧
    readBytes coff.contents dataptr data.length = some data ∧
    coff.sections.filter (fun s => s.sSize ≠ 0) =
      [⟨".text", 0, text.length, textptr⟩, ⟨".data", text.length, data.length, dataptr⟩,
        ⟨".bss", text.length + data.length, bss, bssptr⟩].filter (fun s => s.sSize ≠ 0)
  sizes : text.length < 2 ^ 31 ∧ data.length < 2 ^ 31 ∧ bss < 2 ^ 31
  total : text.length + data.length + bss < 2 ^ 32

end Coff

/-! ### The constructor -/

def userStackSize : ℕ := 1024

def divRoundUp (n s : ℕ) : ℕ := n / s + if n % s > 0 then 1 else 0

/-- The constructor of an address space. It is `none` where the assertion about the header fails. -/
def AddrSpace.load (g : AddrSpace.Garbage) (executable : List UInt8) : Option AddrSpace :=
  let noffH := NoffHeader.read executable
  let size := (noffH.code.size + noffH.initData.size + noffH.uninitData.size) % 2 ^ 32
  if noffH.noffMagic = noffMagicNumber then
    some (AddrSpace.new g executable (divRoundUp size PageSize + divRoundUp userStackSize PageSize))
  else none

/-- The memory of a program whose segments have been copied to their virtual addresses, and which is
zero everywhere else. -/
def segmentImage (executable : List UInt8) (a : ℕ) : UInt8 :=
  let noffH := NoffHeader.read executable
  let within := fun (s : Segment) => s.virtualAddr ≤ a ∧ a < s.virtualAddr + s.size
  if within noffH.code then
    executable.getD (noffH.code.inFileAddr + (a - noffH.code.virtualAddr)) 0
  else if within noffH.initData then
    executable.getD (noffH.initData.inFileAddr + (a - noffH.initData.virtualAddr)) 0
  else 0

namespace Coff

variable {g : NoffHeader} {coff : Coff} {text data noff : List UInt8} {bss : ℕ}

/-! ### The file that is written -/

theorem copySection_empty {contents : List UInt8} {w : Writer} {s : Scnhdr} (h : s.sSize = 0) :
  copySection contents w s = some w
  := if_pos h

/-- Empty sections are skipped. -/
theorem foldlM_copySection (contents : List UInt8) (sections : List Scnhdr) (w : Writer) :
  (sections.filter (fun s => s.sSize ≠ 0)).foldlM (copySection contents) w =
    sections.foldlM (copySection contents) w
  := by
  induction sections generalizing w with
  | nil => rfl
  | cons s sections ih =>
      by_cases hs : s.sSize = 0
      · rw [List.filter_cons_of_neg (by simpa using hs), ih, List.foldlM_cons,
          copySection_empty hs]
        rfl
      · rw [List.filter_cons_of_pos (by simpa using hs), List.foldlM_cons, List.foldlM_cons]
        congr 1
        funext w'
        exact ih w'

/-- The header of the file: the segments that are not empty are where they have been written. -/
structure Header (text data : List UInt8) (bss : ℕ) (h : NoffHeader) : Prop where
  noffMagic : h.noffMagic = noffMagicNumber
  code : text ≠ [] → h.code.virtualAddr = 0 ∧ h.code.inFileAddr = headerSize
  codeSize : h.code.size = text.length
  initData : data ≠ [] → h.initData.virtualAddr = text.length ∧
    h.initData.inFileAddr = headerSize + text.length
  initDataSize : h.initData.size = data.length
  uninitDataSize : h.uninitData.size = bss

/-- The text is copied, if there is any. -/
theorem copySection_text {contents : List UInt8} {w w' : Writer} {p ptr : ℕ}
    (hread : readBytes contents ptr text.length = some text)
    (hstep : copySection contents w ⟨".text", p, text.length, ptr⟩ = some w') :
  w'.out = w.out ++ text ∧ w'.inNoffFile = w.inNoffFile + text.length ∧
    w'.noffH = if text = [] then w.noffH
      else { w.noffH with code := ⟨p, w.inNoffFile, text.length⟩ }
  := by
  by_cases htext : text = []
  · subst htext
    rw [copySection_empty rfl] at hstep
    obtain rfl := Option.some.inj hstep
    simp
  · have hlength : text.length ≠ 0 := by simpa using htext
    simp only [copySection, hlength, if_false, if_true, copySegment, hread, Option.pure_def,
      Option.bind_eq_bind, Option.bind_some] at hstep
    obtain rfl := Option.some.inj hstep
    simp [htext]

/-- The initialised data is copied, if there is any. -/
theorem copySection_data {contents : List UInt8} {w w' : Writer} {p ptr : ℕ}
    (hread : readBytes contents ptr data.length = some data)
    (hstep : copySection contents w ⟨".data", p, data.length, ptr⟩ = some w') :
  w'.out = w.out ++ data ∧
    w'.noffH = if data = [] then w.noffH
      else { w.noffH with initData := ⟨p, w.inNoffFile, data.length⟩ }
  := by
  by_cases hdata : data = []
  · subst hdata
    rw [copySection_empty rfl] at hstep
    obtain rfl := Option.some.inj hstep
    simp
  · have hlength : data.length ≠ 0 := by simpa using hdata
    have hname : ¬ ".data" = ".text" := by decide
    simp only [copySection, hlength, hname, if_false, true_or, if_true] at hstep
    split at hstep
    · cases hstep
    · simp only [copySegment, hread, Option.pure_def, Option.bind_eq_bind,
        Option.bind_some] at hstep
      obtain rfl := Option.some.inj hstep
      simp [hdata]

/-- The other data is not copied. -/
theorem copySection_bss {contents : List UInt8} {w w' : Writer} {p ptr : ℕ}
    (hsize : w.noffH.uninitData.size = 0)
    (hstep : copySection contents w ⟨".bss", p, bss, ptr⟩ = some w') :
  w'.out = w.out ∧ w'.noffH.noffMagic = w.noffH.noffMagic ∧ w'.noffH.code = w.noffH.code ∧
    w'.noffH.initData = w.noffH.initData ∧ w'.noffH.uninitData.size = bss
  := by
  by_cases hbss : bss = 0
  · subst hbss
    rw [copySection_empty rfl] at hstep
    obtain rfl := Option.some.inj hstep
    exact ⟨rfl, rfl, rfl, rfl, hsize⟩
  · have htext : ¬ ".bss" = ".text" := by decide
    have hdata : ¬ (".bss" = ".data" ∨ ".bss" = ".rdata") := by decide
    simp only [copySection, hbss, htext, hdata, if_false, true_or, if_true, hsize, ne_eq,
      not_true_eq_false] at hstep
    obtain rfl := Option.some.inj hstep
    exact ⟨rfl, rfl, rfl, rfl, rfl⟩

/-- What the loop has written in the end. -/
theorem Newscript.foldlM (h : coff.Newscript text data bss) {w : Writer}
    (hloop : coff.sections.foldlM (copySection coff.contents) ⟨emptyHeader g, [], headerSize⟩ =
      some w) :
  Header text data bss w.noffH ∧ w.out = text ++ data
  := by
  obtain ⟨textptr, dataptr, bssptr, htext, hdata, hsections⟩ := h.sections
  rw [← foldlM_copySection, hsections, foldlM_copySection] at hloop
  obtain ⟨w₁, hw₁, hloop⟩ := Option.bind_eq_some_iff.mp hloop
  obtain ⟨w₂, hw₂, hloop⟩ := Option.bind_eq_some_iff.mp hloop
  obtain ⟨w₃, hw₃, heq⟩ := Option.bind_eq_some_iff.mp hloop
  obtain rfl := Option.some.inj heq
  obtain ⟨hout₁, hnext₁, hheader₁⟩ := copySection_text htext hw₁
  obtain ⟨hout₂, hheader₂⟩ := copySection_data hdata hw₂
  have hempty : w₂.noffH.uninitData.size = 0 := by
    rw [hheader₂, hheader₁]
    split <;> split <;> rfl
  obtain ⟨hout₃, hmagic, hcode, hinit, huninit⟩ := copySection_bss hempty hw₃
  refine ⟨⟨?_, ?_, ?_, ?_, ?_, huninit⟩, ?_⟩
  · rw [hmagic, hheader₂, hheader₁]
    split <;> split <;> rfl
  · intro hne
    rw [hcode, hheader₂, hheader₁, if_neg hne]
    split <;> exact ⟨rfl, rfl⟩
  · rw [hcode, hheader₂, hheader₁]
    by_cases hne : text = []
    · rw [if_pos hne, hne]
      split <;> rfl
    · rw [if_neg hne]
      split <;> rfl
  · intro hne
    rw [hinit, hheader₂, if_neg hne, hnext₁]
    exact ⟨rfl, rfl⟩
  · rw [hinit, hheader₂]
    by_cases hne : data = []
    · rw [if_pos hne, hne, hheader₁]
      split <;> rfl
    · rw [if_neg hne]
  · rw [hout₃, hout₂, hout₁]
    rfl

/-- The file that is written is a header with the segments behind it. -/
theorem Newscript.coff2noff (h : coff.Newscript text data bss)
    (hconvert : coff2noff g coff = some noff) :
  Header text data bss (NoffHeader.read noff) ∧ ∀ a,
    noff.getD (headerSize + a) 0 = (text ++ data).getD a 0
  := by
  rw [Coff.coff2noff] at hconvert
  split at hconvert
  · cases hconvert
  · split at hconvert
    · cases hconvert
    · obtain ⟨w, hw, heq⟩ := Option.bind_eq_some_iff.mp hconvert
      obtain rfl := Option.some.inj heq
      obtain ⟨hheader, hout⟩ := h.foldlM hw
      obtain ⟨htext, hdata, hbss⟩ := h.sizes
      rw [NoffHeader.read_encode]
      constructor
      · constructor
        · simp only [hheader.noffMagic]
          rfl
        · intro hne
          simp only [(hheader.code hne).1, (hheader.code hne).2]
          exact ⟨rfl, rfl⟩
        · simp only [hheader.codeSize]
          exact Nat.mod_eq_of_lt (by omega)
        · intro hne
          simp only [(hheader.initData hne).1, (hheader.initData hne).2]
          rw [headerSize]
          exact ⟨Nat.mod_eq_of_lt (by omega), Nat.mod_eq_of_lt (by omega)⟩
        · simp only [hheader.initDataSize]
          exact Nat.mod_eq_of_lt (by omega)
        · simp only [hheader.uninitDataSize]
          exact Nat.mod_eq_of_lt (by omega)
      · intro a
        have hlength : (Words.encode w.noffH.words).length = headerSize := by
          rw [Words.length_encode]
          rfl
        rw [List.getD_append_right _ _ _ _ (by omega), hlength, Nat.add_sub_cancel_left, hout]

/-- The segments are the file behind the header. -/
theorem Newscript.segmentImage (h : coff.Newscript text data bss)
    (hconvert : Coff.coff2noff g coff = some noff) (a : ℕ) :
  segmentImage noff a = noff.getD (headerSize + a) 0
  := by
  obtain ⟨hheader, hfile⟩ := h.coff2noff hconvert
  rw [hfile, Memory.segmentImage]
  simp only [hheader.codeSize, hheader.initDataSize]
  by_cases htext : a < text.length
  · have hne : text ≠ [] := by
      rintro rfl
      exact Nat.not_lt_zero a htext
    obtain ⟨haddr, hptr⟩ := hheader.code hne
    rw [if_pos (by omega), haddr, hptr, Nat.sub_zero, hfile]
  · have hcode : ¬ ((NoffHeader.read noff).code.virtualAddr ≤ a ∧
        a < (NoffHeader.read noff).code.virtualAddr + text.length) := by
      rintro ⟨hle, hlt⟩
      by_cases hne : text = []
      · simp only [hne, List.length_nil] at hlt
        omega
      · rw [(hheader.code hne).1] at hlt
        omega
    rw [if_neg hcode]
    by_cases hdata : a < text.length + data.length
    · have hne : data ≠ [] := by
        rintro rfl
        simp only [List.length_nil] at hdata
        omega
      obtain ⟨haddr, hptr⟩ := hheader.initData hne
      rw [if_pos (by omega), haddr, hptr, Nat.add_assoc, hfile]
      congr 1
      omega
    · have hinit : ¬ ((NoffHeader.read noff).initData.virtualAddr ≤ a ∧
          a < (NoffHeader.read noff).initData.virtualAddr + data.length) := by
        rintro ⟨hle, hlt⟩
        by_cases hne : data = []
        · simp only [hne, List.length_nil] at hlt
          omega
        · rw [(hheader.initData hne).1] at hlt
          omega
      rw [if_neg hinit, List.getD_eq_default]
      rw [List.length_append]
      omega

end Coff

/-! ### Pages that have not been in memory -/

/-- Page `i` is to be read from the executable `noff`. -/
structure AddrSpace.Pristine (noff : List UInt8) (i : ℕ) (sp : AddrSpace) : Prop where
  lt : i < sp.numPages
  executable : sp.executable = noff
  location : (sp.pageTable i).location = .executable
  byteOffset : (sp.pageTable i).byteOffset = headerSize + i * PageSize

/-- Every page of a new address space is. -/
theorem AddrSpace.load_pristine {g : AddrSpace.Garbage} {noff : List UInt8} {sp : AddrSpace} {i : ℕ}
    (h : AddrSpace.load g noff = some sp) (hi : i < sp.numPages) :
  sp = AddrSpace.new g noff sp.numPages ∧ sp.Pristine noff i
  := by
  simp only [AddrSpace.load] at h
  split at h
  · obtain rfl := Option.some.inj h
    exact ⟨rfl, hi, rfl, rfl, rfl⟩
  · contradiction

namespace VM

variable {PRand : Bool} {S i : ℕ} {noff : List UInt8}

/-- The address space `S` exists, and its page `i` is in no frame. -/
structure Outside (m : VM) (S i : ℕ) : Prop where
  live : (m.spaces S).isSome
  frames : ∀ f, ¬ m.Holds f S i

/-- Page `i` of the address space `S` is to be read from the executable `noff`. -/
def Pristine (m : VM) (S i : ℕ) (noff : List UInt8) : Prop :=
  ∀ sp, m.spaces S = some sp → sp.Pristine noff i

theorem SamePlace.pristine {noff : List UInt8} {i : ℕ} {sp sp' : AddrSpace}
    (hsame : SamePlace sp sp' i) (h : sp.Pristine noff i) :
  sp'.Pristine noff i
  := by
  constructor
  · rw [hsame.numPages]
    apply h.lt
  · rw [hsame.executable]
    apply h.executable
  · rw [hsame.location]
    apply h.location
  · rw [hsame.byteOffset]
    apply h.byteOffset

theorem Pristine.of_place {m m' : VM} (h : m.Pristine S i noff)
    (hplace : ∀ sp', m'.spaces S = some sp' → ∃ sp, m.spaces S = some sp ∧ SamePlace sp sp' i) :
  m'.Pristine S i noff
  := by
  intro sp' hsp'
  obtain ⟨sp, hsp, hsame⟩ := hplace sp' hsp'
  apply hsame.pristine (h sp hsp)

/-- One address space is overwritten, by one that still has the page to be read. -/
theorem Pristine.of_update {m m' : VM} {T : ℕ} {tp tp' : AddrSpace} (h : m.Pristine S i noff)
    (hT : m.spaces T = some tp) (hspaces : m'.spaces = Function.update m.spaces T (some tp'))
    (hpage : tp.Pristine noff i → tp'.Pristine noff i) :
  m'.Pristine S i noff
  := by
  intro sp hsp
  rw [hspaces, Function.update_apply] at hsp
  split at hsp
  · rename_i hST
    obtain rfl := Option.some.inj hsp
    subst hST
    apply hpage (h tp hT)
  · apply h sp hsp

theorem Pristine.congr {m m' : VM} (h : m.Pristine S i noff)
    (hspaces : m'.spaces S = m.spaces S) :
  m'.Pristine S i noff
  := by
  intro sp hsp
  apply h sp
  rw [← hspaces, hsp]

/-- When a page is evicted, the other pages stay where they are. -/
theorem Pristine.evicted {m m₁ : VM} {T v f : ℕ} {tp : AddrSpace} (h : m.Pristine S i noff)
    (hT : m.spaces T = some tp) (hne : ¬ (S = T ∧ i = v)) (hstep : m.evicted f T v tp = some m₁) :
  m₁.Pristine S i noff
  := by
  rw [VM.evicted, invalidateTLB_eq] at hstep
  split at hstep
  · obtain ⟨l, -, rfl⟩ := Option.map_eq_some_iff.mp hstep
    apply h.of_place
    intro sp' hsp'
    apply place_swappedPage hT rfl hsp' hne
  · obtain rfl := Option.some.inj hstep
    apply h.of_update hT rfl
    apply SamePlace.pristine
    apply samePlace_setPage
    all_goals rfl

/-- The page that is evicted to make room is another one. -/
theorem Pristine.freed {rand f : ℕ} {m m₁ : VM} (h : m.Pristine S i noff)
    (hout : m.Outside S i) (hfreed : Freed PRand rand m m₁ f) :
  m₁.Pristine S i noff
  := by
  cases hfreed with
  | free hfind => apply h
  | @full m₁ T v tp hfind hholds hT hevicted =>
      have hne : ¬ (S = T ∧ i = v) := by
        rintro ⟨rfl, rfl⟩
        apply hout.frames _ hholds
      apply Pristine.evicted _ _ hne hevicted
      · apply h
      · apply hT

/-- Reading a page changes no places. -/
theorem Pristine.iptMiss {m : VM} {T v f : ℕ} {tp : AddrSpace} (h : m.Pristine S i noff)
    (hT : m.spaces T = some tp) :
  (m.iptMiss T tp v f).Pristine S i noff
  := by
  apply h.of_update hT rfl
  apply SamePlace.pristine
  apply samePlace_setPage
  all_goals rfl

theorem Pristine.updateTLB {m m' : VM} {f : ℕ} (h : m.Pristine S i noff)
    (hstep : m.updateTLB f = some m') :
  m'.Pristine S i noff
  := by
  obtain rfl := updateTLB_eq hstep
  apply h

theorem Pristine.pageFault {rand virtAddr : ℕ} {m m' : VM} (h : m.Pristine S i noff)
    (hok : m.Ok) (hout : m.Outside S i) (hstep : m.pageFault PRand rand virtAddr = some m') :
  m'.Pristine S i noff
  := by
  simp only [VM.pageFault, Option.bind_eq_bind] at hstep
  obtain ⟨T, hspace, hstep⟩ := Option.bind_eq_some_iff.mp hstep
  obtain ⟨tp, hT, hstep⟩ := Option.bind_eq_some_iff.mp hstep
  split at hstep
  · rw [handlePageFault] at hstep
    split at hstep
    · apply h.updateTLB hstep
    · obtain ⟨⟨m₂, f⟩, hmiss, hstep⟩ := Option.bind_eq_some_iff.mp hstep
      obtain ⟨m₁, tp₁, hfreed, htp₁, rfl⟩ := hok.handleIPTMiss_cases hmiss
      apply Pristine.updateTLB _ hstep
      apply (h.freed hout hfreed).iptMiss htp₁
  · contradiction

/-- As long as a page is not read into memory, it is to be read from the executable. -/
theorem Pristine.step {m m' : VM} {a : Action} (h : m.Pristine S i noff) (hok : m.Ok)
    (hout : m.Outside S i) (hstep : step PRand m a = some m') :
  m'.Pristine S i noff
  := by
  cases a with
  | create T g executable numPages =>
      simp only [VM.step] at hstep
      split at hstep
      · rename_i hT
        obtain rfl := Option.some.inj hstep
        apply h.congr
        apply Function.update_of_ne
        rintro rfl
        have hlive := hout.live
        rw [hT] at hlive
        contradiction
      · contradiction
  | switch T =>
      simp only [VM.step, Option.bind_eq_bind, Option.pure_def] at hstep
      obtain ⟨tp, hT, heq⟩ := Option.bind_eq_some_iff.mp hstep
      obtain rfl := Option.some.inj heq
      apply h.congr
      rw [leave_eq]
  | load rand virtAddr size =>
      obtain ⟨⟨m₁, value⟩, hread, rfl⟩ := Option.map_eq_some_iff.mp hstep
      rw [VM.readMem] at hread
      split at hread
      · split at hread
        · contradiction
        · obtain ⟨m₂, hpf, heq⟩ := Option.map_eq_some_iff.mp hread
          obtain ⟨rfl, -⟩ := Prod.mk.inj heq
          apply h.pageFault hok hout hpf
        · obtain ⟨rfl, -⟩ := Prod.mk.inj (Option.some.inj hread)
          apply h
      · contradiction
  | store rand virtAddr bytes =>
      obtain ⟨⟨m₁, written⟩, hwrite, rfl⟩ := Option.map_eq_some_iff.mp hstep
      rw [VM.writeMem] at hwrite
      split at hwrite
      · split at hwrite
        · contradiction
        · obtain ⟨m₂, hpf, heq⟩ := Option.map_eq_some_iff.mp hwrite
          obtain ⟨rfl, -⟩ := Prod.mk.inj heq
          apply h.pageFault hok hout hpf
        · obtain ⟨rfl, -⟩ := Prod.mk.inj (Option.some.inj hwrite)
          apply h
      · contradiction
  | allocateStack g =>
      simp only [VM.step, Option.bind_eq_bind, Option.pure_def] at hstep
      obtain ⟨T, hspace, hstep⟩ := Option.bind_eq_some_iff.mp hstep
      obtain ⟨tp, hT, heq⟩ := Option.bind_eq_some_iff.mp hstep
      obtain rfl := Option.some.inj heq
      apply h.of_update hT rfl
      rintro ⟨hlt, hexecutable, hlocation, hbyteOffset⟩
      constructor
      · apply Nat.lt_add_right _ hlt
      · apply hexecutable
      · simpa [AddrSpace.allocateStack, hlt] using hlocation
      · simpa [AddrSpace.allocateStack, hlt] using hbyteOffset
  | exit next =>
      simp only [VM.step, Option.bind_eq_bind, Option.pure_def] at hstep
      obtain ⟨T, hspace, hstep⟩ := Option.bind_eq_some_iff.mp hstep
      obtain ⟨tp, hT, hstep⟩ := Option.bind_eq_some_iff.mp hstep
      split at hstep
      · contradiction
      · obtain rfl := Option.some.inj hstep
        have hcleared : Cleared T tp m tp.numPages (m.clearMem T tp) :=
          hok.mapping.cleared hT (Nat.le_refl _)
        by_cases hTS : S = T
        · subst hTS
          intro sp hsp
          rw [leave_eq] at hsp
          simp at hsp
        · apply h.congr
          rw [leave_eq]
          simp only [Function.update_of_ne hTS]
          apply hcleared.spaces S hTS

/-- The page fault for a page that is not in memory reads it. -/
theorem Pristine.read {rand virtAddr : ℕ} {m m' : VM} (h : m.Pristine S i noff) (hok : m.Ok)
    (hout : m.Outside S i) (hspace : m.space = some S) (hi : virtAddr / PageSize = i)
    (hstep : m.pageFault PRand rand virtAddr = some m') :
  ∃ f, m'.Holds f S i ∧ m'.mainMemory f = readAt noff (headerSize + i * PageSize)
  := by
  simp only [VM.pageFault, Option.bind_eq_bind, hspace, Option.bind_some, hi] at hstep
  obtain ⟨sp, hS, hstep⟩ := Option.bind_eq_some_iff.mp hstep
  split at hstep
  · rw [handlePageFault] at hstep
    split at hstep
    · rename_i f hlookup
      exact absurd (hok.mapping.lookup_some hlookup) (hout.frames f)
    · obtain ⟨⟨m₂, f⟩, hmiss, hstep⟩ := Option.bind_eq_some_iff.mp hstep
      obtain ⟨m₁, sp₁, hfreed, hsp₁, rfl⟩ := hok.handleIPTMiss_cases hmiss
      have hlt := (hok.freed hfreed).vacant.lt
      have hpristine := (h.freed hout hfreed) sp₁ hsp₁
      obtain rfl := updateTLB_eq hstep
      use f
      constructor
      · apply (sameFrames_propagated rfl).holds_iff.mpr
        apply (holds_iptMiss hlt _ _ _).mpr
        left
        exact ⟨rfl, rfl, rfl⟩
      · have hmemory : (m₁.iptMiss S sp₁ i f).mainMemory =
            Function.update m₁.mainMemory f (m₁.backing sp₁ i) := rfl
        simp only [hmemory, Function.update_self]
        rw [backing, hpristine.location, hpristine.executable, hpristine.byteOffset]
  · contradiction

/-- An object file with two bytes of code, one of data and three that are not initialised. -/
def smallCoff : Coff where
  fMagic := mipselMagic
  magic := oMagic
  sections := [⟨".text", 0, 2, 4⟩, ⟨".data", 2, 1, 6⟩, ⟨".bss", 3, 3, 0⟩]
  contents := [9, 9, 9, 9, 1, 2, 3]

/-- The header before it is set. -/
def zeroHeader : NoffHeader := ⟨0, ⟨0, 0, 0⟩, ⟨0, 0, 0⟩, ⟨0, 0, 0⟩⟩

/-- The converted file. -/
def smallNoff : List UInt8 :=
  Words.encode [noffMagicNumber, 0, 40, 2, 2, 42, 1, 3, 0, 3] ++ [1, 2, 3]

/-- The machine when its first process has been created. -/
def smallVM : VM :=
  (initial (fun _ => ⟨0, 0, false, false, false, false⟩)
    (fun _ => ⟨0, 0, false, false, false, false⟩)).setSpace 7
      (AddrSpace.new (fun _ => (0, 0)) smallNoff 9)

end VM

end Nachos.Memory
