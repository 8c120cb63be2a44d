import Nachos.Memory.Stored
import Nachos.Memory.UserPages

/-!
# Copying from user memory

`copyin` (`userprog/exception.cc`) copies bytes from the memory of a user program to the kernel, one
at a time. `ReadMem` is called for a byte until it does not cause a page fault, and nothing bounds the
number of calls.

Each byte causes at most one page fault. The right bytes are copied exactly when no byte that causes
one is at an address from `2 ^ 31` on, the slot of the translation buffer that is replaced names a
frame if it is dirty, and a page that is evicted and found clean holds outside memory the bytes that
are still to be copied from it (`Copy.copyin_iff`).
-/

namespace Nachos.Memory

open VM

/-- The machine while bytes are copied, the number of page faults so far, and the bytes. -/
structure Copy where
  vm : VM
  faults : ℕ
  buf : List UInt8

namespace Copy

section Copyin

variable (PRand : Bool) (rands : ℕ → ℕ)

/-- The calls of `ReadMem` for the byte at `vaddr`, at most `fuel` of them. `rands` are the values of
`rand()`, one for each page fault. It is `none` when the machine stops. -/
def readByte (vaddr : ℕ) : ℕ → Copy → Option Copy
  | 0, _ => none
  | fuel + 1, c =>
      match c.vm.readMem PRand (rands c.faults) vaddr 1 with
      | none => none
      | some (vm, none) => readByte vaddr fuel { c with vm := vm, faults := c.faults + 1 }
      | some (vm, some bytes) => some { c with vm := vm, buf := c.buf ++ bytes }

/-- The loop of `copyin` for the next `n` bytes. -/
def copyLoop (fuel : ℕ) : ℕ → ℕ → Copy → Option Copy
  | 0, _, c => some c
  | n + 1, vaddr, c =>
      (readByte PRand rands vaddr fuel c).bind (copyLoop fuel n ((vaddr + 1) % 2 ^ 32))

/-- `copyin`, with what it returns. It does not return `-1`, because `ReadMem` is called until it
succeeds. -/
def copyin (fuel vaddr : ℕ) (len : ℤ) (vm : VM) : Option (ℤ × Copy) :=
  (copyLoop PRand rands fuel len.toNat vaddr ⟨vm, 0, []⟩).map (fun c => (len, c))

/-- `P` holds whenever the byte at `vaddr` is going to be copied, and `n` bytes are left. -/
def Along (P : Copy → ℕ → ℕ → Prop) : ℕ → ℕ → Copy → Prop
  | 0, _, _ => True
  | n + 1, vaddr, c =>
      P c vaddr (n + 1) ∧ ∀ c' ∈ readByte PRand rands vaddr 2 c, Along P n ((vaddr + 1) % 2 ^ 32) c'

instance Along.decidable {P : Copy → ℕ → ℕ → Prop} [∀ c vaddr n, Decidable (P c vaddr n)] :
    ∀ (n vaddr : ℕ) (c : Copy), Decidable (Along PRand rands P n vaddr c)
  | 0, _, _ => inferInstanceAs (Decidable True)
  | n + 1, vaddr, c =>
      have : ∀ c', Decidable (Along PRand rands P n ((vaddr + 1) % 2 ^ 32) c') :=
        Along.decidable n ((vaddr + 1) % 2 ^ 32)
      inferInstanceAs (Decidable (_ ∧ ∀ c' ∈ readByte PRand rands vaddr 2 c, _))

/-- A page that is evicted when the byte at `vaddr` is read, and is found clean, holds outside memory
what it holds in its frame at the addresses of the `n` bytes. -/
def KeepsBytes (S : ℕ) (c : Copy) (vaddr n : ℕ) : Prop :=
  ∀ i < n, c.vm.Lost PRand (rands c.faults) vaddr S ((vaddr + i) / PageSize) →
    ∀ sp ∈ c.vm.spaces S, c.vm.backing sp ((vaddr + i) / PageSize) ((vaddr + i) % PageSize) =
      c.vm.userByte S (vaddr + i)

/-- If the byte at `vaddr` is not in the translation buffer, its page fault can be handled and loses
none of the `n` bytes that are left. -/
def Careful (S : ℕ) (c : Copy) (vaddr n : ℕ) : Prop :=
  c.vm.slotOf (vaddr / PageSize) = none →
    vaddr < 2 ^ 31 ∧ c.vm.NamesFrame ∧ KeepsBytes PRand rands S c vaddr n

/-- There is room in the swap file for the page that is evicted when the byte at `vaddr` is read. -/
def HasRoom (c : Copy) (vaddr _n : ℕ) : Prop := c.vm.Room PRand (rands c.faults) vaddr

instance (S : ℕ) (c : Copy) (vaddr n : ℕ) : Decidable (Careful PRand rands S c vaddr n) :=
  inferInstanceAs (Decidable (_ → _ ∧ _ ∧ ∀ i < n, _ → ∀ sp ∈ c.vm.spaces S, _))

instance (c : Copy) (vaddr n : ℕ) : Decidable (HasRoom PRand rands c vaddr n) :=
  inferInstanceAs (Decidable (c.vm.Room PRand (rands c.faults) vaddr))

/-- However often `ReadMem` may be called for a byte, if twice is allowed, `len` is returned, there is
at most one page fault for each byte, and the bytes are those of the process. -/
def Copied (S vaddr : ℕ) (len : ℤ) (vm : VM) : Prop :=
  ∃ c, (∀ fuel ≥ 2, copyin PRand rands fuel vaddr len vm = some (len, c)) ∧
    c.faults ≤ len.toNat ∧ c.buf = (List.range len.toNat).map (fun i => vm.userByte S (vaddr + i))

end Copyin

/-! ### One byte -/

end Copy

namespace VM

variable {m m' : VM} {S i virtAddr : ℕ}

theorem slotOf_touch (m : VM) (i : ℕ) (writing : Bool) (v : ℕ) :
  (m.touch i writing).slotOf v = m.slotOf v
  := by
  have hvalid : ∀ j, ((m.touch i writing).tlb j).valid = (m.tlb j).valid :=
    fun j => (m.tlb_touch i writing j).1
  have hpage : ∀ j, ((m.touch i writing).tlb j).virtualPage = (m.tlb j).virtualPage :=
    fun j => (m.tlb_touch i writing j).2.1
  simp only [slotOf, hvalid, hpage]

theorem userPage_touch (m : VM) (i : ℕ) (writing : Bool) (S v : ℕ) :
  (m.touch i writing).userPage S v = m.userPage S v
  := rfl

theorem holds_touch {m : VM} {f v i : ℕ} {writing : Bool} :
  (m.touch i writing).Holds f S v ↔ m.Holds f S v
  := by
  have hframes : SameFrames m (m.touch i writing) := sameFrames_of_eq rfl
  exact hframes.holds_iff

/-- A byte whose page is in the translation buffer is read. -/
theorem Ok.readMem_hit {PRand : Bool} {rand : ℕ} (h : m.Ok) (hspace : m.space = some S)
    (hslot : m.slotOf (virtAddr / PageSize) = some i) :
  m.readMem PRand rand virtAddr 1 = some (m.touch i false, some [m.userByte S virtAddr])
  := by
  have hi := List.mem_range.mp (List.mem_of_find?_eq_some hslot)
  have hentry := List.find?_some hslot
  simp only [Bool.and_eq_true, beq_iff_eq] at hentry
  obtain ⟨T, hT, hholds⟩ := h.buffered.slot i hi hentry.1
  obtain rfl := Option.some.inj (hspace.symm.trans hT)
  rw [hentry.2] at hholds
  have htranslate : m.translate virtAddr false = some (.hit i) := by
    rw [translate, hslot]
    simp [Nat.not_le.mpr hholds.lt]
  rw [VM.readMem, if_pos ⟨.inl rfl, one_dvd _⟩, htranslate, userByte,
    h.mapping.userPage_of_holds hholds]
  simp [readBytes]

theorem readMem_miss {PRand : Bool} {rand : ℕ} (hslot : m.slotOf (virtAddr / PageSize) = none) :
  m.readMem PRand rand virtAddr 1 = (m.pageFault PRand rand virtAddr).map (·, none)
  := by
  rw [VM.readMem, if_pos ⟨.inl rfl, one_dvd _⟩, translate, hslot]

/-- A page is lost only by a page fault for another page. -/
theorem Lost.fault {PRand : Bool} {rand v : ℕ} (h : m.Lost PRand rand virtAddr S v)
    (hspace : m.space = some S) :
  m.slotOf (virtAddr / PageSize) = none ∧ v ≠ virtAddr / PageSize ∧ ∃ f, m.Holds f S v
  := by
  obtain ⟨f, hevicted, -, hholds⟩ := h
  obtain ⟨T, hT, hevicted⟩ := Option.bind_eq_some_iff.mp hevicted
  obtain rfl := Option.some.inj (hspace.symm.trans hT)
  split at hevicted
  · rename_i hnone
    refine ⟨hnone.1, ?_, f, hholds⟩
    rintro rfl
    exact lookup_none hnone.2.1 f hholds
  · cases hevicted

end VM

namespace Copy

/-- The process of the address space `S`, which has `numPages` pages, is running. -/
structure Ready (S numPages : ℕ) (m : VM) : Prop where
  ok : m.Ok
  swap : m.SwapOk
  space : m.space = some S
  numPages : ∃ sp, m.spaces S = some sp ∧ sp.numPages = numPages

/-- What reading the byte at `vaddr` leads to. -/
structure Reads (PRand : Bool) (rands : ℕ → ℕ) (S numPages vaddr : ℕ) (c c' : Copy) : Prop where
  ready : Ready S numPages c'.vm
  faults : c'.faults ≤ c.faults + 1
  buf : c'.buf = c.buf ++ [c.vm.userByte S vaddr]
  slot : ∃ i, c'.vm.slotOf (vaddr / PageSize) = some i
  kept : ∀ u < numPages, ¬ c.vm.Lost PRand (rands c.faults) vaddr S u →
    c'.vm.userPage S u = c.vm.userPage S u
  lost : ∀ u < numPages, c.vm.Lost PRand (rands c.faults) vaddr S u →
    (∀ f, ¬ c'.vm.Holds f S u) ∧
      ∀ sp ∈ c.vm.spaces S, c'.vm.userPage S u = c.vm.backing sp u
  outside : ∀ u, u ≠ vaddr / PageSize → (∀ f, ¬ c.vm.Holds f S u) → ∀ f, ¬ c'.vm.Holds f S u

variable {PRand : Bool} {rands : ℕ → ℕ} {S numPages vaddr n : ℕ} {c c' : Copy}

theorem Ready.touch {m : VM} (h : Ready S numPages m) (i : ℕ) :
  Ready S numPages (m.touch i false)
  := ⟨h.ok.touch i false m.mainMemory, h.swap.congr (samePlaces_of_eq rfl rfl rfl), h.space,
    h.numPages⟩

/-- The page of the byte is in the translation buffer. -/
theorem readByte_hit {i : ℕ} (h : Ready S numPages c.vm)
    (hslot : c.vm.slotOf (vaddr / PageSize) = some i) (fuel : ℕ) :
  readByte PRand rands vaddr (fuel + 1) c =
    some { c with vm := c.vm.touch i false, buf := c.buf ++ [c.vm.userByte S vaddr] }
  := by
  rw [readByte, h.ok.readMem_hit h.space hslot]

/-- The page of the byte is not in the translation buffer. The second call of `ReadMem` finds it
there. -/
theorem readByte_miss (h : Ready S numPages c.vm) (hslot : c.vm.slotOf (vaddr / PageSize) = none)
    (fuel : ℕ) :
  readByte PRand rands vaddr (fuel + 2) c =
    (c.vm.pageFault PRand (rands c.faults) vaddr).bind (fun m =>
      (m.slotOf (vaddr / PageSize)).map (fun i =>
        ⟨m.touch i false, c.faults + 1, c.buf ++ [m.userByte S vaddr]⟩))
  := by
  rw [readByte, readMem_miss hslot]
  cases hfault : c.vm.pageFault PRand (rands c.faults) vaddr with
  | none => rfl
  | some m =>
      obtain ⟨sp, hS, hnum⟩ := h.numPages
      have hfaulted := h.ok.pageFault_pages h.swap h.space hS hslot hfault
      obtain ⟨i, hi⟩ := hfaulted.slot
      have hready : Ready S sp.numPages m :=
        ⟨hfaulted.ok, hfaulted.swap, hfaulted.space, hfaulted.numPages⟩
      simp only [Option.map_some, Option.bind_some, hi]
      exact readByte_hit hready hi fuel

/-- More than two calls of `ReadMem` are never needed. -/
theorem readByte_fuel (h : Ready S numPages c.vm) {fuel : ℕ} (hfuel : 2 ≤ fuel) :
  readByte PRand rands vaddr fuel c = readByte PRand rands vaddr 2 c
  := by
  obtain ⟨k, rfl⟩ := Nat.exists_eq_add_of_le' hfuel
  cases hslot : c.vm.slotOf (vaddr / PageSize) with
  | some i => rw [readByte_hit h hslot (k + 1), readByte_hit h hslot 1]
  | none => rw [readByte_miss h hslot k, readByte_miss h hslot 0]

theorem reads_of_readByte (h : Ready S numPages c.vm) (hv : vaddr / PageSize < numPages)
    (hread : readByte PRand rands vaddr 2 c = some c') :
  Reads PRand rands S numPages vaddr c c'
  := by
  cases hslot : c.vm.slotOf (vaddr / PageSize) with
  | some i =>
      rw [readByte_hit h hslot 1] at hread
      obtain rfl := Option.some.inj hread
      refine ⟨h.touch i, Nat.le_succ _, rfl, ⟨i, ?_⟩, fun _ _ _ => rfl, ?_,
        fun _ _ hout f hholds => hout f (holds_touch.mp hholds)⟩
      · rw [slotOf_touch]
        exact hslot
      · intro u _ hlost
        rw [(hlost.fault h.space).1] at hslot
        cases hslot
  | none =>
      rw [readByte_miss h hslot 0] at hread
      obtain ⟨m, hfault, hread⟩ := Option.bind_eq_some_iff.mp hread
      obtain ⟨i, hi, rfl⟩ := Option.map_eq_some_iff.mp hread
      obtain ⟨sp, hS, rfl⟩ := h.numPages
      have hfaulted := h.ok.pageFault_pages h.swap h.space hS hslot hfault
      have hready : Ready S sp.numPages m :=
        ⟨hfaulted.ok, hfaulted.swap, hfaulted.space, hfaulted.numPages⟩
      refine ⟨hready.touch i, Nat.le_refl _, ?_, ⟨i, ?_⟩, hfaulted.kept, ?_,
        fun u hu hout f hholds => hfaulted.outside u hu hout f (holds_touch.mp hholds)⟩
      · have hkept := hfaulted.kept _ hv (fun hlost => (hlost.fault h.space).2.1 rfl)
        rw [userByte, userByte, hkept]
      · rw [slotOf_touch]
        exact hi
      · intro u hu hlost
        obtain ⟨hout, hpage⟩ := hfaulted.lost u hu hlost
        refine ⟨fun f hholds => hout f (holds_touch.mp hholds), ?_⟩
        intro sp' hsp'
        obtain rfl := Option.some.inj (hS.symm.trans hsp')
        exact hpage

/-- A byte can be read when there is room in the swap file, exactly if its page fault can be
handled. -/
theorem exists_readByte_iff (h : Ready S numPages c.vm) (hv : vaddr / PageSize < numPages)
    (hroom : HasRoom PRand rands c vaddr n) :
  (∃ c', readByte PRand rands vaddr 2 c = some c') ↔
    (c.vm.slotOf (vaddr / PageSize) = none → vaddr < 2 ^ 31 ∧ c.vm.NamesFrame)
  := by
  cases hslot : c.vm.slotOf (vaddr / PageSize) with
  | some i => simp [readByte_hit h hslot 1]
  | none =>
      obtain ⟨sp, hS, rfl⟩ := h.numPages
      rw [readByte_miss h hslot 0, forall_prop_of_true rfl,
        ← h.ok.exists_pageFault_iff h.space hS hslot hv hroom]
      constructor
      · rintro ⟨c', hc'⟩
        obtain ⟨m, hfault, -⟩ := Option.bind_eq_some_iff.mp hc'
        exact ⟨m, hfault⟩
      · rintro ⟨m, hfault⟩
        obtain ⟨i, hi⟩ := (h.ok.pageFault_pages h.swap h.space hS hslot hfault).slot
        simp [hfault, hi]

/-! ### The loop -/

theorem copyLoop_next {fuel : ℕ} (h : vaddr + (n + 1) ≤ 2 ^ 32) :
  copyLoop PRand rands fuel n ((vaddr + 1) % 2 ^ 32) c = copyLoop PRand rands fuel n (vaddr + 1) c
  := by
  cases n with
  | zero => rfl
  | succ n => rw [Nat.mod_eq_of_lt (by omega)]

theorem along_next {P : Copy → ℕ → ℕ → Prop} (h : vaddr + (n + 1) ≤ 2 ^ 32) :
  Along PRand rands P n ((vaddr + 1) % 2 ^ 32) c ↔ Along PRand rands P n (vaddr + 1) c
  := by
  cases n with
  | zero => rfl
  | succ n => rw [Nat.mod_eq_of_lt (by omega)]

/-- The addresses are inside the address space and those of 32 bits. -/
def InRange (numPages vaddr n : ℕ) : Prop := vaddr + n ≤ numPages * PageSize ∧ vaddr + n ≤ 2 ^ 32

instance (numPages vaddr n : ℕ) : Decidable (InRange numPages vaddr n) :=
  inferInstanceAs (Decidable (_ ∧ _))

theorem InRange.page {a : ℕ} (h : InRange numPages vaddr n) (ha : a < vaddr + n) :
  a / PageSize < numPages
  := by
  apply (Nat.div_lt_iff_lt_mul (by decide)).mpr
  obtain ⟨hle, -⟩ := h
  omega

theorem InRange.next (h : InRange numPages vaddr (n + 1)) :
  InRange numPages (vaddr + 1) n
  := by
  obtain ⟨hle, hword⟩ := h
  constructor <;> omega

/-- The bytes that are copied are appended, and each causes at most one page fault. -/
theorem faults_copyLoop :
  ∀ {n vaddr : ℕ} {c : Copy}, Ready S numPages c.vm → InRange numPages vaddr n →
    copyLoop PRand rands 2 n vaddr c = some c' →
    c'.faults ≤ c.faults + n ∧ ∃ bytes, c'.buf = c.buf ++ bytes
  := by
  intro n
  induction n with
  | zero =>
      intro vaddr c _ _ hcopy
      obtain rfl := Option.some.inj hcopy
      exact ⟨Nat.le_refl _, [], by simp⟩
  | succ n ih =>
      intro vaddr c h hrange hcopy
      obtain ⟨c₁, hread, hcopy⟩ := Option.bind_eq_some_iff.mp hcopy
      rw [copyLoop_next hrange.2] at hcopy
      have hreads := reads_of_readByte h (hrange.page (by omega)) hread
      obtain ⟨hfaults, bytes, hbytes⟩ := ih hreads.ready hrange.next hcopy
      have hone := hreads.faults
      exact ⟨by omega, c.vm.userByte S vaddr :: bytes, by simp [hbytes, hreads.buf]⟩

/-- More than two calls of `ReadMem` are never needed for a byte. -/
theorem copyLoop_fuel {fuel : ℕ} (hfuel : 2 ≤ fuel) :
  ∀ {n vaddr : ℕ} {c : Copy}, Ready S numPages c.vm → InRange numPages vaddr n →
    copyLoop PRand rands fuel n vaddr c = copyLoop PRand rands 2 n vaddr c
  := by
  intro n
  induction n with
  | zero =>
      intro vaddr c _ _
      rfl
  | succ n ih =>
      intro vaddr c h hrange
      rw [copyLoop, copyLoop, readByte_fuel h hfuel]
      cases hread : readByte PRand rands vaddr 2 c with
      | none => rfl
      | some c₁ =>
          have hreads := reads_of_readByte h (hrange.page (by omega)) hread
          simp only [Option.bind_some]
          rw [copyLoop_next hrange.2, copyLoop_next hrange.2]
          exact ih hreads.ready hrange.next

/-- Page `u` is outside memory, or it is the page of the byte that is copied next and has a slot. -/
def Fixed (S vaddr u : ℕ) (m : VM) : Prop :=
  (∀ f, ¬ m.Holds f S u) ∨ vaddr / PageSize = u ∧ ∃ i, m.slotOf u = some i

theorem Fixed.not_lost (h : Fixed S vaddr n c.vm) (hspace : c.vm.space = some S) :
  ¬ c.vm.Lost PRand (rands c.faults) vaddr S n
  := by
  intro hlost
  obtain ⟨-, hne, f, hholds⟩ := hlost.fault hspace
  obtain hout | ⟨heq, -⟩ := h
  · exact hout f hholds
  · exact hne heq.symm

theorem Fixed.next {b : ℕ} (h : Fixed S vaddr (b / PageSize) c.vm) (hb : vaddr + 1 ≤ b)
    (hreads : Reads PRand rands S numPages vaddr c c') :
  Fixed S (vaddr + 1) (b / PageSize) c'.vm
  := by
  by_cases heq : vaddr / PageSize = b / PageSize
  · right
    have hle : (vaddr + 1) / PageSize ≤ b / PageSize := Nat.div_le_div_right hb
    have hge : vaddr / PageSize ≤ (vaddr + 1) / PageSize := Nat.div_le_div_right (Nat.le_succ vaddr)
    refine ⟨by omega, ?_⟩
    rw [← heq]
    exact hreads.slot
  · obtain hout | ⟨hcur, -⟩ := h
    · left
      exact hreads.outside _ (fun h => heq h.symm) hout
    · exact absurd hcur heq

/-- The bytes of a page that is outside memory are copied from where it is. -/
theorem copyLoop_fixed {b : ℕ} :
  ∀ {n vaddr : ℕ} {c : Copy}, Ready S numPages c.vm → InRange numPages vaddr n →
    vaddr ≤ b → b < vaddr + n → Fixed S vaddr (b / PageSize) c.vm →
    copyLoop PRand rands 2 n vaddr c = some c' →
    c'.buf[c.buf.length + (b - vaddr)]? = some (c.vm.userByte S b)
  := by
  intro n
  induction n with
  | zero =>
      intro vaddr c _ _ hle hlt
      omega
  | succ n ih =>
      intro vaddr c h hrange hle hlt hfixed hcopy
      obtain ⟨c₁, hread, hcopy⟩ := Option.bind_eq_some_iff.mp hcopy
      rw [copyLoop_next hrange.2] at hcopy
      have hreads := reads_of_readByte h (hrange.page (by omega)) hread
      by_cases hb : b = vaddr
      · subst hb
        obtain ⟨-, bytes, hbytes⟩ := faults_copyLoop hreads.ready hrange.next hcopy
        simp [hbytes, hreads.buf]
      · have hkept := hreads.kept _ (hrange.page hlt) (hfixed.not_lost h.space)
        have hbyte := ih hreads.ready hrange.next (by omega) (by omega)
          (hfixed.next (by omega) hreads) hcopy
        rw [userByte, hkept, ← userByte, hreads.buf] at hbyte
        rw [← hbyte]
        congr 1
        simp only [List.length_append, List.length_singleton]
        omega

/-- The next `n` bytes of a process. -/
def userBytes (m : VM) (S vaddr n : ℕ) : List UInt8 :=
  (List.range n).map (fun i => m.userByte S (vaddr + i))

theorem userBytes_succ (m : VM) (S vaddr n : ℕ) :
  userBytes m S vaddr (n + 1) = m.userByte S vaddr :: userBytes m S (vaddr + 1) n
  := by
  simp [userBytes, List.range_succ_eq_map, Nat.add_assoc, Nat.add_comm 1]

theorem userBytes_congr {m m' : VM}
    (h : ∀ i < n, m'.userByte S (vaddr + i) = m.userByte S (vaddr + i)) :
  userBytes m' S vaddr n = userBytes m S vaddr n
  := by
  apply List.map_congr_left
  intro i hi
  exact h i (List.mem_range.mp hi)

/-- No byte that is left is lost when the page that is evicted keeps its bytes. -/
theorem KeepsBytes.userByte (h : KeepsBytes PRand rands S c vaddr n) (hready : Ready S numPages c.vm)
    (hrange : InRange numPages vaddr n) (hreads : Reads PRand rands S numPages vaddr c c') {i : ℕ}
    (hi : i < n) :
  c'.vm.userByte S (vaddr + i) = c.vm.userByte S (vaddr + i)
  := by
  have hpage := hrange.page (a := vaddr + i) (by omega)
  by_cases hlost : c.vm.Lost PRand (rands c.faults) vaddr S ((vaddr + i) / PageSize)
  · obtain ⟨sp, hS, -⟩ := hready.numPages
    rw [VM.userByte, (hreads.lost _ hpage hlost).2 sp hS]
    exact h i hi hlost sp hS
  · rw [VM.userByte, VM.userByte, hreads.kept _ hpage hlost]

/-- The bytes that are left after the one at `vaddr` stay the same. -/
theorem KeepsBytes.userBytes (h : KeepsBytes PRand rands S c vaddr (n + 1))
    (hready : Ready S numPages c.vm) (hrange : InRange numPages vaddr (n + 1))
    (hreads : Reads PRand rands S numPages vaddr c c') :
  userBytes c'.vm S (vaddr + 1) n = userBytes c.vm S (vaddr + 1) n
  := by
  apply userBytes_congr
  intro i hi
  have hbyte := h.userByte hready hrange hreads (i := i + 1) (by omega)
  rw [Nat.add_assoc, Nat.add_comm 1]
  exact hbyte

/-- The bytes of a process are copied exactly if every byte that is copied is careful. -/
theorem copyLoop_iff :
  ∀ {n vaddr : ℕ} {c : Copy}, Ready S numPages c.vm → InRange numPages vaddr n →
    Along PRand rands (HasRoom PRand rands) n vaddr c →
    ((∃ c', copyLoop PRand rands 2 n vaddr c = some c' ∧
        c'.buf = c.buf ++ userBytes c.vm S vaddr n) ↔
      Along PRand rands (Careful PRand rands S) n vaddr c)
  := by
  intro n
  induction n with
  | zero =>
      intro vaddr c _ _ _
      constructor
      · exact fun _ => trivial
      · exact fun _ => ⟨c, rfl, by simp [userBytes]⟩
  | succ n ih =>
      intro vaddr c h hrange hroom
      have hv := hrange.page (a := vaddr) (by omega)
      constructor
      · rintro ⟨c', hcopy, hbuf⟩
        obtain ⟨c₁, hread, hcopy⟩ := Option.bind_eq_some_iff.mp hcopy
        rw [copyLoop_next hrange.2] at hcopy
        have hreads := reads_of_readByte h hv hread
        have hroom₁ := (along_next hrange.2).mp (hroom.2 c₁ hread)
        -- a page that is lost is copied from outside memory
        have hkeeps : KeepsBytes PRand rands S c vaddr (n + 1) := by
          intro i hi hlost sp hS
          have hi0 : i ≠ 0 := by
            rintro rfl
            exact (hlost.fault h.space).2.1 rfl
          obtain ⟨hout, hpage⟩ := hreads.lost _ (hrange.page (by omega)) hlost
          have hbyte := copyLoop_fixed (b := vaddr + i) hreads.ready hrange.next (by omega)
            (by omega) (.inl hout) hcopy
          have hlength : c₁.buf.length + (vaddr + i - (vaddr + 1)) = c.buf.length + i := by
            simp only [hreads.buf, List.length_append, List.length_singleton]
            omega
          rw [hlength, hbuf, List.getElem?_append_right (Nat.le_add_right _ _)] at hbyte
          simp only [Nat.add_sub_cancel_left, userBytes, List.getElem?_map,
            List.getElem?_range hi, Option.map_some, Option.some.injEq] at hbyte
          rw [hbyte, VM.userByte, hpage sp hS]
        have hsame := hkeeps.userBytes h hrange hreads
        have hfault := (exists_readByte_iff h hv hroom.1).mp ⟨c₁, hread⟩
        refine ⟨fun hslot => ⟨(hfault hslot).1, (hfault hslot).2, hkeeps⟩, ?_⟩
        intro c₂ hread₂
        obtain rfl := Option.some.inj (hread.symm.trans hread₂)
        apply (along_next hrange.2).mpr
        apply (ih hreads.ready hrange.next hroom₁).mp
        refine ⟨c', hcopy, ?_⟩
        rw [hbuf, userBytes_succ, hsame, hreads.buf]
        simp
      · rintro ⟨hcareful, halong⟩
        obtain ⟨c₁, hread⟩ := (exists_readByte_iff h hv hroom.1).mpr (fun hslot =>
          ⟨(hcareful hslot).1, (hcareful hslot).2.1⟩)
        have hreads := reads_of_readByte h hv hread
        have hroom₁ := (along_next hrange.2).mp (hroom.2 c₁ hread)
        obtain ⟨c', hcopy, hbuf⟩ := (ih hreads.ready hrange.next hroom₁).mpr
          ((along_next hrange.2).mp (halong c₁ hread))
        have hkeeps : KeepsBytes PRand rands S c vaddr (n + 1) := by
          intro i hi hlost
          exact (hcareful (hlost.fault h.space).1).2.2 i hi hlost
        have hsame := hkeeps.userBytes h hrange hreads
        refine ⟨c', ?_, ?_⟩
        · rw [copyLoop, hread, Option.bind_some, copyLoop_next hrange.2]
          exact hcopy
        · rw [hbuf, userBytes_succ, hsame, hreads.buf]
          simp

/-- `copyin` copies the bytes of the process exactly if every byte is careful, when there is room in
the swap file. -/
theorem copyin_iff {len : ℤ} {m : VM} {sp : AddrSpace} (hok : m.Ok) (hswap : m.SwapOk)
    (hspace : m.space = some S) (hS : m.spaces S = some sp)
    (hrange : InRange sp.numPages vaddr len.toNat)
    (hroom : Along PRand rands (HasRoom PRand rands) len.toNat vaddr ⟨m, 0, []⟩) :
  Copied PRand rands S vaddr len m ↔
    Along PRand rands (Careful PRand rands S) len.toNat vaddr ⟨m, 0, []⟩
  := by
  have hready : Ready S sp.numPages (⟨m, 0, []⟩ : Copy).vm := ⟨hok, hswap, hspace, sp, hS, rfl⟩
  rw [← copyLoop_iff hready hrange hroom]
  constructor
  · rintro ⟨c, hcopy, -, hbuf⟩
    obtain ⟨c', hc', heq⟩ := Option.map_eq_some_iff.mp (hcopy 2 (Nat.le_refl 2))
    obtain rfl : c' = c := (Prod.mk.inj heq).2
    exact ⟨c', hc', hbuf⟩
  · rintro ⟨c, hcopy, hbuf⟩
    refine ⟨c, ?_, ?_, hbuf⟩
    · intro fuel hfuel
      rw [copyin, copyLoop_fuel hfuel hready hrange, hcopy]
      rfl
    · have hfaults := (faults_copyLoop hready hrange hcopy).1
      simpa using hfaults

/-! ### Copying when memory is full -/

/-- The tables agree when a process that has filled memory has gone on. -/
theorem traced_ok {as : List VM.Action} {t : Traced}
    (halong : Transition.Along (Traced.step false)
      (fun t a => Traced.IsAccess a ∧ t.Keeps false a) ⟨Traced.filled NumPhysPages, Traced.zeros⟩ as)
    (hrun : Transition.run (Traced.step false) ⟨Traced.filled NumPhysPages, Traced.zeros⟩ as =
      some t) :
  t.Ok
  := by
  have hrun' := Transition.run_append.mpr ⟨_, Traced.run_filling, hrun⟩
  refine Transition.run_invariant (I := Traced.Ok) ?_ (Traced.ok_initial _ _)
    (Transition.along_append.mpr ⟨Traced.along_filling, ?_⟩) hrun'
  · rintro s a s' h ⟨haccess, hkeeps⟩ hstep
    exact h.step haccess hkeeps hstep
  · intro s hs
    obtain rfl := Option.some.inj (Traced.run_filling.symm.trans hs)
    exact halong

/-- The process that has filled memory passes two bytes to the kernel, the last one of a page in
memory and the first one of the page that is not. -/
theorem copyin_filled :
  Copied false (fun _ => 0) 0 (NumPhysPages * PageSize - 1) 2 (Traced.filled NumPhysPages)
  := by
  have hok : (⟨Traced.filled NumPhysPages, Traced.zeros⟩ : Traced).Ok :=
    @traced_ok [] _ trivial rfl
  apply (copyin_iff hok.tables hok.coherent.swap rfl rfl (by decide) (by decide +kernel)).mpr
  decide +kernel

/-- The first two pages are evicted, the first one is read again, and the third one is modified. The
process is switched from and switched to, and reads the third page. -/
def modifying : List VM.Action :=
  [.load 0 (NumPhysPages * PageSize) 1, .load 0 0 1, .store 0 256 [1], .store 0 256 [1], .switch 0,
    .load 0 256 1]

/-- The bytes at 255 and 256 are copied. The second page evicts the third one, which is found clean,
so the second byte is not the one that was stored. -/
theorem run_modifying :
  ∃ t ∈ Transition.run (Traced.step false) ⟨Traced.filled NumPhysPages, Traced.zeros⟩ modifying,
    t.vm.space = some 0 ∧ (∃ sp ∈ t.vm.spaces 0, InRange sp.numPages 255 2) ∧
    Along false (fun _ => 0) (HasRoom false (fun _ => 0)) 2 255 ⟨t.vm, 0, []⟩ ∧
    (copyin false (fun _ => 0) 2 255 2 t.vm).map (fun r => r.2.buf) = some [0, 0] ∧
    t.vm.userByte 0 256 = 1
  := by
  decide +kernel

theorem not_copyin :
  ¬ ∀ (PRand : Bool) (rands : ℕ → ℕ) (S vaddr : ℕ) (len : ℤ) (m : VM) (sp : AddrSpace),
    m.Ok → m.SwapOk → m.space = some S → m.spaces S = some sp →
    InRange sp.numPages vaddr len.toNat →
    Along PRand rands (HasRoom PRand rands) len.toNat vaddr ⟨m, 0, []⟩ →
      Copied PRand rands S vaddr len m
  := by
  intro hall
  obtain ⟨t, ht, hspace, ⟨sp, hS, hrange⟩, hroom, hcopy, hbyte⟩ := run_modifying
  have hok := traced_ok (by decide +kernel) ht
  obtain ⟨c, hc, -, hbuf⟩ := hall false (fun _ => 0) 0 255 2 t.vm sp hok.tables hok.coherent.swap
    hspace hS hrange hroom
  rw [hc 2 (Nat.le_refl 2), Option.map_some, hbuf] at hcopy
  simp [List.range_succ, hbyte] at hcopy

end Copy

end Nachos.Memory
