import Nachos.Memory.Copyin

/-!
# Copying to user memory

`copyout` (`userprog/exception.cc`) copies bytes from the kernel to the memory of a user program, one
at a time. Unlike `copyin` it calls `WriteMem` once for each byte, and gives up when that causes a
page fault, although the fault has been handled by then.

The bytes are copied exactly when all their pages are in the translation buffer and none of its slots
for them is read-only (`Copy.copyout_iff`).
-/

namespace Nachos.Memory

namespace VM

/-- Page `v` is in the translation buffer, and may be written. -/
def Writable (m : VM) (v : ℕ) : Prop := ∃ i ∈ m.slotOf v, (m.tlb i).readOnly = false

instance (m : VM) (v : ℕ) : Decidable (m.Writable v) :=
  inferInstanceAs (Decidable (∃ i ∈ m.slotOf v, _))

end VM

namespace Copy

open VM

/-- The loop of `copyout` for the bytes that are left, when `n` bytes have been copied. `rand` is the
value of `rand()` at a page fault. It is `none` when the machine stops. -/
def copyoutLoop (PRand : Bool) (rand : ℕ) : List UInt8 → ℕ → ℕ → VM → Option (ℤ × VM)
  | [], _, n, m => some (n, m)
  | b :: bytes, vaddr, n, m =>
      match m.writeMem PRand rand vaddr [b] with
      | none => none
      | some (m, false) => some (-1, m)
      | some (m, true) => copyoutLoop PRand rand bytes ((vaddr + 1) % 2 ^ 32) (n + 1) m

/-- `copyout` of the bytes `buf`, with what it returns. -/
def copyout (PRand : Bool) (rand vaddr : ℕ) (buf : List UInt8) (m : VM) : Option (ℤ × VM) :=
  copyoutLoop PRand rand buf vaddr 0 m

/-- All bytes are copied to the memory of the process of the address space `S`, no other byte of any
process changes, and `copyin` returns what has been copied. -/
def CopiedOut (PRand : Bool) (rand S vaddr : ℕ) (buf : List UInt8) (m : VM) : Prop :=
  ∃ m', copyout PRand rand vaddr buf m = some ((buf.length : ℤ), m') ∧
    (∀ i < buf.length, m'.userByte S (vaddr + i) = buf.getD i 0) ∧
    (∀ T a, (T = S → a < vaddr ∨ vaddr + buf.length ≤ a) → m'.userByte T a = m.userByte T a) ∧
    ∀ rands : ℕ → ℕ, ∀ fuel ≥ 2, ∃ c,
      copyin PRand rands fuel vaddr buf.length m' = some ((buf.length : ℤ), c) ∧ c.buf = buf

variable {PRand : Bool} {rand S numPages vaddr n : ℕ} {m m' : VM}

/-! ### One byte -/

/-- The machine when a byte has been written to the frame of slot `i`. -/
def written (m : VM) (i vaddr : ℕ) (b : UInt8) : VM :=
  { m.touch i true with
    mainMemory := Function.update m.mainMemory (m.tlb i).physicalPage
      (writeBytes (m.mainMemory (m.tlb i).physicalPage) (vaddr % PageSize) [b]) }

theorem slotOf_written (m : VM) (i vaddr : ℕ) (b : UInt8) (v : ℕ) :
  (written m i vaddr b).slotOf v = m.slotOf v
  := slotOf_touch m i true v

theorem readOnly_touch (m : VM) (i : ℕ) (writing : Bool) (j : ℕ) :
  ((m.touch i writing).tlb j).readOnly = (m.tlb j).readOnly
  := by
  rw [touch, setTLB]
  by_cases h : j = i
  · rw [h]
    simp
  · simp [h]

theorem writable_written {i v : ℕ} {b : UInt8} :
  (written m i vaddr b).Writable v ↔ m.Writable v
  := by
  have hreadOnly : ∀ j, ((written m i vaddr b).tlb j).readOnly = (m.tlb j).readOnly :=
    readOnly_touch m i true
  simp only [Writable, slotOf_written, hreadOnly]

/-- The frame of a page that is in the translation buffer. -/
theorem holds_slot (h : m.Ok) (hspace : m.space = some S) {v i : ℕ} (hslot : m.slotOf v = some i) :
  m.Holds (m.tlb i).physicalPage S v
  := by
  have hi := List.mem_range.mp (List.mem_of_find?_eq_some hslot)
  have hentry := List.find?_some hslot
  simp only [Bool.and_eq_true, beq_iff_eq] at hentry
  obtain ⟨T, hT, hholds⟩ := h.buffered.slot i hi hentry.1
  obtain rfl := Option.some.inj (hspace.symm.trans hT)
  rw [hentry.2] at hholds
  exact hholds

theorem writeMem_hit (h : m.Ok) (hspace : m.space = some S) {i : ℕ} {b : UInt8}
    (hslot : m.slotOf (vaddr / PageSize) = some i) (hwritable : (m.tlb i).readOnly = false) :
  m.writeMem PRand rand vaddr [b] = some (written m i vaddr b, true)
  := by
  have hholds := holds_slot h hspace hslot
  have htranslate : m.translate vaddr true = some (.hit i) := by
    rw [VM.translate, hslot]
    simp [hwritable, Nat.not_le.mpr hholds.lt]
  rw [writeMem, if_pos ⟨.inl rfl, one_dvd _⟩, htranslate]
  rfl

/-- A byte that is written is in a page that may be written. -/
theorem writable_of_writeMem {b : UInt8}
    (hwrite : m.writeMem PRand rand vaddr [b] = some (m', true)) :
  m.Writable (vaddr / PageSize)
  := by
  rw [writeMem, if_pos ⟨.inl rfl, one_dvd _⟩, VM.translate] at hwrite
  cases hslot : m.slotOf (vaddr / PageSize) with
  | none =>
      rw [hslot] at hwrite
      obtain ⟨m₁, -, heq⟩ := Option.map_eq_some_iff.mp hwrite
      cases heq
  | some i =>
      rw [hslot] at hwrite
      refine ⟨i, hslot, ?_⟩
      by_contra hreadOnly
      rw [Bool.not_eq_false] at hreadOnly
      simp [hreadOnly] at hwrite

theorem Ready.written (h : Ready S numPages m) (i : ℕ) (b : UInt8) :
  Ready S numPages (written m i vaddr b)
  := ⟨h.ok.touch i true _, h.swap.congr (samePlaces_of_eq rfl rfl rfl), h.space, h.numPages⟩

/-- One byte changes. -/
theorem userByte_written (h : m.Ok) (hspace : m.space = some S) {i : ℕ}
    (hslot : m.slotOf (vaddr / PageSize) = some i) (b : UInt8) (T a : ℕ) :
  (written m i vaddr b).userByte T a = if T = S ∧ a = vaddr then b else m.userByte T a
  := by
  have hholds := holds_slot h hspace hslot
  have hok : (written m i vaddr b).Ok := h.touch i true _
  have hsame : ∀ f T v, (written m i vaddr b).Holds f T v ↔ m.Holds f T v := by
    intro f T v
    have hframes : SameFrames m (written m i vaddr b) := sameFrames_of_eq rfl
    exact hframes.holds_iff
  by_cases hin : ∃ f, m.Holds f T (a / PageSize)
  · obtain ⟨f, hf⟩ := hin
    rw [userByte, userByte, h.mapping.userPage_of_holds hf,
      hok.mapping.userPage_of_holds ((hsame _ _ _).mpr hf)]
    by_cases heq : f = (m.tlb i).physicalPage
    · -- the frame that is written, at one place
      subst heq
      obtain ⟨rfl, hpage⟩ : T = S ∧ a / PageSize = vaddr / PageSize := by
        have howner := hf.owner.symm.trans hholds.owner
        have hvirtual := hf.virtualPage.symm.trans hholds.virtualPage
        exact ⟨Option.some.inj howner, hvirtual⟩
      have hplace : vaddr % PageSize ≤ a % PageSize ∧ a % PageSize < vaddr % PageSize + 1 ↔
          a = vaddr := by
        rw [PageSize] at *
        omega
      simp only [Copy.written, Function.update_self, writeBytes, List.length_singleton, hplace]
      split
      · rename_i heq
        simp [heq]
      · rename_i hne
        simp [hne]
    · rw [if_neg]
      · simp only [Copy.written, Function.update_of_ne heq]
      · rintro ⟨rfl, rfl⟩
        exact heq (h.mapping.eq_of_holds hf hholds)
  · have hout : ∀ f, ¬ m.Holds f T (a / PageSize) := fun f hf => hin ⟨f, hf⟩
    have hout' : ∀ f, ¬ (written m i vaddr b).Holds f T (a / PageSize) :=
      fun f hf => hout f ((hsame _ _ _).mp hf)
    rw [if_neg]
    · rw [userByte, userByte, userPage, userPage, h.mapping.lookup_of_not_holds hout,
        hok.mapping.lookup_of_not_holds hout']
      rfl
    · rintro ⟨rfl, rfl⟩
      exact hout _ hholds

/-! ### The loop -/

theorem copyoutLoop_next {bytes : List UInt8} (h : vaddr + (bytes.length + 1) ≤ 2 ^ 32) :
  copyoutLoop PRand rand bytes ((vaddr + 1) % 2 ^ 32) n m =
    copyoutLoop PRand rand bytes (vaddr + 1) n m
  := by
  cases bytes with
  | nil => rfl
  | cons b bytes =>
      rw [List.length_cons] at h
      rw [Nat.mod_eq_of_lt (by omega)]

/-- What the loop does when all pages may be written. -/
structure Wrote (S numPages vaddr : ℕ) (bytes : List UInt8) (m m' : VM) : Prop where
  ready : Ready S numPages m'
  slot : ∀ v, m'.slotOf v = m.slotOf v
  inside : ∀ i < bytes.length, m'.userByte S (vaddr + i) = bytes.getD i 0
  outside : ∀ T a, (T = S → a < vaddr ∨ vaddr + bytes.length ≤ a) →
    m'.userByte T a = m.userByte T a

theorem wrote_of_copyoutLoop :
  ∀ {bytes : List UInt8} {vaddr n : ℕ} {m : VM}, Ready S numPages m →
    vaddr + bytes.length ≤ 2 ^ 32 →
    (∀ i < bytes.length, m.Writable ((vaddr + i) / PageSize)) →
    ∃ m', copyoutLoop PRand rand bytes vaddr n m = some ((n : ℤ) + bytes.length, m') ∧
      Wrote S numPages vaddr bytes m m'
  := by
  intro bytes
  induction bytes with
  | nil =>
      intro vaddr n m h _ _
      refine ⟨m, by simp [copyoutLoop], h, fun _ => rfl, ?_, fun _ _ _ => rfl⟩
      intro i hi
      exact absurd hi (Nat.not_lt_zero i)
  | cons b bytes ih =>
      intro vaddr n m h hword hwritable
      rw [List.length_cons] at hword hwritable
      obtain ⟨i, hslot, hreadOnly⟩ := hwritable 0 (Nat.succ_pos _)
      rw [Nat.add_zero, Option.mem_def] at hslot
      have hready : Ready S numPages (written m i vaddr b) := h.written i b
      obtain ⟨m', hloop, hwrote⟩ := @ih (vaddr + 1) (n + 1) _ hready (by omega) (by
        intro j hj
        rw [writable_written, Nat.add_assoc, Nat.add_comm 1]
        exact hwritable (j + 1) (by omega))
      refine ⟨m', ?_, hwrote.ready, ?_, ?_, ?_⟩
      · simp only [copyoutLoop, writeMem_hit h.ok h.space hslot hreadOnly]
        rw [copyoutLoop_next hword, hloop, List.length_cons]
        push_cast
        rw [Int.add_assoc, Int.add_comm 1]
      · intro v
        rw [hwrote.slot, slotOf_written]
      · intro j hj
        cases j with
        | zero =>
            rw [Nat.add_zero, hwrote.outside S vaddr (fun _ => .inl (Nat.lt_succ_self _)),
              userByte_written h.ok h.space hslot, if_pos ⟨rfl, rfl⟩]
            rfl
        | succ j =>
            have hbyte := hwrote.inside j (by simpa using hj)
            rw [Nat.add_assoc, Nat.add_comm 1] at hbyte
            rw [hbyte, List.getD_cons_succ]
      · intro T a ha
        rw [List.length_cons] at ha
        rw [hwrote.outside T a (fun hT => by have := ha hT; omega),
          userByte_written h.ok h.space hslot, if_neg]
        rintro ⟨hT, rfl⟩
        have := ha hT
        omega

/-- All pages may be written when the loop does not give up. -/
theorem writable_of_copyoutLoop :
  ∀ {bytes : List UInt8} {vaddr n : ℕ} {m : VM}, Ready S numPages m →
    vaddr + bytes.length ≤ 2 ^ 32 →
    copyoutLoop PRand rand bytes vaddr n m = some ((n : ℤ) + bytes.length, m') →
    ∀ i < bytes.length, m.Writable ((vaddr + i) / PageSize)
  := by
  intro bytes
  induction bytes with
  | nil =>
      intro vaddr n m _ _ _ i hi
      exact absurd hi (Nat.not_lt_zero i)
  | cons b bytes ih =>
      intro vaddr n m h hword hloop i hi
      rw [List.length_cons] at hword hi
      rw [copyoutLoop] at hloop
      split at hloop
      · cases hloop
      · have hfailed := (Prod.mk.inj (Option.some.inj hloop)).1
        omega
      · rename_i m₁ hwrite
        obtain ⟨j, hslot, hreadOnly⟩ := writable_of_writeMem hwrite
        cases i with
        | zero => exact ⟨j, hslot, hreadOnly⟩
        | succ i =>
            have hhit : m.writeMem PRand rand vaddr [b] = some (written m j vaddr b, true) :=
              writeMem_hit h.ok h.space hslot hreadOnly
            obtain ⟨rfl, -⟩ := Prod.mk.inj (Option.some.inj (hwrite.symm.trans hhit))
            rw [copyoutLoop_next hword] at hloop
            have hready : Ready S numPages (written m j vaddr b) := h.written j b
            have hrest := @ih (vaddr + 1) (n + 1) _ hready (by omega) (by
              rw [hloop, List.length_cons]
              push_cast
              rw [Int.add_assoc, Int.add_comm 1]) i (by omega)
            rw [writable_written, Nat.add_assoc, Nat.add_comm 1] at hrest
            exact hrest

/-! ### Copying back -/

/-- Bytes whose pages are in the translation buffer are copied to the kernel without a page fault. -/
theorem copyLoop_hit {rands : ℕ → ℕ} {fuel : ℕ} :
  ∀ {n vaddr : ℕ} {c : Copy}, Ready S numPages c.vm → vaddr + n ≤ 2 ^ 32 →
    (∀ i < n, ∃ j, c.vm.slotOf ((vaddr + i) / PageSize) = some j) →
    ∃ c', copyLoop PRand rands (fuel + 1) n vaddr c = some c' ∧
      c'.buf = c.buf ++ userBytes c.vm S vaddr n
  := by
  intro n
  induction n with
  | zero =>
      intro vaddr c _ _ _
      exact ⟨c, rfl, by simp [userBytes]⟩
  | succ n ih =>
      intro vaddr c h hword hslots
      obtain ⟨j, hj⟩ := hslots 0 (Nat.succ_pos n)
      rw [Nat.add_zero] at hj
      obtain ⟨c', hcopy, hbuf⟩ := @ih (vaddr + 1)
        { c with vm := c.vm.touch j false, buf := c.buf ++ [c.vm.userByte S vaddr] }
        (h.touch j) (by omega) (by
          intro i hi
          have hslot := hslots (i + 1) (by omega)
          rw [← Nat.add_assoc, Nat.add_right_comm] at hslot
          simp only [slotOf_touch]
          exact hslot)
      refine ⟨c', ?_, ?_⟩
      · rw [copyLoop, readByte_hit h hj, Option.bind_some, copyLoop_next hword]
        exact hcopy
      · rw [hbuf, userBytes_succ, List.append_assoc]
        rfl

/-- `copyin` returns bytes that are those of the process, when their pages are in the translation
buffer. -/
theorem copyin_hit {buf : List UInt8} (h : Ready S numPages m) (hword : vaddr + buf.length ≤ 2 ^ 32)
    (hslots : ∀ i < buf.length, ∃ j, m.slotOf ((vaddr + i) / PageSize) = some j)
    (hbytes : ∀ i < buf.length, m.userByte S (vaddr + i) = buf.getD i 0) (rands : ℕ → ℕ) {fuel : ℕ}
    (hfuel : 2 ≤ fuel) :
  ∃ c, copyin PRand rands fuel vaddr buf.length m = some ((buf.length : ℤ), c) ∧ c.buf = buf
  := by
  obtain ⟨k, rfl⟩ := Nat.exists_eq_add_of_le' hfuel
  obtain ⟨c, hcopy, hbuf⟩ := @copyLoop_hit PRand S numPages rands (k + 1) _ vaddr ⟨m, 0, []⟩ h hword
    hslots
  have hall : userBytes m S vaddr buf.length = buf := by
    apply List.ext_getElem (by simp [userBytes])
    intro i _ hi
    simp [userBytes, hbytes i hi, hi]
  refine ⟨c, ?_, ?_⟩
  · rw [copyin, Int.toNat_natCast, hcopy]
    rfl
  · rw [hbuf, hall]
    rfl

/-- The bytes are copied exactly if all their pages may be written without a page fault. -/
theorem copyout_iff {buf : List UInt8} {sp : AddrSpace} (hok : m.Ok) (hswap : m.SwapOk)
    (hspace : m.space = some S) (hS : m.spaces S = some sp)
    (hrange : InRange sp.numPages vaddr buf.length) :
  CopiedOut PRand rand S vaddr buf m ↔ ∀ i < buf.length, m.Writable ((vaddr + i) / PageSize)
  := by
  have hready : Ready S sp.numPages m := ⟨hok, hswap, hspace, sp, hS, rfl⟩
  constructor
  · rintro ⟨m', hcopy, -⟩
    have hloop : copyoutLoop PRand rand buf vaddr 0 m = some (((0 : ℕ) : ℤ) + buf.length, m') := by
      simpa [copyout] using hcopy
    exact writable_of_copyoutLoop hready hrange.2 hloop
  · intro hwritable
    obtain ⟨m', hloop, hwrote⟩ := @wrote_of_copyoutLoop PRand rand S _ buf vaddr 0 m hready hrange.2
      hwritable
    have hcopy : copyout PRand rand vaddr buf m = some ((buf.length : ℤ), m') := by
      simpa [copyout] using hloop
    refine ⟨m', hcopy, hwrote.inside, hwrote.outside, ?_⟩
    intro rands fuel hfuel
    apply copyin_hit hwrote.ready hrange.2 _ hwrote.inside rands hfuel
    intro i hi
    obtain ⟨j, hj, -⟩ := hwritable i hi
    exact ⟨j, (hwrote.slot _).trans hj⟩

/-- The process that has filled memory gets two bytes at the end of the last page. -/
theorem copyout_filled :
  CopiedOut false 0 0 (NumPhysPages * PageSize - 2) [1, 2] (Traced.filled NumPhysPages)
  := by
  have hok : (⟨Traced.filled NumPhysPages, Traced.zeros⟩ : Traced).Ok :=
    @traced_ok [] _ trivial rfl
  apply (copyout_iff hok.tables hok.coherent.swap rfl rfl (by decide)).mpr
  decide +kernel

/-- The first page is in memory and not in the translation buffer, so a byte of it is not copied. -/
theorem copyout_first :
  (copyout false 0 0 [1] (Traced.filled NumPhysPages)).map Prod.fst = some (-1)
  := by
  decide +kernel

theorem not_copyout :
  ¬ ∀ (PRand : Bool) (rand S vaddr : ℕ) (buf : List UInt8) (m : VM) (sp : AddrSpace),
    m.Ok → m.SwapOk → m.space = some S → m.spaces S = some sp →
    InRange sp.numPages vaddr buf.length → (∀ l < swapSize, m.swapFileBitMap l = false) →
      CopiedOut PRand rand S vaddr buf m
  := by
  intro hall
  have hok : (⟨Traced.filled NumPhysPages, Traced.zeros⟩ : Traced).Ok :=
    @traced_ok [] _ trivial rfl
  obtain ⟨m', hcopy, -⟩ := hall false 0 0 0 [1] (Traced.filled NumPhysPages) _ hok.tables
    hok.coherent.swap rfl rfl (by decide) (fun _ _ => rfl)
  have hfirst := copyout_first
  rw [hcopy] at hfirst
  simp at hfirst

end Copy

end Nachos.Memory
