import Nachos.Memory.Frames

/-!
# Wild addresses

An address is a word of 32 bits. `Machine::Translate` (`machine/translate.cc`) divides it by the size
of a page as an unsigned number. `HandlePageFault` (`userprog/exception.cc`) finds the address in a
register, which is an `int`, and divides that. Neither compares the page with the size of the page
table as long as there is a translation buffer, and `AddrSpace::IPTMiss` uses the page as an index.

A page fault is handled for the page that was looked up, and inside the page table, exactly when the
address is that of an `int` and its page is one of the address space (`VM.contained_iff`). Then it is
handled as `VM.pageFault` says (`VM.respond_pageFault`).
-/

namespace Nachos.Memory

/-- An address. -/
abbrev Word := BitVec 32

/-- The exceptions that `Translate` returns. -/
inductive ExceptionType where
  | pageFaultException
  | readOnlyException
  | busErrorException
  | addressErrorException
deriving DecidableEq

namespace VM

/-- The check for alignment errors. -/
def Misaligned (virtAddr : Word) (size : ℕ) : Prop :=
  size = 4 ∧ virtAddr &&& 3 ≠ 0 ∨ size = 2 ∧ virtAddr &&& 1 ≠ 0

instance (virtAddr : Word) (size : ℕ) : Decidable (Misaligned virtAddr size) :=
  inferInstanceAs (Decidable (_ ∨ _))

/-- The page of an address in `Translate`. -/
def vpnOf (virtAddr : Word) : ℕ := virtAddr.toNat / PageSize

/-- The page of an address in `HandlePageFault`. -/
def badVpn (badVAddr : Word) : ℤ := badVAddr.toInt.tdiv PageSize

/-- `Machine::Translate`: the slot of the translation buffer, or an exception. -/
def translateWord (m : VM) (virtAddr : Word) (size : ℕ) (writing : Bool) :
    Except ExceptionType ℕ :=
  if Misaligned virtAddr size then .error .addressErrorException
  else
    match m.slotOf (vpnOf virtAddr) with
    | none => .error .pageFaultException
    | some i =>
        if (m.tlb i).readOnly && writing then .error .readOnlyException
        else if NumPhysPages ≤ (m.tlb i).physicalPage then .error .busErrorException
        else .ok i

/-- The loop of `HandlePageFault`, for page `vpn` of the address space `S`. -/
def lookupInt (m : VM) (S : ℕ) (vpn : ℤ) : Option ℕ :=
  ((List.range NumPhysPages).find? (fun i =>
      ((m.IPT i).entry.virtualPage : ℤ) == vpn && (m.IPT i).owner == some S &&
        (m.IPT i).entry.valid)).map (fun i => (m.IPT i).entry.physicalPage)

/-- The frame `HandleIPTMiss` frees. -/
def freeFrame (PRand : Bool) (rand : ℕ) (m : VM) : Option (VM × ℕ) :=
  match find NumPhysPages m.mainMemoryBitMap with
  | some ppn =>
      some ({ m with mainMemoryBitMap := Function.update m.mainMemoryBitMap ppn true }, ppn)
  | none => handleMemoryFull PRand rand m

/-- `AddrSpace::IPTMiss` of the address space `S`. It is `none` where the code leaves the page
table. -/
def iptMissInt (S : ℕ) (vpn : ℤ) (ppn : ℕ) (m : VM) : Option VM := do
  let sp ← m.spaces S
  if 0 ≤ vpn ∧ vpn < sp.numPages then return m.iptMiss S sp vpn.toNat ppn
  else none

/-- What happens at an address. -/
structure Response where
  /-- The page that `HandlePageFault` works on. -/
  vpn : Option ℤ
  /-- The entries of the page table that `IPTMiss` uses. -/
  accessed : List ℤ
  /-- The memory afterwards, `none` where the machine halts in the handler or the code leaves a
  table. -/
  vm : Option VM

/-- `HandlePageFault` in the address space `S`. -/
def handlePageFaultInt (PRand : Bool) (rand : ℕ) (S : ℕ) (badVAddr : Word) (m : VM) : Response :=
  let vpn := badVpn badVAddr
  match m.lookupInt S vpn with
  | some ppn => ⟨vpn, [], m.updateTLB ppn⟩
  | none =>
      match freeFrame PRand rand m with
      | none => ⟨vpn, [], none⟩
      | some (m, ppn) => ⟨vpn, [vpn], (m.iptMissInt S vpn ppn).bind (·.updateTLB ppn)⟩

/-- What an access to memory by a thread of the address space `S` leads to. When it is translated
nothing else happens, and `ExceptionHandler` halts the machine for the exceptions other than page
faults. -/
def respond (PRand : Bool) (rand : ℕ) (S : ℕ) (virtAddr : Word) (size : ℕ) (writing : Bool)
    (m : VM) : Response :=
  match m.translateWord virtAddr size writing with
  | .ok _ => ⟨none, [], some m⟩
  | .error .pageFaultException => handlePageFaultInt PRand rand S virtAddr m
  | .error _ => ⟨none, [], some m⟩

/-- The access to memory is rejected, or is handled for the page that `Translate` has looked up, which
is one of the `numPages` pages of the address space. -/
structure Contained (m : VM) (numPages : ℕ) (virtAddr : Word) (r : Response) : Prop where
  page : r.vpn = none ∧ r.vm = some m ∨
    r.vpn = some (vpnOf virtAddr : ℤ) ∧ vpnOf virtAddr < numPages
  accessed : ∀ vpn ∈ r.accessed, 0 ≤ vpn ∧ vpn < numPages

/-! ### Page numbers -/

/-- The two page numbers are the same for an address that is not negative as an `int`. -/
theorem badVpn_eq_iff {virtAddr : Word} :
  badVpn virtAddr = vpnOf virtAddr ↔ virtAddr.toNat < 2 ^ 31
  := by
  rw [badVpn, vpnOf, BitVec.toInt_eq_toNat_cond]
  split
  · rename_i hsmall
    rw [Int.natCast_tdiv_eq_ediv]
    constructor
    · intro _
      omega
    · intro _
      rfl
  · rename_i hlarge
    have hneg : ((virtAddr.toNat : ℤ) - (2 ^ 32 : ℕ)).tdiv PageSize ≤ 0 := by
      rw [← neg_neg ((virtAddr.toNat : ℤ) - (2 ^ 32 : ℕ)), Int.neg_tdiv, neg_nonpos]
      apply Int.tdiv_nonneg _ (by decide)
      omega
    have hpos : 0 < virtAddr.toNat / PageSize := by
      apply Nat.div_pos _ (by decide)
      rw [PageSize]
      omega
    constructor
    · intro heq
      omega
    · intro hsmall
      omega

theorem lookupInt_natCast (m : VM) (S vpn : ℕ) :
  m.lookupInt S vpn = m.lookup S vpn
  := by
  have hpage : ∀ i, (((m.IPT i).entry.virtualPage : ℤ) == (vpn : ℤ)) =
      ((m.IPT i).entry.virtualPage == vpn) := by
    intro i
    rw [Bool.eq_iff_iff, beq_iff_eq, beq_iff_eq, Int.natCast_inj]
  simp only [lookupInt, lookup, hpage]

/-! ### Page faults -/

section Respond

variable {PRand : Bool} {rand S size : ℕ} {virtAddr : Word} {writing : Bool} {m : VM}
  {sp : AddrSpace}

theorem vpn_handlePageFaultInt :
  (handlePageFaultInt PRand rand S virtAddr m).vpn = some (badVpn virtAddr)
  := by
  unfold handlePageFaultInt
  dsimp only
  split
  · rfl
  · split <;> rfl

theorem accessed_handlePageFaultInt {vpn : ℤ}
    (h : vpn ∈ (handlePageFaultInt PRand rand S virtAddr m).accessed) :
  vpn = badVpn virtAddr
  := by
  unfold handlePageFaultInt at h
  dsimp only at h
  split at h
  · cases h
  · split at h
    · cases h
    · exact List.mem_singleton.mp h

/-- The frame that is evicted has an owner. -/
theorem owner_of_evict {m' : VM} {ppn : ℕ} (h : evict ppn m = some m') :
  ∃ T tp, (m.IPT ppn).owner = some T ∧ m.spaces T = some tp
  := by
  simp only [evict, Option.bind_eq_bind] at h
  obtain ⟨T, howner, h⟩ := Option.bind_eq_some_iff.mp h
  obtain ⟨tp, hT, -⟩ := Option.bind_eq_some_iff.mp h
  simp only [invalidateTLB_eq, Function.update_self] at howner hT
  exact ⟨T, tp, howner, hT⟩

/-- An access that is aligned and whose page has no slot is a page fault. -/
theorem respond_of_fault (halign : ¬ Misaligned virtAddr size)
    (hslot : m.slotOf (vpnOf virtAddr) = none) :
  respond PRand rand S virtAddr size writing m = handlePageFaultInt PRand rand S virtAddr m
  := by
  simp [respond, translateWord, halign, hslot]

/-- Any other access is translated or rejected. -/
theorem respond_of_not_fault (h : Misaligned virtAddr size ∨ m.slotOf (vpnOf virtAddr) ≠ none) :
  respond PRand rand S virtAddr size writing m = ⟨none, [], some m⟩
  := by
  rw [respond]
  split
  · rfl
  · rename_i hfault
    rw [translateWord] at hfault
    split at hfault
    · cases hfault
    · rename_i halign
      cases hslot : m.slotOf (vpnOf virtAddr) with
      | none => exact absurd (h.resolve_left halign) (not_not.mpr hslot)
      | some i =>
          simp only [hslot] at hfault
          split at hfault
          · cases hfault
          · split at hfault <;> cases hfault
  · rfl

/-- An address space has as many pages as before when a frame has been freed. -/
theorem numPages_freeFrame {m' : VM} {ppn : ℕ} (hS : m.spaces S = some sp)
    (h : freeFrame PRand rand m = some (m', ppn)) :
  ∃ sp', m'.spaces S = some sp' ∧ sp'.numPages = sp.numPages
  := by
  rw [freeFrame] at h
  split at h
  · obtain ⟨rfl, -⟩ := Prod.mk.inj (Option.some.inj h)
    exact ⟨sp, hS, rfl⟩
  · simp only [handleMemoryFull, Option.bind_eq_bind, Option.pure_def] at h
    obtain ⟨m₁, hevict, heq⟩ := Option.bind_eq_some_iff.mp h
    obtain ⟨rfl, -⟩ := Prod.mk.inj (Option.some.inj heq)
    obtain ⟨T, tp, howner, hT⟩ := owner_of_evict hevict
    rw [evict_eq howner hT] at hevict
    obtain ⟨tp', hpage, hspaces⟩ := (evicts_of_evicted hevict).page
    rw [hspaces, Function.update_apply]
    split
    · rename_i hST
      subst hST
      obtain rfl := Option.some.inj (hT.symm.trans hS)
      exact ⟨tp', rfl, hpage.numPages⟩
    · exact ⟨sp, hS, rfl⟩

/-- A page fault inside the address space is handled as in `pageFault`. -/
theorem respond_pageFault (hspace : m.space = some S) (hS : m.spaces S = some sp)
    (halign : ¬ Misaligned virtAddr size) (hslot : m.slotOf (vpnOf virtAddr) = none)
    (hint : virtAddr.toNat < 2 ^ 31) (hpage : vpnOf virtAddr < sp.numPages) :
  (respond PRand rand S virtAddr size writing m).vm = m.pageFault PRand rand virtAddr.toNat
  := by
  have hvpn : badVpn virtAddr = vpnOf virtAddr := badVpn_eq_iff.mpr hint
  have hfault : m.pageFault PRand rand virtAddr.toNat =
      handlePageFault PRand rand S (vpnOf virtAddr) m := by
    simp only [pageFault, hspace, hS, Option.bind_eq_bind, Option.bind_some]
    exact if_pos ⟨hint, hpage⟩
  have hmiss : handleIPTMiss PRand rand S (vpnOf virtAddr) m =
      (freeFrame PRand rand m).bind (fun r =>
        (r.1.spaces S).map (fun sp => (r.1.iptMiss S sp (vpnOf virtAddr) r.2, r.2))) := by
    simp only [handleIPTMiss, freeFrame, Option.bind_eq_bind, Option.pure_def]
    cases find NumPhysPages m.mainMemoryBitMap with
    | none | some ppn => simp only [Option.map_eq_bind, Option.bind_some]; rfl
  rw [respond_of_fault halign hslot, hfault, handlePageFaultInt, handlePageFault]
  simp only [hvpn, lookupInt_natCast]
  cases m.lookup S (vpnOf virtAddr) with
  | some ppn => rfl
  | none =>
      simp only [hmiss]
      cases hfree : freeFrame PRand rand m with
      | none => rfl
      | some r =>
          obtain ⟨m₁, ppn⟩ := r
          obtain ⟨sp₁, hsp₁, hnum⟩ := numPages_freeFrame hS hfree
          have hlt : vpnOf virtAddr < sp₁.numPages := by omega
          simp [iptMissInt, hsp₁, hlt]

/-- The access is rejected, or its page fault is handled for the page that was looked up and inside the
page table, exactly when there is no page fault or the page fault is at an address of an `int` in the
address space. -/
theorem contained_iff {numPages : ℕ} :
  m.Contained numPages virtAddr (respond PRand rand S virtAddr size writing m) ↔
    Misaligned virtAddr size ∨ m.slotOf (vpnOf virtAddr) ≠ none ∨
      virtAddr.toNat < 2 ^ 31 ∧ vpnOf virtAddr < numPages
  := by
  by_cases hnone : Misaligned virtAddr size ∨ m.slotOf (vpnOf virtAddr) ≠ none
  · constructor
    · intro _
      exact or_assoc.mp (.inl hnone)
    · intro _
      rw [respond_of_not_fault hnone]
      refine ⟨.inl ⟨rfl, rfl⟩, ?_⟩
      intro vpn hvpn
      cases hvpn
  · obtain ⟨halign, hslot⟩ := not_or.mp hnone
    rw [not_not] at hslot
    rw [respond_of_fault halign hslot]
    constructor
    · intro hcontained
      obtain ⟨hvpn, -⟩ | ⟨hvpn, hlt⟩ := hcontained.page
      · rw [vpn_handlePageFaultInt] at hvpn
        cases hvpn
      · rw [vpn_handlePageFaultInt] at hvpn
        exact .inr (.inr ⟨badVpn_eq_iff.mp (Option.some.inj hvpn), hlt⟩)
    · rintro (hmisaligned | hfound | ⟨hint, hlt⟩)
      · exact absurd hmisaligned halign
      · exact absurd hslot hfound
      · have hvpn : badVpn virtAddr = vpnOf virtAddr := badVpn_eq_iff.mpr hint
        constructor
        · right
          rw [vpn_handlePageFaultInt, hvpn]
          exact ⟨rfl, hlt⟩
        · intro vpn hmem
          rw [accessed_handlePageFaultInt hmem, hvpn]
          omega

end Respond

/-- A process with nine pages has read nothing yet. -/
def started : VM :=
  { initial (fun _ => ⟨0, 0, false, false, false, false⟩)
      (fun _ => ⟨0, 0, false, false, false, false⟩) with
    spaces := fun S => if S = 0 then some (AddrSpace.new (fun _ => (0, 0)) [] 9) else none
    space := some 0 }

/-- The first address behind the address space leads to the tenth entry of the page table. -/
theorem not_contained :
  ¬ ∀ (PRand : Bool) (rand S size : ℕ) (virtAddr : Word) (writing : Bool) (m : VM) (sp : AddrSpace),
    m.space = some S → m.spaces S = some sp →
      m.Contained sp.numPages virtAddr (respond PRand rand S virtAddr size writing m)
  := by
  intro hall
  have hcontained := hall false 0 0 4 1152 false started _ rfl rfl
  have hin := hcontained.accessed 9 (by decide)
  exact absurd hin (by decide)

end VM

end Nachos.Memory
