import Nachos.Filesys.Basic
import Nachos.Monitor.Semaphore
import Nachos.Monitor.Turns

/-!
# The synchronous disk

A `SynchDisk` (`filesys/synchdisk.cc`) is a disk (`machine/disk.cc`) with a lock and a semaphore. Any
number of threads call `ReadSector` and `WriteSector`, and also use other locks, sleep elsewhere and
are woken. The disk is never given a request while it is active, a call returns only after the
interrupt of its own request, and the results are those of the calls one after the other, in the order
in which the threads have obtained the lock (`SynchDisk.synchDisk_serialises`).
-/

namespace Nachos.Filesys

open Nachos.Monitor

/-- The lock `L` is used. -/
def usesLock (L : ℕ) : Kernel.Action → Bool
  | .acquire M | .release M => M == L
  | .wait _ M | .signal _ M | .broadcast _ M => M == some L
  | _ => false

namespace SynchDisk

/-! ### The disk -/

/-- A disk, and the numbers of the requests whose interrupts have been scheduled. -/
structure Device where
  sectors : Disk
  active : Bool
  pending : List ℕ

/-- `ReadRequest` when the disk is not active. It is `none` where there is no such sector. -/
def Device.readRequest (d : Device) (number : ℕ) (sectorNumber : ℤ) : Option (Device × Bytes) :=
  if 0 ≤ sectorNumber ∧ sectorNumber < NumSectors then
    some ({ d with active := true, pending := d.pending ++ [number] }, d.sectors sectorNumber.toNat)
  else none

/-- `WriteRequest` when the disk is not active. It is `none` where there is no such sector. -/
def Device.writeRequest (d : Device) (number : ℕ) (sectorNumber : ℤ) (data : Bytes) :
    Option Device :=
  if 0 ≤ sectorNumber ∧ sectorNumber < NumSectors then
    some { sectors := Function.update d.sectors sectorNumber.toNat data,
           active := true, pending := d.pending ++ [number] }
  else none

/-- `HandleInterrupt`, up to the call of the handler, for one of the scheduled interrupts. -/
def Device.handleInterrupt (d : Device) (i : ℕ) : Option (Device × ℕ) :=
  d.pending[i]?.map (fun n => ({ d with active := false, pending := d.pending.eraseIdx i }, n))

/-! ### Calls -/

inductive Request where
  | read (sectorNumber : ℤ)
  | write (sectorNumber : ℤ) (data : Bytes)

/-- A request to the disk, and what has been read. -/
def Device.request (d : Device) (number : ℕ) : Request → Option (Device × Option Bytes)
  | .read sectorNumber => (d.readRequest number sectorNumber).map (fun (d, data) => (d, some data))
  | .write sectorNumber data => (d.writeRequest number sectorNumber data).map (fun d => (d, none))

/-- A call that is executed at once. -/
def Request.execute (disk : Disk) : Request → Option (Disk × Option Bytes)
  | .read (.ofNat sector) => (readSector disk sector).map (fun data => (disk, some data))
  | .write (.ofNat sector) data => (writeSector disk sector data).map (fun disk => (disk, none))
  | .read (.negSucc _) | .write (.negSucc _) _ => none

/-- Calls that are executed one after the other. -/
def executeAll (disk : Disk) : List Request → Option (Disk × List (Option Bytes))
  | [] => some (disk, [])
  | r :: rs => do
      let (disk, data) ← r.execute disk
      let (disk, results) ← executeAll disk rs
      some (disk, data :: results)

/-- A call that has made its request. -/
structure Call where
  thread : ℕ
  request : Request
  result : Option Bytes
  /-- The interrupt of the request has occurred. -/
  interrupted : Bool

/-- The number of a call, and what it has returned to its thread. -/
structure Return where
  thread : ℕ
  number : ℕ
  result : Option Bytes

structure Data where
  device : Device
  semaphore : Semaphore.Data
  /-- The calls that have made their requests, in this order. -/
  calls : List Call
  returned : List Return

/-- Where a thread is. It remembers whether interrupts are disabled when it returns, the number of its
call, and what has been read. -/
inductive Pos where
  | outside (off : Bool)
  /-- At the end of `lock->Acquire()`, or in it. -/
  | acquiring (off : Bool) (r : Request)
  /-- At the end of `disk->ReadRequest` or `disk->WriteRequest`. -/
  | requested (off : Bool) (number : ℕ) (data : Option Bytes)
  /-- At the loop of `semaphore->P()`. -/
  | inP (off : Bool) (number : ℕ) (data : Option Bytes)
  /-- At the `Sleep` in `semaphore->P()`. -/
  | asleep (off : Bool) (number : ℕ) (data : Option Bytes)
  /-- At the end of `semaphore->P()`. -/
  | completed (off : Bool) (number : ℕ) (data : Option Bytes)
  /-- At the end of `lock->Release()`, or in it. -/
  | released (off : Bool) (number : ℕ) (data : Option Bytes)
  /-- The assertion that the disk is not active has failed. -/
  | failed

/-- What a handler does. -/
inductive Event where
  /-- The interrupt of the disk that is number `i` of those that have been scheduled. -/
  | diskDone (i : ℕ)
  | wake (u : ℕ)

/-- What a thread does when it is in no call, and what the handlers do. -/
inductive Choice where
  | call (r : Request)
  | setLevel (off : Bool)
  | other (a : Kernel.Action)
  | sleep
  | wake (u : ℕ)
  | handlers (es : List Event)

/-- The code of `ReadSector` and `WriteSector`, with the lock `L`. -/
def next (L t : ℕ) : Pos → Data → Choice → Option (Data × Effect × Pos)
  | .outside off, s, .call r => some (s, .call (.acquire L), .acquiring off r)
  | .outside _, s, .setLevel off => some (s, .compute, .outside off)
  | .outside off, s, .other a => if usesLock L a then none else some (s, .call a, .outside off)
  | .outside off, s, .sleep =>
      some ({ s with semaphore := { s.semaphore with others := t :: s.semaphore.others } }, .park,
        .outside off)
  | .outside off, s, .wake u =>
      if u ∈ s.semaphore.others then
        some ({ s with semaphore := { s.semaphore with others := s.semaphore.others.erase u } },
          .wake u, .outside off)
      else none
  | .outside _, _, .handlers _ => none
  | .acquiring off r, s, _ =>
      if s.device.active then some (s, .compute, .failed)
      else (s.device.request s.calls.length r).map (fun (device, data) =>
        ({ s with device := device, calls := s.calls ++ [⟨t, r, data, false⟩] }, .compute,
          .requested off s.calls.length data))
  | .requested off n data, s, _ => some (s, .compute, .inP off n data)
  | .inP off n data, s, _ | .asleep off n data, s, _ =>
      if s.semaphore.value = 0 then
        some ({ s with semaphore := s.semaphore.enqueue t }, .park, .asleep off n data)
      else some ({ s with semaphore := s.semaphore.consume t }, .compute, .completed off n data)
  | .completed off n data, s, _ => some (s, .call (.release L), .released off n data)
  | .released off n data, s, _ =>
      some ({ s with returned := s.returned ++ [⟨t, n, data⟩] }, .compute, .outside off)
  | .failed, _, _ => none

/-- What a handler does, and the threads that it wakes. -/
def handle (s : Data) : Event → Option (Data × List ℕ)
  | .diskDone i => (s.device.handleInterrupt i).map (fun (device, n) =>
      ({ s with device := device, semaphore := s.semaphore.V.1,
                calls := s.calls.modify n (fun c => { c with interrupted := true }) },
        s.semaphore.V.2.toList))
  | .wake u =>
      if u ∈ s.semaphore.others then
        some ({ s with semaphore := { s.semaphore with others := s.semaphore.others.erase u } }, [u])
      else none

/-- What handlers do one after the other, and the threads that they wake. -/
def handlers (s : Data) : List Event → Option (Data × List ℕ)
  | [] => some (s, [])
  | e :: es => do
      let (s, us) ← handle s e
      let (s, vs) ← handlers s es
      some (s, us ++ vs)

/-- Interrupts are disabled in `P`. -/
def code (L : ℕ) : Code Data Pos Choice where
  next := next L
  masked
    | .inP .. | .asleep .. => true
    | .outside off | .acquiring off _ | .requested off _ _ | .completed off _ _
    | .released off _ _ => off
    | .failed => true
  interrupt
    | s, .handlers es => handlers s es
    | _, _ => none

/-- No call has been made, and the threads `others` are asleep. -/
def Data.initial (disk : Disk) (others : List ℕ) : Data :=
  ⟨⟨disk, false, []⟩, Semaphore.Data.initial 0 others, [], []⟩

/-- What is claimed of a synchronous disk with the lock `L`. -/
structure Serialises (disk : Disk) (L : ℕ) (x : Exec Data Pos) : Prop where
  safe : ∀ t, x.pos t ≠ .failed
  /-- The results are those of the calls one after the other. -/
  serial : executeAll disk (x.data.calls.map Call.request) =
    some (x.data.device.sectors, x.data.calls.map Call.result)
  /-- The calls are in the order in which their threads have obtained the lock. One thread may have
  obtained it and not yet made its request. -/
  order : ∃ next : Option ℕ,
    x.kernel.turns L = x.data.calls.map Call.thread ++ next.toList
  /-- A call that has returned has had its interrupt. -/
  returned : ∀ r ∈ x.data.returned, ∃ c, x.data.calls[r.number]? = some c ∧
    c.thread = r.thread ∧ c.result = r.result ∧ c.interrupted = true

/-! ### The calls -/

section

variable {disk : Disk} {s : Data} {t n : ℕ} {data : Option Bytes}

/-- A call after others. -/
theorem executeAll_concat {disk' disk'' : Disk} {rs : List Request} {results : List (Option Bytes)}
    {r : Request} (hall : executeAll disk rs = some (disk', results))
    (hone : r.execute disk' = some (disk'', data)) :
  executeAll disk (rs ++ [r]) = some (disk'', results ++ [data])
  := by
  induction rs generalizing disk results with
  | nil =>
      obtain ⟨rfl, rfl⟩ := Prod.mk.inj (Option.some.inj hall)
      simp [executeAll, hone]
  | cons r' rs ih =>
      simp only [executeAll, Option.bind_eq_bind, Option.bind_eq_some_iff, Option.some.injEq] at hall
      obtain ⟨⟨d, a⟩, hfirst, ⟨d', as⟩, hrest, heq⟩ := hall
      obtain ⟨rfl, rfl⟩ := Prod.mk.inj heq
      simp [executeAll, hfirst, ih hrest]

/-- A request is executed at once, and its interrupt is scheduled. -/
theorem Device.request_spec {d d' : Device} {r : Request}
    (hrequest : d.request n r = some (d', data)) :
  r.execute d.sectors = some (d'.sectors, data) ∧ d'.active = true ∧ d'.pending = d.pending ++ [n]
  := by
  cases r with
  | read sectorNumber =>
      simp only [request, readRequest, Option.map_eq_some_iff, Option.ite_none_right_eq_some] at hrequest
      obtain ⟨⟨d₁, a⟩, ⟨⟨hle, hlt⟩, heq⟩, heq'⟩ := hrequest
      obtain ⟨rfl, rfl⟩ := Prod.mk.inj (Option.some.inj heq)
      obtain ⟨rfl, rfl⟩ := Prod.mk.inj heq'
      obtain ⟨sector, rfl⟩ := Int.eq_ofNat_of_zero_le hle
      have hsector : sector < NumSectors := by omega
      have hread : readSector d.sectors sector = some (d.sectors sector) := if_pos hsector
      refine ⟨?_, rfl, rfl⟩
      change (readSector d.sectors sector).map _ = _
      rw [hread]
      rfl
  | write sectorNumber bytes =>
      simp only [request, writeRequest, Option.map_eq_some_iff, Option.ite_none_right_eq_some] at hrequest
      obtain ⟨d₁, ⟨⟨hle, hlt⟩, heq⟩, heq'⟩ := hrequest
      obtain rfl := Option.some.inj heq
      obtain ⟨rfl, rfl⟩ := Prod.mk.inj heq'
      obtain ⟨sector, rfl⟩ := Int.eq_ofNat_of_zero_le hle
      have hsector : sector < NumSectors := by omega
      have hwrite : writeSector d.sectors sector bytes =
          some (Function.update d.sectors sector bytes) := if_pos hsector
      refine ⟨?_, rfl, rfl⟩
      change (writeSector d.sectors sector bytes).map _ = _
      rw [hwrite]
      rfl

/-- The call number `n` has been made by the thread `t`, and the result is `data`. -/
def Made (cs : List Call) (t n : ℕ) (data : Option Bytes) : Prop :=
  ∃ c, cs[n]? = some c ∧ c.thread = t ∧ c.result = data

/-- The interrupt of the call number `n` has occurred. -/
def Interrupted (cs : List Call) (n : ℕ) : Prop := ∃ c, cs[n]? = some c ∧ c.interrupted = true

/-- Calls are added, and interrupts occur. -/
def Extends (cs cs' : List Call) : Prop :=
  ∀ (n : ℕ) (c : Call), cs[n]? = some c → ∃ c' : Call, cs'[n]? = some c' ∧ c'.thread = c.thread ∧
    c'.result = c.result ∧ (c.interrupted = true → c'.interrupted = true)

theorem extends_append (cs : List Call) (c : Call) :
  Extends cs (cs ++ [c])
  := by
  intro n c' hc'
  obtain ⟨hlt, -⟩ := List.getElem?_eq_some_iff.mp hc'
  exact ⟨c', by rw [List.getElem?_append_left hlt, hc'], rfl, rfl, id⟩

theorem extends_modify (cs : List Call) (n : ℕ) :
  Extends cs (cs.modify n (fun c => { c with interrupted := true }))
  := by
  intro m c hc
  rw [List.getElem?_modify, hc]
  by_cases hnm : n = m
  · simp [hnm]
  · simp [hnm]

/-- What an interrupt does not change in the calls. -/
theorem map_modify {β : Type} (cs : List Call) (n : ℕ) {f : Call → β}
    (hf : ∀ c, f { c with interrupted := true } = f c) :
  (cs.modify n (fun c => { c with interrupted := true })).map f = cs.map f
  := by
  apply List.ext_getElem?
  intro m
  rw [List.getElem?_map, List.getElem?_modify, List.getElem?_map]
  by_cases hnm : n = m
  · cases cs[m]? with
    | none => rfl
    | some c => simp [hnm, hf c]
  · simp [hnm]

theorem Made.extends {cs cs' : List Call} (h : Made cs t n data) (hextends : Extends cs cs') :
  Made cs' t n data
  := by
  obtain ⟨c, hc, hthread, hresult⟩ := h
  obtain ⟨c', hc', hthread', hresult', -⟩ := hextends n c hc
  exact ⟨c', hc', hthread'.trans hthread, hresult'.trans hresult⟩

theorem Interrupted.extends {cs cs' : List Call} (h : Interrupted cs n) (hextends : Extends cs cs') :
  Interrupted cs' n
  := by
  obtain ⟨c, hc, hinterrupted⟩ := h
  obtain ⟨c', hc', -, -, hkept⟩ := hextends n c hc
  exact ⟨c', hc', hkept hinterrupted⟩

end

/-! ### The disk and the semaphore -/

/-- The number of the call of a thread, and what has been read. -/
def Pos.local : Pos → Option (ℕ × Option Bytes)
  | .requested _ n data | .inP _ n data | .asleep _ n data | .completed _ n data
  | .released _ n data => some (n, data)
  | _ => none

/-- The call that waits for its interrupt. -/
def Pos.waitingCall : Pos → Option ℕ
  | .requested _ n _ | .inP _ n _ | .asleep _ n _ => some n
  | _ => none

theorem Pos.local_of_waiting {p : Pos} {n : ℕ} (h : p.waitingCall = some n) :
  ∃ data, p.local = some (n, data)
  := by
  cases p with
  | requested _ m data | inP _ m data | asleep _ m data =>
      obtain rfl := Option.some.inj h
      exact ⟨data, rfl⟩
  | outside | acquiring | completed | released | failed => cases h

/-- The call that does not wait any more. -/
def Pos.completedCall : Pos → Option ℕ
  | .completed _ n _ | .released _ n _ => some n
  | _ => none

/-- No request is in progress. -/
def Data.Idle (s : Data) : Prop :=
  s.device.active = false ∧ s.device.pending = [] ∧ s.semaphore.value = 0

/-- The interrupt of the call number `n` has been scheduled. -/
def Data.Active (s : Data) (n : ℕ) : Prop :=
  s.device.active = true ∧ s.device.pending = [n] ∧ s.semaphore.value = 0

/-- The interrupt of the call number `n` has occurred, and the thread has not been told. -/
def Data.Done (s : Data) (n : ℕ) : Prop :=
  s.device.active = false ∧ s.device.pending = [] ∧ s.semaphore.value = 1 ∧ Interrupted s.calls n

/-- The invariant of the disk, the semaphore and the calls. -/
structure Data.Ok (disk : Disk) (pos : ℕ → Pos) (s : Data) : Prop where
  serial : executeAll disk (s.calls.map Call.request) =
    some (s.device.sectors, s.calls.map Call.result)
  returned : ∀ r ∈ s.returned, Made s.calls r.thread r.number r.result ∧ Interrupted s.calls r.number
  made : ∀ t n data, (pos t).local = some (n, data) → Made s.calls t n data
  completed : ∀ t n, (pos t).completedCall = some n → Interrupted s.calls n
  idle : (∀ t, (pos t).waitingCall = none) → s.Idle
  waiting : ∀ t n, (pos t).waitingCall = some n → s.Active n ∨ s.Done n

section

variable {disk : Disk} {pos : ℕ → Pos} {s s' : Data} {t n : ℕ} {p : Pos}

/-- A thread goes on, and the disk and the value of the semaphore do not change. -/
theorem Data.Ok.move (h : s.Ok disk pos) (hdevice : s'.device = s.device)
    (hcalls : s'.calls = s.calls) (hreturned : s'.returned = s.returned)
    (hvalue : s'.semaphore.value = s.semaphore.value) (hwaiting : p.waitingCall = (pos t).waitingCall)
    (hlocal : ∀ l, p.local = some l → (pos t).local = some l)
    (hcompleted : ∀ n, p.completedCall = some n → (pos t).completedCall = some n) :
  s'.Ok disk (Function.update pos t p)
  := by
  have hsame : ∀ u, (Function.update pos t p u).waitingCall = (pos u).waitingCall := by
    intro u
    by_cases hut : u = t
    · rw [hut, Function.update_self, hwaiting]
    · rw [Function.update_of_ne hut]
  refine ⟨?_, ?_, ?_, ?_, ?_, ?_⟩
  · rw [hcalls, hdevice]
    exact h.serial
  · rw [hreturned, hcalls]
    exact h.returned
  · intro u n data hu
    rw [hcalls]
    by_cases hut : u = t
    · subst hut
      rw [Function.update_self] at hu
      exact h.made u n data (hlocal _ hu)
    · rw [Function.update_of_ne hut] at hu
      exact h.made u n data hu
  · intro u n hu
    rw [hcalls]
    by_cases hut : u = t
    · subst hut
      rw [Function.update_self] at hu
      exact h.completed u n (hcompleted n hu)
    · rw [Function.update_of_ne hut] at hu
      exact h.completed u n hu
  · simp only [hsame, Data.Idle, hdevice, hvalue]
    exact h.idle
  · simp only [hsame, Data.Active, Data.Done, hdevice, hvalue, hcalls]
    exact h.waiting

/-- A thread that has the lock makes its request. The disk is not active. -/
theorem Data.Ok.request (h : s.Ok disk pos) (hnone : ∀ u, (pos u).waitingCall = none)
    {off : Bool} {r : Request} {device : Device} {data : Option Bytes}
    (hrequest : s.device.request s.calls.length r = some (device, data)) :
  Data.Ok disk (Function.update pos t (.requested off s.calls.length data))
    { s with device := device, calls := s.calls ++ [⟨t, r, data, false⟩] }
  := by
  obtain ⟨hactive, hpending, hvalue⟩ := h.idle hnone
  obtain ⟨hexecute, hactive', hpending'⟩ := Device.request_spec hrequest
  have hextends := extends_append s.calls ⟨t, r, data, false⟩
  refine ⟨?_, ?_, ?_, ?_, ?_, ?_⟩
  · simp only [List.map_append, List.map_cons, List.map_nil]
    exact executeAll_concat h.serial hexecute
  · intro r' hr'
    obtain ⟨hmade, hinterrupted⟩ := h.returned r' hr'
    exact ⟨hmade.extends hextends, hinterrupted.extends hextends⟩
  · intro u n data' hu
    by_cases hut : u = t
    · subst hut
      simp only [Function.update_self, Pos.local, Option.some.injEq, Prod.mk.injEq] at hu
      obtain ⟨rfl, rfl⟩ := hu
      exact ⟨⟨u, r, data, false⟩, by simp, rfl, rfl⟩
    · rw [Function.update_of_ne hut] at hu
      exact (h.made u n data' hu).extends hextends
  · intro u n hu
    by_cases hut : u = t
    · subst hut
      rw [Function.update_self] at hu
      cases hu
    · rw [Function.update_of_ne hut] at hu
      exact (h.completed u n hu).extends hextends
  · intro hall
    have ht := hall t
    rw [Function.update_self] at ht
    cases ht
  · intro u n hu
    by_cases hut : u = t
    · subst hut
      simp only [Function.update_self, Pos.waitingCall, Option.some.injEq] at hu
      left
      refine ⟨hactive', ?_, hvalue⟩
      rw [hpending', hpending, hu]
      rfl
    · rw [Function.update_of_ne hut, hnone u] at hu
      cases hu

/-- The thread whose interrupt has occurred completes `P`. -/
theorem Data.Ok.consume (h : s.Ok disk pos) {off : Bool} {data : Option Bytes}
    (hlocal : (pos t).local = some (n, data)) (hwaiting : (pos t).waitingCall = some n)
    (hnone : ∀ u, u ≠ t → (pos u).waitingCall = none) (hvalue : s.semaphore.value ≠ 0) :
  Data.Ok disk (Function.update pos t (.completed off n data))
    { s with semaphore := s.semaphore.consume t }
  := by
  obtain ⟨-, -, hzero⟩ | ⟨hactive, hpending, hone, hinterrupted⟩ := h.waiting t n hwaiting
  · contradiction
  · refine ⟨h.serial, h.returned, ?_, ?_, ?_, ?_⟩
    · intro u m data' hu
      by_cases hut : u = t
      · subst hut
        rw [Function.update_self] at hu
        exact h.made u m data' (hlocal.trans hu)
      · rw [Function.update_of_ne hut] at hu
        exact h.made u m data' hu
    · intro u m hu
      by_cases hut : u = t
      · subst hut
        simp only [Function.update_self, Pos.completedCall, Option.some.injEq] at hu
        rw [← hu]
        exact hinterrupted
      · rw [Function.update_of_ne hut] at hu
        exact h.completed u m hu
    · intro _
      refine ⟨hactive, hpending, ?_⟩
      simp [Semaphore.Data.consume, hone]
    · intro u m hu
      by_cases hut : u = t
      · subst hut
        rw [Function.update_self] at hu
        cases hu
      · rw [Function.update_of_ne hut, hnone u hut] at hu
        cases hu

/-- A call returns. -/
theorem Data.Ok.return (h : s.Ok disk pos) {off : Bool} {data : Option Bytes}
    (ht : pos t = .released off n data) :
  Data.Ok disk (Function.update pos t (.outside off))
    { s with returned := s.returned ++ [⟨t, n, data⟩] }
  := by
  have hmoved : Data.Ok disk (Function.update pos t (.outside off)) s := by
    apply h.move rfl rfl rfl rfl
    · rw [ht]
      rfl
    · intro l hl
      cases hl
    · intro m hm
      cases hm
  refine ⟨hmoved.serial, ?_, hmoved.made, hmoved.completed, hmoved.idle, hmoved.waiting⟩
  intro r hr
  obtain hr | hr := List.mem_append.mp hr
  · exact h.returned r hr
  · obtain rfl := List.mem_singleton.mp hr
    exact ⟨h.made t n data (by rw [ht]; rfl), h.completed t n (by rw [ht]; rfl)⟩

/-- The value after `V`. -/
theorem value_V (s : Semaphore.Data) :
  s.V.1.value = s.value + 1
  := by
  rw [Semaphore.Data.V]
  split <;> rfl

/-- The interrupt of the disk occurs. It is that of the call that is waiting. -/
theorem Data.Ok.diskDone (h : s.Ok disk pos) {i : ℕ} {device : Device}
    (hunique : ∀ t u, (pos t).waitingCall ≠ none → (pos u).waitingCall ≠ none → t = u)
    (hinterrupt : s.device.handleInterrupt i = some (device, n)) :
  Data.Ok disk pos
    { s with device := device, semaphore := s.semaphore.V.1,
             calls := s.calls.modify n (fun c => { c with interrupted := true }) }
  := by
  simp only [Device.handleInterrupt, Option.map_eq_some_iff] at hinterrupt
  obtain ⟨n', hget, heq⟩ := hinterrupt
  obtain ⟨rfl, rfl⟩ := Prod.mk.inj heq
  have hextends := extends_modify s.calls n'
  have hwaiting : ∃ t n, (pos t).waitingCall = some n := by
    by_contra hall
    push Not at hall
    obtain ⟨-, hpending, -⟩ := h.idle (fun t => Option.eq_none_iff_forall_ne_some.mpr (hall t))
    rw [hpending] at hget
    cases hget
  obtain ⟨t, n, ht⟩ := hwaiting
  have hactive : s.Active n := by
    obtain hactive | ⟨-, hpending, -⟩ := h.waiting t n ht
    · exact hactive
    · rw [hpending] at hget
      cases hget
  obtain ⟨-, hpending, hvalue⟩ := hactive
  obtain ⟨rfl, rfl⟩ : i = 0 ∧ n = n' := by
    rw [hpending] at hget
    cases i with
    | zero => exact ⟨rfl, Option.some.inj hget⟩
    | succ i => cases hget
  refine ⟨?_, ?_, ?_, ?_, ?_, ?_⟩
  · simp only [map_modify s.calls _ (f := Call.request) (fun _ => rfl),
      map_modify s.calls _ (f := Call.result) (fun _ => rfl)]
    exact h.serial
  · intro r hr
    obtain ⟨hmade, hinterrupted⟩ := h.returned r hr
    exact ⟨hmade.extends hextends, hinterrupted.extends hextends⟩
  · exact fun u m data hu => (h.made u m data hu).extends hextends
  · exact fun u m hu => (h.completed u m hu).extends hextends
  · intro hall
    rw [hall t] at ht
    cases ht
  · intro u m hu
    obtain rfl := hunique u t (by simp [hu]) (by simp [ht])
    obtain rfl := Option.some.inj (hu.symm.trans ht)
    right
    refine ⟨rfl, ?_, ?_, ?_⟩
    · simp [hpending]
    · simp [value_V, hvalue]
    · obtain ⟨data, hlocal⟩ := Pos.local_of_waiting hu
      obtain ⟨c, hc, -⟩ := h.made u m data hlocal
      exact ⟨{ c with interrupted := true }, by simp [hc], rfl⟩

end

/-! ### The threads -/

/-- The thread holds the lock. -/
def Pos.locked : Pos → Bool
  | .outside _ | .released .. => false
  | _ => true

/-- The thread is in no operation of the kernel. -/
def Pos.settled : Pos → Bool
  | .requested .. | .inP .. | .asleep .. | .completed .. => true
  | _ => false

def Pos.isAcquiring : Pos → Prop
  | .acquiring .. => True
  | _ => False

/-- Where the thread is in the code of the semaphore. -/
def Pos.semaphore : Pos → Semaphore.Pos
  | .inP off _ _ => .inP off
  | .asleep off _ _ => .asleep off
  | .outside off | .acquiring off _ | .requested off _ _ | .completed off _ _
  | .released off _ _ => .outside off
  | .failed => .outside true

def holds (L : ℕ) (p : Pos) (M : ℕ) : Prop := M = L ∧ p.locked = true

theorem semaphore_update (pos : ℕ → Pos) (t : ℕ) (p : Pos) :
  (fun u => (Function.update pos t p u).semaphore) =
    Function.update (fun u => (pos u).semaphore) t p.semaphore
  := funext (Function.apply_update (fun _ => Pos.semaphore) pos t p)

section

variable {L : ℕ}

/-- The code in terms of the cases that it distinguishes. -/
inductive Next (L t : ℕ) (s : Data) : Pos → Data → Effect → Pos → Prop where
  | call {off : Bool} {r : Request} :
      Next L t s (.outside off) s (.call (.acquire L)) (.acquiring off r)
  | setLevel {off off' : Bool} : Next L t s (.outside off) s .compute (.outside off')
  | other {off : Bool} {a : Kernel.Action} (ha : usesLock L a = false) :
      Next L t s (.outside off) s (.call a) (.outside off)
  | sleep {off : Bool} :
      Next L t s (.outside off)
        { s with semaphore := { s.semaphore with others := t :: s.semaphore.others } } .park
        (.outside off)
  | wake {off : Bool} {u : ℕ} (hu : u ∈ s.semaphore.others) :
      Next L t s (.outside off)
        { s with semaphore := { s.semaphore with others := s.semaphore.others.erase u } } (.wake u)
        (.outside off)
  | fail {off : Bool} {r : Request} (hactive : s.device.active = true) :
      Next L t s (.acquiring off r) s .compute .failed
  | request {off : Bool} {r : Request} {device : Device} {data : Option Bytes}
      (hactive : s.device.active = false)
      (hrequest : s.device.request s.calls.length r = some (device, data)) :
      Next L t s (.acquiring off r)
        { s with device := device, calls := s.calls ++ [⟨t, r, data, false⟩] } .compute
        (.requested off s.calls.length data)
  | enter {off : Bool} {n : ℕ} {data : Option Bytes} :
      Next L t s (.requested off n data) s .compute (.inP off n data)
  | block {off : Bool} {n : ℕ} {data : Option Bytes} {p : Pos}
      (hp : p = .inP off n data ∨ p = .asleep off n data) (hvalue : s.semaphore.value = 0) :
      Next L t s p { s with semaphore := s.semaphore.enqueue t } .park (.asleep off n data)
  | consume {off : Bool} {n : ℕ} {data : Option Bytes} {p : Pos}
      (hp : p = .inP off n data ∨ p = .asleep off n data) (hvalue : s.semaphore.value ≠ 0) :
      Next L t s p { s with semaphore := s.semaphore.consume t } .compute (.completed off n data)
  | release {off : Bool} {n : ℕ} {data : Option Bytes} :
      Next L t s (.completed off n data) s (.call (.release L)) (.released off n data)
  | return {off : Bool} {n : ℕ} {data : Option Bytes} :
      Next L t s (.released off n data) { s with returned := s.returned ++ [⟨t, n, data⟩] } .compute
        (.outside off)

theorem next_cases {t : ℕ} {p p' : Pos} {s s' : Data} {i : Choice} {e : Effect}
    (hnext : next L t p s i = some (s', e, p')) :
  Next L t s p s' e p'
  := by
  cases p with
  | outside off =>
      cases i with
      | call | setLevel | sleep =>
          simp only [next, Option.some.injEq, Prod.mk.injEq] at hnext
          obtain ⟨rfl, rfl, rfl⟩ := hnext
          constructor
      | other a =>
          simp only [next] at hnext
          split at hnext
          · cases hnext
          · rename_i huses
            simp only [Option.some.injEq, Prod.mk.injEq] at hnext
            obtain ⟨rfl, rfl, rfl⟩ := hnext
            exact .other (by simpa using huses)
      | wake u =>
          simp only [next, Option.ite_none_right_eq_some, Option.some.injEq, Prod.mk.injEq] at hnext
          obtain ⟨hu, rfl, rfl, rfl⟩ := hnext
          exact .wake hu
      | handlers => cases hnext
  | acquiring off r =>
      simp only [next] at hnext
      split at hnext
      · rename_i hactive
        simp only [Option.some.injEq, Prod.mk.injEq] at hnext
        obtain ⟨rfl, rfl, rfl⟩ := hnext
        exact .fail hactive
      · rename_i hactive
        obtain ⟨⟨device, data⟩, hrequest, heq⟩ := Option.map_eq_some_iff.mp hnext
        simp only [Prod.mk.injEq] at heq
        obtain ⟨rfl, rfl, rfl⟩ := heq
        exact .request (by simpa using hactive) hrequest
  | requested | completed | released =>
      simp only [next, Option.some.injEq, Prod.mk.injEq] at hnext
      obtain ⟨rfl, rfl, rfl⟩ := hnext
      constructor
  | inP off n data | asleep off n data =>
      simp only [next] at hnext
      split at hnext
      · rename_i hvalue
        simp only [Option.some.injEq, Prod.mk.injEq] at hnext
        obtain ⟨rfl, rfl, rfl⟩ := hnext
        exact .block (by simp) hvalue
      · rename_i hvalue
        simp only [Option.some.injEq, Prod.mk.injEq] at hnext
        obtain ⟨rfl, rfl, rfl⟩ := hnext
        exact .consume (by simp) hvalue
  | failed => cases hnext

/-- The handlers neither add calls nor change which threads have made them. -/
theorem thread_handlers {s s' : Data} {us : List ℕ} {es : List Event}
    (hhandlers : handlers s es = some (s', us)) :
  s'.calls.map Call.thread = s.calls.map Call.thread
  := by
  induction es generalizing s us with
  | nil =>
      obtain ⟨rfl, -⟩ := Prod.mk.inj (Option.some.inj hhandlers)
      rfl
  | cons e es ih =>
      simp only [handlers, Option.bind_eq_bind, Option.bind_eq_some_iff, Option.some.injEq] at hhandlers
      obtain ⟨⟨s₁, us₁⟩, hone, ⟨s₂, us₂⟩, hrest, heq⟩ := hhandlers
      obtain ⟨rfl, -⟩ := Prod.mk.inj heq
      rw [ih hrest]
      cases e with
      | diskDone i =>
          obtain ⟨⟨device, n⟩, -, heq⟩ := Option.map_eq_some_iff.mp hone
          obtain ⟨rfl, -⟩ := Prod.mk.inj heq
          exact map_modify s.calls n (fun _ => rfl)
      | wake u =>
          simp only [handle, Option.ite_none_right_eq_some] at hone
          obtain ⟨rfl, -⟩ := Prod.mk.inj (Option.some.inj hone.2)
          rfl

theorem code_respects (L : ℕ) :
  Code.Respects (code L) (holds L)
  := by
  rintro t p s i s' e p' hnext M ⟨rfl, hp'⟩
  cases next_cases hnext with
  | call => exact .inl rfl
  | setLevel | other | sleep | wake | release | «return» => cases hp'
  | fail | request | enter => exact .inr ⟨⟨rfl, rfl⟩, by simp⟩
  | block hp | consume hp =>
      refine .inr ⟨⟨rfl, ?_⟩, by simp⟩
      obtain rfl | rfl := hp <;> rfl

theorem code_settles (L : ℕ) :
  Code.Settles (code L) (fun p => p.settled = true)
  := by
  intro t p s i s' e p' hnext hp'
  cases next_cases hnext with
  | call | setLevel | other | sleep | wake | fail | release | «return» => cases hp'
  | request | enter | block | consume => simp

theorem code_logs (L : ℕ) :
  Code.Logs (code L) L Pos.isAcquiring (fun s => s.calls.map Call.thread)
  := by
  refine ⟨?_, ?_, ?_⟩
  · intro t p s i s' e p' hnext
    cases next_cases hnext with
    | other ha =>
        constructor
        · simp only [Pos.isAcquiring, false_iff, Effect.call.injEq]
          rintro rfl
          simp [usesLock] at ha
        · rintro c ⟨⟩
          simp [usesLock] at ha
    | call | setLevel | sleep | wake | fail | request | enter | block | consume | release
    | «return» => simp [Pos.isAcquiring]
  · intro t p s i s' e p' hnext hp
    cases next_cases hnext with
    | request => exact absurd trivial hp
    | call | setLevel | other | sleep | wake | fail | enter | block | consume | release
    | «return» => rfl
  · intro s i s' us hinterrupt
    cases i with
    | handlers es => exact thread_handlers hinterrupt
    | call | setLevel | other | sleep | wake => cases hinterrupt

end

/-! ### Runs -/

variable {disk : Disk} {L : ℕ} {x x' : Exec Data Pos} {m : Move Choice} {t u : ℕ}

/-- The invariant of the threads, the handlers, the lock, the semaphore and the disk. -/
structure Ok (disk : Disk) (L : ℕ) (x : Exec Data Pos) : Prop where
  exec : x.Ok (holds L)
  settled : ∀ t, (x.pos t).settled = true → x.kernel.Settled t
  turns : x.Turns L Pos.isAcquiring (fun s => s.calls.map Call.thread)
  semaphore : x.data.semaphore.Ok 0 x.threads (fun t => (x.pos t).semaphore)
  safe : ∀ t, x.pos t ≠ .failed
  data : x.data.Ok disk x.pos

/-- A thread that waits for its interrupt owns the lock. -/
theorem Ok.owner_of_waiting (h : Ok disk L x) (ht : (x.pos t).waitingCall ≠ none) :
  (x.kernel.locks L).owner = some t
  := by
  have hpos : (x.pos t).settled = true ∧ (x.pos t).locked = true := by
    cases hp : x.pos t with
    | requested | inP | asleep => exact ⟨rfl, rfl⟩
    | outside | acquiring | completed | released | failed => simp [hp, Pos.waitingCall] at ht
  exact h.exec.owner_of_settled (L := L) (h.settled t hpos.1) ⟨rfl, hpos.2⟩

/-- Only one thread waits for its interrupt. -/
theorem Ok.unique (h : Ok disk L x) (ht : (x.pos t).waitingCall ≠ none)
    (hu : (x.pos u).waitingCall ≠ none) :
  t = u
  := Option.some.inj ((h.owner_of_waiting ht).symm.trans (h.owner_of_waiting hu))

/-- No other thread waits for its interrupt when a thread that holds the lock can make a step. -/
theorem Ok.not_waiting (h : Ok disk L x) (hpc : x.kernel.pc t = .outside)
    (ht : (x.pos t).locked = true) (hut : u ≠ t) :
  (x.pos u).waitingCall = none
  := by
  by_contra hu
  have howner := h.exec.owner (L := L) hpc ⟨rfl, ht⟩
  exact hut (Option.some.inj ((h.owner_of_waiting hu).symm.trans howner))

/-- The disk is not active when a thread makes its request. -/
theorem Ok.idle (h : Ok disk L x) (hpc : x.kernel.pc t = .outside) {off : Bool} {r : Request}
    (ht : x.pos t = .acquiring off r) :
  (∀ u, (x.pos u).waitingCall = none) ∧ x.data.device.active = false
  := by
  have hnone : ∀ u, (x.pos u).waitingCall = none := by
    intro u
    by_cases hut : u = t
    · rw [hut, ht]
      rfl
    · exact h.not_waiting hpc (by rw [ht]; rfl) hut
  exact ⟨hnone, (h.data.idle hnone).1⟩

/-- A running thread makes a step. -/
theorem Ok.run (h : Ok disk L x) (hrun : x.kernel.currentThread = some t)
    (hpc : x.kernel.pc t = .outside) {i : Choice} {data : Data} {effect : Effect} {p : Pos}
    (hnext : next L t (x.pos t) x.data i = some (data, effect, p)) :
  (∀ u, effect = .wake u → u ∉ x.threads) ∧ p ≠ .failed ∧
    data.Ok disk (Function.update x.pos t p) ∧
    data.semaphore.Ok 0 (effect.threads t x.threads)
      (fun u => (Function.update x.pos t p u).semaphore)
  := by
  have ht : t ∈ x.threads := by
    apply (h.exec.kernel.places.mem_iff t).mpr
    use .running
    simp [Kernel.queue, hrun]
  rw [semaphore_update]
  generalize hp : x.pos t = q at hnext
  have hasleep : ∀ {off}, q.semaphore = .outside off → ((x.pos t).semaphore).isAsleep = false := by
    intro off hq
    rw [hp, hq]
    rfl
  cases next_cases hnext with
  | call | setLevel | other =>
      refine ⟨by simp, by simp, ?_, h.semaphore.move (hasleep rfl) rfl⟩
      exact h.data.move rfl rfl rfl rfl (by simp [hp, Pos.waitingCall]) (by simp [Pos.local])
        (by simp [Pos.completedCall])
  | sleep =>
      refine ⟨by simp, by simp, ?_, (h.semaphore.sleep ht (hasleep rfl) h.exec.nodup).move
        (hasleep rfl) rfl⟩
      exact h.data.move rfl rfl rfl rfl (by rw [hp]) (by simp [Pos.local])
        (by simp [Pos.completedCall])
  | wake hu =>
      refine ⟨?_, by simp, ?_, (h.semaphore.wake hu).move (hasleep rfl) rfl⟩
      · rintro _ ⟨⟩
        exact (h.semaphore.others _ hu).2
      · exact h.data.move rfl rfl rfl rfl (by rw [hp]) (by simp [Pos.local])
          (by simp [Pos.completedCall])
  | fail hactive =>
      rw [(h.idle hpc hp).2] at hactive
      cases hactive
  | request hactive hrequest =>
      refine ⟨by simp, by simp, ?_, h.semaphore.move (hasleep rfl) rfl⟩
      exact h.data.request (h.idle hpc hp).1 hrequest
  | enter =>
      refine ⟨by simp, by simp, ?_, h.semaphore.move (hasleep rfl) rfl⟩
      exact h.data.move rfl rfl rfl rfl (by rw [hp]; rfl) (by simp [hp, Pos.local])
        (by simp [Pos.completedCall])
  | @block off n data _ hq hvalue =>
      refine ⟨by simp, by simp, ?_, h.semaphore.enqueue hvalue ht h.exec.nodup⟩
      have hsame : q.waitingCall = some n ∧ q.local = some (n, data) := by
        obtain rfl | rfl := hq
        · exact ⟨rfl, rfl⟩
        · exact ⟨rfl, rfl⟩
      exact h.data.move rfl rfl rfl rfl (by rw [hp, hsame.1]; rfl)
        (fun l hl => (congrArg Pos.local hp).trans (hsame.2.trans hl)) (by simp [Pos.completedCall])
  | @consume off n data _ hq hvalue =>
      refine ⟨by simp, by simp, ?_, h.semaphore.consume hvalue ht⟩
      have hlocked : q.waitingCall = some n ∧ q.local = some (n, data) ∧ q.locked = true := by
        obtain rfl | rfl := hq
        · exact ⟨rfl, rfl, rfl⟩
        · exact ⟨rfl, rfl, rfl⟩
      rw [← hp] at hlocked
      exact h.data.consume hlocked.2.1 hlocked.1 (fun u hu => h.not_waiting hpc hlocked.2.2 hu) hvalue
  | release =>
      refine ⟨by simp, by simp, ?_, h.semaphore.move (hasleep rfl) rfl⟩
      exact h.data.move rfl rfl rfl rfl (by rw [hp]; rfl) (by simp [hp, Pos.local])
        (by simp [hp, Pos.completedCall])
  | «return» => exact ⟨by simp, by simp, h.data.return hp, h.semaphore.move (hasleep rfl) rfl⟩

/-- A handler does something. -/
theorem Data.Ok.handle {pos : ℕ → Pos} {s s' : Data} {threads us : List ℕ} (h : s.Ok disk pos)
    (hsemaphore : s.semaphore.Ok 0 threads (fun t => (pos t).semaphore))
    (hunique : ∀ t u, (pos t).waitingCall ≠ none → (pos u).waitingCall ≠ none → t = u)
    {e : Event} (hhandle : SynchDisk.handle s e = some (s', us)) (hnodup : threads.Nodup) :
  s'.Ok disk pos ∧ s'.semaphore.Ok 0 (us ++ threads) (fun t => (pos t).semaphore) ∧
    (us ++ threads).Nodup
  := by
  cases e with
  | diskDone i =>
      obtain ⟨⟨device, n⟩, hinterrupt, heq⟩ := Option.map_eq_some_iff.mp hhandle
      obtain ⟨rfl, rfl⟩ := Prod.mk.inj heq
      have hV : Semaphore.handle s.semaphore .V = some (s.semaphore.V.1, s.semaphore.V.2.toList) := rfl
      exact ⟨h.diskDone hunique hinterrupt, hsemaphore.handle hV hnodup⟩
  | wake u =>
      simp only [SynchDisk.handle, Option.ite_none_right_eq_some] at hhandle
      obtain ⟨hu, heq⟩ := hhandle
      obtain ⟨rfl, rfl⟩ := Prod.mk.inj (Option.some.inj heq)
      refine ⟨⟨h.serial, h.returned, h.made, h.completed, h.idle, h.waiting⟩, hsemaphore.wake hu, ?_⟩
      exact List.nodup_cons.mpr ⟨(hsemaphore.others u hu).2, hnodup⟩

/-- Handlers are executed one after the other. -/
theorem Data.Ok.handlers {pos : ℕ → Pos} {s s' : Data} {threads us : List ℕ} (h : s.Ok disk pos)
    (hsemaphore : s.semaphore.Ok 0 threads (fun t => (pos t).semaphore))
    (hunique : ∀ t u, (pos t).waitingCall ≠ none → (pos u).waitingCall ≠ none → t = u)
    {es : List Event} (hhandlers : SynchDisk.handlers s es = some (s', us)) (hnodup : threads.Nodup) :
  s'.Ok disk pos ∧ s'.semaphore.Ok 0 (us ++ threads) (fun t => (pos t).semaphore) ∧
    (us ++ threads).Nodup
  := by
  induction es generalizing s threads us with
  | nil =>
      obtain ⟨rfl, rfl⟩ := Prod.mk.inj (Option.some.inj hhandlers)
      exact ⟨h, hsemaphore, hnodup⟩
  | cons e es ih =>
      simp only [SynchDisk.handlers, Option.bind_eq_bind, Option.bind_eq_some_iff,
        Option.some.injEq] at hhandlers
      obtain ⟨⟨s₁, us₁⟩, hone, ⟨s₂, us₂⟩, hrest, heq⟩ := hhandlers
      obtain ⟨rfl, rfl⟩ := Prod.mk.inj heq
      obtain ⟨hok, hsemaphore₁, hnodup₁⟩ := h.handle hsemaphore hunique hone hnodup
      obtain ⟨hok₂, hsemaphore₂, hnodup₂⟩ := ih hok hsemaphore₁ hrest hnodup₁
      have hperm : (us₁ ++ us₂ ++ threads).Perm (us₂ ++ (us₁ ++ threads)) := by
        rw [← List.append_assoc]
        exact List.perm_append_comm.append_right threads
      exact ⟨hok₂, hsemaphore₂.perm (fun t => hperm.mem_iff), hperm.nodup_iff.mpr hnodup₂⟩

/-- The threads that become ready were in no queue of the kernel. -/
theorem Ok.wakes (h : Ok disk L x) (hstep : x.step (code L) m = some x') :
  (x.wakes (code L) m ++ x.threads).Nodup
  := by
  cases m with
  | run i =>
      obtain ⟨t, hrun, hstep⟩ := Option.bind_eq_some_iff.mp hstep
      split at hstep
      · rename_i hpc
        obtain ⟨⟨data, effect, p⟩, hnext, -⟩ := Option.bind_eq_some_iff.mp hstep
        simp only [Exec.wakes, hrun, hnext]
        cases effect with
        | wake u => exact List.nodup_cons.mpr ⟨(h.run hrun hpc hnext).1 u rfl, h.exec.nodup⟩
        | compute | call | park => exact h.exec.nodup
      · cases hstep
  | interrupt i =>
      simp only [Exec.wakes]
      split
      · rename_i data us hinterrupt
        cases i with
        | handlers es =>
            exact (h.data.handlers h.semaphore (fun t u => h.unique) hinterrupt h.exec.nodup).2.2
        | call | setLevel | other | sleep | wake => cases hinterrupt
      · exact h.exec.nodup
  | yield | preempt | proceed => exact h.exec.nodup

/-- A thread that has the lock and makes its request is the next one in the order of the calls. -/
theorem Ok.leaves (h : Ok disk L x) {i : Choice} {data : Data} {effect : Effect} {p : Pos}
    (hpc : x.kernel.pc t = .outside) (hnext : next L t (x.pos t) x.data i = some (data, effect, p))
    (ht : (x.pos t).isAcquiring) :
  data.calls.map Call.thread = x.data.calls.map Call.thread ++ [t] ∧ ¬ p.isAcquiring
  := by
  generalize hp : x.pos t = q at hnext ht
  cases next_cases hnext with
  | request => exact ⟨by simp, id⟩
  | fail hactive =>
      rw [(h.idle hpc hp).2] at hactive
      cases hactive
  | call | setLevel | other | sleep | wake | enter | release | «return» => cases ht
  | block hq | consume hq => obtain rfl | rfl := hq <;> cases ht

/-- Every move keeps the invariant. -/
theorem Ok.step (h : Ok disk L x) (hstep : x.step (code L) m = some x') :
  Ok disk L x'
  := by
  have hexec := h.exec.step (code_respects L) (h.wakes hstep) hstep
  have hsettled := Exec.settled_step (code_settles L) h.settled hstep
  have hacquiring : ∀ p : Pos, p.isAcquiring → holds L p L := by
    intro p hp
    cases p with
    | acquiring => exact ⟨rfl, rfl⟩
    | outside | requested | inP | asleep | completed | released | failed => cases hp
  have hturns := h.turns.step (code_logs L) hacquiring h.exec
    (fun t i s e p hpc hnext ht => h.leaves hpc hnext ht) hstep
  cases Exec.step_cases hstep with
  | @run t i data effect p kernel threads hrun hpc hnext happly =>
      obtain rfl := Exec.threads_apply happly
      obtain ⟨-, hsafe, hdata, hsemaphore⟩ := h.run hrun hpc hnext
      refine ⟨hexec, hsettled, hturns, hsemaphore, ?_, hdata⟩
      intro u
      by_cases hut : u = t
      · simpa [hut] using hsafe
      · simpa [hut] using h.safe u
  | kernel => exact ⟨hexec, hsettled, hturns, h.semaphore, h.safe, h.data⟩
  | @interrupt i data us henabled hinterrupt =>
      cases i with
      | handlers es =>
          obtain ⟨hdata, hsemaphore, -⟩ :=
            h.data.handlers h.semaphore (fun t u => h.unique) hinterrupt h.exec.nodup
          exact ⟨hexec, hsettled, hturns, hsemaphore, h.safe, hdata⟩
      | call | setLevel | other | sleep | wake => cases hinterrupt

theorem ok_initial {ts others : List ℕ} (hnodup : (t :: ts ++ others).Nodup) (disk : Disk) (L : ℕ) :
  Ok disk L (Exec.initial t ts (Data.initial disk others) (.outside false))
  := by
  have hsemaphore := Semaphore.ok_initial (v := 0) (Int.le_refl 0) hnodup
  have hthreads : (t :: ts).Nodup := (List.nodup_append'.mp hnodup).1
  refine ⟨Exec.ok_initial hthreads _ (by simp [holds, Pos.locked]), ?_, ?_, hsemaphore.data, ?_, ?_⟩
  · intro u hu
    cases hu
  · exact Exec.turns_initial id rfl
  · intro u hu
    cases hu
  · refine ⟨rfl, ?_, ?_, ?_, fun _ => ⟨rfl, rfl, rfl⟩, ?_⟩
    · intro r hr
      cases hr
    · intro u n data hu
      cases hu
    · intro u n hu
      cases hu
    · intro u n hu
      cases hu

/-- A synchronous disk executes the calls one after the other, in every run of any threads and
handlers. -/
theorem synchDisk_serialises {ts others : List ℕ} (hnodup : (t :: ts ++ others).Nodup)
    {ms : List (Move Choice)}
    (hrun : Transition.run (Exec.step (code L))
      (Exec.initial t ts (Data.initial disk others) (.outside false)) ms = some x) :
  Serialises disk L x
  := by
  have hok := @Transition.run_invariant _ _ _ (Ok disk L) (fun _ _ => True)
    (fun x m x' hx _ hstep => hx.step hstep) _ _ _ (ok_initial hnodup disk L)
    (Transition.along_of_forall (fun _ _ => trivial) _ _) hrun
  refine ⟨hok.safe, hok.data.serial, hok.turns.order, ?_⟩
  intro r hr
  obtain ⟨⟨c, hc, hthread, hresult⟩, c', hc', hinterrupted⟩ := hok.data.returned r hr
  obtain rfl := Option.some.inj (hc.symm.trans hc')
  exact ⟨c, hc, hthread, hresult, hinterrupted⟩

/-- The thread 0 writes the sector 5, and the thread 1 reads it. The thread 1 waits for the lock while
the thread 0 waits for its interrupt. -/
def writeAndRead : List (Move Choice) :=
  [.run (.call (.write 5 (fun _ => 7))), .proceed, .run .sleep, .run .sleep, .run .sleep,
    .run (.call (.read 5)), .interrupt (.handlers [.diskDone 0]), .run .sleep, .run .sleep, .proceed,
    .run .sleep, .yield, .proceed, .proceed, .run .sleep, .run .sleep, .run .sleep,
    .interrupt (.handlers [.diskDone 0]), .proceed, .yield, .run .sleep, .run .sleep, .proceed,
    .run .sleep]

theorem synchDisk_serialises_writeAndRead :
  ∃ x, Transition.run (Exec.step (code 0))
      (Exec.initial 0 [1] (Data.initial (fun _ _ => 0) []) (.outside false)) writeAndRead = some x ∧
    x.data.returned.map (fun r => (r.thread, r.result.map (· 0))) = [(0, none), (1, some 7)] ∧
    Serialises (fun _ _ => 0) 0 x
  := by
  have hdata : (Transition.run (Exec.step (code 0))
      (Exec.initial 0 [1] (Data.initial (fun _ _ => 0) []) (.outside false)) writeAndRead).map
      (fun x => x.data.returned.map (fun r => (r.thread, r.result.map (· 0)))) =
      some [(0, none), (1, some 7)] := by decide
  obtain ⟨x, hx, heq⟩ := Option.map_eq_some_iff.mp hdata
  exact ⟨x, hx, heq, synchDisk_serialises (by decide) hx⟩

end SynchDisk

end Nachos.Filesys
