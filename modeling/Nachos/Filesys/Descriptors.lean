import Mathlib.Logic.Function.Basic
import Nachos.Library.Allocation
import Nachos.Library.Run

/-!
# File descriptors

An address space has a table of its open files (`Table` in `userprog/addrspace.cc`), and the system
calls `Open`, `Read`, `Write` and `Close` (`userprog/exception.cc`) name them by their place in it.
The places 0 and 1 stand for the console. They are marked as used when the address space is made, and
have no file.

The descriptors mean what they should exactly in the runs where `Close` is not called with 0 or 1
(`sound_iff`). It unmarks the place although there is no file in it.
-/

namespace Nachos.Descriptors

def MaxOpenFiles : ℕ := 256

def ConsoleInput : ℤ := 0

def ConsoleOutput : ℤ := 1

/-- A table of pointers, `none` being the null pointer. -/
structure Table where
  map : ℕ → Bool
  table : ℕ → Option ℕ
  size : ℕ

namespace Table

def empty (size : ℕ) : Table := ⟨fun _ => false, fun _ => none, size⟩

/-- `i` is a place of the table, and is marked. -/
def Marked (t : Table) (i : ℤ) : Prop := 0 ≤ i ∧ i < t.size ∧ t.map i.toNat = true

instance (t : Table) (i : ℤ) : Decidable (t.Marked i) :=
  inferInstanceAs (Decidable (_ ∧ _ ∧ _))

def get (t : Table) (i : ℤ) : Option ℕ := if t.Marked i then t.table i.toNat else none

/-- The place that `BitMap::Find` marks. -/
def find (t : Table) : Option ℕ := (List.range t.size).find? (fun i => !t.map i)

/-- `put`, with the place, which is `-1` when the table is full. -/
def put (t : Table) (f : Option ℕ) : ℤ × Table :=
  match t.find with
  | none => (-1, t)
  | some i =>
      (i, { t with
        map := Function.update t.map i true
        table := Function.update t.table i f })

/-- `remove`, with what was at the place. -/
def remove (t : Table) (i : ℤ) : Option ℕ × Table :=
  if t.Marked i then
    (t.table i.toNat, { t with
      map := Function.update t.map i.toNat false
      table := Function.update t.table i.toNat none })
  else (none, t)

end Table

/-- The files of an address space that has been made: `AddrSpace::AddrSpace` puts two null pointers
in the table. -/
def fileTable : Table := (((Table.empty MaxOpenFiles).put none).2.put none).2

/-- The file system, with a state of type `φ`, and the objects for open files, with states of type
`ω`: what `FileSystem::Open`, `OpenFile::Read`, `OpenFile::Write` and the destructor do. `read` also has
the number it returns and the bytes in the buffer. -/
structure FileSystem (φ ω : Type*) where
  openFile : List UInt8 → φ → Option ω × φ
  read : ω → ℤ → φ → ℤ × List UInt8 × ω × φ
  write : ω → List UInt8 → φ → ω × φ
  delete : ω → φ → φ

/-- The open files of an address space. The objects are numbered in the order in which they are made,
and a pointer is such a number. -/
structure State (φ ω : Type*) where
  fileTable : Table
  objects : ℕ → Option ω
  made : ℕ
  files : φ

/-- A buffer of the kernel: none could be allocated, `copyin` has returned `-1`, or it holds bytes of
the user program. -/
inductive Buffer where
  | null
  | unread
  | bytes (buf : List UInt8)
  deriving DecidableEq

/-- What is printed. -/
inductive Printed where
  | nothing
  | message (text : String)
  | bytes (buf : List UInt8)
  deriving DecidableEq

/-- What a call returns, what it prints, and what it passes to `copyout`. -/
structure Return where
  value : ℤ := 0
  printed : Printed := .nothing
  copied : List UInt8 := []
  deriving DecidableEq

/-- The system calls with their arguments. `Read` has besides whether a buffer is allocated, what the
buffer holds when it has been read from the keyboard, and whether `copyout` succeeds. -/
inductive Call where
  | open (buf : Buffer)
  | write (buf : Buffer) (id : ℤ)
  | read (allocated : Bool) (typed : List UInt8) (written : Bool) (len id : ℤ)
  | close (fd : ℤ)
  deriving DecidableEq

section Syscalls

variable {φ ω : Type*} (fs : FileSystem φ ω) (s : State φ ω)

def openSyscall : Buffer → Return × State φ ω
  | .null => ({ value := -1, printed := .message "Can't allocate kernel buffer in Open\n" }, s)
  | .unread => ({ value := -1, printed := .message "Bad pointer passed to Open\n" }, s)
  | .bytes buf =>
      -- the name ends at the first zero byte
      match fs.openFile (buf.takeWhile (· ≠ 0)) s.files with
      | (none, files) => ({ value := -1 }, { s with files := files })
      | (some f, files) =>
          let (id, table) := s.fileTable.put (some s.made)
          if id = -1 then
            ({ value := id }, { s with made := s.made + 1, files := fs.delete f files })
          else
            ({ value := id }, { s with
              fileTable := table
              objects := Function.update s.objects s.made (some f)
              made := s.made + 1
              files := files })

/-- `f->Write`. It is `none` where `f` points to no object. -/
def writeFile (f : ℕ) (buf : List UInt8) : Option (State φ ω) :=
  (s.objects f).map (fun o =>
    { s with
      objects := Function.update s.objects f (some (fs.write o buf s.files).1)
      files := (fs.write o buf s.files).2 })

/-- `f->Read`, with the number it returns and the bytes. -/
def readFile (f : ℕ) (len : ℤ) : Option (ℤ × List UInt8 × State φ ω) :=
  (s.objects f).map (fun o =>
    let (n, buf, o, files) := fs.read o len s.files
    (n, buf, { s with objects := Function.update s.objects f (some o), files := files }))

/-- `delete f`. -/
def deleteFile (f : ℕ) : Option (State φ ω) :=
  (s.objects f).map (fun o =>
    { s with objects := Function.update s.objects f none, files := fs.delete o s.files })

def writeSyscall (buf : Buffer) (id : ℤ) : Option (Return × State φ ω) :=
  if id = ConsoleInput then some ({}, s)
  else
    match buf with
    | .null => some ({ printed := .message "Error allocating kernel buffer for write!\n" }, s)
    | .unread =>
        some ({ printed := .message "Bad pointer passed to to write: data not written\n" }, s)
    | .bytes buf =>
        if id = ConsoleOutput then some ({ printed := .bytes buf }, s)
        else
          match s.fileTable.get id with
          | some f => (writeFile fs s f buf).map (fun s => ({}, s))
          | none => some ({ printed := .message "Bad OpenFileId passed to Write\n" }, s)

/-- What `Read` prints when `copyout` has been called. -/
def copyoutMessage (written : Bool) : Printed :=
  if written then .nothing else .message "Bad pointer passed to Read: data not copied\n"

def readSyscall (allocated : Bool) (typed : List UInt8) (written : Bool) (len id : ℤ) :
    Option (Return × State φ ω) :=
  if id = ConsoleOutput then some ({ value := -1 }, s)
  else if !allocated then
    some ({ value := -1, printed := .message "Error allocating kernel buffer in Read\n" }, s)
  else if id = ConsoleInput then
    some ({ value := len, printed := copyoutMessage written, copied := typed }, s)
  else
    match s.fileTable.get id with
    | some f => (readFile fs s f len).map (fun (n, buf, s) =>
        if 0 < n then ({ value := n, printed := copyoutMessage written, copied := buf }, s)
        else ({ value := n }, s))
    | none => some ({ value := -1, printed := .message "Bad OpenFileId passed to Read\n" }, s)

def closeSyscall (fd : ℤ) : Option (Return × State φ ω) :=
  match s.fileTable.remove fd with
  | (some f, table) => (deleteFile fs { s with fileTable := table } f).map (fun s => ({}, s))
  | (none, table) =>
      some ({ printed := .message "Tried to close an unopen file\n" }, { s with fileTable := table })

/-- A system call. It is `none` where a pointer to no object is followed. -/
def syscall : Call → Option (Return × State φ ω)
  | .open buf => some (openSyscall fs s buf)
  | .write buf id => writeSyscall fs s buf id
  | .read allocated typed written len id => readSyscall fs s allocated typed written len id
  | .close fd => closeSyscall fs s fd

end Syscalls

/-- The open files, with what the calls and what they have returned say about them: the object that
was made for each descriptor that has been returned and not been closed. -/
structure Traced (φ ω : Type*) where
  state : State φ ω
  opened : ℤ → Option ℕ

namespace Traced

variable {φ ω : Type*} (fs : FileSystem φ ω)

/-- The address space has been made. -/
def initial (files : φ) : Traced φ ω :=
  ⟨⟨Descriptors.fileTable, fun _ => none, 0, files⟩, fun _ => none⟩

/-- The descriptors that are open after a call that returned `value`. -/
def opens (t : Traced φ ω) (value : ℤ) : Call → ℤ → Option ℕ
  | .open _ =>
      if value = -1 then t.opened else Function.update t.opened value (some t.state.made)
  | .close fd => Function.update t.opened fd none
  | _ => t.opened

def step (t : Traced φ ω) (c : Call) : Option (Traced φ ω) :=
  (syscall fs t.state c).map (fun (r, s) => ⟨s, t.opens r.value c⟩)

/-- What a call should do that returns `r` and leads to `s`. -/
def Should (t : Traced φ ω) (r : Return) (s : State φ ω) : Call → Prop
  | .open buf => r.value ≠ -1 →
      2 ≤ r.value ∧ t.opened r.value = none ∧
        ∃ name, buf = .bytes name ∧
          s.objects t.state.made = (fs.openFile (name.takeWhile (· ≠ 0)) t.state.files).1
  | .write buf id => ∀ f ∈ t.opened id, ∀ bytes, buf = .bytes bytes →
      writeFile fs t.state f bytes = some s
  | .read allocated _ _ len id => ∀ f ∈ t.opened id, allocated = true →
      ∃ bytes, readFile fs t.state f len = some (r.value, bytes, s) ∧
        r.copied = if 0 < r.value then bytes else []
  | .close fd => t.opened fd = none → s = t.state

/-- The call does what it should. -/
def Serves (t : Traced φ ω) (c : Call) : Prop :=
  ∃ r s, syscall fs t.state c = some (r, s) ∧ t.Should fs r s c

/-- Every call of a run in a new address space does what it should. -/
def Sound (files : φ) (cs : List Call) : Prop :=
  Transition.Along (step fs) (Serves fs) (initial files) cs

/-! ### The table and the descriptors -/

theorem fileTable_eq :
  fileTable = ⟨Function.update (Function.update (fun _ => false) 0 true) 1 true,
    Function.update (Function.update (fun _ => none) 0 none) 1 none, MaxOpenFiles⟩
  := rfl

theorem fileTable_map (i : ℕ) :
  fileTable.map i = decide (i < 2)
  := by
  rw [fileTable_eq]
  match i with
  | 0 => rfl
  | 1 => rfl
  | i + 2 => simp

theorem fileTable_table (i : ℕ) :
  fileTable.table i = none
  := by
  rw [fileTable_eq]
  match i with
  | 0 => rfl
  | 1 => rfl
  | i + 2 => simp

/-- The places of the table are the console and the descriptors that are open, and each of these has
an object of its own. -/
structure Ok (t : Traced φ ω) : Prop where
  size : t.state.fileTable.size = MaxOpenFiles
  console : ∀ i < 2, t.state.fileTable.map i = true ∧ t.state.fileTable.table i = none
  free : ∀ i < MaxOpenFiles, t.state.fileTable.map i = false → t.opened i = none
  file : ∀ i < MaxOpenFiles, 2 ≤ i → t.state.fileTable.map i = true →
    ∃ f, t.opened i = some f ∧ t.state.fileTable.table i = some f
  range : ∀ id f, t.opened id = some f → 2 ≤ id ∧ id < MaxOpenFiles
  live : ∀ id f, t.opened id = some f → f < t.state.made ∧ (t.state.objects f).isSome
  own : ∀ id id' f, t.opened id = some f → t.opened id' = some f → id = id'

variable {fs} {t t' : Traced φ ω} {id : ℤ} {f : ℕ}

theorem ok_initial (files : φ) :
  (initial files : Traced φ ω).Ok
  := by
  have hmap : ∀ i, (initial files : Traced φ ω).state.fileTable.map i = decide (i < 2) :=
    fileTable_map
  refine ⟨rfl, ?_, fun _ _ _ => rfl, ?_, ?_, ?_, ?_⟩
  · intro i hi
    rw [hmap]
    exact ⟨decide_eq_true hi, fileTable_table i⟩
  · intro i _ hle hmarked
    rw [hmap, decide_eq_true_eq] at hmarked
    omega
  all_goals
    intros
    contradiction

/-- A place that is marked has the object of the descriptor that is open, and none if it is for the
console. -/
theorem Ok.of_marked (h : t.Ok) (hmarked : t.state.fileTable.Marked id) :
  t.state.fileTable.table id.toNat = t.opened id
  := by
  obtain ⟨hnonneg, hlt, hmap⟩ := hmarked
  obtain ⟨i, rfl⟩ := Int.eq_ofNat_of_zero_le hnonneg
  rw [h.size] at hlt
  rw [Int.toNat_natCast] at hmap ⊢
  by_cases hi : i < 2
  · rw [(h.console i hi).2]
    cases hopened : t.opened i with
    | none => rfl
    | some f =>
        have hrange := (h.range i f hopened).1
        omega
  · obtain ⟨f, hopened, htable⟩ := h.file i (by omega) (by omega) hmap
    rw [hopened, htable]

theorem Ok.of_not_marked (h : t.Ok) (hmarked : ¬ t.state.fileTable.Marked id) :
  t.opened id = none
  := by
  cases hopened : t.opened id with
  | none => rfl
  | some f =>
      obtain ⟨hle, hlt⟩ := h.range id f hopened
      obtain ⟨i, rfl⟩ := Int.eq_ofNat_of_zero_le (show 0 ≤ id by omega)
      have hmap : t.state.fileTable.map i = false := by
        by_contra hmap
        rw [Bool.not_eq_false] at hmap
        exact hmarked ⟨by omega, by rw [h.size]; exact hlt, by rwa [Int.toNat_natCast]⟩
      have hfree := h.free i (by omega) hmap
      rw [hopened] at hfree
      cases hfree

/-- `Get` finds the object of a descriptor. -/
theorem Ok.get (h : t.Ok) (id : ℤ) :
  t.state.fileTable.get id = t.opened id
  := by
  rw [Table.get]
  split
  · rename_i hmarked
    exact h.of_marked hmarked
  · rename_i hmarked
    exact (h.of_not_marked hmarked).symm

theorem Ok.congr (h : t.Ok) {s : State φ ω} (htable : s.fileTable = t.state.fileTable)
    (hmade : t.state.made ≤ s.made)
    (hobjects : ∀ f, (t.state.objects f).isSome → (s.objects f).isSome) :
  Ok ⟨s, t.opened⟩
  := by
  refine ⟨htable ▸ h.size, htable ▸ h.console, htable ▸ h.free, htable ▸ h.file, h.range, ?_, h.own⟩
  intro id f hopened
  obtain ⟨hlt, hlive⟩ := h.live id f hopened
  exact ⟨Nat.lt_of_lt_of_le hlt hmade, hobjects f hlive⟩

/-! ### The system calls -/

/-- The call `c` can be made, does what it should, and leaves the table as it should be. -/
def Handled (fs : FileSystem φ ω) (t : Traced φ ω) (c : Call) : Prop :=
  ∃ r s, syscall fs t.state c = some (r, s) ∧ t.Should fs r s c ∧ Ok ⟨s, t.opens r.value c⟩

/-- An object is put in a free place of the table. -/
theorem Ok.put (h : t.Ok) {i : ℕ} (hfind : t.state.fileTable.find = some i) (o : ω) (files : φ) :
  2 ≤ i ∧ t.opened i = none ∧
    Ok ⟨⟨(t.state.fileTable.put (some t.state.made)).2,
      Function.update t.state.objects t.state.made (some o), t.state.made + 1, files⟩,
      Function.update t.opened i (some t.state.made)⟩
  := by
  obtain ⟨hlt, hfree⟩ := Allocation.find_some hfind
  rw [h.size] at hlt
  have hnone := h.free i hlt hfree
  have hle : 2 ≤ i := by
    by_contra hi
    rw [(h.console i (by omega)).1] at hfree
    cases hfree
  have hold : ∀ id f, Function.update t.opened i (some t.state.made) id = some f →
      id = i ∧ f = t.state.made ∨ t.opened id = some f ∧ f < t.state.made := by
    intro id f hopened
    by_cases hid : id = i
    · rw [hid, Function.update_self] at hopened
      exact .inl ⟨hid, (Option.some.inj hopened).symm⟩
    · rw [Function.update_of_ne hid] at hopened
      exact .inr ⟨hopened, (h.live id f hopened).1⟩
  refine ⟨hle, hnone, ?_⟩
  simp only [Table.put, hfind]
  constructor
  case size => exact h.size
  case console =>
      intro j hj
      have hne : j ≠ i := by omega
      simp only [Function.update_of_ne hne]
      exact h.console j hj
  case free =>
      intro j hj hmap
      have hne : j ≠ i := by
        rintro rfl
        simp at hmap
      have hne' : (j : ℤ) ≠ i := by exact_mod_cast hne
      simp only [Function.update_of_ne hne, Function.update_of_ne hne'] at hmap ⊢
      exact h.free j hj hmap
  case file =>
      intro j hj hjle hmap
      by_cases hne : j = i
      · subst hne
        exact ⟨t.state.made, by simp, by simp⟩
      · have hne' : (j : ℤ) ≠ i := by exact_mod_cast hne
        simp only [Function.update_of_ne hne, Function.update_of_ne hne'] at hmap ⊢
        exact h.file j hj hjle hmap
  case range =>
      intro id f hopened
      obtain ⟨rfl, -⟩ | ⟨hopened, -⟩ := hold id f hopened
      · omega
      · exact h.range id f hopened
  case live =>
      intro id f hopened
      obtain ⟨-, rfl⟩ | ⟨hopened, hf⟩ := hold id f hopened
      · exact ⟨Nat.lt_succ_self _, by simp⟩
      · refine ⟨by simp only; omega, ?_⟩
        simp only [Function.update_of_ne (Nat.ne_of_lt hf)]
        exact (h.live id f hopened).2
  case own =>
      intro id id' f hopened hopened'
      obtain ⟨rfl, rfl⟩ | ⟨hopened, hf⟩ := hold id f hopened
      · obtain ⟨rfl, -⟩ | ⟨-, hf⟩ := hold id' _ hopened'
        · rfl
        · exact absurd hf (Nat.lt_irrefl _)
      · obtain ⟨-, rfl⟩ | ⟨hopened', -⟩ := hold id' f hopened'
        · exact absurd hf (Nat.lt_irrefl _)
        · exact h.own id id' f hopened hopened'

theorem Ok.handled_open (h : t.Ok) (buf : Buffer) :
  t.Handled fs (.open buf)
  := by
  cases buf with
  | null => exact ⟨_, _, rfl, fun hne => absurd rfl hne, h⟩
  | unread => exact ⟨_, _, rfl, fun hne => absurd rfl hne, h⟩
  | bytes buf =>
      cases hopen : fs.openFile (buf.takeWhile (· ≠ 0)) t.state.files with
      | mk o files =>
          cases o with
          | none =>
              have hcall : openSyscall fs t.state (.bytes buf) =
                  ({ value := -1 }, { t.state with files := files }) := by
                rw [openSyscall, hopen]
              refine ⟨_, _, congrArg some hcall, fun hne => absurd rfl hne, ?_⟩
              exact h.congr rfl (Nat.le_refl _) (fun _ hlive => hlive)
          | some o =>
              cases hfind : t.state.fileTable.find with
              | none =>
                  have hcall : openSyscall fs t.state (.bytes buf) = ({ value := -1 }, { t.state with
                      made := t.state.made + 1, files := fs.delete o files }) := by
                    simp only [openSyscall, hopen, Table.put, hfind, if_true]
                  refine ⟨_, _, congrArg some hcall, fun hne => absurd rfl hne, ?_⟩
                  exact h.congr rfl (Nat.le_succ _) (fun _ hlive => hlive)
              | some i =>
                  have hne : (i : ℤ) ≠ -1 := by omega
                  obtain ⟨hle, hnone, hok⟩ := h.put hfind o files
                  have hcall : openSyscall fs t.state (.bytes buf) = ({ value := i },
                      ⟨(t.state.fileTable.put (some t.state.made)).2,
                        Function.update t.state.objects t.state.made (some o), t.state.made + 1,
                        files⟩) := by
                    simp only [openSyscall, hopen, Table.put, hfind, if_neg hne]
                  refine ⟨_, _, congrArg some hcall, ?_, ?_⟩
                  · intro _
                    refine ⟨Int.ofNat_le.mpr hle, hnone, buf, rfl, ?_⟩
                    rw [hopen]
                    exact Function.update_self _ _ _
                  · rw [opens, if_neg hne]
                    exact hok

/-- Only the object of a file changes. -/
theorem Ok.update (h : t.Ok) (f : ℕ) (o : ω) (files : φ) :
  Ok ⟨{ t.state with
    objects := Function.update t.state.objects f (some o)
    files := files }, t.opened⟩
  := by
  refine Ok.congr h ?_ ?_ ?_
  · rfl
  · exact Nat.le_refl t.state.made
  intro g hlive
  by_cases hg : g = f
  · simp [hg]
  · simpa [hg] using hlive

theorem Ok.handled_write (h : t.Ok) (buf : Buffer) (id : ℤ) :
  t.Handled fs (.write buf id)
  := by
  have hconsole : ∀ f, t.opened id = some f → id ≠ ConsoleInput ∧ id ≠ ConsoleOutput := by
    intro f hopened
    have hrange := (h.range id f hopened).1
    rw [ConsoleInput, ConsoleOutput]
    omega
  simp only [Handled, syscall, writeSyscall]
  split
  · rename_i hid
    exact ⟨_, _, rfl, fun f hopened => absurd hid (hconsole f hopened).1, h⟩
  · cases buf with
    | null => exact ⟨_, _, rfl, fun _ _ bytes heq => Buffer.noConfusion heq, h⟩
    | unread => exact ⟨_, _, rfl, fun _ _ bytes heq => Buffer.noConfusion heq, h⟩
    | bytes buf =>
        simp only [h.get id]
        split
        · rename_i hid
          exact ⟨_, _, rfl, fun f hopened => absurd hid (hconsole f hopened).2, h⟩
        · cases hopened : t.opened id with
          | none =>
              refine ⟨_, _, rfl, ?_, h⟩
              intro f hf
              rw [hopened] at hf
              cases hf
          | some f =>
              obtain ⟨o, ho⟩ := Option.isSome_iff_exists.mp (h.live id f hopened).2
              simp only [writeFile, ho, Option.map_some]
              refine ⟨_, _, rfl, ?_, h.update f _ _⟩
              intro g hg bytes heq
              rw [hopened] at hg
              cases hg
              cases heq
              simp [writeFile, ho]

theorem Ok.handled_read (h : t.Ok) (allocated : Bool) (typed : List UInt8) (written : Bool)
    (len id : ℤ) :
  t.Handled fs (.read allocated typed written len id)
  := by
  have hconsole : ∀ f, t.opened id = some f → id ≠ ConsoleInput ∧ id ≠ ConsoleOutput := by
    intro f hopened
    have hrange := (h.range id f hopened).1
    rw [ConsoleInput, ConsoleOutput]
    omega
  simp only [Handled, syscall, readSyscall]
  split
  · rename_i hid
    exact ⟨_, _, rfl, fun f hopened => absurd hid (hconsole f hopened).2, h⟩
  split
  · rename_i hallocated
    refine ⟨_, _, rfl, ?_, h⟩
    intro f _ heq
    rw [heq] at hallocated
    cases hallocated
  split
  · rename_i hid
    exact ⟨_, _, rfl, fun f hopened => absurd hid (hconsole f hopened).1, h⟩
  rw [h.get id]
  cases hopened : t.opened id with
  | none =>
      refine ⟨_, _, rfl, ?_, h⟩
      intro f hf
      rw [hopened] at hf
      cases hf
  | some f =>
      obtain ⟨o, ho⟩ := Option.isSome_iff_exists.mp (h.live id f hopened).2
      simp only [readFile, ho, Option.map_some]
      split
      · rename_i hpos
        refine ⟨_, _, rfl, ?_, h.update f _ _⟩
        intro g hg _
        rw [hopened] at hg
        cases hg
        simp [readFile, ho, hpos]
      · rename_i hpos
        refine ⟨_, _, rfl, ?_, h.update f _ _⟩
        intro g hg _
        rw [hopened] at hg
        cases hg
        simp [readFile, ho, hpos]

/-- An object is removed from the table and deleted. -/
theorem Ok.remove (h : t.Ok) (hopened : t.opened id = some f) (files : φ) :
  Ok ⟨⟨(t.state.fileTable.remove id).2, Function.update t.state.objects f none, t.state.made, files⟩,
    Function.update t.opened id none⟩
  := by
  obtain ⟨hle, hlt⟩ := h.range id f hopened
  obtain ⟨i, rfl⟩ := Int.eq_ofNat_of_zero_le (show 0 ≤ id by omega)
  have hmarked : t.state.fileTable.Marked i := by
    by_contra hmarked
    rw [h.of_not_marked hmarked] at hopened
    cases hopened
  have hold : ∀ id g, Function.update t.opened (i : ℤ) none id = some g →
      id ≠ i ∧ t.opened id = some g := by
    intro id g hid
    by_cases heq : id = i
    · rw [heq, Function.update_self] at hid
      cases hid
    · rw [Function.update_of_ne heq] at hid
      exact ⟨heq, hid⟩
  rw [Table.remove, if_pos hmarked]
  simp only [Int.toNat_natCast]
  constructor
  case size => exact h.size
  case console =>
      intro j hj
      have hne : j ≠ i := by omega
      simp only [Function.update_of_ne hne]
      exact h.console j hj
  case free =>
      intro j hj hmap
      by_cases hne : j = i
      · rw [hne]
        exact Function.update_self _ _ _
      · have hne' : (j : ℤ) ≠ i := by exact_mod_cast hne
        simp only [Function.update_of_ne hne, Function.update_of_ne hne'] at hmap ⊢
        exact h.free j hj hmap
  case file =>
      intro j hj hjle hmap
      have hne : j ≠ i := by
        rintro rfl
        simp at hmap
      have hne' : (j : ℤ) ≠ i := by exact_mod_cast hne
      simp only [Function.update_of_ne hne, Function.update_of_ne hne'] at hmap ⊢
      exact h.file j hj hjle hmap
  case range =>
      intro id g hid
      exact h.range id g (hold id g hid).2
  case live =>
      intro id g hid
      obtain ⟨hne, hid⟩ := hold id g hid
      have hg : g ≠ f := fun heq => hne (h.own id i f (heq ▸ hid) hopened)
      simp only [Function.update_of_ne hg]
      exact h.live id g hid
  case own =>
      intro id id' g hid hid'
      exact h.own id id' g (hold id g hid).2 (hold id' g hid').2

/-- Closing what is not a file. -/
theorem Ok.remove_eq (h : t.Ok) (hopened : t.opened id = none) (h0 : id ≠ ConsoleInput)
    (h1 : id ≠ ConsoleOutput) :
  t.state.fileTable.remove id = (none, t.state.fileTable)
  := by
  rw [Table.remove, if_neg]
  intro hmarked
  obtain ⟨hnonneg, hlt, hmap⟩ := hmarked
  obtain ⟨i, rfl⟩ := Int.eq_ofNat_of_zero_le hnonneg
  rw [h.size] at hlt
  rw [ConsoleInput] at h0
  rw [ConsoleOutput] at h1
  obtain ⟨f, hf, -⟩ := h.file i (by omega) (by omega) hmap
  rw [hopened] at hf
  cases hf

theorem Ok.handled_close (h : t.Ok) (h0 : id ≠ ConsoleInput) (h1 : id ≠ ConsoleOutput) :
  t.Handled fs (.close id)
  := by
  cases hopened : t.opened id with
  | none =>
      have hcall : closeSyscall fs t.state id =
          some ({ printed := .message "Tried to close an unopen file\n" }, t.state) := by
        rw [closeSyscall, h.remove_eq hopened h0 h1]
      refine ⟨_, _, hcall, fun _ => rfl, ?_⟩
      rw [opens, ← hopened, Function.update_eq_self]
      exact h
  | some f =>
      obtain ⟨o, ho⟩ := Option.isSome_iff_exists.mp (h.live id f hopened).2
      have hremove : (t.state.fileTable.remove id).1 = some f := by
        have hget := h.get id
        rw [hopened, Table.get] at hget
        rw [Table.remove]
        split at hget
        · rename_i hmarked
          rw [if_pos hmarked]
          exact hget
        · cases hget
      have hcall : closeSyscall fs t.state id = some ({}, ⟨(t.state.fileTable.remove id).2,
          Function.update t.state.objects f none, t.state.made, fs.delete o t.state.files⟩) := by
        rw [closeSyscall]
        split
        · rename_i g table heq
          rw [heq] at hremove ⊢
          cases hremove
          simp only [deleteFile, ho, Option.map_some]
        · rename_i table heq
          rw [heq] at hremove
          cases hremove
      refine ⟨_, _, hcall, ?_, h.remove hopened _⟩
      intro hnone
      rw [hopened] at hnone
      cases hnone

/-- The call is not one that closes the console. -/
def NotConsole : Call → Prop
  | .close fd => fd ≠ ConsoleInput ∧ fd ≠ ConsoleOutput
  | _ => True

theorem Ok.handled (h : t.Ok) {c : Call} (hc : NotConsole c) :
  t.Handled fs c
  := by
  cases c with
  | «open» buf => exact h.handled_open buf
  | write buf id => exact h.handled_write buf id
  | read allocated typed written len id => exact h.handled_read allocated typed written len id
  | close fd => exact h.handled_close hc.1 hc.2

/-- Closing the console does not leave the table as it is. -/
theorem Ok.notConsole (h : t.Ok) {c : Call} (hserves : t.Serves fs c) :
  NotConsole c
  := by
  cases c with
  | close fd =>
      by_contra hc
      have hfd : fd = ConsoleInput ∨ fd = ConsoleOutput := by
        by_contra hfd
        exact hc ⟨fun h0 => hfd (.inl h0), fun h1 => hfd (.inr h1)⟩
      obtain ⟨i, hi, rfl⟩ : ∃ i : ℕ, i < 2 ∧ fd = i := by
        obtain rfl | rfl := hfd
        · exact ⟨0, by decide, rfl⟩
        · exact ⟨1, by decide, rfl⟩
      obtain ⟨hmap, htable⟩ := h.console i hi
      have hmarked : t.state.fileTable.Marked i := by
        refine ⟨by omega, ?_, by rwa [Int.toNat_natCast]⟩
        rw [h.size, MaxOpenFiles]
        omega
      have hopened : t.opened i = none := by
        rw [← h.of_marked hmarked, Int.toNat_natCast, htable]
      obtain ⟨r, s, hcall, hshould⟩ := hserves
      rw [syscall, closeSyscall, Table.remove, if_pos hmarked, Int.toNat_natCast, htable] at hcall
      have hs := hshould hopened
      simp only [Option.some.injEq, Prod.mk.injEq] at hcall
      have hunmarked := congrArg (fun s => s.fileTable.map i) (hcall.2.trans hs)
      simp only [Function.update_self, hmap] at hunmarked
      cases hunmarked
  | _ => trivial

/-- The descriptors mean what they should exactly in the runs that do not close the console. -/
theorem sound_iff (fs : FileSystem φ ω) (files : φ) (cs : List Call) :
  Sound fs files cs ↔ ∀ c ∈ cs, NotConsole c
  := by
  suffices hall : ∀ cs {t : Traced φ ω}, t.Ok →
      (Transition.Along (step fs) (Serves fs) t cs ↔ ∀ c ∈ cs, NotConsole c) from
    hall cs (ok_initial files)
  intro cs
  induction cs with
  | nil =>
      intro t _
      simp [Transition.Along]
  | cons c cs ih =>
      intro t h
      rw [List.forall_mem_cons]
      constructor
      · rintro ⟨hserves, halong⟩
        have hc := h.notConsole hserves
        have hhandled : t.Handled fs c := h.handled hc
        obtain ⟨r, s, hcall, -, hok⟩ := hhandled
        refine ⟨hc, (ih hok).mp (halong _ ?_)⟩
        rw [step, hcall]
        rfl
      · rintro ⟨hc, hcs⟩
        have hhandled : t.Handled fs c := h.handled hc
        obtain ⟨r, s, hcall, hshould, hok⟩ := hhandled
        refine ⟨⟨r, s, hcall, hshould⟩, ?_⟩
        intro t' hstep
        rw [step, hcall] at hstep
        obtain rfl := Option.some.inj hstep
        exact (ih hok).mpr hcs

/-! ### Closing the console -/

/-- Files that are kept as lists of bytes under their names, and the class `OpenFile` that calls
`Lseek` before each access: its objects have a file and `currentOffset`. -/
def stub : FileSystem (List (List UInt8 × List UInt8)) (ℕ × ℕ) where
  openFile name files := ((files.findIdx? (fun file => file.1 = name)).map (·, 0), files)
  read o len files :=
    let buf := ((files.getD o.1 ([], [])).2.drop o.2).take len.toNat
    (buf.length, buf, (o.1, o.2 + buf.length), files)
  write o buf files :=
    ((o.1, o.2 + buf.length), files.modify o.1 (fun (name, bytes) =>
      (name, bytes.take o.2 ++ buf ++ bytes.drop (o.2 + buf.length))))
  delete _ files := files

/-- When `Close` has been called with 0, `Open` returns 0. -/
theorem open_console :
  ((step stub (initial [([97], [])]) (.close ConsoleInput)).bind (fun t =>
    syscall stub t.state (.open (.bytes [97])))).map (fun r => r.1.value) = some ConsoleInput
  := by
  decide

theorem not_sound :
  ¬ ∀ (φ ω : Type) (fs : FileSystem φ ω) (files : φ) (cs : List Call), Sound fs files cs
  := by
  intro hall
  have hsound := hall _ _ stub [([97], [])] [.close ConsoleInput, .open (.bytes [97])]
  have hopen := open_console
  cases hstep : step stub (initial [([97], [])]) (.close ConsoleInput) with
  | none =>
      rw [hstep] at hopen
      cases hopen
  | some t =>
      obtain ⟨r, s, hcall, hshould⟩ := (hsound.2 t hstep).1
      simp only [hstep, Option.bind_some, hcall, Option.map_some, Option.some.injEq] at hopen
      have hle := (hshould (by rw [hopen]; decide)).1
      rw [hopen] at hle
      exact absurd hle (by decide)

end Traced

end Nachos.Descriptors
