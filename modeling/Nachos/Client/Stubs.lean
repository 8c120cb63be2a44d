import Mathlib.Data.List.GetD
import Mathlib.Data.List.TakeWhile
import Nachos.Server.Loop

/-!
# The stubs of the system calls

The system calls of `userprog/exception.cc` that send a request to a server and wait for its reply.
A stub allocates a buffer of 40 bytes, writes the request into it, and hands the first bytes of the
buffer to `PostOffice::Send` (`Frame`). Then it receives the reply, and some of the system calls
return its first byte.

The name in a request to create an object is written as it is, and if `id` is not `0` then a blank
and a digit are appended to it. Neither the stubs nor the servers check that it fits into the
buffers (`create_framed_iff`).
-/

namespace Nachos.Client

open Server

/-! ### Sizes -/

def MaxWireSize : ℕ := 64

/-- The size of a `PacketHeader`, and also that of a `MailHeader`. -/
def headerSize : ℕ := 12

def MaxPacketSize : ℕ := MaxWireSize - headerSize

def MaxMailSize : ℕ := MaxPacketSize - headerSize

/-! ### Frames -/

/-- A request, or a question to another server: what is written into the buffer, in this order, and
`outMailHdr.length`. -/
structure Frame where
  writes : List (ℕ × Int8)
  length : ℕ

namespace Frame

/-- The byte at position `i` of the buffer, where nothing but the last byte written there counts. -/
def byte (f : Frame) (i : ℕ) : Int8 :=
  match f.writes.reverse.find? (fun w => w.1 == i) with
  | some w => w.2
  | none => 0

/-- The bytes that are sent. -/
def data (f : Frame) : List Int8 := (List.range f.length).map f.byte

/-- All writes are inside the buffer, and the assertion of `PostOffice::Send` holds. -/
def Fits (f : Frame) : Prop := (∀ w ∈ f.writes, w.1 < bufferSize) ∧ f.length ≤ MaxMailSize

/-- The bytes are written one after the other from position `start` on. -/
def write (start : ℕ) : List Int8 → List (ℕ × Int8)
  | [] => []
  | b :: bs => (start, b) :: write (start + 1) bs

/-- The bytes `bs` are written to the positions `0`, `1`, ... of the buffer and sent. -/
def ofBytes (bs : List Int8) : Frame := ⟨write 0 bs, bs.length⟩

end Frame

/-! ### Objects -/

/-- What is appended to a name: nothing, or a blank and the digit `id`. -/
def suffix (id : Int) : List Int8 := if id ≠ 0 then [32, char (id + 48)] else []

/-- The name of an object. -/
def objectName (name : List Int8) (id : Int) : List Int8 := name ++ suffix id

/-- The request to create an object, where `extra` is written behind the name. -/
def createFrame (opCode : Int8) (name : List Int8) (id : Int) (extra : List Int8) : Frame where
  writes :=
    (0, opCode) :: (1, if id ≠ 0 then char (name.length + 2) else char name.length) ::
      (Frame.write 2 name ++
        if id ≠ 0 then
          (2 + name.length, 32) :: (3 + name.length, char (id + 48)) ::
            Frame.write (4 + name.length) extra
        else Frame.write (2 + name.length) extra)
  length := if id ≠ 0 then 4 + name.length + extra.length else 2 + name.length + extra.length

/-- `CreateLock_Syscall` up to `Send`, where `buf` is `none` if it cannot be allocated or `copyin`
fails. -/
def createLockSyscall (buf : Option (List Int8)) (id : Int) : Option Frame :=
  buf.map (fun name => createFrame 0 name id [])

/-- `CreateCondition_Syscall` up to `Send`. -/
def createConditionSyscall (buf : Option (List Int8)) (id : Int) : Option Frame :=
  buf.map (fun name => createFrame 4 name id [])

/-- `CreateMV_Syscall` up to `Send`. -/
def createMVSyscall (buf : Option (List Int8)) (numElements : Int) (id : Int) : Option Frame :=
  buf.map (fun name => createFrame 9 name id [char numElements])

/-- `Acquire_Syscall` up to `Send`. -/
def acquireSyscall (index : Int) : Frame := .ofBytes [1, char index]

def releaseSyscall (index : Int) : Frame := .ofBytes [2, char index]

def signalSyscall (cvIndex lockIndex : Int) : Frame := .ofBytes [5, char cvIndex, char lockIndex]

def broadcastSyscall (cvIndex lockIndex : Int) : Frame := .ofBytes [6, char cvIndex, char lockIndex]

def waitSyscall (cvIndex lockIndex : Int) : Frame := .ofBytes [7, char cvIndex, char lockIndex]

def setMVSyscall (index position val : Int) : Frame :=
  .ofBytes [10, char index, char position, char val]

def getMVSyscall (index position : Int) : Frame := .ofBytes [11, char index, char position]

/-- The value that a system call returns: `(unsigned int)response[0]`, as an `int`. -/
def returnValue (response : Int8) : Int := response.toInt

/-- The question of case 0 of the server about a lock that the client `c` wants. -/
def questionFrame (c : Server.Client) (name : List Int8) (s : State) : Frame where
  writes :=
    (0, 13) :: (1, char c.machine) :: (2, char c.mailBox) :: (3, char name.length) ::
      (4, char s.pendingRequestTable.length) :: Frame.write 5 name
  length := 5 + name.length

/-! ### What is sent -/

namespace Frame

theorem write_append (start : ℕ) (as bs : List Int8) :
  write start (as ++ bs) = write start as ++ write (start + as.length) bs
  := by
  induction as generalizing start with
  | nil => rfl
  | cons a as ih =>
      have hstart : start + 1 + as.length = start + (as.length + 1) := by omega
      simp [write, ih, hstart]

/-- The positions that are written. -/
theorem fst_mem_write {start : ℕ} {bs : List Int8} {w : ℕ × Int8} (h : w ∈ write start bs) :
  start ≤ w.1 ∧ w.1 < start + bs.length
  := by
  induction bs generalizing start with
  | nil => simp [write] at h
  | cons b bs ih =>
      obtain rfl | h := List.mem_cons.mp h
      · simp
      · obtain ⟨hge, hlt⟩ := ih h
        simp only [List.length_cons]
        omega

/-- What is at a position that is written. -/
theorem find?_write (start : ℕ) (bs : List Int8) (i : ℕ) :
  (write start bs).reverse.find? (fun w => w.1 == start + i) =
    bs[i]?.map (fun b => (start + i, b))
  := by
  induction bs generalizing start i with
  | nil => rfl
  | cons b bs ih =>
      rw [write, List.reverse_cons, List.find?_append]
      cases i with
      | zero =>
          have hnone : (write (start + 1) bs).reverse.find? (fun w => w.1 == start) = none := by
            rw [List.find?_eq_none]
            intro w hw
            have hge := (fst_mem_write (List.mem_reverse.mp hw)).1
            simp only [beq_iff_eq]
            omega
          simp [hnone]
      | succ i =>
          have hih := ih (start + 1) i
          have hadd : start + 1 + i = start + (i + 1) := by omega
          have hne : (start == start + (i + 1)) = false := by
            rw [beq_eq_false_iff_ne]
            omega
          rw [hadd] at hih
          simp [hih, hne]

@[simp]
theorem data_ofBytes (bs : List Int8) :
  (ofBytes bs).data = bs
  := by
  apply List.ext_getElem
  · simp [data, ofBytes]
  · intro i hi hlt
    have hfind := find?_write 0 bs i
    rw [Nat.zero_add, List.getElem?_eq_getElem hlt] at hfind
    simp [data, byte, ofBytes, hfind]

theorem fits_ofBytes (bs : List Int8) :
  (ofBytes bs).Fits ↔ bs.length ≤ bufferSize
  := by
  constructor
  · rintro ⟨-, hlength⟩
    apply hlength
  · intro hle
    constructor
    · intro w hw
      have hlt := (fst_mem_write hw).2
      omega
    · apply hle

end Frame

theorem createFrame_eq (opCode : Int8) (name : List Int8) (id : Int) (extra : List Int8) :
  createFrame opCode name id extra =
    .ofBytes (opCode :: char (objectName name id).length :: (objectName name id ++ extra))
  := by
  by_cases hid : id = 0
  · simp [createFrame, Frame.ofBytes, Frame.write, Frame.write_append, objectName, suffix, hid]
    omega
  · simp [createFrame, Frame.ofBytes, Frame.write, Frame.write_append, objectName, suffix, hid]
    have hextra : 4 + name.length = 2 + name.length + 1 + 1 := by omega
    exact ⟨⟨by omega, by rw [hextra]⟩, by omega⟩

theorem questionFrame_eq (c : Server.Client) (name : List Int8) (s : State) :
  questionFrame c name s = .ofBytes (question c name s)
  := by
  simp [questionFrame, question, Frame.ofBytes, Frame.write]
  omega

/-! ### What is received -/

/-- A byte holds the numbers from `-128` to `127`. -/
theorem toInt_char_eq_iff {n : Int} :
  (char n).toInt = n ↔ -128 ≤ n ∧ n < 128
  := by
  rw [char, Int8.toInt_ofInt]
  constructor
  · intro h
    have hlower := Int.le_bmod (x := n) (m := 256) (by omega)
    have hupper := Int.bmod_lt (x := n) (m := 256) (by omega)
    rw [h] at hlower hupper
    omega
  · rintro ⟨hlower, hupper⟩
    apply Int.bmod_eq_of_le
    · simp only [Int8.size]
      omega
    · simp only [Int8.size]
      omega

/-- Bytes that have been received at position `start` of the buffer. -/
theorem map_byteAt (front name back : List Int8) :
  (List.range name.length).map (fun i => byteAt (front ++ name ++ back) (front.length + i)) = name
  := by
  apply List.ext_getElem
  · simp
  · intro i hi hlt
    have hat : (front ++ (name ++ back))[front.length + i]? = some name[i] := by
      rw [List.getElem?_append_right (by omega), Nat.add_sub_cancel_left,
        List.getElem?_append_left hlt, List.getElem?_eq_getElem hlt]
    simp [byteAt, hat]

/-- A name that fits into the buffer is read. -/
theorem readName_append (front : List Int8) {name : List Int8} (back : List Int8)
    (hle : front.length + name.length ≤ bufferSize) :
  readName (front ++ name ++ back) front.length (name.length : Int) = some name
  := by
  have hint : (front.length : Int) + name.length ≤ bufferSize := by exact_mod_cast hle
  rw [readName, if_pos ⟨by omega, hint⟩, Int.toNat_natCast, map_byteAt]

/-- The length of a name that fits into the buffer is not changed in a byte. -/
theorem toInt_char_length (name : List Int8) (hle : name.length ≤ bufferSize) :
  (char name.length).toInt = name.length
  := by
  rw [toInt_char_eq_iff]
  simp only [bufferSize] at hle
  omega

theorem decode_createLock {name : List Int8} (hle : 2 + name.length ≤ bufferSize) :
  decode (0 :: char name.length :: name) = some (.client (.createLock name))
  := by
  have hname := readName_append [0, char name.length] [] hle
  have hlength := toInt_char_length name (by omega)
  simp [decode, byteAt, hlength]
  simpa using hname

theorem decode_createCV {name : List Int8} (hle : 2 + name.length ≤ bufferSize) :
  decode (4 :: char name.length :: name) = some (.client (.createCV name))
  := by
  have hname := readName_append [4, char name.length] [] hle
  have hlength := toInt_char_length name (by omega)
  simp [decode, byteAt, hlength]
  simpa using hname

/-- The number of elements of a monitor variable is read from the byte behind the name. -/
theorem decode_createMV_byte {name : List Int8} (b : Int8) (hle : 3 + name.length ≤ bufferSize) :
  decode (9 :: char name.length :: (name ++ [b])) =
    (readSize b.toInt).map (fun n => .client (.createMV name n))
  := by
  have hname : readName ([9, char name.length] ++ name ++ [b]) 2 name.length = some name := by
    apply readName_append [9, char name.length]
    simp only [List.length_cons, List.length_nil]
    omega
  have hlength := toInt_char_length name (by omega)
  have hlt : name.length + 2 < bufferSize := by omega
  simp only [List.cons_append, List.nil_append] at hname
  simp [decode, byteAt, hlength, hname, hlt]
  cases readSize b.toInt with
  | none => rfl
  | some n => rfl

theorem decode_createMV {name : List Int8} {n : ℕ} (hle : 3 + name.length ≤ bufferSize)
    (hn : n < 128) :
  decode (9 :: char name.length :: (name ++ [char n])) = some (.client (.createMV name n))
  := by
  have hsize : (char n).toInt = n := toInt_char_eq_iff.mpr (by omega)
  rw [decode_createMV_byte _ hle, hsize]
  simp [readSize]

theorem decode_question (c : Server.Client) {name : List Int8} (s : State)
    (hle : 5 + name.length ≤ bufferSize) :
  decode (question c name s) =
    some (.serverCreateLock (char c.machine).toInt (char c.mailBox).toInt
      (char s.pendingRequestTable.length).toInt name)
  := by
  have hname := readName_append
    [13, char c.machine, char c.mailBox, char name.length, char s.pendingRequestTable.length] [] hle
  have hlength := toInt_char_length name (by omega)
  simp [decode, question, byteAt, hlength]
  simpa using hname

/-! ### Framing -/

/-- A system call returns `-1` without having sent anything, or the request fits into the buffer and
the server reads `request` from it, where the name is a string that ends at its first `NUL`. -/
def Framed (sent : Option Frame) (request : List Int8 → Request) (name : List Int8) : Prop :=
  ∀ f, sent = some f →
    f.Fits ∧ ∃ name', decode f.data = some (.client (request name')) ∧ cstring name' = name

/-- The question to another server fits into the buffer, and the other server reads the same
name. -/
def Forwarded (c : Server.Client) (name : List Int8) (s : State) : Prop :=
  (questionFrame c name s).Fits ∧ ∃ clientID clientMail responseID name',
    decode (questionFrame c name s).data =
      some (.serverCreateLock clientID clientMail responseID name') ∧ cstring name' = name

/-- What does not contain a `NUL` is a string. -/
theorem cstring_of_not_mem {name : List Int8} (h : 0 ∉ name) :
  cstring name = name
  := by
  rw [cstring, List.takeWhile_eq_self_iff]
  intro b hb
  rw [bne_iff_ne]
  rintro rfl
  contradiction

theorem not_mem_objectName {name : List Int8} {id : Int} (hname : 0 ∉ name)
    (hid : 0 ≤ id ∧ id ≤ 9) :
  0 ∉ objectName name id
  := by
  have hdigit : char (id + 48) ≠ 0 := by
    intro h
    have hint : (char (id + 48)).toInt = id + 48 := toInt_char_eq_iff.mpr (by omega)
    rw [h] at hint
    simp at hint
    omega
  rw [objectName, suffix]
  split
  · simp [hname, Ne.symm hdigit]
  · simpa using hname

/-- A request to create an object fits into the buffer exactly when the name is short enough. -/
theorem framed_iff {opCode : Int8} {name : List Int8} {id : Int} {extra : List Int8}
    {request : List Int8 → Request} (hnul : 0 ∉ objectName name id)
    (hdecode : 2 + (objectName name id).length + extra.length ≤ bufferSize →
      decode (opCode :: char (objectName name id).length :: (objectName name id ++ extra)) =
        some (.client (request (objectName name id)))) :
  Framed (some (createFrame opCode name id extra)) request (objectName name id) ↔
    2 + (objectName name id).length + extra.length ≤ bufferSize
  := by
  have hfits : (createFrame opCode name id extra).Fits ↔
      2 + (objectName name id).length + extra.length ≤ bufferSize := by
    rw [createFrame_eq, Frame.fits_ofBytes]
    simp only [List.length_cons, List.length_append]
    omega
  constructor
  · intro h
    apply hfits.mp (h _ rfl).1
  · rintro hle f hf
    obtain rfl := Option.some.inj hf
    use hfits.mpr hle, objectName name id
    rw [createFrame_eq, Frame.data_ofBytes]
    exact ⟨hdecode hle, cstring_of_not_mem hnul⟩

/-- A request to create a lock or a condition variable is sent and read as it should be exactly when
its name has at most 38 bytes, one to create a monitor variable exactly when its name has at most 37
bytes, and a server passes on the name of a lock as it should exactly when it has at most 35
bytes. -/
theorem create_framed_iff (name : List Int8) (hname : 0 ∉ name) (id : Int) (hid : 0 ≤ id ∧ id ≤ 9)
    (numElements : ℕ) (hnum : numElements ≤ 127) (c : Server.Client) (s : State) :
  (Framed (createLockSyscall (some name) id) .createLock (objectName name id) ↔
      (objectName name id).length ≤ 38) ∧
    (Framed (createConditionSyscall (some name) id) .createCV (objectName name id) ↔
      (objectName name id).length ≤ 38) ∧
    (Framed (createMVSyscall (some name) numElements id) (.createMV · numElements)
      (objectName name id) ↔ (objectName name id).length ≤ 37) ∧
    (Forwarded c (objectName name id) s ↔ (objectName name id).length ≤ 35)
  := by
  have hnul := not_mem_objectName hname hid
  refine ⟨?_, ?_, ?_, ?_⟩
  · rw [createLockSyscall, Option.map_some, framed_iff hnul]
    · simp only [bufferSize, List.length_nil]
      omega
    · intro hle
      rw [List.append_nil]
      apply decode_createLock
      simpa using hle
  · rw [createConditionSyscall, Option.map_some, framed_iff hnul]
    · simp only [bufferSize, List.length_nil]
      omega
    · intro hle
      rw [List.append_nil]
      apply decode_createCV
      simpa using hle
  · rw [createMVSyscall, Option.map_some, framed_iff hnul]
    · simp only [bufferSize, List.length_singleton]
      omega
    · intro hle
      rw [List.length_singleton] at hle
      apply decode_createMV
      · omega
      · omega
  · have hfits : (questionFrame c (objectName name id) s).Fits ↔
        (objectName name id).length ≤ 35 := by
      rw [questionFrame_eq, Frame.fits_ofBytes]
      simp only [question, List.length_append, List.length_cons, List.length_nil, bufferSize]
      omega
    constructor
    · intro h
      apply hfits.mp h.1
    · intro hle
      have hshort : 5 + (objectName name id).length ≤ bufferSize := by
        simp only [bufferSize]
        omega
      have hdecode := decode_question c s hshort
      rw [Forwarded, questionFrame_eq, Frame.data_ofBytes, ← questionFrame_eq]
      exact ⟨hfits.mpr hle, _, _, _, _, hdecode, cstring_of_not_mem hnul⟩

/-- A name of 36 bytes is sent to a server as it should be, but it does not fit when the server
passes it on. -/
theorem create_framed_36 :
  Framed (createLockSyscall (some (List.replicate 36 97)) 0) .createLock
      (objectName (List.replicate 36 97) 0) ∧
    ¬ Forwarded ⟨1, 0⟩ (objectName (List.replicate 36 97) 0) State.initial
  := by
  obtain ⟨hlock, -, -, hforward⟩ := create_framed_iff (List.replicate 36 97) (by decide) 0
    (by decide) 0 (by decide) ⟨1, 0⟩ State.initial
  rw [hlock, hforward]
  decide

/-- A name of 39 bytes does not fit into the buffer of a stub. -/
theorem not_create_framed :
  ¬ ∀ (name : List Int8), 0 ∉ name → ∀ id : Int, 0 ≤ id ∧ id ≤ 9 → ∀ numElements ≤ 127,
    ∀ (c : Server.Client) (s : State),
    Framed (createLockSyscall (some name) id) .createLock (objectName name id) ∧
      Framed (createConditionSyscall (some name) id) .createCV (objectName name id) ∧
      Framed (createMVSyscall (some name) (numElements : ℕ) id) (.createMV · numElements)
        (objectName name id) ∧
      Forwarded c (objectName name id) s
  := by
  intro h
  obtain ⟨hframed, -⟩ := h (List.replicate 39 97) (by decide) 0 (by decide) 0 (by decide) ⟨1, 0⟩
    State.initial
  have hlength := (hframed _ rfl).1.2
  revert hlength
  decide

end Nachos.Client
