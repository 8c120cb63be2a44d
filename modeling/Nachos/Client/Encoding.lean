import Mathlib.Data.List.Basic
import Mathlib.Logic.Function.Basic
import Nachos.Client.Stubs
import Nachos.Server.Handles
import Nachos.Server.Trace
import Nachos.Library.Run

/-!
# Calls through the stubs

A call crosses the network as bytes: its arguments become bytes in the stub and numbers again in the
server, and so does what the server answers on its way back. `Store` is what the calls are about,
with numbers for handles and for values: the objects in the order in which they were created, and
the values of the monitor variables.

A call is exact if the server acts on the arguments of the call and the call returns what it returns
for the store. The calls of a sequence are exact as long as the arguments, the sizes and the values
are bytes with a sign, there are at most 128 objects of each kind, and the names fit into the
buffers, and the first call for which this is not so is not exact (`Session.calls_exact_iff`).
-/

namespace Nachos.Client

open Server

/-- The system calls that do not destroy anything. -/
inductive Call where
  | createLock (name : List Int8) (id : Int)
  | createCondition (name : List Int8) (id : Int)
  | createMV (name : List Int8) (numElements : ℕ) (id : Int)
  | acquire (index : Int)
  | release (index : Int)
  | wait (cvIndex lockIndex : Int)
  | signal (cvIndex lockIndex : Int)
  | broadcast (cvIndex lockIndex : Int)
  | setMV (index position val : Int)
  | getMV (index position : Int)
deriving DecidableEq

namespace Call

/-- What the stub of a call sends. -/
def frame : Call → Option Frame
  | createLock name id => createLockSyscall (some name) id
  | createCondition name id => createConditionSyscall (some name) id
  | createMV name numElements id => createMVSyscall (some name) numElements id
  | acquire index => some (acquireSyscall index)
  | release index => some (releaseSyscall index)
  | wait cvIndex lockIndex => some (waitSyscall cvIndex lockIndex)
  | signal cvIndex lockIndex => some (signalSyscall cvIndex lockIndex)
  | broadcast cvIndex lockIndex => some (broadcastSyscall cvIndex lockIndex)
  | setMV index position val => some (setMVSyscall index position val)
  | getMV index position => some (getMVSyscall index position)

/-- The request with the arguments of a call. -/
def request : Call → Request
  | createLock name id => .createLock (objectName name id)
  | createCondition name id => .createCV (objectName name id)
  | createMV name numElements id => .createMV (objectName name id) numElements
  | acquire index => .acquire index
  | release index => .release index
  | wait cvIndex lockIndex => .wait cvIndex lockIndex
  | signal cvIndex lockIndex => .signal cvIndex lockIndex
  | broadcast cvIndex lockIndex => .broadcast cvIndex lockIndex
  | setMV index position val => .setMV index position val
  | getMV index position => .getMV index position

instance (f : Frame) : Decidable f.Fits := by
  unfold Frame.Fits
  infer_instance

/-- The request that the server reads. It is `none` where the code reads or writes outside a
buffer, where the assertion of `PostOffice::Send` fails, and where the code allocates an array of
negative size. -/
def transmit (call : Call) : Option Request := do
  let f ← call.frame
  if f.Fits then
    match decode f.data with
    | some (.client request) => some request
    | _ => none
  else none

end Call

/-! ### The store -/

/-- What the calls are about. -/
structure Store where
  /-- The names of the locks; the handle of a lock is its position. -/
  locks : List (List Int8)
  conditions : List (List Int8)
  /-- The names and the sizes of the monitor variables. -/
  mvs : List (List Int8 × ℕ)
  /-- The value that has been set last at a position of a monitor variable, or `0`. -/
  value : ℕ → ℕ → Int

namespace Store

/-- No object has been created. -/
def initial : Store := ⟨[], [], [], fun _ _ => 0⟩

/-- The number of elements of a monitor variable. -/
def size (st : Store) (m : Int) : ℕ :=
  if 0 ≤ m then (st.mvs[m.toNat]?.map (·.2)).getD 0 else 0

/-- The value of an element of a monitor variable is set. -/
def set (st : Store) (m p : ℕ) (val : Int) : Store :=
  { st with value := Function.update st.value m (Function.update (st.value m) p val) }

/-- A call acts on the store, and may return a value. -/
def call (st : Store) : Call → Store × Option Int
  | .createLock name id =>
      let name := cstring (objectName name id)
      ({ st with locks := if name ∈ st.locks then st.locks else st.locks ++ [name] },
        some (st.locks.idxOf name))
  | .createCondition name id =>
      let name := cstring (objectName name id)
      ({ st with conditions :=
          if name ∈ st.conditions then st.conditions else st.conditions ++ [name] },
        some (st.conditions.idxOf name))
  | .createMV name numElements id =>
      let name := cstring (objectName name id)
      ({ st with mvs :=
          if name ∈ st.mvs.map (·.1) then st.mvs
          else st.mvs ++ [(name, numElements)] },
        some ((st.mvs.map (·.1)).idxOf name))
  | .setMV index position val =>
      (if 0 ≤ position ∧ position < st.size index then st.set index.toNat position.toNat val
        else st, none)
  | .getMV index position =>
      (st, some (if 0 ≤ position ∧ position < st.size index then
        st.value index.toNat position.toNat else -1))
  | _ => (st, none)

end Store

/-! ### Sessions -/

/-- The tables of the server hold the objects and the values of the store. -/
structure Represents (s : State) (st : Store) : Prop where
  locks : s.serverLockTable.map (fun lock => cstring lock.name) = st.locks
  lockIds : ∀ (i : ℕ) lock, s.serverLockTable[i]? = some lock → lock.id = i
  conditions : s.serverCVTable.map (fun cv => cstring cv.name) = st.conditions
  mvs : s.serverMVTable.map (fun mv => (cstring mv.name, mv.numElements)) = st.mvs
  values : ∀ (m : ℕ) mv, s.serverMVTable[m]? = some mv →
    mv.values = (List.range mv.numElements).map (st.value m)

/-- A server that is the only one, and the store. -/
structure Session where
  tables : State
  store : Store
  /-- The number of calls that the server has processed. -/
  numCalls : ℕ

namespace Session

def initial : Session := ⟨State.initial, Store.initial, 0⟩

/-- The iteration of the server for a request. -/
def serve (x : Session) (c : Server.Client) (request : Request) : Outcome :=
  Server.serve ⟨0, 1⟩ x.numCalls c request x.tables

/-- A client calls a system call, and the server processes the request. -/
def step (x : Session) (a : Server.Client × Call) : Option Session := do
  let request ← a.2.transmit
  return ⟨(x.serve a.1 request).state, (x.store.call a.2).1, x.numCalls + 1⟩

/-- The value that the call with number `n` returns, if it is answered in this iteration. -/
def returned (n : ℕ) (o : Outcome) : Option Int := do
  let mail ← o.answer.find? (fun mail => mail.request == n)
  let response ← mail.data.head?
  return returnValue response

/-- The server acts on the arguments of the call and so does the store, and the call returns what it
returns for the store. -/
structure Exact (x : Session) (a : Server.Client × Call) : Prop where
  transmit : a.2.transmit = some a.2.request
  represents : Represents (x.serve a.1 a.2.request).state (x.store.call a.2).1
  returned : ∀ v, (x.store.call a.2).2 = some v →
    returned x.numCalls (x.serve a.1 a.2.request) = some v

/-- The number is a byte with a sign. -/
def IsByte (n : Int) : Prop := -128 ≤ n ∧ n < 128

/-- The arguments are bytes, the name fits into the buffers, and the handle is a byte. -/
def Small (x : Session) (a : Server.Client × Call) : Prop :=
  match a.2 with
  | .createLock name id =>
      (objectName name id).length ≤ 38 ∧
        x.store.locks.idxOf (cstring (objectName name id)) < 128
  | .createCondition name id =>
      (objectName name id).length ≤ 38 ∧
        x.store.conditions.idxOf (cstring (objectName name id)) < 128
  | .createMV name numElements id =>
      (objectName name id).length ≤ 37 ∧ numElements < 128 ∧
        (x.store.mvs.map (·.1)).idxOf (cstring (objectName name id)) < 128
  | .acquire index | .release index => IsByte index
  | .wait cvIndex lockIndex | .signal cvIndex lockIndex | .broadcast cvIndex lockIndex =>
      IsByte cvIndex ∧ IsByte lockIndex
  | .setMV index position val => IsByte index ∧ IsByte position ∧ IsByte val
  | .getMV index position => IsByte index ∧ IsByte position

end Session

/-! ### What the requests for locks leave -/

/-- The names, the ids and the monitor variables are the same. -/
structure SameNames (s s' : State) : Prop where
  locks : s'.serverLockTable.map (fun lock => (lock.name, lock.id)) =
    s.serverLockTable.map (fun lock => (lock.name, lock.id))
  cvs : s'.serverCVTable.map (·.name) = s.serverCVTable.map (·.name)
  mvs : s'.serverMVTable = s.serverMVTable

namespace SameNames

variable {s s' s'' : State}

theorem refl (s : State) :
  SameNames s s
  := ⟨rfl, rfl, rfl⟩

theorem trans (h : SameNames s s') (h' : SameNames s' s'') :
  SameNames s s''
  := ⟨h'.locks.trans h.locks, h'.cvs.trans h.cvs, h'.mvs.trans h.mvs⟩

/-- An entry of a table is overwritten. -/
theorem map_set {ε τ : Type*} {l : List ε} {i : ℕ} {x y : ε} (f : ε → τ) (h : l[i]? = some x)
    (hf : f y = f x) :
  (l.set i y).map f = l.map f
  := by
  rw [List.map_set, hf]
  apply List.ext_getElem?
  intro j
  by_cases hj : i = j
  · subst hj
    obtain ⟨hlt, rfl⟩ := List.getElem?_eq_some_iff.mp h
    simp [hlt]
  · rw [List.getElem?_set_ne hj]

theorem setLock {i : Int} {lock lock' : ServerLock} (hi : s.lockAt i = some lock)
    (hname : lock'.name = lock.name) (hid : lock'.id = lock.id) :
  SameNames s (s.setLock i lock')
  := by
  obtain ⟨-, hi⟩ := State.getElem?_of_lockAt hi
  constructor
  · apply map_set _ hi
    rw [hname, hid]
  · rfl
  · rfl

theorem setCV {j : Int} {cv cv' : ServerCV} (hj : s.cvAt j = some cv) (hname : cv'.name = cv.name) :
  SameNames s (s.setCV j cv')
  := by
  obtain ⟨-, hj⟩ := State.getElem?_of_cvAt hj
  constructor
  · rfl
  · apply map_set _ hj hname
  · rfl

end SameNames

/-- A request that is about a lock leaves the names and the monitor variables as they are. -/
theorem sameNames_of_served {n : ℕ} {c : Server.Client} {s : State} {request : Request}
    {o : Outcome} (h : Served n c s request o) (hlock : request.lockIndex ≠ none) :
  SameNames s o.state
  := by
  have hover : ∀ {s : State} {i : Int} {lock : ServerLock}, s.lockAt i = some lock →
      SameNames s (s.setLock i lock.handOver) := by
    intro s i lock hi
    apply SameNames.setLock hi
    · rw [ServerLock.handOver]
      split <;> rfl
    · rw [ServerLock.handOver]
      split <;> rfl
  cases h with
  | other hrequest => contradiction
  | newLock => contradiction
  | newCV => contradiction
  | refused => apply SameNames.refl
  | take hi => exact SameNames.setLock hi rfl rfl
  | queue hi => exact SameNames.setLock hi rfl rfl
  | release hi => apply hover hi
  | @wake _ j i cv lock _ hj hi =>
      have hcv : SameNames s (s.setCV j (cv.wake (request.wakes cv.waitQueue.length))) :=
        SameNames.setCV hj rfl
      exact hcv.trans (SameNames.setLock (s := s.setCV j _) hi rfl rfl)
  | @wait j i cv lock hj hi =>
      have hcv : SameNames s (s.setCV j (cv.park i (replyMsg n c ack))) := SameNames.setCV hj rfl
      exact hcv.trans (hover (s := s.setCV j _) hi)

/-! ### Transmission -/

namespace Call

theorem transmit_eq_some_iff {call : Call} {bs : List Int8} {request : Request}
    (hframe : call.frame = some (.ofBytes bs)) :
  call.transmit = some request ↔ bs.length ≤ bufferSize ∧ decode bs = some (.client request)
  := by
  rw [transmit, hframe, Option.bind_eq_bind, Option.bind_some, ← Frame.fits_ofBytes]
  split
  · rename_i hfits
    rw [Frame.data_ofBytes]
    split
    · rename_i hdecode
      simp [hfits, hdecode]
    · rename_i hne
      simp only [hfits, true_and, reduceCtorEq, false_iff]
      apply hne
  · rename_i hfits
    simp [hfits]

/-- A call whose request has numbers only. -/
theorem transmit_of_decode {call : Call} (bs : List Int8) (request : Request)
    (hframe : call.frame = some (.ofBytes bs)) (hle : bs.length ≤ 4)
    (hdecode : decode bs = some (.client request)) :
  call.transmit = some request
  := by
  rw [transmit_eq_some_iff hframe]
  exact ⟨by simp only [bufferSize]; omega, hdecode⟩

theorem transmit_createLock_iff (name : List Int8) (id : Int) :
  (createLock name id).transmit = some (createLock name id).request ↔
    (objectName name id).length ≤ 38
  := by
  have hframe : (createLock name id).frame = some _ :=
    congrArg some (createFrame_eq 0 name id [])
  rw [transmit_eq_some_iff hframe, List.append_nil]
  constructor
  · rintro ⟨hle, -⟩
    simp only [List.length_cons, bufferSize] at hle
    omega
  · intro hle
    constructor
    · simp only [List.length_cons, bufferSize]
      omega
    · apply decode_createLock
      simp only [bufferSize]
      omega

theorem transmit_createCondition_iff (name : List Int8) (id : Int) :
  (createCondition name id).transmit = some (createCondition name id).request ↔
    (objectName name id).length ≤ 38
  := by
  have hframe : (createCondition name id).frame = some _ :=
    congrArg some (createFrame_eq 4 name id [])
  rw [transmit_eq_some_iff hframe, List.append_nil]
  constructor
  · rintro ⟨hle, -⟩
    simp only [List.length_cons, bufferSize] at hle
    omega
  · intro hle
    constructor
    · simp only [List.length_cons, bufferSize]
      omega
    · apply decode_createCV
      simp only [bufferSize]
      omega

theorem transmit_createMV_iff (name : List Int8) (n : ℕ) (id : Int) :
  (createMV name n id).transmit = some (createMV name n id).request ↔
    (objectName name id).length ≤ 37 ∧ n < 128
  := by
  have hframe : (createMV name n id).frame = some _ :=
    congrArg some (createFrame_eq 9 name id [char n])
  rw [transmit_eq_some_iff hframe]
  constructor
  · rintro ⟨hle, hdecode⟩
    simp only [List.length_cons, List.length_append, List.length_nil, bufferSize] at hle
    have hshort : 3 + (objectName name id).length ≤ bufferSize := by
      simp only [bufferSize]
      omega
    rw [decode_createMV_byte _ hshort, readSize] at hdecode
    split at hdecode
    · have hnum : (char n).toInt.toNat = n := by simpa [request] using hdecode
      have hbyte : (char n).toInt = n := by omega
      have hrange := toInt_char_eq_iff.mp hbyte
      omega
    · contradiction
  · rintro ⟨hle, hn⟩
    constructor
    · simp only [List.length_cons, List.length_append, List.length_nil, bufferSize]
      omega
    · apply decode_createMV _ hn
      simp only [bufferSize]
      omega

/-- Numbers are transmitted exactly when they are bytes. -/
theorem transmit_acquire_iff (index : Int) :
  (acquire index).transmit = some (acquire index).request ↔ Session.IsByte index
  := by
  rw [transmit_of_decode [1, char index] (.acquire (char index).toInt) rfl
    (by simp) rfl]
  simp [request, Session.IsByte, toInt_char_eq_iff]

theorem transmit_release_iff (index : Int) :
  (release index).transmit = some (release index).request ↔ Session.IsByte index
  := by
  rw [transmit_of_decode [2, char index] (.release (char index).toInt) rfl
    (by simp) rfl]
  simp [request, Session.IsByte, toInt_char_eq_iff]

theorem transmit_signal_iff (j i : Int) :
  (signal j i).transmit = some (signal j i).request ↔ Session.IsByte j ∧ Session.IsByte i
  := by
  rw [transmit_of_decode [5, char j, char i]
    (.signal (char j).toInt (char i).toInt) rfl (by simp) rfl]
  simp [request, Session.IsByte, toInt_char_eq_iff]

theorem transmit_broadcast_iff (j i : Int) :
  (broadcast j i).transmit = some (broadcast j i).request ↔ Session.IsByte j ∧ Session.IsByte i
  := by
  rw [transmit_of_decode [6, char j, char i]
    (.broadcast (char j).toInt (char i).toInt) rfl (by simp) rfl]
  simp [request, Session.IsByte, toInt_char_eq_iff]

theorem transmit_wait_iff (j i : Int) :
  (wait j i).transmit = some (wait j i).request ↔ Session.IsByte j ∧ Session.IsByte i
  := by
  rw [transmit_of_decode [7, char j, char i]
    (.wait (char j).toInt (char i).toInt) rfl (by simp) rfl]
  simp [request, Session.IsByte, toInt_char_eq_iff]

theorem transmit_setMV_iff (m p v : Int) :
  (setMV m p v).transmit = some (setMV m p v).request ↔
    Session.IsByte m ∧ Session.IsByte p ∧ Session.IsByte v
  := by
  rw [transmit_of_decode [10, char m, char p, char v]
    (.setMV (char m).toInt (char p).toInt (char v).toInt) rfl (by simp) rfl]
  simp [request, Session.IsByte, toInt_char_eq_iff]

theorem transmit_getMV_iff (m p : Int) :
  (getMV m p).transmit = some (getMV m p).request ↔ Session.IsByte m ∧ Session.IsByte p
  := by
  rw [transmit_of_decode [11, char m, char p]
    (.getMV (char m).toInt (char p).toInt) rfl (by simp) rfl]
  simp [request, Session.IsByte, toInt_char_eq_iff]

end Call

/-! ### The tables and the store -/

namespace Represents

variable {s : State} {st : Store}

theorem getLockFromTable_eq (h : Represents s st) (name : List Int8) :
  getLockFromTable name s =
    if cstring name ∈ st.locks then (st.locks.idxOf (cstring name) : Int) else -1
  := by
  have hidx := findIdx?_eq_idxOf (fun lock : ServerLock => lock.name) name s.serverLockTable
  rw [h.locks] at hidx
  rw [getLockFromTable, List.find?_eq_bind_findIdx?_getElem?, hidx]
  by_cases hmem : cstring name ∈ st.locks
  · have hlt : st.locks.idxOf (cstring name) < s.serverLockTable.length := by
      rw [← List.length_map (f := fun lock : ServerLock => cstring lock.name), h.locks]
      apply List.idxOf_lt_length_of_mem hmem
    have hid := h.lockIds _ _ (List.getElem?_eq_getElem hlt)
    simp [hmem, hlt, hid]
  · simp [hmem]

theorem length_locks (h : Represents s st) :
  s.serverLockTable.length = st.locks.length
  := by
  rw [← h.locks, List.length_map]

theorem length_mvs (h : Represents s st) :
  s.serverMVTable.length = st.mvs.length
  := by
  rw [← h.mvs, List.length_map]

/-- Entry `i` of a table to which an entry has been added. -/
theorem getElem?_concat_eq_some {ε : Type*} {l : List ε} {x y : ε} {i : ℕ}
    (h : (l ++ [x])[i]? = some y) :
  l[i]? = some y ∨ i = l.length ∧ y = x
  := by
  rw [List.getElem?_append] at h
  split at h
  · left
    apply h
  · right
    obtain ⟨hsub, rfl⟩ : i - l.length = 0 ∧ x = y := by
      simpa [List.getElem?_singleton] using h
    exact ⟨by omega, rfl⟩

/-- A lock is created unless it exists. -/
theorem createLock (h : Represents s st) (n : ℕ) (c : Server.Client) (name : List Int8) (id : Int) :
  ∃ s', serve ⟨0, 1⟩ n c (.createLock (objectName name id)) s =
      ⟨s', [], [reply n c (char (st.locks.idxOf (cstring (objectName name id))))]⟩ ∧
    Represents s' (st.call (.createLock name id)).1
  := by
  have hget := h.getLockFromTable_eq (objectName name id)
  simp only [Store.call]
  by_cases hmem : cstring (objectName name id) ∈ st.locks
  · rw [if_pos hmem] at hget
    have hne : getLockFromTable (objectName name id) s ≠ -1 := by omega
    rw [if_pos hmem]
    exact ⟨s, by simp only [serve, if_pos hne]; rw [hget], h⟩
  · rw [if_neg hmem] at hget
    rw [if_neg hmem, List.idxOf_eq_length hmem, ← h.length_locks]
    refine ⟨_, by simp [serve, hget, Server.createLock]; rfl, ?_⟩
    constructor
    · simp [h.locks, ServerLock.new]
    · intro i lock hi
      obtain hi | ⟨rfl, rfl⟩ := getElem?_concat_eq_some hi
      · apply h.lockIds i lock hi
      · rfl
    · apply h.conditions
    · apply h.mvs
    · apply h.values

/-- A condition variable is created unless it exists. -/
theorem createCondition (h : Represents s st) (n : ℕ) (c : Server.Client) (name : List Int8)
    (id : Int) :
  ∃ s', serve ⟨0, 1⟩ n c (.createCV (objectName name id)) s =
      ⟨s', [], [reply n c (char (st.conditions.idxOf (cstring (objectName name id))))]⟩ ∧
    Represents s' (st.call (.createCondition name id)).1
  := by
  have hidx := findIdx?_eq_idxOf (fun cv : ServerCV => cv.name) (objectName name id)
    s.serverCVTable
  rw [h.conditions] at hidx
  simp only [Store.call]
  by_cases hmem : cstring (objectName name id) ∈ st.conditions
  · rw [if_pos hmem] at hidx
    rw [if_pos hmem]
    exact ⟨s, by simp only [serve, createCV, hidx], h⟩
  · have hlength : s.serverCVTable.length = st.conditions.length := by
      rw [← h.conditions, List.length_map]
    rw [if_neg hmem] at hidx
    rw [if_neg hmem, List.idxOf_eq_length hmem, ← hlength]
    refine ⟨_, by simp [serve, createCV, hidx]; rfl, ?_⟩
    constructor
    · apply h.locks
    · apply h.lockIds
    · simp [h.conditions, ServerCV.new]
    · apply h.mvs
    · apply h.values

/-- A monitor variable is created unless it exists. -/
theorem createMV (h : Represents s st) (hfresh : ∀ m p, st.mvs.length ≤ m → st.value m p = 0)
    (n : ℕ) (c : Server.Client) (name : List Int8) (numElements : ℕ) (id : Int) :
  ∃ s', serve ⟨0, 1⟩ n c (.createMV (objectName name id) numElements) s =
      ⟨s', [], [reply n c (char ((st.mvs.map (·.1)).idxOf (cstring (objectName name id))))]⟩ ∧
    Represents s' (st.call (.createMV name numElements id)).1
  := by
  have hnames : s.serverMVTable.map (fun mv => cstring mv.name) = st.mvs.map (·.1) := by
    rw [← h.mvs, List.map_map]
    rfl
  have hidx := findIdx?_eq_idxOf (fun mv : ServerMV => mv.name) (objectName name id)
    s.serverMVTable
  rw [hnames] at hidx
  simp only [Store.call]
  by_cases hmem : cstring (objectName name id) ∈ st.mvs.map (·.1)
  · rw [if_pos hmem] at hidx
    rw [if_pos hmem]
    exact ⟨s, by simp only [serve, Server.createMV, hidx], h⟩
  · rw [if_neg hmem] at hidx
    rw [if_neg hmem, List.idxOf_eq_length hmem, List.length_map, ← h.length_mvs]
    refine ⟨_, by simp [serve, Server.createMV, hidx]; rfl, ?_⟩
    constructor
    · apply h.locks
    · apply h.lockIds
    · apply h.conditions
    · simp [h.mvs, ServerMV.new]
    · intro m mv hm
      obtain hm | ⟨rfl, rfl⟩ := getElem?_concat_eq_some hm
      · apply h.values m mv hm
      · apply List.ext_getElem
        · simp [ServerMV.new]
        · intro p hp hp'
          simp [ServerMV.new, hfresh _ p (le_of_eq h.length_mvs.symm)]

/-- The size of the monitor variable with a handle. -/
theorem size_eq (h : Represents s st) (m : Int) :
  st.size m = ((s.mvAt m).map (·.numElements)).getD 0
  := by
  rw [Store.size, State.mvAt, ← h.mvs, List.getElem?_map, Option.map_map]
  by_cases hm : 0 ≤ m
  · have hlt : -1 < m := by omega
    rw [if_pos hm, if_pos hlt]
    rfl
  · have hnot : ¬ -1 < m := by omega
    rw [if_neg hm, if_neg hnot]
    rfl

theorem getMV_eq (h : Represents s st) (m p : Int) :
  Server.getMV m p s =
    if 0 ≤ p ∧ p < st.size m then st.value m.toNat p.toNat else -1
  := by
  rw [Server.getMV, h.size_eq]
  cases hm : s.mvAt m with
  | none =>
      have hnot : ¬ (0 ≤ p ∧ p < 0) := by omega
      simp [hnot]
  | some mv =>
      obtain ⟨-, hget⟩ : -1 < m ∧ s.serverMVTable[m.toNat]? = some mv := by
        simpa [State.mvAt] using hm
      have hvalues := h.values _ _ hget
      by_cases hp : 0 ≤ p ∧ p < mv.numElements
      · have hp' : -1 < p ∧ p < mv.numElements := by omega
        have hlt : p.toNat < mv.numElements := by omega
        simp [hp, hp', hvalues, hlt]
      · have hp' : ¬ (-1 < p ∧ p < mv.numElements) := by omega
        simp only [if_neg hp', Option.map_some, Option.getD_some, if_neg hp]

theorem set_map_range (f : ℕ → Int) (n p : ℕ) (v : Int) :
  ((List.range n).map f).set p v = (List.range n).map (Function.update f p v)
  := by
  apply List.ext_getElem
  · simp
  · intro i hi hi'
    rw [List.getElem_set]
    by_cases hip : p = i
    · simp [hip]
    · simp [hip, Function.update_of_ne (Ne.symm hip)]

/-- The value of an element of a monitor variable is set. -/
theorem setMV (h : Represents s st) (m p v : Int) :
  Represents (Server.setMV m p v s) (st.call (.setMV m p v)).1
  := by
  simp only [Server.setMV, Store.call, h.size_eq]
  cases hm : s.mvAt m with
  | none =>
      have hnot : ¬ (0 ≤ p ∧ p < 0) := by omega
      simpa [hnot] using h
  | some mv =>
      obtain ⟨-, hget⟩ : -1 < m ∧ s.serverMVTable[m.toNat]? = some mv := by
        simpa [State.mvAt] using hm
      simp only [Option.map_some, Option.getD_some]
      by_cases hp : 0 ≤ p ∧ p < mv.numElements
      · have hp' : -1 < p ∧ p < mv.numElements := by omega
        rw [if_pos hp', if_pos hp]
        constructor
        · apply h.locks
        · apply h.lockIds
        · apply h.conditions
        · have hset := SameNames.map_set (y := { mv with values := mv.values.set p.toNat v })
            (fun mv : ServerMV => (cstring mv.name, mv.numElements)) hget rfl
          exact hset.trans h.mvs
        · intro k mv' hk
          by_cases hkm : k = m.toNat
          · subst hkm
            obtain ⟨hlt, -⟩ := List.getElem?_eq_some_iff.mp hget
            obtain rfl : { mv with values := mv.values.set p.toNat v } = mv' := by
              simpa [State.setMV, hlt] using hk
            simp only [Store.set, Function.update_self, h.values _ _ hget]
            apply set_map_range
          · have hold : s.serverMVTable[k]? = some mv' := by
              simpa [State.setMV, List.getElem?_set_ne (Ne.symm hkm)] using hk
            rw [h.values k mv' hold, Store.set]
            simp only [Function.update_of_ne hkm]
      · have hp' : ¬ (-1 < p ∧ p < mv.numElements) := by omega
        rw [if_neg hp', if_neg hp]
        apply h

end Represents

/-- The names and the monitor variables are all that the store depends on. -/
theorem SameNames.represents {s s' : State} {st : Store} (hsame : SameNames s s')
    (h : Represents s st) :
  Represents s' st
  := by
  constructor
  · have hlocks := congrArg (List.map (fun x : List Int8 × ℕ => cstring x.1)) hsame.locks
    rw [List.map_map, List.map_map] at hlocks
    exact hlocks.trans h.locks
  · intro i lock hi
    have hlocks := congrArg (fun l => l[i]?) hsame.locks
    simp only [List.getElem?_map, hi, Option.map_some] at hlocks
    obtain ⟨lock', hlock', heq⟩ := Option.map_eq_some_iff.mp hlocks.symm
    rw [← h.lockIds i lock' hlock']
    exact (congrArg Prod.snd heq).symm
  · have hcvs := congrArg (List.map cstring) hsame.cvs
    rw [List.map_map, List.map_map] at hcvs
    exact hcvs.trans h.conditions
  · rw [hsame.mvs]
    apply h.mvs
  · rw [hsame.mvs]
    apply h.values

/-! ### Calls -/

namespace Session

/-- The invariant of sessions with small calls. -/
structure Ok (x : Session) : Prop where
  represents : Represents x.tables x.store
  tables : x.tables.Ok
  fresh : ∀ m p, x.store.mvs.length ≤ m → x.store.value m p = 0
  range : ∀ m p, IsByte (x.store.value m p)

theorem ok_initial :
  initial.Ok
  := by
  constructor
  · constructor
    · rfl
    · simp [initial, State.initial]
    · rfl
    · rfl
    · simp [initial, State.initial]
  · apply State.ok_initial
  · simp [initial, Store.initial]
  · simp [initial, Store.initial, IsByte]

variable {x : Session} {c : Server.Client}

theorem returned_reply (n : ℕ) (c : Server.Client) (s : State) (granted : List Mail) (b : Int8) :
  returned n ⟨s, granted, [reply n c b]⟩ = some b.toInt
  := by
  simp [returned, reply, returnValue]

/-- A handle or a value is returned exactly when it is a byte. -/
theorem returned_char_iff (n : ℕ) (c : Server.Client) (s : State) (granted : List Mail) (v : Int) :
  returned n ⟨s, granted, [reply n c (char v)]⟩ = some v ↔ IsByte v
  := by
  rw [returned_reply, Option.some.injEq, toInt_char_eq_iff, IsByte]

/-- A request about a lock is served, and the store does not depend on it. -/
theorem Ok.exact_of_lock (h : x.Ok) {call : Call} (hstore : x.store.call call = (x.store, none))
    (hlock : call.request.lockIndex ≠ none) (hdestroy : call.request.isDestroy = false) :
  x.Exact (c, call) ↔ call.transmit = some call.request
  := by
  constructor
  · intro hexact
    apply hexact.transmit
  · intro htransmit
    have hserved := @serve_served ⟨0, 1⟩ rfl x.numCalls c _ hdestroy _ h.tables
    constructor
    · apply htransmit
    · rw [hstore]
      apply (sameNames_of_served hserved hlock).represents h.represents
    · rw [hstore]
      intro v hv
      contradiction

/-- A call that creates an object is exact exactly when the request is transmitted and the handle is
a byte. -/
theorem exact_of_create (call : Call) {s' : State} {handle : Int}
    (hserve : x.serve c call.request = ⟨s', [], [reply x.numCalls c (char handle)]⟩)
    (hs' : Represents s' (x.store.call call).1) (hvalue : (x.store.call call).2 = some handle) :
  x.Exact (c, call) ↔ call.transmit = some call.request ∧ IsByte handle
  := by
  constructor
  · intro hexact
    have hreturned := hexact.returned _ hvalue
    rw [hserve, returned_char_iff] at hreturned
    exact ⟨hexact.transmit, hreturned⟩
  · rintro ⟨htransmit, hhandle⟩
    constructor
    · apply htransmit
    · rw [hserve]
      apply hs'
    · intro v hv
      obtain rfl := Option.some.inj (hvalue.symm.trans hv)
      rw [hserve, returned_char_iff]
      apply hhandle

/-- A position in a list is a byte exactly when it is below 128. -/
theorem isByte_natCast (n : ℕ) :
  IsByte n ↔ n < 128
  := by
  rw [IsByte]
  omega

/-- A call is exact exactly when it is small. -/
theorem Ok.exact_iff_small (h : x.Ok) (a : Server.Client × Call) :
  x.Exact a ↔ x.Small a
  := by
  obtain ⟨c, call⟩ := a
  cases call with
  | createLock name id =>
      obtain ⟨s', hserve, hs'⟩ := h.represents.createLock x.numCalls c name id
      rw [exact_of_create (.createLock name id) hserve hs' rfl, Call.transmit_createLock_iff,
        isByte_natCast, Small]
  | createCondition name id =>
      obtain ⟨s', hserve, hs'⟩ := h.represents.createCondition x.numCalls c name id
      rw [exact_of_create (.createCondition name id) hserve hs' rfl,
        Call.transmit_createCondition_iff, isByte_natCast, Small]
  | createMV name n id =>
      obtain ⟨s', hserve, hs'⟩ := h.represents.createMV h.fresh x.numCalls c name n id
      rw [exact_of_create (.createMV name n id) hserve hs' rfl, Call.transmit_createMV_iff,
        isByte_natCast, and_assoc, Small]
  | acquire i =>
      rw [h.exact_of_lock rfl (by simp [Call.request, Request.lockIndex]) rfl,
        Call.transmit_acquire_iff, Small]
  | release i =>
      rw [h.exact_of_lock rfl (by simp [Call.request, Request.lockIndex]) rfl,
        Call.transmit_release_iff, Small]
  | wait j i =>
      rw [h.exact_of_lock rfl (by simp [Call.request, Request.lockIndex]) rfl,
        Call.transmit_wait_iff, Small]
  | signal j i =>
      rw [h.exact_of_lock rfl (by simp [Call.request, Request.lockIndex]) rfl,
        Call.transmit_signal_iff, Small]
  | broadcast j i =>
      rw [h.exact_of_lock rfl (by simp [Call.request, Request.lockIndex]) rfl,
        Call.transmit_broadcast_iff, Small]
  | setMV m p v =>
      have hiff : x.Exact (c, .setMV m p v) ↔
          (Call.setMV m p v).transmit = some (Call.setMV m p v).request := by
        constructor
        · intro hexact
          apply hexact.transmit
        · intro htransmit
          constructor
          · apply htransmit
          · apply h.represents.setMV
          · intro v hv
            contradiction
      rw [hiff, Call.transmit_setMV_iff, Small]
  | getMV m p =>
      have hiff : x.Exact (c, .getMV m p) ↔
          (Call.getMV m p).transmit = some (Call.getMV m p).request := by
        constructor
        · intro hexact
          apply hexact.transmit
        · intro htransmit
          constructor
          · apply htransmit
          · apply h.represents
          · intro v hv
            obtain rfl := Option.some.inj hv
            simp only [serve, Call.request, Server.serve, h.represents.getMV_eq, returned_char_iff]
            split
            · apply h.range
            · simp [IsByte]
      rw [hiff, Call.transmit_getMV_iff, Small]

/-- An element that is set is one of a monitor variable. -/
theorem lt_of_lt_size {st : Store} {m p : Int} (hp : 0 ≤ p ∧ p < st.size m) :
  m.toNat < st.mvs.length
  := by
  by_contra hge
  rw [Store.size, List.getElem?_eq_none (by omega)] at hp
  split at hp
  · simp at hp
    omega
  · simp at hp
    omega

/-- A small call keeps the values bytes. -/
theorem Ok.store (h : x.Ok) {a : Server.Client × Call} (hsmall : x.Small a) :
  (∀ m p, (x.store.call a.2).1.mvs.length ≤ m → (x.store.call a.2).1.value m p = 0) ∧
    ∀ m p, IsByte ((x.store.call a.2).1.value m p)
  := by
  obtain ⟨c, call⟩ := a
  cases call with
  | createMV name n id =>
      refine ⟨fun m p hm => h.fresh m p ?_, h.range⟩
      simp only [Store.call] at hm
      split at hm
      · apply hm
      · rw [List.length_append] at hm
        omega
  | setMV m p v =>
      simp only [Store.call]
      split
      · rename_i hp
        have hlt := lt_of_lt_size hp
        constructor
        · intro k q hk
          have hne : k ≠ m.toNat := by
            rintro rfl
            apply absurd hlt
            simpa [Store.set] using hk
          simp only [Store.set, Function.update_of_ne hne]
          apply h.fresh k q
          simpa [Store.set] using hk
        · intro k q
          simp only [Store.set, Function.update_apply]
          split
          · rw [Function.update_apply]
            split
            · apply hsmall.2.2
            · apply h.range
          · apply h.range
      · exact ⟨h.fresh, h.range⟩
  | _ => exact ⟨h.fresh, h.range⟩

/-- An exact call leaves the session as it should be. -/
theorem Ok.step (h : x.Ok) {a : Server.Client × Call} (hexact : x.Exact a) (hsmall : x.Small a) :
  ∃ x', x.step a = some x' ∧ x'.Ok
  := by
  refine ⟨_, by simp [Session.step, hexact.transmit]; rfl, ?_⟩
  have hdestroy : a.2.request.isDestroy = false := by
    cases a.2 <;> rfl
  obtain ⟨hfresh, hrange⟩ := h.store hsmall
  constructor
  · apply hexact.represents
  · have hserved := @serve_served ⟨0, 1⟩ rfl x.numCalls a.1 _ hdestroy _ h.tables
    apply hserved.ok h.tables
  · apply hfresh
  · apply hrange

/-- The calls of a sequence are exact exactly as long as they are small. -/
theorem calls_exact_iff (calls : List (Server.Client × Call)) :
  Transition.Along step Exact initial calls ↔ Transition.Along step Small initial calls
  := by
  suffices hx : ∀ x : Session, x.Ok →
      (Transition.Along step Exact x calls ↔ Transition.Along step Small x calls) from
    hx initial ok_initial
  induction calls with
  | nil =>
      intro x h
      exact Iff.rfl
  | cons a calls ih =>
      intro x h
      rw [Transition.Along, Transition.Along, h.exact_iff_small a]
      apply and_congr_right
      intro hsmall
      obtain ⟨x', hstep, hx'⟩ := h.step ((h.exact_iff_small a).mpr hsmall) hsmall
      simp only [hstep, Option.some.injEq, forall_eq']
      apply ih x' hx'

/-- The limits of the assumptions: numbers from `0` to `255`, and at most 255 objects of each
kind. -/
def Limited (x : Session) (a : Server.Client × Call) : Prop :=
  match a.2 with
  | .createLock _ _ => (x.store.call a.2).1.locks.length ≤ 255
  | .createCondition _ _ => (x.store.call a.2).1.conditions.length ≤ 255
  | .createMV _ numElements _ => (x.store.call a.2).1.mvs.length ≤ 255 ∧ numElements ≤ 255
  | .acquire index | .release index => 0 ≤ index ∧ index ≤ 255
  | .wait cvIndex lockIndex | .signal cvIndex lockIndex | .broadcast cvIndex lockIndex =>
      (0 ≤ cvIndex ∧ cvIndex ≤ 255) ∧ 0 ≤ lockIndex ∧ lockIndex ≤ 255
  | .setMV index position val =>
      (0 ≤ index ∧ index ≤ 255) ∧ (0 ≤ position ∧ position ≤ 255) ∧ 0 ≤ val ∧ val ≤ 255
  | .getMV index position => (0 ≤ index ∧ index ≤ 255) ∧ 0 ≤ position ∧ position ≤ 255

instance (x : Session) (a : Server.Client × Call) : Decidable (x.Limited a) := by
  unfold Limited
  split <;> infer_instance

/-- A client creates a monitor variable, sets its element to `200`, and gets `-56`. -/
def largeCalls : List (Server.Client × Call) :=
  [(⟨1, 0⟩, .createMV [77] 1 0), (⟨1, 0⟩, .setMV 0 0 200), (⟨1, 0⟩, .getMV 0 0)]

theorem not_calls_exact :
  ¬ ∀ calls, Transition.Along step Limited initial calls → Transition.Along step Exact initial calls
  := by
  intro h
  obtain ⟨x, hx⟩ : ∃ x, initial.step (⟨1, 0⟩, .createMV [77] 1 0) = some x :=
    Option.isSome_iff_exists.mp (by decide)
  have hexact := (h largeCalls (by decide)).2 x hx
  have htransmit : (Call.setMV 0 0 200).transmit = some (Call.setMV 0 0 200).request :=
    hexact.1.transmit
  revert htransmit
  decide

end Session

end Nachos.Client
