import Nachos.Server.Exclusion
import Nachos.Server.Handles

/-!
# Destroyed objects

An object is deleted when a client destroys it, or later, in `Release`, `Signal` or `Broadcast`, if
it is in use then. The pointer to it stays in its table, and nothing tells a later request that the
object is gone. Nor does a lock know of the clients that wait on a condition variable and will get
it when they are woken.

`Trace.Sound` says what the destruction of objects should be like. It holds for the requests of a
run as long as clients are careful: they do not ask for what has been destroyed, and they do not
destroy a lock while somebody waits on a condition variable that is bound to it
(`Trace.destruction_sound_iff`).
-/

namespace Nachos.Server

/-! ### What a request reads and writes -/

/-- An object is in its table and has been deleted. -/
def State.isDeleted (s : State) : Kind → Int → Bool
  | .lock, i => (s.lockAt i).any (·.deleted)
  | .cv, j => (s.cvAt j).any (·.deleted)
  | .mv, m => (s.mvAt m).any (·.deleted)

/-- The positions that a search for a name visits, up to the first entry with that name. -/
def visited {ε : Type*} (key : ε → List Int8) (name : List Int8) (l : List ε) : List ℕ :=
  match l.findIdx? (fun x => strcmp name (key x)) with
  | some i => List.range (i + 1)
  | none => List.range l.length

/-- The objects that are read or written in the iteration for a request, if they are in their
tables. -/
def touches (c : Client) (s : State) : Request → List (Kind × Int)
  | .createLock name =>
      (visited (fun lock => lock.name) name s.serverLockTable).map (fun i : ℕ => (.lock, i))
  | .createCV name =>
      (visited (fun cv => cv.name) name s.serverCVTable).map (fun i : ℕ => (.cv, i))
  | .createMV name _ =>
      (visited (fun mv => mv.name) name s.serverMVTable).map (fun i : ℕ => (.mv, i))
  | .acquire index | .release index | .destroyLock index => [(.lock, index)]
  | .signal condIndex lockIndex | .broadcast condIndex lockIndex | .wait condIndex lockIndex =>
      (.lock, lockIndex) :: if ownedBy c lockIndex s then [(.cv, condIndex)] else []
  | .destroyCV index => [(.cv, index)]
  | .setMV index _ _ | .getMV index _ | .destroyMV index => [(.mv, index)]

/-- An index that is outside the table in place of one at which the object has been deleted. -/
def State.hideIndex (s : State) (kind : Kind) (index : Int) : Int :=
  if s.isDeleted kind index then -1 else index

/-- The request that names indices outside the tables in place of the deleted objects. -/
def Request.hide (s : State) : Request → Request
  | .acquire index => .acquire (s.hideIndex .lock index)
  | .release index => .release (s.hideIndex .lock index)
  | .destroyLock index => .destroyLock (s.hideIndex .lock index)
  | .signal condIndex lockIndex =>
      .signal (s.hideIndex .cv condIndex) (s.hideIndex .lock lockIndex)
  | .broadcast condIndex lockIndex =>
      .broadcast (s.hideIndex .cv condIndex) (s.hideIndex .lock lockIndex)
  | .wait condIndex lockIndex => .wait (s.hideIndex .cv condIndex) (s.hideIndex .lock lockIndex)
  | .destroyCV index => .destroyCV (s.hideIndex .cv index)
  | .setMV index arrayIndex value => .setMV (s.hideIndex .mv index) arrayIndex value
  | .getMV index arrayIndex => .getMV (s.hideIndex .mv index) arrayIndex
  | .destroyMV index => .destroyMV (s.hideIndex .mv index)
  | request => request

/-- No condition variable that is bound to lock `i` has waiters. -/
def State.NoneWaiting (s : State) (i : Int) : Prop :=
  ∀ cv ∈ s.serverCVTable, cv.deleted = false → cv.serverLockIndex = i → cv.waitQueue = []

instance (s : State) (i : Int) : Decidable (s.NoneWaiting i) :=
  inferInstanceAs (Decidable (∀ cv ∈ s.serverCVTable,
    cv.deleted = false → cv.serverLockIndex = i → cv.waitQueue = []))

namespace Trace

/-- What the destruction of objects should be like. -/
structure Sound (cfg : Config) (t : Trace) (a : Client × Request) : Prop where
  /-- No object that has been deleted is read or written. -/
  untouched : ∀ o ∈ touches a.1 t.state a.2, t.state.isDeleted o.1 o.2 = false
  /-- An object that has been deleted is like one outside the table. -/
  outside : serve cfg t.log.length a.1 a.2 t.state =
    serve cfg t.log.length a.1 (a.2.hide t.state) t.state
  /-- A lock is deleted when nobody holds it, waits for it, or waits on a condition variable that is
  bound to it. -/
  lock : ∀ i lock lock', t.state.lockAt i = some lock → lock.deleted = false →
    (t.next cfg a).state.lockAt i = some lock' → lock'.deleted = true →
      (t.next cfg a).holders i = [] ∧ lock'.waitQueue = [] ∧ (t.next cfg a).state.NoneWaiting i
  /-- A condition variable is deleted when nobody waits on it. -/
  cv : ∀ j cv cv', t.state.cvAt j = some cv → cv.deleted = false →
    (t.next cfg a).state.cvAt j = some cv' → cv'.deleted = true → cv'.waitQueue = []

end Trace

/-- The client does not ask for what has been destroyed, and does not cause a lock to be deleted
while somebody waits on a condition variable that is bound to it. -/
def Careful (c : Client) (s : State) : Request → Prop
  | .createLock name => ∀ i ∈ visited (fun lock => lock.name) name s.serverLockTable,
      s.isDeleted .lock i = false
  | .createCV name => ∀ j ∈ visited (fun cv => cv.name) name s.serverCVTable,
      s.isDeleted .cv j = false
  | .createMV name _ => ∀ m ∈ visited (fun mv => mv.name) name s.serverMVTable,
      s.isDeleted .mv m = false
  | .acquire i => s.isDeleted .lock i = false
  | .release i => s.isDeleted .lock i = false ∧
      ∀ lock ∈ s.lockAt i, lock.owner = c.machine → lock.toBeDeleted = true →
        lock.numWaiters = 0 → s.NoneWaiting i
  | .destroyLock i => s.isDeleted .lock i = false ∧
      ∀ lock ∈ s.lockAt i, lock.available = true → lock.numWaiters = 0 → s.NoneWaiting i
  | .signal j i | .broadcast j i | .wait j i => s.isDeleted .lock i = false ∧
      (ownedBy c i s = true → s.isDeleted .cv j = false)
  | .destroyCV j => s.isDeleted .cv j = false
  | .setMV m _ _ | .getMV m _ | .destroyMV m => s.isDeleted .mv m = false

instance (c : Client) (s : State) : ∀ request, Decidable (Careful c s request)
  | .createLock _ | .createCV _ | .createMV _ _ => inferInstanceAs (Decidable (∀ i ∈ _, _ = _))
  | .acquire _ | .destroyCV _ | .setMV _ _ _ | .getMV _ _ | .destroyMV _ =>
      inferInstanceAs (Decidable (_ = _))
  | .release _ | .destroyLock _ => inferInstanceAs (Decidable (_ = _ ∧ ∀ lock ∈ _, _))
  | .signal _ _ | .broadcast _ _ | .wait _ _ => inferInstanceAs (Decidable (_ = _ ∧ (_ = _ → _ = _)))

/-! ### What an iteration does -/

/-- What the server can do with request number `n` of `c`. -/
inductive Managed (n : ℕ) (c : Client) (s : State) : Request → Outcome → Prop where
  | served {request : Request} {o : Outcome} (h : Served n c s request o) : Managed n c s request o
  /-- The object is not in the table. -/
  | absent {request : Request} (hdestroy : request.isDestroy = true) :
      Managed n c s request ⟨s, [], [reply n c ack]⟩
  /-- The lock is deleted at once, or after a `Release`. -/
  | deleteLock {request : Request} {i : Int} {lock : ServerLock}
      (hrequest : request = .destroyLock i ∧ lock.available = true ∨
        request = .release i ∧ lock.owner = c.machine)
      (hi : s.lockAt i = some lock) (hqueue : lock.waitQueue = []) (hnone : s.NoneWaiting i) :
      Managed n c s request ⟨s.setLock i { lock with deleted := true }, [], [reply n c ack]⟩
  | markLock {i : Int} {lock : ServerLock} (hi : s.lockAt i = some lock) :
      Managed n c s (.destroyLock i)
        ⟨s.setLock i { lock with toBeDeleted := true }, [], [reply n c ack]⟩
  | deleteCV {j : Int} {cv : ServerCV} (hj : s.cvAt j = some cv) (hqueue : cv.waitQueue = []) :
      Managed n c s (.destroyCV j) ⟨s.setCV j { cv with deleted := true }, [], [reply n c ack]⟩
  | markCV {j : Int} {cv : ServerCV} (hj : s.cvAt j = some cv) :
      Managed n c s (.destroyCV j) ⟨s.setCV j { cv with toBeDeleted := true }, [], [reply n c ack]⟩
  /-- The last waiters are moved and the condition variable is deleted. -/
  | wakeLast {request : Request} {j i : Int} {cv : ServerCV} {lock : ServerLock}
      (hrequest : request = .signal j i ∨ request = .broadcast j i)
      (hj : s.cvAt j = some cv) (hi : s.lockAt i = some lock) (howner : lock.owner = c.machine)
      (hbound : cv.serverLockIndex = i) :
      Managed n c s request
        ⟨(s.moved j i cv lock cv.waitQueue.length).setCV j
          { cv.wake cv.waitQueue.length with deleted := true }, [], [reply n c ack]⟩

section Managed

variable {s : State} {i j : Int} {lock : ServerLock} {cv : ServerCV} {c : Client} {n : ℕ}

/-- The objects a request is about have not been destroyed, so their fields agree. -/
theorem agree_of_isDeleted (h : s.isDeleted .lock i = false)
    (hL : s.AllLocks (fun _ lock => lock.deleted = false → lock.Agree))
    (hi : s.lockAt i = some lock) :
  lock.deleted = false ∧ lock.Agree
  := by
  have hlive : lock.deleted = false := by simpa [State.isDeleted, hi] using h
  exact ⟨hlive, hL i lock hi hlive⟩

theorem agree_cv_of_isDeleted (h : s.isDeleted .cv j = false)
    (hC : s.AllCVs (fun _ cv => cv.deleted = false → cv.Agree)) (hj : s.cvAt j = some cv) :
  cv.deleted = false ∧ cv.Agree
  := by
  have hlive : cv.deleted = false := by simpa [State.isDeleted, hj] using h
  exact ⟨hlive, hC j cv hj hlive⟩

/-- One server does with the request of a careful client one of the things `Managed` lists. -/
theorem serve_managed {cfg : Config} (hcfg : cfg.numServers = 1) (n : ℕ) {request : Request}
    (hcareful : Careful c s request)
    (hL : s.AllLocks (fun _ lock => lock.deleted = false → lock.Agree))
    (hC : s.AllCVs (fun _ cv => cv.deleted = false → cv.Agree)) :
  Managed n c s request (serve cfg n c request s)
  := by
  by_cases hrefused : Refused c s request
  · rw [serve_refused hrefused]
    exact Managed.served (Served.refused hrefused)
  cases request with
  | release i =>
      have how : ownedBy c i s = true := by simpa [Refused] using hrefused
      obtain ⟨lock, hi, howner⟩ := exists_of_ownedBy how
      obtain ⟨-, hok⟩ := agree_of_isDeleted hcareful.1 hL hi
      simp only [serve, how, if_true]
      obtain ⟨hqueue, hdel, heq⟩ | heq := release_cases hi hok
      · rw [heq]
        apply Managed.deleteLock (Or.inr ⟨rfl, howner⟩) hi hqueue
        apply hcareful.2 lock hi howner hdel
        simp [hok.numWaiters_eq, hqueue]
      · rw [heq]
        exact Managed.served (Served.release hi howner)
  | destroyLock i =>
      simp only [serve, destroyLock]
      cases hi : s.lockAt i with
      | none => exact Managed.absent rfl
      | some lock =>
          obtain ⟨-, hok⟩ := agree_of_isDeleted hcareful.1 hL hi
          by_cases hfree : lock.numWaiters = 0 ∧ lock.available = true
          · have hqueue : lock.waitQueue = [] := by
              have hlength := hok.numWaiters_eq
              rw [hfree.1] at hlength
              exact List.eq_nil_of_length_eq_zero hlength.symm
            simp only [if_pos hfree]
            apply Managed.deleteLock (Or.inl ⟨rfl, hfree.2⟩) hi hqueue
            apply hcareful.2 lock hi hfree.2 hfree.1
          · simp only [hfree, if_false]
            exact Managed.markLock hi
  | signal j i =>
      obtain ⟨how, hb⟩ : ownedBy c i s = true ∧ boundTo j i s = true := by
        simpa [Refused] using hrefused
      obtain ⟨lock, hi, howner⟩ := exists_of_ownedBy how
      obtain ⟨cv, hj, hbound⟩ := exists_of_boundTo hb
      obtain ⟨-, hok⟩ := agree_cv_of_isDeleted (hcareful.2 how) hC hj
      simp only [serve, how, if_true]
      obtain heq | ⟨-, heq⟩ := signal_cases hj hi hok hbound
      · rw [heq]
        exact Managed.served (Served.wake (Or.inl rfl) hj hi howner hbound)
      · rw [heq]
        exact Managed.wakeLast (Or.inl rfl) hj hi howner hbound
  | broadcast j i =>
      obtain ⟨how, hb⟩ : ownedBy c i s = true ∧ boundTo j i s = true := by
        simpa [Refused] using hrefused
      obtain ⟨lock, hi, howner⟩ := exists_of_ownedBy how
      obtain ⟨cv, hj, hbound⟩ := exists_of_boundTo hb
      obtain ⟨-, hok⟩ := agree_cv_of_isDeleted (hcareful.2 how) hC hj
      simp only [serve, how, if_true]
      obtain heq | ⟨-, heq⟩ := broadcast_cases hj hi hok hbound
      · rw [heq]
        exact Managed.served (Served.wake (Or.inr rfl) hj hi howner hbound)
      · rw [heq]
        exact Managed.wakeLast (Or.inr rfl) hj hi howner hbound
  | wait j i =>
      obtain ⟨how, hw⟩ : ownedBy c i s = true ∧ waitable j i s = true := by
        simpa [Refused] using hrefused
      obtain ⟨lock, hi, howner⟩ := exists_of_ownedBy how
      obtain ⟨cv, hj, hbound⟩ := exists_of_waitable hw
      obtain ⟨-, hok⟩ := agree_of_isDeleted hcareful.1 hL hi
      simp only [serve, how, hw, if_true, wait_eq hj hi hok, appendToCV,
        State.cvAt_setLock, State.cvAt_setCV hj, State.setLock_setCV, State.setCV_setCV]
      exact Managed.served (Served.wait hj hi howner hbound)
  | destroyCV j =>
      simp only [serve, destroyCV]
      cases hj : s.cvAt j with
      | none => exact Managed.absent rfl
      | some cv =>
          obtain ⟨-, hok⟩ := agree_cv_of_isDeleted hcareful hC hj
          by_cases hfree : cv.numWaiters = 0
          · simp only [if_pos hfree]
            apply Managed.deleteCV hj
            have hlength := hok.numWaiters_eq
            rw [hfree] at hlength
            exact List.eq_nil_of_length_eq_zero hlength.symm
          · simp only [hfree, if_false]
            exact Managed.markCV hj
  | _ => exact Managed.served (serve_plain hcfg n c rfl s)

end Managed

/-! ### What stays deleted -/

section IsDeleted

variable {s : State} {c : Client} {n : ℕ} {request : Request} {o : Outcome}

@[simp]
theorem State.isDeleted_lock_setCV (j k : Int) (cv : ServerCV) :
  (s.setCV j cv).isDeleted .lock k = s.isDeleted .lock k
  := rfl

@[simp]
theorem State.isDeleted_cv_setLock (i k : Int) (lock : ServerLock) :
  (s.setLock i lock).isDeleted .cv k = s.isDeleted .cv k
  := rfl

theorem State.isDeleted_setLock {i : Int} {lock : ServerLock} (hi : s.lockAt i = some lock)
    (lock' : ServerLock) (k : Int) :
  (s.setLock i lock').isDeleted .lock k = if k = i then lock'.deleted else s.isDeleted .lock k
  := by
  simp only [isDeleted, lockAt_setLock hi]
  split <;> rfl

theorem State.isDeleted_setCV {j : Int} {cv : ServerCV} (hj : s.cvAt j = some cv)
    (cv' : ServerCV) (k : Int) :
  (s.setCV j cv').isDeleted .cv k = if k = j then cv'.deleted else s.isDeleted .cv k
  := by
  simp only [isDeleted, cvAt_setCV hj]
  split <;> rfl

/-- Overwriting a lock with one that is deleted when the other is. -/
theorem State.isDeleted_setLock_same {i : Int} {lock : ServerLock} (hi : s.lockAt i = some lock)
    (lock' : ServerLock) (h : lock'.deleted = lock.deleted) (k : Int) :
  (s.setLock i lock').isDeleted .lock k = s.isDeleted .lock k
  := by
  rw [isDeleted_setLock hi]
  split
  · rename_i hk
    simp [isDeleted, hk, hi, h]
  · rfl

theorem State.isDeleted_setCV_same {j : Int} {cv : ServerCV} (hj : s.cvAt j = some cv)
    (cv' : ServerCV) (h : cv'.deleted = cv.deleted) (k : Int) :
  (s.setCV j cv').isDeleted .cv k = s.isDeleted .cv k
  := by
  rw [isDeleted_setCV hj]
  split
  · rename_i hk
    simp [isDeleted, hk, hj, h]
  · rfl

/-- What has been deleted in a table to which an object has been added. -/
theorem any_getElem?_append {ε : Type*} {f : ε → Bool} {x : ε} (hx : f x = false) (l : List ε)
    (i : ℕ) :
  ((l ++ [x])[i]?).any f = (l[i]?).any f
  := by
  rw [List.getElem?_append]
  split
  · rfl
  · rename_i hle
    have hnone : l[i]? = none := by simpa using hle
    rw [hnone]
    cases i - l.length with
    | zero => simp [hx]
    | succ d => simp

/-- A request that is served deletes no lock. -/
theorem Served.isDeleted_lock (h : Served n c s request o) (k : Int) :
  o.state.isDeleted .lock k = s.isDeleted .lock k
  := by
  cases h with
  | other _ hlocks => simp [State.isDeleted, State.lockAt_congr hlocks]
  | newLock =>
      simp only [State.isDeleted, State.lockAt]
      split
      · exact any_getElem?_append rfl _ _
      · rfl
  | newCV | refused => rfl
  | take hi | queue hi =>
      apply State.isDeleted_setLock_same hi
      rfl
  | release hi => exact State.isDeleted_setLock_same hi _ (ServerLock.handOver_live _).2 k
  | @wake _ j i cv lock _ hj hi =>
      have hi' : (s.setCV j (cv.wake (request.wakes cv.waitQueue.length))).lockAt i = some lock := hi
      apply State.isDeleted_setLock_same hi'
      rfl
  | @wait j i cv lock hj hi =>
      have hi' : (s.setCV j (cv.park i (replyMsg n c ack))).lockAt i = some lock := hi
      exact State.isDeleted_setLock_same hi' _ (ServerLock.handOver_live _).2 k

/-- Nor does it delete a condition variable. -/
theorem Served.isDeleted_cv (h : Served n c s request o) (k : Int) :
  o.state.isDeleted .cv k = s.isDeleted .cv k
  := by
  cases h with
  | other _ _ hcvs => simp [State.isDeleted, State.cvAt_congr hcvs]
  | newCV =>
      simp only [State.isDeleted, State.cvAt]
      split
      · exact any_getElem?_append rfl _ _
      · rfl
  | newLock | refused | take | queue | release => rfl
  | wake _ hj | wait hj =>
      apply State.isDeleted_setCV_same hj
      rfl

end IsDeleted

/-! ### Runs of careful clients -/

theorem State.setCV_moved (s : State) (j i : Int) (cv cv' : ServerCV) (lock : ServerLock) (k : ℕ) :
  (s.moved j i cv lock k).setCV j cv' =
    (s.setCV j cv').setLock i (lock.append (cv.waitQueue.take k))
  := by
  simp [moved, setLock_setCV]

/-- The lock a careful client names has not been deleted. -/
theorem Careful.lock_live {c : Client} {s : State} {request : Request} {i : Int}
    (h : Careful c s request) (hi : request.lockIndex = some i) :
  s.isDeleted .lock i = false
  := by
  cases request with
  | acquire | release | destroyLock | signal | broadcast | wait =>
      obtain rfl := Option.some.inj hi
      first
      | exact h.1
      | exact h
  | _ => cases hi

namespace Trace

variable {cfg : Config} {t : Trace} {a : Client × Request}

/-- The fields of a lock that has not been deleted agree, and the replies on its queue wait for
it. -/
def TidyLock (log : List Entry) (i : Int) (lock : ServerLock) : Prop :=
  lock.deleted = false → lock.Agree ∧ ∀ r ∈ lock.waitQueue, WaitsFor log i r

/-- The same for a condition variable, whose waiters wait for the lock it is bound to. -/
def TidyCV (log : List Entry) (cv : ServerCV) : Prop :=
  cv.deleted = false → cv.Agree ∧ ∀ r ∈ cv.waitQueue, WaitsFor log cv.serverLockIndex r

/-- What has not been deleted is as it should be. -/
structure Tidy (t : Trace) : Prop where
  lock : t.state.AllLocks (TidyLock t.log)
  cv : t.state.AllCVs (fun _ cv => TidyCV t.log cv)
  holders : ∀ i, t.state.isDeleted .lock i = false → t.holders i = t.state.holder i

theorem tidy_initial :
  initial.Tidy
  := by
  constructor
  · intro i lock hi
    simp [initial, State.initial, State.lockAt] at hi
  · intro j cv hj
    simp [initial, State.initial, State.cvAt] at hj
  · intro i _
    apply exclusive_initial

theorem TidyLock.snoc {log : List Entry} {i : Int} {lock : ServerLock} (h : TidyLock log i lock)
    (e : Entry) :
  TidyLock (log ++ [e]) i lock
  := fun hlive => ⟨(h hlive).1, fun r hr => ((h hlive).2 r hr).snoc e⟩

theorem TidyCV.snoc {log : List Entry} {cv : ServerCV} (h : TidyCV log cv) (e : Entry) :
  TidyCV (log ++ [e]) cv
  := fun hlive => ⟨(h hlive).1, fun r hr => ((h hlive).2 r hr).snoc e⟩

/-- Waiters move to the queue of a lock that has an owner. -/
theorem TidyLock.append {log : List Entry} {lock : ServerLock} {cv : ServerCV} {c : Client} {k : ℕ}
    (h : TidyLock log cv.serverLockIndex lock) (howner : lock.owner = c.machine)
    (hcv : ∀ r ∈ cv.waitQueue, WaitsFor log cv.serverLockIndex r) :
  TidyLock log cv.serverLockIndex (lock.append (cv.waitQueue.take k))
  := by
  intro hlive
  obtain ⟨hok, hqueue⟩ := h hlive
  use hok.append (hok.not_available howner) _
  intro r hr
  obtain hr | hr := List.mem_append.mp hr
  · apply hqueue r hr
  · apply hcv r (List.mem_of_mem_take hr)

/-- The condition variable a careful client signals has not been deleted. -/
theorem cv_live {c : Client} {s : State} {request : Request} {j i : Int} {lock : ServerLock}
    {cv : ServerCV} (h : Careful c s request)
    (hrequest : request = .signal j i ∨ request = .broadcast j i)
    (hi : s.lockAt i = some lock) (howner : lock.owner = c.machine) (hj : s.cvAt j = some cv) :
  cv.deleted = false
  := by
  have how : ownedBy c i s = true := by simp [ownedBy, hi, howner]
  have hlive : s.isDeleted .cv j = false := by
    obtain rfl | rfl := hrequest
    · exact h.2 how
    · exact h.2 how
  simpa [State.isDeleted, hj] using hlive

/-- What is served keeps the tables of a careful client tidy. -/
theorem Tidy.served (ht : t.Tidy) (hcareful : Careful a.1 t.state a.2) {o : Outcome}
    (h : Served t.log.length a.1 t.state a.2 o) :
  o.state.AllLocks (TidyLock (t.log ++ [⟨a.1, a.2, accepts a.1 t.state a.2⟩])) ∧
    o.state.AllCVs (fun _ cv => TidyCV (t.log ++ [⟨a.1, a.2, accepts a.1 t.state a.2⟩]) cv)
  := by
  let e : Entry := ⟨a.1, a.2, accepts a.1 t.state a.2⟩
  apply h.preserves (P := TidyLock (t.log ++ [e])) (Q := fun _ cv => TidyCV (t.log ++ [e]) cv)
  · intro i lock hi
    apply (ht.lock i lock hi).snoc
  · intro j cv hj
    apply (ht.cv j cv hj).snoc
  · intro i name id _
    constructor
    · constructor <;> simp [ServerLock.new]
    · simp [ServerLock.new]
  · intro j name id _
    constructor
    · constructor <;> simp [ServerCV.new]
    · simp [ServerCV.new]
  · intro i lock hi hlock hav hlive
    exact ⟨(hlock hlive).1.take _ hav, (hlock hlive).2⟩
  · intro i lock hi hacc hask hlock hav hlive
    use (hlock hlive).1.append hav _
    intro r hr
    obtain hr | hr := List.mem_append.mp hr
    · apply (hlock hlive).2 r hr
    · obtain rfl := List.mem_singleton.mp hr
      apply WaitsFor.last t.log (e := e) hacc hask
  · intro i lock hi hlock hlive
    rw [lock.handOver_live.2] at hlive
    use (hlock hlive).1.handOver
    intro r hr
    apply (hlock hlive).2 r (handOver_waitQueue_subset lock hr)
  · rintro j i cv lock k hrequest hj hi hcv hlock howner rfl
    have hlive := cv_live hcareful hrequest hi howner hj
    constructor
    · intro _
      use (hcv hlive).1.wake k
      intro r hr
      apply (hcv hlive).2 r (List.mem_of_mem_drop hr)
    · exact hlock.append howner (hcv hlive).2
  · intro j i cv hj hi hacc hask hcv hbound hlive
    obtain ⟨hok, hqueue⟩ := hcv hlive
    use hok.park hi _
    intro r hr
    obtain hold | hr := List.mem_append.mp hr
    · have hbound' : cv.serverLockIndex = i := by
        apply hbound.resolve_right
        apply hok.bound
        apply List.ne_nil_of_mem hold
      obtain rfl := hbound'
      apply hqueue r hold
    · obtain rfl := List.mem_singleton.mp hr
      apply WaitsFor.last t.log (e := e) hacc hask

/-- So does everything that is done with the request of a careful client. -/
theorem Tidy.managed (ht : t.Tidy) (hcareful : Careful a.1 t.state a.2) {o : Outcome}
    (h : Managed t.log.length a.1 t.state a.2 o) :
  o.state.AllLocks (TidyLock (t.log ++ [⟨a.1, a.2, accepts a.1 t.state a.2⟩])) ∧
    o.state.AllCVs (fun _ cv => TidyCV (t.log ++ [⟨a.1, a.2, accepts a.1 t.state a.2⟩]) cv)
  := by
  obtain ⟨c, request⟩ := a
  have hL : ∀ e, t.state.AllLocks (TidyLock (t.log ++ [e])) :=
    fun e i lock hi => (ht.lock i lock hi).snoc e
  have hC : ∀ e, t.state.AllCVs (fun _ cv => TidyCV (t.log ++ [e]) cv) :=
    fun e j cv hj => (ht.cv j cv hj).snoc e
  cases h with
  | served h => apply ht.served hcareful h
  | absent => exact ⟨hL _, hC _⟩
  | deleteLock _ hi =>
      refine ⟨(hL _).set hi ?_, hC _⟩
      intro hlive
      cases hlive
  | @markLock i lock hi =>
      refine ⟨(hL _).set hi ?_, hC _⟩
      intro hlive
      obtain ⟨hok, hqueue⟩ := hL _ i lock hi hlive
      exact ⟨⟨hok.numWaiters_eq, hok.owner_ge, hok.available_iff, hok.unavailable⟩, hqueue⟩
  | deleteCV hj =>
      refine ⟨hL _, (hC _).set hj ?_⟩
      intro hlive
      cases hlive
  | @markCV j cv hj =>
      refine ⟨hL _, (hC _).set hj ?_⟩
      intro hlive
      obtain ⟨hok, hqueue⟩ := hC _ j cv hj hlive
      exact ⟨⟨hok.numWaiters_eq, hok.bound⟩, hqueue⟩
  | @wakeLast _ j i cv lock hwakes hj hi howner hbound =>
      subst hbound
      have hlive := cv_live hcareful hwakes hi howner hj
      rw [State.setCV_moved]
      constructor
      · apply ((hL _).setCV _ _).set hi
        exact (hL _ _ _ hi).append howner (hC _ j cv hj hlive).2
      · apply (hC _).set hj
        intro hdeleted
        cases hdeleted

/-- The holders of a lock after a request that is answered and asks for no lock. -/
theorem holders_of_reply {s' : State} {b : Int8}
    (h : serve cfg t.log.length a.1 a.2 t.state = ⟨s', [], [reply t.log.length a.1 b]⟩)
    (hacc : accepts a.1 t.state a.2 = false) (i : Int) :
  (t.next cfg a).holders i =
    if givesUp a.1 t.state a.2 = some i then (t.holders i).filter (· != a.1.machine)
    else t.holders i
  := by
  have hgrant := grantees_reply t.log ⟨a.1, a.2, accepts a.1 t.state a.2⟩ i b
  simp only [hacc, Bool.false_eq_true, false_and, if_false] at hgrant
  simp only [next, h, Outcome.sent, List.nil_append, hacc, hgrant, List.map_nil, List.append_nil]

/-- The holders of the locks that have not been deleted stay what their fields `owner` say. -/
theorem Tidy.holders_next (hcfg : cfg.numServers = 1) (ht : t.Tidy)
    (hcareful : Careful a.1 t.state a.2) (i : Int)
    (hi : (t.next cfg a).state.isDeleted .lock i = false) :
  (t.next cfg a).holders i = (t.next cfg a).state.holder i
  := by
  obtain ⟨c, request⟩ := a
  have h := serve_managed hcfg t.log.length hcareful
    (fun i lock hi hlive => (ht.lock i lock hi hlive).1)
    (fun j cv hj hlive => (ht.cv j cv hj hlive).1)
  have hstate : (t.next cfg (c, request)).state =
    (serve cfg t.log.length c request t.state).state := rfl
  rw [hstate] at hi ⊢
  generalize ho : serve cfg t.log.length c request t.state = o at h hi ⊢
  cases h with
  | served h =>
      rw [h.isDeleted_lock] at hi
      have hlive : ∀ k lock, request.lockIndex = some k → t.state.lockAt k = some lock →
          lock.Agree ∧ ∀ r ∈ lock.waitQueue, WaitsFor t.log k r := by
        intro k lock hk hat
        have hlive := hcareful.lock_live hk
        exact ht.lock k lock hat (by simpa [State.isDeleted, hat] using hlive)
      have hholders := holders_served h
        (fun k lock hk hat =>
          ⟨(hlive k lock hk hat).1.owner_ge, (hlive k lock hk hat).1.available_iff⟩)
        (fun k lock hk hat r hr => ((hlive k lock hk hat).2 r hr).snoc _) i
      rw [← hholders]
      simp only [next, ho, ht.holders i hi]
  | absent hdestroy =>
      rw [← ht.holders i hi]
      cases request with
      | destroyLock | destroyCV | destroyMV => exact holders_of_reply ho rfl i
      | _ => cases hdestroy
  | @deleteLock _ k lock hwhy hk =>
      rw [State.isDeleted_setLock hk] at hi
      by_cases hik : i = k
      · simp [hik] at hi
      · rw [if_neg hik] at hi
        rw [State.holder_setLock hk, if_neg hik, ← ht.holders i hi]
        obtain ⟨rfl, -⟩ | ⟨rfl, -⟩ := hwhy
        · exact holders_of_reply ho rfl i
        · rw [holders_of_reply ho rfl i]
          simp [givesUp, Ne.symm hik]
  | @markLock k lock hk =>
      rw [State.isDeleted_setLock_same hk { lock with toBeDeleted := true } rfl] at hi
      rw [holders_of_reply ho rfl i, State.holder_setLock hk, ht.holders i hi]
      by_cases hik : i = k
      · simp [givesUp, hik, State.holder_of_lockAt hk, ServerLock.holder]
      · simp [givesUp, hik]
  | deleteCV hj | markCV hj =>
      rw [State.isDeleted_lock_setCV] at hi
      rw [holders_of_reply ho rfl i, State.holder_setCV, ht.holders i hi]
      simp [givesUp]
  | @wakeLast _ j k cv lock hwakes hj hk howner hbound =>
      rw [State.setCV_moved] at hi ho ⊢
      have hk' : (t.state.setCV j { cv.wake cv.waitQueue.length with deleted := true }).lockAt k
        = some lock := hk
      rw [State.isDeleted_setLock_same hk' (lock.append _) rfl, State.isDeleted_lock_setCV] at hi
      have hsame : (t.next cfg (c, request)).holders i = t.holders i := by
        obtain rfl | rfl := hwakes
        · exact holders_of_reply ho rfl i
        · exact holders_of_reply ho rfl i
      rw [hsame, State.holder_setLock hk', State.holder_setCV, ht.holders i hi]
      by_cases hik : i = k
      · simp [hik, State.holder_of_lockAt hk, ServerLock.holder, ServerLock.append]
      · simp [hik]

/-- What a careful client asks for leaves everything as it should be. -/
theorem Tidy.next (hcfg : cfg.numServers = 1) (ht : t.Tidy) (hcareful : Careful a.1 t.state a.2) :
  (t.next cfg a).Tidy
  := by
  have h := serve_managed hcfg t.log.length hcareful
    (fun i lock hi hlive => (ht.lock i lock hi hlive).1)
    (fun j cv hj hlive => (ht.cv j cv hj hlive).1)
  obtain ⟨hL, hC⟩ := ht.managed hcareful h
  exact ⟨hL, hC, ht.holders_next hcfg hcareful⟩

end Trace

section Deletes

variable {s : State} {c : Client} {n : ℕ} {request : Request} {o : Outcome}

/-- A lock that is deleted is not in use. -/
theorem Managed.deletes_lock (h : Managed n c s request o) {i : Int}
    (hbefore : s.isDeleted .lock i = false) (hafter : o.state.isDeleted .lock i = true) :
  ∃ lock : ServerLock, (request = .destroyLock i ∧ lock.available = true ∨
      request = .release i ∧ lock.owner = c.machine) ∧
    s.lockAt i = some lock ∧ lock.waitQueue = [] ∧ s.NoneWaiting i ∧
    o = ⟨s.setLock i { lock with deleted := true }, [], [reply n c ack]⟩
  := by
  cases h with
  | served h =>
      rw [h.isDeleted_lock, hbefore] at hafter
      cases hafter
  | absent | deleteCV | markCV =>
      rw [State.isDeleted] at hbefore hafter
      exact absurd (hbefore.symm.trans hafter) (by decide)
  | @deleteLock _ k lock hwhy hk hqueue hnone =>
      rw [State.isDeleted_setLock hk] at hafter
      by_cases hik : i = k
      · subst hik
        exact ⟨lock, hwhy, hk, hqueue, hnone, rfl⟩
      · rw [if_neg hik, hbefore] at hafter
        cases hafter
  | @markLock k lock hk =>
      rw [State.isDeleted_setLock_same hk { lock with toBeDeleted := true } rfl, hbefore] at hafter
      cases hafter
  | @wakeLast _ j k cv lock _ hj hk =>
      have hk' : (s.setCV j { cv.wake cv.waitQueue.length with deleted := true }).lockAt k
        = some lock := hk
      rw [State.setCV_moved, State.isDeleted_setLock_same hk' (lock.append _) rfl,
        State.isDeleted_lock_setCV, hbefore] at hafter
      cases hafter

/-- Nobody waits on a condition variable that is deleted. -/
theorem Managed.deletes_cv (h : Managed n c s request o) {j : Int} {cv' : ServerCV}
    (hbefore : s.isDeleted .cv j = false) (hj : o.state.cvAt j = some cv')
    (hdeleted : cv'.deleted = true) :
  cv'.waitQueue = []
  := by
  have hafter : o.state.isDeleted .cv j = true := by simp [State.isDeleted, hj, hdeleted]
  cases h with
  | served h =>
      rw [h.isDeleted_cv, hbefore] at hafter
      cases hafter
  | absent | deleteLock | markLock =>
      rw [State.isDeleted] at hbefore hafter
      exact absurd (hbefore.symm.trans hafter) (by decide)
  | @deleteCV k cv hk hqueue =>
      rw [State.isDeleted_setCV hk] at hafter
      rw [State.cvAt_setCV hk] at hj
      by_cases hjk : j = k
      · rw [if_pos hjk] at hj
        obtain rfl := Option.some.inj hj
        apply hqueue
      · rw [if_neg hjk, hbefore] at hafter
        cases hafter
  | @markCV k cv hk =>
      rw [State.isDeleted_setCV_same hk { cv with toBeDeleted := true } rfl, hbefore] at hafter
      cases hafter
  | @wakeLast _ k i cv lock _ hk hi =>
      rw [State.setCV_moved, State.isDeleted_cv_setLock, State.isDeleted_setCV hk] at hafter
      rw [State.setCV_moved, State.cvAt_setLock, State.cvAt_setCV hk] at hj
      by_cases hjk : j = k
      · rw [if_pos hjk] at hj
        obtain rfl := Option.some.inj hj
        simp [ServerCV.wake]
      · rw [if_neg hjk, hbefore] at hafter
        cases hafter

/-- A careful client reads and writes nothing that has been deleted. -/
theorem Careful.untouched (h : Careful c s request) :
  ∀ o ∈ touches c s request, s.isDeleted o.1 o.2 = false
  := by
  cases request with
  | createLock | createCV | createMV =>
      simp only [touches, List.mem_map]
      rintro _ ⟨i, hi, rfl⟩
      exact h i hi
  | acquire | destroyCV | setMV | getMV | destroyMV =>
      simp only [touches, List.mem_singleton, forall_eq]
      exact h
  | release | destroyLock =>
      simpa [touches] using h.1
  | signal j i | broadcast j i | wait j i =>
      simp only [touches, List.mem_cons]
      rintro o (rfl | ho)
      · exact h.1
      · split at ho
        · rename_i how
          obtain rfl := List.mem_singleton.mp ho
          exact h.2 how
        · cases ho

/-- What a careful client asks for names nothing that has been deleted, or is refused. -/
theorem Careful.serve_hide (h : Careful c s request) (cfg : Config) :
  serve cfg n c request s = serve cfg n c (request.hide s) s
  := by
  cases request with
  | createLock | createCV | createMV => rfl
  | acquire i | destroyCV i | setMV i _ _ | getMV i _ | destroyMV i =>
      have hi := h
      simp only [Careful] at hi
      simp [Request.hide, State.hideIndex, hi]
  | release i | destroyLock i => simp [Request.hide, State.hideIndex, h.1]
  | signal j i | broadcast j i | wait j i =>
      simp only [Request.hide, State.hideIndex, h.1, Bool.false_eq_true, if_false]
      cases how : ownedBy c i s with
      | false => simp [serve, how]
      | true => simp [h.2 how]

end Deletes

namespace Trace

variable {cfg : Config} {t : Trace} {a : Client × Request}

/-- For careful clients the destruction of objects is as it should be. -/
theorem Tidy.sound (hcfg : cfg.numServers = 1) (ht : t.Tidy) (hcareful : Careful a.1 t.state a.2) :
  Sound cfg t a
  := by
  have h := serve_managed hcfg t.log.length hcareful
    (fun i lock hi hlive => (ht.lock i lock hi hlive).1)
    (fun j cv hj hlive => (ht.cv j cv hj hlive).1)
  constructor
  · exact hcareful.untouched
  · exact hcareful.serve_hide cfg
  · intro i lock lock' hi hlive hi' hdeleted
    have hbefore : t.state.isDeleted .lock i = false := by simp [State.isDeleted, hi, hlive]
    have hafter : (serve cfg t.log.length a.1 a.2 t.state).state.isDeleted .lock i = true := by
      have hi'' : (serve cfg t.log.length a.1 a.2 t.state).state.lockAt i = some lock' := hi'
      simp [State.isDeleted, hi'', hdeleted]
    obtain ⟨lock₀, hwhy, hi₀, hqueue, hnone, ho⟩ := h.deletes_lock hbefore hafter
    obtain rfl := Option.some.inj (hi.symm.trans hi₀)
    have hlock' : lock' = { lock with deleted := true } := by
      simp only [Trace.next, ho, State.lockAt_setLock hi, if_true] at hi'
      exact (Option.some.inj hi').symm
    refine ⟨?_, by simpa [hlock'] using hqueue, ?_⟩
    · have hholders := ht.holders i hbefore
      rw [State.holder_of_lockAt hi] at hholders
      have hok := (ht.lock i lock hi hlive).1
      obtain ⟨hrequest, hav⟩ | ⟨hrequest, howner⟩ := hwhy
      · rw [holders_of_reply ho (by simp [hrequest, accepts]), hholders]
        simp [hrequest, givesUp, ServerLock.holder, hok.available_iff.mp hav]
      · rw [holders_of_reply ho (by simp [hrequest, accepts]), hholders]
        simp [hrequest, givesUp, ServerLock.holder_of_owner howner]
    · simp only [Trace.next, ho]
      exact hnone
  · intro j cv cv' hj hlive hj' hdeleted
    apply h.deletes_cv _ hj' hdeleted
    simp [State.isDeleted, hj, hlive]

/-- Where the destruction of objects is as it should be, the client is careful. -/
theorem Sound.careful (ht : t.Tidy) (h : Sound cfg t a) :
  Careful a.1 t.state a.2
  := by
  obtain ⟨c, request⟩ := a
  obtain ⟨huntouched, -, hlock, -⟩ := h
  have hlive : ∀ i lock, t.state.isDeleted .lock i = false → t.state.lockAt i = some lock →
      lock.deleted = false := by
    intro i lock hi hat
    simpa [State.isDeleted, hat] using hi
  cases request with
  | createLock =>
      intro i hi
      exact huntouched (.lock, i) (List.mem_map_of_mem hi)
  | createCV =>
      intro j hj
      exact huntouched (.cv, j) (List.mem_map_of_mem hj)
  | createMV =>
      intro m hm
      exact huntouched (.mv, m) (List.mem_map_of_mem hm)
  | acquire | destroyCV | setMV | getMV | destroyMV =>
      exact huntouched _ (List.mem_singleton_self _)
  | release i =>
      have hi := huntouched (.lock, i) (List.mem_singleton_self _)
      refine ⟨hi, ?_⟩
      intro lock hmem howner hdel hnum
      have hat : t.state.lockAt i = some lock := hmem
      have hrelease : release i t.state = (t.state.setLock i { lock with deleted := true }, []) := by
        simp [release, hat, hnum, hdel]
      have how : ownedBy c i t.state = true := by simp [ownedBy, hat, howner]
      have hserve : serve cfg t.log.length c (.release i) t.state =
          ⟨t.state.setLock i { lock with deleted := true }, [], [reply t.log.length c ack]⟩ := by
        simp [serve, how, hrelease]
      obtain ⟨-, -, hnone⟩ := hlock i lock { lock with deleted := true } hat (hlive i lock hi hat)
        (by simp [next, hserve, State.lockAt_setLock hat]) rfl
      simp only [next, hserve] at hnone
      exact hnone
  | destroyLock i =>
      have hi := huntouched (.lock, i) (List.mem_singleton_self _)
      refine ⟨hi, ?_⟩
      intro lock hmem hav hnum
      have hat : t.state.lockAt i = some lock := hmem
      have hserve : serve cfg t.log.length c (.destroyLock i) t.state =
          ⟨t.state.setLock i { lock with deleted := true }, [], [reply t.log.length c ack]⟩ := by
        simp [serve, destroyLock, hat, hav, hnum]
      obtain ⟨-, -, hnone⟩ := hlock i lock { lock with deleted := true } hat (hlive i lock hi hat)
        (by simp [next, hserve, State.lockAt_setLock hat]) rfl
      simp only [next, hserve] at hnone
      exact hnone
  | signal j i | broadcast j i | wait j i =>
      constructor
      · exact huntouched (.lock, i) (List.mem_cons_self)
      · intro how
        apply huntouched (.cv, j)
        have how' : ownedBy c i t.state = true := how
        simp [touches, how']

/-- In every run of one server the destruction of objects is as it should be exactly when the
clients are careful. -/
theorem destruction_sound_iff (hcfg : cfg.numServers = 1) (as : List (Client × Request)) :
  Transition.Along (fun t a => some (t.next cfg a)) (Sound cfg) initial as ↔
    Transition.Along (fun t a => some (t.next cfg a)) (fun t a => Careful a.1 t.state a.2)
      initial as
  := by
  suffices h : ∀ t : Trace, t.Tidy →
      (Transition.Along (fun t a => some (t.next cfg a)) (Sound cfg) t as ↔
        Transition.Along (fun t a => some (t.next cfg a)) (fun t a => Careful a.1 t.state a.2)
          t as) from h initial tidy_initial
  induction as with
  | nil =>
      intro t _
      exact Iff.rfl
  | cons a as ih =>
      intro t ht
      rw [Transition.along_cons rfl, Transition.along_cons rfl]
      constructor
      · rintro ⟨hsound, hrest⟩
        have hcareful := hsound.careful ht
        exact ⟨hcareful, (ih _ (ht.next hcfg hcareful)).mp hrest⟩
      · rintro ⟨hcareful, hrest⟩
        exact ⟨ht.sound hcfg hcareful, (ih _ (ht.next hcfg hcareful)).mpr hrest⟩

/-- A lock is created, destroyed, and acquired. -/
def acquireDestroyed : List (Client × Request) :=
  [(⟨1, 0⟩, .createLock [76]), (⟨1, 0⟩, .destroyLock 0), (⟨1, 0⟩, .acquire 0)]

theorem not_destruction_sound :
  ¬ Transition.Along (fun t a => some (t.next ⟨0, 1⟩ a)) (Sound ⟨0, 1⟩) initial acquireDestroyed
  := by
  intro h
  have huntouched := (h.2 _ rfl).2 _ rfl |>.1.untouched (.lock, 0) (by decide)
  revert huntouched
  decide

/-- A condition variable is destroyed while a client waits on it, and deleted when the client is
woken. -/
def destroyWhileWaiting : List (Client × Request) :=
  [(⟨1, 0⟩, .createLock [76]), (⟨1, 0⟩, .createCV [67]), (⟨1, 0⟩, .acquire 0),
    (⟨1, 0⟩, .wait 0 0), (⟨2, 0⟩, .destroyCV 0), (⟨2, 0⟩, .acquire 0), (⟨2, 0⟩, .signal 0 0)]

theorem destruction_sound_while_waiting :
  Transition.Along (fun t a => some (t.next ⟨0, 1⟩ a)) (Sound ⟨0, 1⟩) initial destroyWhileWaiting
  := by
  rw [destruction_sound_iff rfl]
  decide

end Trace

end Nachos.Server
