import Nachos.Library.Run
import Nachos.Library.Numbering
import Nachos.Server.Loop

/-!
# Handles

The handles that a server gives out for the objects it is asked to create. The server with the
number `serverID` counts them from `50 * serverID` on, but for a condition variable or a monitor
variable that exists it gives out the position in the table.

Handles identify the objects of two servers exactly when each server has the number `0` or is asked
for no condition variable and no monitor variable twice, and there are not so many objects on one
server that their handles reach those of the other (`Issuer.handles_identify_iff`).
-/

namespace Nachos.Server

open Numbering

/-- The objects of a server. -/
inductive Kind where
  | lock
  | cv
  | mv
deriving DecidableEq

/-- The names in a table, as strings. -/
def State.names (s : State) : Kind → List (List Int8)
  | .lock => s.serverLockTable.map (fun lock => cstring lock.name)
  | .cv => s.serverCVTable.map (fun cv => cstring cv.name)
  | .mv => s.serverMVTable.map (fun mv => cstring mv.name)

/-- The messages a server receives when objects are created: the requests to create one, and what
servers send to each other about locks. -/
def Message.creates : Message → Bool
  | .client (.createLock _) | .client (.createCV _) | .client (.createMV _ _) => true
  | .client _ => false
  | .serverCreateLock _ _ _ _ | .serverCreateLockAnswer _ => true

/-- The objects that exist after an iteration of the server in which a handle for them is given out,
with the handle. -/
def issues (cfg : Config) (response : ℕ → Int8) (message : Message) (s : State) :
    List (Kind × List Int8 × Int) :=
  match message with
  | .client (.createLock name) =>
      if getLockFromTable name s ≠ -1 then [(.lock, cstring name, getLockFromTable name s)]
      else if cfg.numServers = 1 then [(.lock, cstring name, (createLock cfg name s).1)]
      else []
  | .client (.createCV name) => [(.cv, cstring name, (createCV cfg name s).1)]
  | .client (.createMV name numElements) =>
      [(.mv, cstring name, (createMV cfg name numElements s).1)]
  | .client _ => []
  | .serverCreateLock _ _ _ name =>
      if getLockFromTable name s ≠ -1 then [(.lock, cstring name, getLockFromTable name s)] else []
  | .serverCreateLockAnswer answer =>
      match s.pendingAt (response 2).toInt with
      | some pr =>
          if answer = 0 ∧ pr.noCount + 1 = cfg.numServers - 1 then
            [(.lock, cstring pr.name, (createLock cfg pr.name s).1)]
          else []
      | none => []

/-- A server, and the handles it has given out. -/
structure Issuer where
  state : State
  issued : List (Kind × List Int8 × Int)

namespace Issuer

/-- What a server receives: the number of the request, the sender, the message, and what the
response buffer holds when it is allocated. -/
structure Action where
  request : ℕ
  sender : Client
  message : Message
  response : ℕ → Int8

def initial : Issuer := ⟨State.initial, []⟩

/-- One iteration of the server, for a message that creates objects. -/
def step (cfg : Config) (x : Issuer) (a : Action) : Option Issuer :=
  if a.message.creates then
    (handle cfg a.request a.sender a.response a.message x.state).map
      (fun out => ⟨out.1, x.issued ++ issues cfg a.response a.message x.state⟩)
  else none

/-- The handles of one kind, with the names for which they were given out. -/
def handles (x : Issuer) (kind : Kind) : List (List Int8 × Int) :=
  x.issued.filterMap (fun e => if e.1 = kind then some e.2 else none)

end Issuer

/-! ### Names -/

/-- The handle of an object is the position of the first object with its name. -/
theorem findIdx?_eq_idxOf {ε : Type*} (key : ε → List Int8) (name : List Int8) (l : List ε) :
  l.findIdx? (fun x => strcmp name (key x)) =
    if cstring name ∈ l.map (fun x => cstring (key x)) then
      some ((l.map (fun x => cstring (key x))).idxOf (cstring name)) else none
  := by
  induction l with
  | nil => rfl
  | cons x l ih =>
      rw [List.findIdx?_cons, ih]
      by_cases hx : cstring (key x) = cstring name
      · simp [strcmp, hx]
      · have hne : strcmp name (key x) = false := by
          simpa [strcmp] using Ne.symm hx
        rw [hne]
        by_cases hmem : cstring name ∈ l.map (fun x => cstring (key x))
        · simp [hmem, List.idxOf_cons_ne _ hx]
        · simp [hmem, Ne.symm hx]

/-- A lock that is found is in the table. -/
theorem exists_of_getLockFromTable {name : List Int8} {s : State}
    (h : getLockFromTable name s ≠ -1) :
  ∃ (i : ℕ) (lock : ServerLock), s.serverLockTable[i]? = some lock ∧
    cstring lock.name = cstring name ∧ getLockFromTable name s = lock.id
  := by
  rw [getLockFromTable] at h ⊢
  cases hfind : s.serverLockTable.find? (fun lock => strcmp name lock.name) with
  | none => simp [hfind] at h
  | some lock =>
      obtain ⟨i, hi⟩ := List.getElem?_of_mem (List.mem_of_find?_eq_some hfind)
      have hname := List.find?_some hfind
      rw [strcmp, beq_iff_eq] at hname
      exact ⟨i, lock, hi, hname.symm, rfl⟩

namespace Issuer

/-- The invariant of runs. -/
structure Ok (cfg : Config) (x : Issuer) : Prop where
  ids : ∀ (i : ℕ) lock, x.state.serverLockTable[i]? = some lock → lock.id = i + cfg.serverID * 50
  locks : Numbered (cfg.serverID * 50) (x.state.names .lock) (x.handles .lock)
  cvs : Renumbered (cfg.serverID * 50) (x.state.names .cv) (x.handles .cv)
  mvs : Renumbered (cfg.serverID * 50) (x.state.names .mv) (x.handles .mv)

theorem ok_initial (cfg : Config) :
  initial.Ok cfg
  := by
  constructor
  · simp [initial, State.initial]
  · apply numbered_nil
  · apply renumbered_nil
  · apply renumbered_nil

section

variable {cfg : Config} {x : Issuer}

/-- The handles after one more has been given out. -/
theorem handles_append (s : State) (issued : List (Kind × List Int8 × Int)) (kind kind' : Kind)
    (e : List Int8 × Int) :
  handles ⟨s, issued ++ [(kind, e)]⟩ kind' =
    handles ⟨s, issued⟩ kind' ++ if kind = kind' then [e] else []
  := by
  by_cases hkind : kind = kind'
  · simp [handles, hkind]
  · simp [handles, hkind]

/-- The handles that have been given out do not depend on the tables. -/
@[simp]
theorem handles_mk (s : State) :
  handles ⟨s, x.issued⟩ = x.handles
  := rfl

/-- The tables of the objects have not changed, and no handle has been given out. -/
theorem Ok.congr (h : x.Ok cfg) {s : State} (hlocks : s.serverLockTable = x.state.serverLockTable)
    (hcvs : s.serverCVTable = x.state.serverCVTable)
    (hmvs : s.serverMVTable = x.state.serverMVTable) :
  Ok cfg ⟨s, x.issued⟩
  := by
  constructor
  · simp only [hlocks]
    apply h.ids
  · simp only [State.names, hlocks]
    apply h.locks
  · simp only [State.names, hcvs]
    apply h.cvs
  · simp only [State.names, hmvs]
    apply h.mvs

/-- The handle of a lock that exists is given out. -/
theorem Ok.getLockFromTable (h : x.Ok cfg) {name : List Int8}
    (hname : getLockFromTable name x.state ≠ -1) :
  Ok cfg ⟨x.state, x.issued ++ [(.lock, cstring name, Server.getLockFromTable name x.state)]⟩
  := by
  obtain ⟨i, lock, hi, heq, hid⟩ := exists_of_getLockFromTable hname
  have hat : (x.state.names .lock)[i]? = some (cstring name) := by
    simp [State.names, hi, heq]
  constructor
  · apply h.ids
  · rw [handles_append, if_pos rfl, hid, h.ids i lock hi]
    apply h.locks.again hat
  · rw [handles_append, if_neg (by simp), List.append_nil]
    apply h.cvs
  · rw [handles_append, if_neg (by simp), List.append_nil]
    apply h.mvs

/-- A lock is created. -/
theorem Ok.createLock (h : x.Ok cfg) (name : List Int8) :
  Ok cfg ⟨(createLock cfg name x.state).2,
    x.issued ++ [(.lock, cstring name, (Server.createLock cfg name x.state).1)]⟩
  := by
  constructor
  · intro i lock hi
    simp only [Server.createLock] at hi
    rw [List.getElem?_append] at hi
    split at hi
    · apply h.ids i lock hi
    · rename_i hge
      obtain ⟨hsub, rfl⟩ :
          i - x.state.serverLockTable.length = 0 ∧ ServerLock.new name _ = lock := by
        simpa [List.getElem?_singleton] using hi
      simp only [ServerLock.new]
      omega
  · have hadd := h.locks.add (cstring name)
    rw [handles_append, if_pos rfl]
    simpa [State.names, Server.createLock, ServerLock.new] using hadd
  · rw [handles_append, if_neg (by simp), List.append_nil]
    apply h.cvs
  · rw [handles_append, if_neg (by simp), List.append_nil]
    apply h.mvs

/-- A condition variable is created unless it exists. -/
theorem Ok.createCV (h : x.Ok cfg) (name : List Int8) :
  Ok cfg ⟨(createCV cfg name x.state).2,
    x.issued ++ [(.cv, cstring name, (Server.createCV cfg name x.state).1)]⟩
  := by
  have hidx := findIdx?_eq_idxOf (fun cv : ServerCV => cv.name) name x.state.serverCVTable
  have hnames : x.state.serverCVTable.map (fun cv => cstring cv.name) = x.state.names .cv := rfl
  rw [hnames] at hidx
  rw [Server.createCV]
  by_cases hmem : cstring name ∈ x.state.names .cv
  · rw [if_pos hmem] at hidx
    simp only [hidx]
    constructor
    · apply h.ids
    · rw [handles_append, if_neg (by simp), List.append_nil]
      apply h.locks
    · rw [handles_append, if_pos rfl]
      apply h.cvs.repeat hmem
    · rw [handles_append, if_neg (by simp), List.append_nil]
      apply h.mvs
  · rw [if_neg hmem] at hidx
    simp only [hidx]
    constructor
    · apply h.ids
    · rw [handles_append, if_neg (by simp), List.append_nil]
      apply h.locks
    · have hadd := h.cvs.add hmem
      rw [handles_append, if_pos rfl]
      simpa [State.names, ServerCV.new] using hadd
    · rw [handles_append, if_neg (by simp), List.append_nil]
      apply h.mvs

/-- A monitor variable is created unless it exists. -/
theorem Ok.createMV (h : x.Ok cfg) (name : List Int8) (numElements : ℕ) :
  Ok cfg ⟨(createMV cfg name numElements x.state).2,
    x.issued ++ [(.mv, cstring name, (Server.createMV cfg name numElements x.state).1)]⟩
  := by
  have hidx := findIdx?_eq_idxOf (fun mv : ServerMV => mv.name) name x.state.serverMVTable
  have hnames : x.state.serverMVTable.map (fun mv => cstring mv.name) = x.state.names .mv := rfl
  rw [hnames] at hidx
  rw [Server.createMV]
  by_cases hmem : cstring name ∈ x.state.names .mv
  · rw [if_pos hmem] at hidx
    simp only [hidx]
    constructor
    · apply h.ids
    · rw [handles_append, if_neg (by simp), List.append_nil]
      apply h.locks
    · rw [handles_append, if_neg (by simp), List.append_nil]
      apply h.cvs
    · rw [handles_append, if_pos rfl]
      apply h.mvs.repeat hmem
  · rw [if_neg hmem] at hidx
    simp only [hidx]
    constructor
    · apply h.ids
    · rw [handles_append, if_neg (by simp), List.append_nil]
      apply h.locks
    · rw [handles_append, if_neg (by simp), List.append_nil]
      apply h.cvs
    · have hadd := h.mvs.add hmem
      rw [handles_append, if_pos rfl]
      simpa [State.names, ServerMV.new] using hadd

/-- An iteration of the server keeps the invariant. -/
theorem Ok.step (h : x.Ok cfg) {a : Action} {x' : Issuer} (hstep : step cfg x a = some x') :
  x'.Ok cfg
  := by
  rw [Issuer.step] at hstep
  split at hstep
  · rename_i hcreates
    obtain ⟨out, hout, rfl⟩ := Option.map_eq_some_iff.mp hstep
    obtain ⟨n, c, message, response⟩ := a
    cases message with
    | client request =>
        obtain rfl := Option.some.inj hout
        cases request with
        | createLock name =>
            by_cases hget : Server.getLockFromTable name x.state = -1
            · by_cases hone : cfg.numServers = 1
              · have hcreate := h.createLock name
                simpa [serve, issues, hget, hone] using hcreate
              · have hcongr := h.congr (s := (serve cfg n c (.createLock name) x.state).state)
                  (by simp [serve, hget, hone]) (by simp [serve, hget, hone])
                  (by simp [serve, hget, hone])
                simpa [issues, hget, hone] using hcongr
            · have hexists := h.getLockFromTable hget
              simpa [serve, issues, hget] using hexists
        | createCV name => apply h.createCV
        | createMV name numElements => apply h.createMV
        | _ => contradiction
    | serverCreateLock clientID clientMail responseID name =>
        simp only [handle] at hout
        split at hout
        · rename_i hget
          obtain rfl := Option.some.inj hout
          have hexists := h.getLockFromTable hget
          simpa [issues, hget] using hexists
        · rename_i hget
          obtain rfl := Option.some.inj hout
          have hcongr := h.congr (s := x.state) rfl rfl rfl
          simpa only [issues, if_neg hget, List.append_nil] using hcongr
    | serverCreateLockAnswer answer =>
        simp only [handle] at hout
        split at hout
        · rename_i hanswer
          obtain ⟨pr, hpr, hout⟩ := Option.bind_eq_some_iff.mp hout
          simp only [issues, hpr, hanswer, true_and]
          split at hout
          · rename_i hlast
            obtain rfl := Option.some.inj hout
            have hcongr := h.congr
              (s := updatePendingRequestTable (response 2).toInt pr x.state) rfl rfl rfl
            rw [if_pos hlast]
            exact hcongr.createLock pr.name
          · rename_i hlast
            obtain rfl := Option.some.inj hout
            rw [if_neg hlast, List.append_nil]
            exact h.congr (s := updatePendingRequestTable (response 2).toInt pr x.state) rfl rfl rfl
        · rename_i hanswer
          obtain rfl := Option.some.inj hout
          have hnone : issues cfg response (.serverCreateLockAnswer answer) x.state = [] := by
            simp only [issues, hanswer, false_and, if_false]
            split <;> rfl
          rw [hnone, List.append_nil]
          apply h.congr rfl rfl rfl
  · contradiction

theorem Ok.of_run {as : List Action} {x : Issuer}
    (hrun : Transition.run (Issuer.step cfg) initial as = some x) :
  x.Ok cfg
  := by
  apply Transition.run_invariant (I := Ok cfg) _ (ok_initial cfg)
    (Transition.along_of_forall (P := fun _ _ => True) _ _ _) hrun
  · intro s a s' h _ hstep
    apply h.step hstep
  · intro _ _
    trivial

/-! ### The property and the condition -/

/-- On one server a condition variable or a monitor variable has one handle, and different objects
of one kind have different handles. -/
structure Consistent (x : Issuer) : Prop where
  same : ∀ kind, kind ≠ .lock → ∀ e ∈ x.handles kind, ∀ e' ∈ x.handles kind, e.1 = e'.1 → e.2 = e'.2
  different : ∀ kind, ∀ e ∈ x.handles kind, ∀ e' ∈ x.handles kind, e.1 ≠ e'.1 → e.2 ≠ e'.2

/-- The handles identify the objects of two servers. -/
structure Identify (x y : Issuer) : Prop where
  left : x.Consistent
  right : y.Consistent
  apart : ∀ kind, ∀ e ∈ x.handles kind, ∀ e' ∈ y.handles kind, e.2 ≠ e'.2

/-- The condition variables or the monitor variables that a server is asked for. -/
def asked (kind : Kind) (as : List Action) : List (List Int8) :=
  as.filterMap (fun a =>
    match kind, a.message with
    | .cv, .client (.createCV name) => some (cstring name)
    | .mv, .client (.createMV name _) => some (cstring name)
    | _, _ => none)

/-- The server has the number `0`, or it is asked for no condition variable and for no monitor
variable twice. -/
def NotAgain (cfg : Config) (as : List Action) : Prop :=
  cfg.serverID = 0 ∨ (asked .cv as).Nodup ∧ (asked .mv as).Nodup

/-- The objects of the server with the smaller number are not so many that their handles reach those
of the other server, if it has any. -/
def Room (cfg cfg' : Config) (s s' : State) (kind : Kind) : Prop :=
  cfg.serverID < cfg'.serverID →
    (s.names kind).length ≤ 50 * (cfg'.serverID - cfg.serverID) ∨ s'.names kind = []

/-- A handle of a lock is not one of another kind. -/
theorem issues_lock {kind : Kind} (hkind : kind ≠ .lock) (message : Message)
    (hasked : ∀ name, message ≠ .client (.createCV name))
    (hasked' : ∀ name n, message ≠ .client (.createMV name n)) (response : ℕ → Int8) (s : State) :
  handles ⟨s, issues cfg response message s⟩ kind = []
  := by
  have hlock : ∀ e ∈ issues cfg response message s, e.1 = .lock := by
    intro e he
    rw [issues.eq_def] at he
    split at he
    · split at he
      · rw [List.mem_singleton.mp he]
      · split at he
        · rw [List.mem_singleton.mp he]
        · simp at he
    · apply absurd rfl (hasked _)
    · apply absurd rfl (hasked' _ _)
    · simp at he
    · split at he
      · rw [List.mem_singleton.mp he]
      · simp at he
    · split at he
      · split at he
        · rw [List.mem_singleton.mp he]
        · simp at he
      · simp at he
  rw [handles, List.filterMap_eq_nil_iff]
  intro e he
  rw [hlock e he, if_neg (Ne.symm hkind)]

/-- A handle is given out for a condition variable or a monitor variable that the server is asked
for. -/
theorem map_fst_issues {kind : Kind} (hkind : kind ≠ .lock) (a : Action) (s : State) :
  (handles ⟨s, issues cfg a.response a.message s⟩ kind).map Prod.fst = asked kind [a]
  := by
  obtain ⟨n, c, message, response⟩ := a
  by_cases hcv : ∃ name, message = .client (.createCV name)
  · obtain ⟨name, rfl⟩ := hcv
    cases kind <;> simp [handles, issues, asked]
  · by_cases hmv : ∃ name numElements, message = .client (.createMV name numElements)
    · obtain ⟨name, numElements, rfl⟩ := hmv
      cases kind <;> simp [handles, issues, asked]
    · push Not at hcv hmv
      rw [issues_lock hkind _ hcv hmv]
      cases message with
      | client request =>
          cases request with
          | createCV name => apply absurd rfl (hcv name)
          | createMV name numElements => apply absurd rfl (hmv name numElements)
          | _ => cases kind <;> rfl
      | _ => cases kind <;> rfl

/-- A handle is given out for each condition variable and each monitor variable that the server is
asked for. -/
theorem map_fst_handles {kind : Kind} (hkind : kind ≠ .lock) {as : List Action} {x y : Issuer}
    (hrun : Transition.run (Issuer.step cfg) x as = some y) :
  (y.handles kind).map Prod.fst = (x.handles kind).map Prod.fst ++ asked kind as
  := by
  induction as generalizing x with
  | nil =>
      obtain rfl := Option.some.inj hrun
      simp [asked]
  | cons a as ih =>
      obtain ⟨x', hstep, hrun⟩ := Transition.run_cons.mp hrun
      rw [Issuer.step] at hstep
      split at hstep
      · obtain ⟨out, -, rfl⟩ := Option.map_eq_some_iff.mp hstep
        have hone : (handles ⟨x.state, issues cfg a.response a.message x.state⟩ kind).map Prod.fst =
          asked kind [a] := map_fst_issues hkind a x.state
        have hsplit : asked kind (a :: as) = asked kind [a] ++ asked kind as :=
          List.filterMap_append (l := [a])
        rw [ih hrun, hsplit, ← hone, ← List.append_assoc]
        simp only [handles, List.filterMap_append, List.map_append]
      · contradiction

/-- The names of a server that is asked for no object twice have positions from its number on. -/
theorem Ok.numbered (h : x.Ok cfg) {as : List Action}
    (hrun : Transition.run (Issuer.step cfg) initial as = some x) (hnot : NotAgain cfg as)
    (kind : Kind) :
  Numbered (cfg.serverID * 50) (x.state.names kind) (x.handles kind)
  := by
  have hnames : ∀ k, k ≠ .lock → (x.handles k).map Prod.fst = asked k as := fun k hk =>
    map_fst_handles hk hrun
  cases kind with
  | lock => apply h.locks
  | cv =>
      apply h.cvs.numbered
      rw [hnames .cv (by simp)]
      obtain hzero | ⟨hcv, -⟩ := hnot
      · left
        rw [hzero, Nat.zero_mul]
      · right
        apply hcv
  | mv =>
      apply h.mvs.numbered
      rw [hnames .mv (by simp)]
      obtain hzero | ⟨-, hmv⟩ := hnot
      · left
        rw [hzero, Nat.zero_mul]
      · right
        apply hmv

/-- The handles of a server are consistent exactly when its number is `0` or it is asked for no
condition variable and no monitor variable twice. -/
theorem Ok.consistent_iff (h : x.Ok cfg) {as : List Action}
    (hrun : Transition.run (Issuer.step cfg) initial as = some x) :
  x.Consistent ↔ NotAgain cfg as
  := by
  have hbase : cfg.serverID * 50 = 0 ↔ cfg.serverID = 0 := by omega
  have hcvNames : (x.handles .cv).map Prod.fst = asked .cv as := map_fst_handles (by simp) hrun
  have hmvNames : (x.handles .mv).map Prod.fst = asked .mv as := map_fst_handles (by simp) hrun
  have hcv := h.cvs.consistent_iff
  have hmv := h.mvs.consistent_iff
  rw [hcvNames, hbase] at hcv
  rw [hmvNames, hbase] at hmv
  constructor
  · intro hconsistent
    have hcvSame := hcv.mp (hconsistent.same .cv (by simp))
    have hmvSame := hmv.mp (hconsistent.same .mv (by simp))
    rw [NotAgain]
    tauto
  · intro hnot
    constructor
    · intro kind hkind
      cases kind with
      | lock => contradiction
      | cv =>
          apply hcv.mpr
          apply hnot.imp_right And.left
      | mv =>
          apply hmv.mpr
          apply hnot.imp_right And.right
    · intro kind e he e' he' hne
      apply (h.numbered hrun hnot kind).ne he he' hne

/-- The handles that two servers give out for objects of one kind differ exactly when there are not
too many objects. -/
theorem apart_iff {cfg cfg' : Config} (hne : cfg.serverID ≠ cfg'.serverID) {s s' : State}
    {kind : Kind} {given given' : List (List Int8 × Int)}
    (h : Numbered (cfg.serverID * 50) (s.names kind) given)
    (h' : Numbered (cfg'.serverID * 50) (s'.names kind) given') :
  (∀ e ∈ given, ∀ e' ∈ given', e.2 ≠ e'.2) ↔ Room cfg cfg' s s' kind ∧ Room cfg' cfg s' s kind
  := by
  rw [Room, Room]
  obtain hlt | hlt := Nat.lt_or_gt_of_ne hne
  · have hnot : ¬ cfg'.serverID < cfg.serverID := by omega
    have hiff : cfg.serverID * 50 + (s.names kind).length ≤ cfg'.serverID * 50 ↔
        (s.names kind).length ≤ 50 * (cfg'.serverID - cfg.serverID) := by omega
    rw [h.disjoint_iff h' (by omega), hiff]
    simp only [hlt, hnot, forall_const, false_imp_iff, and_true]
  · have hnot : ¬ cfg.serverID < cfg'.serverID := by omega
    have hiff : cfg'.serverID * 50 + (s'.names kind).length ≤ cfg.serverID * 50 ↔
        (s'.names kind).length ≤ 50 * (cfg.serverID - cfg'.serverID) := by omega
    have hsymm : (∀ e ∈ given, ∀ e' ∈ given', e.2 ≠ e'.2) ↔
        ∀ e' ∈ given', ∀ e ∈ given, e'.2 ≠ e.2 := by
      constructor
      · intro hall e' he' e he
        apply (hall e he e' he').symm
      · intro hall e he e' he'
        apply (hall e' he' e he).symm
    rw [hsymm, h'.disjoint_iff h (by omega), hiff]
    simp only [hlt, hnot, forall_const, false_imp_iff, true_and]

/-- A client asks for a condition variable. -/
def askForCV (name : List Int8) : Action := ⟨0, ⟨9, 0⟩, .client (.createCV name), fun _ => 0⟩

end

end Issuer

end Nachos.Server
