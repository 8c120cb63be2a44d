import Mathlib.Logic.Function.Basic
import Mathlib.Data.List.Basic
import Nachos.Library.Run

/-!
# Mailboxes of threads

A thread sends a request to a server and receives the reply in its mailbox, and nothing else tells
the replies apart. The main thread and the threads that `Exec_Syscall` creates get the next mailbox,
while the threads that `Fork_Syscall` creates get mailbox `0`.

The replies reach the threads whose requests they answer in a run exactly when no thread is forked
while another one uses mailbox `0`, and no process is started when all mailboxes are used up
(`Machine.replies_own_iff`).
-/

namespace Nachos.Client

/-- The number of mailboxes of the post office. -/
def numBoxes : ℕ := 10

/-- A user thread. -/
structure Thread where
  mailBox : ℕ
  /-- The number of the request that the thread has sent and whose reply it has not received. -/
  request : Option ℕ
deriving DecidableEq

/-- A client machine. Requests are numbered in the order in which they are sent. -/
structure Machine where
  /-- The user threads that have not exited, by the order in which they were created. -/
  threads : ℕ → Option Thread
  numThreads : ℕ
  /-- Whether the main thread has called `StartProcess`. -/
  started : Bool
  numMailBox : ℕ
  numRequests : ℕ
  /-- The requests that have not been answered, and the mailboxes to reply to. -/
  requests : List (ℕ × ℕ)
  /-- The replies in the mailboxes, by the requests that they answer. -/
  boxes : ℕ → List ℕ
  /-- The requests whose replies have been waited for, and those whose replies were received. -/
  received : List (ℕ × ℕ)

inductive Action where
  | startProcess
  /-- A thread calls `Exec_Syscall`. -/
  | exec (thread : ℕ)
  /-- A thread calls `Fork_Syscall`. -/
  | fork (thread : ℕ)
  /-- A thread exits. -/
  | exit (thread : ℕ)
  /-- A thread sends a request. -/
  | send (thread : ℕ)
  /-- A server answers a request, and the reply is put into the mailbox. -/
  | answer (request : ℕ)
  /-- A thread receives a reply. -/
  | receive (thread : ℕ)
deriving DecidableEq

namespace Machine

/-- A new thread. -/
def create (mailBox : ℕ) (s : Machine) : Machine :=
  { s with
    threads := Function.update s.threads s.numThreads (some ⟨mailBox, none⟩)
    numThreads := s.numThreads + 1 }

/-- A thread that is not waiting for a reply. -/
def idle (s : Machine) (t : ℕ) : Option Thread := (s.threads t).filter (fun u => u.request.isNone)

/-- One action. It is `none` where an assertion of the post office fails, and where the mailbox is
empty. -/
def step (s : Machine) : Action → Option Machine
  | .startProcess =>
      if s.started then none else some { s.create 0 with started := true }
  | .exec t => do
      let _ ← s.idle t
      return { s.create s.numMailBox with numMailBox := s.numMailBox + 1 }
  | .fork t => do
      let _ ← s.idle t
      return s.create 0
  | .exit t => do
      let _ ← s.idle t
      return { s with threads := Function.update s.threads t none }
  | .send t => do
      let u ← s.idle t
      return { s with
        threads := Function.update s.threads t (some { u with request := some s.numRequests })
        numRequests := s.numRequests + 1
        requests := s.requests ++ [(s.numRequests, u.mailBox)] }
  | .answer n => do
      let r ← s.requests.find? (fun r => r.1 == n)
      if r.2 < numBoxes then
        some { s with
          requests := s.requests.erase r
          boxes := Function.update s.boxes r.2 (s.boxes r.2 ++ [r.1]) }
      else none
  | .receive t => do
      let u ← s.threads t
      let n ← u.request
      if u.mailBox < numBoxes then
        match s.boxes u.mailBox with
        | [] => none
        | m :: ms =>
            some { s with
              threads := Function.update s.threads t (some { u with request := none })
              boxes := Function.update s.boxes u.mailBox ms
              received := s.received ++ [(n, m)] }
      else none

/-- The machine when it has been initialized: the main thread has mailbox `0`. -/
def initial : Machine where
  threads _ := none
  numThreads := 0
  started := false
  numMailBox := 1
  numRequests := 0
  requests := []
  boxes _ := []
  received := []

/-! ### The property -/

/-- The threads have different mailboxes of the post office, the reply a thread is waiting for is
the only one that is in its mailbox or going to be put there, and every reply that has been received
was the one waited for. -/
structure RepliesOwn (s : Machine) : Prop where
  distinct : ∀ t u a b, s.threads t = some a → s.threads u = some b → a.mailBox = b.mailBox → t = u
  range : ∀ t a, s.threads t = some a → a.mailBox < numBoxes
  awaited : ∀ t a n, s.threads t = some a → a.request = some n →
    s.boxes a.mailBox = [] ∧ s.requests.filter (fun r => r.2 = a.mailBox) = [(n, a.mailBox)] ∨
      s.boxes a.mailBox = [n] ∧ s.requests.filter (fun r => r.2 = a.mailBox) = []
  received : ∀ r ∈ s.received, r.1 = r.2

/-- No thread is forked while another one uses mailbox `0`, and no process is started when all
mailboxes are used up. -/
def Numbered (s : Machine) : Action → Prop
  | .fork _ => ∀ t < s.numThreads, ∀ a, s.threads t = some a → a.mailBox ≠ 0
  | .exec _ => s.numMailBox < numBoxes
  | _ => True

instance (s : Machine) (a : Action) : Decidable (s.Numbered a) := by
  cases a <;> unfold Numbered <;> infer_instance

/-! ### The invariant -/

/-- The requests of mailbox `b` that have not been answered, and the replies in it. -/
def outstanding (s : Machine) (b : ℕ) : List ℕ :=
  s.boxes b ++ (s.requests.filter (fun r => r.2 = b)).map (·.1)

/-- The invariant of runs. -/
structure Ok (s : Machine) : Prop where
  fresh : ∀ t, s.numThreads ≤ t → s.threads t = none
  main : s.started = false → ∀ t, s.threads t = none
  distinct : ∀ t u a b, s.threads t = some a → s.threads u = some b → a.mailBox = b.mailBox → t = u
  below : ∀ t a, s.threads t = some a → a.mailBox < s.numMailBox
  numMailBox : 0 < s.numMailBox ∧ s.numMailBox ≤ numBoxes
  used : ∀ t a, s.threads t = some a → s.outstanding a.mailBox = a.request.toList
  unused : ∀ b, (∀ t a, s.threads t = some a → a.mailBox ≠ b) → s.outstanding b = []
  received : ∀ r ∈ s.received, r.1 = r.2

section

variable {s s' : Machine}

theorem idle_eq_some {t : ℕ} {u : Thread} (h : s.idle t = some u) :
  s.threads t = some u ∧ u.request = none
  := by
  obtain ⟨ht, hidle⟩ := Option.filter_eq_some_iff.mp h
  exact ⟨ht, Option.isNone_iff_eq_none.mp hidle⟩

/-- Threads are numbered in the order in which they are created. -/
theorem Ok.lt_numThreads (h : s.Ok) {t : ℕ} {u : Thread} (ht : s.threads t = some u) :
  t < s.numThreads
  := by
  by_contra hle
  rw [h.fresh t (by omega)] at ht
  contradiction

theorem outstanding_congr (hboxes : s'.boxes = s.boxes) (hrequests : s'.requests = s.requests)
    (b : ℕ) :
  s'.outstanding b = s.outstanding b
  := by
  rw [outstanding, outstanding, hboxes, hrequests]

/-- A machine whose main thread has not called `StartProcess` has no user threads. -/
theorem Ok.started (h : s.Ok) {t : ℕ} {u : Thread} (ht : s.threads t = some u) :
  s.started = true
  := by
  by_contra hstarted
  rw [h.main (by simpa using hstarted) t] at ht
  contradiction

/-- A thread with a mailbox that no other thread uses. -/
theorem Ok.create (h : s.Ok) {b : ℕ} (hb : ∀ t a, s.threads t = some a → a.mailBox ≠ b)
    (hthreads : s'.threads = Function.update s.threads s.numThreads (some ⟨b, none⟩))
    (hnum : s'.numThreads = s.numThreads + 1) (hstarted : s'.started = true)
    (hbelow : b < s'.numMailBox) (hle : s.numMailBox ≤ s'.numMailBox)
    (hrange : s'.numMailBox ≤ numBoxes) (hrequests : s'.requests = s.requests)
    (hboxes : s'.boxes = s.boxes) (hreceived : s'.received = s.received) :
  s'.Ok
  := by
  have hcases : ∀ t a, s'.threads t = some a →
      t = s.numThreads ∧ a = ⟨b, none⟩ ∨ t ≠ s.numThreads ∧ s.threads t = some a := by
    intro t a ha
    rw [hthreads, Function.update_apply] at ha
    split at ha
    · rename_i ht
      left
      exact ⟨ht, (Option.some.inj ha).symm⟩
    · rename_i ht
      right
      exact ⟨ht, ha⟩
  have hsame := outstanding_congr hboxes hrequests
  constructor
  · intro t ht
    rw [hthreads, Function.update_of_ne (by omega)]
    apply h.fresh t
    omega
  · intro hfalse
    rw [hstarted] at hfalse
    contradiction
  · intro t u a c ha hc hac
    obtain ⟨rfl, rfl⟩ | ⟨-, ha⟩ := hcases t a ha
    · obtain ⟨rfl, -⟩ | ⟨-, hc⟩ := hcases u c hc
      · rfl
      · exact absurd hac.symm (hb u c hc)
    · obtain ⟨-, rfl⟩ | ⟨-, hc⟩ := hcases u c hc
      · exact absurd hac (hb t a ha)
      · apply h.distinct t u a c ha hc hac
  · intro t a ha
    obtain ⟨-, rfl⟩ | ⟨-, ha⟩ := hcases t a ha
    · apply hbelow
    · apply Nat.lt_of_lt_of_le (h.below t a ha) hle
  · exact ⟨by omega, hrange⟩
  · intro t a ha
    rw [hsame]
    obtain ⟨-, rfl⟩ | ⟨-, ha⟩ := hcases t a ha
    · apply h.unused b hb
    · apply h.used t a ha
  · intro c hc
    rw [hsame]
    apply h.unused c
    intro t a ha
    apply hc t a
    rw [hthreads, Function.update_of_ne (Nat.ne_of_lt (h.lt_numThreads ha))]
    apply ha
  · rw [hreceived]
    apply h.received

/-- A thread that is not waiting for a reply exits. -/
theorem Ok.exit (h : s.Ok) {t : ℕ} {u : Thread} (ht : s.threads t = some u)
    (hrequest : u.request = none) :
  Ok { s with threads := Function.update s.threads t none }
  := by
  have hcases : ∀ v a, Function.update s.threads t none v = some a →
      v ≠ t ∧ s.threads v = some a := by
    intro v a ha
    rw [Function.update_apply] at ha
    split at ha
    · contradiction
    · rename_i hv
      exact ⟨hv, ha⟩
  constructor
  · intro v hv
    by_cases hvt : v = t
    · rw [hvt]
      apply Function.update_self
    · simp only [Function.update_of_ne hvt]
      apply h.fresh v hv
  · intro hstarted
    rw [h.started ht] at hstarted
    contradiction
  · intro v w a b ha hb hab
    apply h.distinct v w a b (hcases v a ha).2 (hcases w b hb).2 hab
  · intro v a ha
    apply h.below v a (hcases v a ha).2
  · apply h.numMailBox
  · intro v a ha
    apply h.used v a (hcases v a ha).2
  · intro b hb
    by_cases hub : u.mailBox = b
    · subst hub
      have hused := h.used t u ht
      rw [hrequest] at hused
      apply hused
    · apply h.unused b
      intro v a ha
      by_cases hvt : v = t
      · subst hvt
        obtain rfl := Option.some.inj (ht.symm.trans ha)
        apply hub
      · apply hb v a
        simp only [Function.update_of_ne hvt]
        apply ha
  · apply h.received

/-- A change of what the thread `t` is waiting for, and of what is outstanding in its mailbox. -/
theorem Ok.exchange (h : s.Ok) {t : ℕ} {u : Thread} (ht : s.threads t = some u) {r : Option ℕ}
    (hthreads : s'.threads = Function.update s.threads t (some { u with request := r }))
    (hself : s'.outstanding u.mailBox = r.toList)
    (hother : ∀ b, b ≠ u.mailBox → s'.outstanding b = s.outstanding b)
    (hnum : s'.numThreads = s.numThreads) (hstarted : s'.started = s.started)
    (hnumMailBox : s'.numMailBox = s.numMailBox) (hreceived : ∀ r ∈ s'.received, r.1 = r.2) :
  s'.Ok
  := by
  have hcases : ∀ v a, s'.threads v = some a →
      v = t ∧ a = { u with request := r } ∨ v ≠ t ∧ s.threads v = some a := by
    intro v a ha
    rw [hthreads, Function.update_apply] at ha
    split at ha
    · rename_i hv
      left
      exact ⟨hv, (Option.some.inj ha).symm⟩
    · rename_i hv
      right
      exact ⟨hv, ha⟩
  have hold : ∀ v a, s'.threads v = some a → ∃ a', s.threads v = some a' ∧
      a'.mailBox = a.mailBox := by
    intro v a ha
    obtain ⟨rfl, rfl⟩ | ⟨-, ha⟩ := hcases v a ha
    · exact ⟨u, ht, rfl⟩
    · exact ⟨a, ha, rfl⟩
  constructor
  · intro v hv
    rw [hnum] at hv
    have hvt : v ≠ t := by
      rintro rfl
      rw [h.fresh v hv] at ht
      contradiction
    rw [hthreads, Function.update_of_ne hvt]
    apply h.fresh v hv
  · intro hfalse
    rw [hstarted, h.started ht] at hfalse
    contradiction
  · intro v w a b ha hb hab
    obtain ⟨a', ha', haa⟩ := hold v a ha
    obtain ⟨b', hb', hbb⟩ := hold w b hb
    apply h.distinct v w a' b' ha' hb'
    rw [haa, hbb, hab]
  · intro v a ha
    obtain ⟨a', ha', haa⟩ := hold v a ha
    rw [hnumMailBox, ← haa]
    apply h.below v a' ha'
  · rw [hnumMailBox]
    apply h.numMailBox
  · intro v a ha
    obtain ⟨-, rfl⟩ | ⟨hvt, ha⟩ := hcases v a ha
    · apply hself
    · have hne : a.mailBox ≠ u.mailBox := by
        intro heq
        apply hvt (h.distinct v t a u ha ht heq)
      rw [hother a.mailBox hne]
      apply h.used v a ha
  · intro b hb
    have hne : b ≠ u.mailBox := by
      rintro rfl
      refine hb t { u with request := r } ?_ rfl
      rw [hthreads, Function.update_self]
    rw [hother b hne]
    apply h.unused b
    intro v a ha
    by_cases hvt : v = t
    · subst hvt
      obtain rfl := Option.some.inj (ht.symm.trans ha)
      apply Ne.symm hne
    · apply hb v a
      rw [hthreads, Function.update_of_ne hvt]
      apply ha
  · apply hreceived

/-- A thread that is not waiting for a reply sends a request. -/
theorem Ok.send (h : s.Ok) {t : ℕ} {u : Thread} (ht : s.threads t = some u)
    (hrequest : u.request = none) :
  Ok { s with
    threads := Function.update s.threads t (some { u with request := some s.numRequests })
    numRequests := s.numRequests + 1
    requests := s.requests ++ [(s.numRequests, u.mailBox)] }
  := by
  have hused := h.used t u ht
  rw [hrequest] at hused
  refine h.exchange ht rfl ?_ ?_ rfl rfl rfl h.received
  · simp only [outstanding, List.filter_append, List.map_append, ← List.append_assoc]
    rw [outstanding] at hused
    simp [hused]
  · intro b hb
    simp [outstanding, hb.symm]

/-- At most one reply is outstanding for a mailbox. -/
theorem Ok.length_outstanding (h : s.Ok) (b : ℕ) :
  (s.outstanding b).length ≤ 1
  := by
  by_cases hb : ∃ t a, s.threads t = some a ∧ a.mailBox = b
  · obtain ⟨t, a, ha, rfl⟩ := hb
    rw [h.used t a ha]
    apply Option.length_toList_le
  · push Not at hb
    rw [h.unused b hb]
    apply Nat.zero_le

/-- The reply to a request is put into the mailbox of the thread that is waiting for it. -/
theorem Ok.outstanding_answer (h : s.Ok) {r : ℕ × ℕ} (hr : r ∈ s.requests) (b : ℕ) :
  outstanding { s with
    requests := s.requests.erase r
    boxes := Function.update s.boxes r.2 (s.boxes r.2 ++ [r.1]) } b = s.outstanding b
  := by
  simp only [outstanding, ← List.erase_filter]
  by_cases hb : b = r.2
  · subst hb
    have hmem : r ∈ s.requests.filter (fun q => q.2 = r.2) := by simp [hr]
    have hlength := h.length_outstanding r.2
    have hpos := List.length_pos_of_mem hmem
    simp only [outstanding, List.length_append, List.length_map] at hlength
    have hbox : s.boxes r.2 = [] := List.length_eq_zero_iff.mp (by omega)
    obtain ⟨q, hq⟩ := List.length_eq_one_iff.mp (Nat.le_antisymm (by omega) hpos)
    rw [hq] at hmem ⊢
    obtain rfl := List.mem_singleton.mp hmem
    simp [hbox]
  · have hnot : r ∉ s.requests.filter (fun q => q.2 = b) := by simp [Ne.symm hb]
    rw [List.erase_of_not_mem hnot, Function.update_of_ne hb]

theorem Ok.answer (h : s.Ok) {r : ℕ × ℕ} (hr : r ∈ s.requests) :
  Ok { s with
    requests := s.requests.erase r
    boxes := Function.update s.boxes r.2 (s.boxes r.2 ++ [r.1]) }
  := by
  constructor
  · apply h.fresh
  · apply h.main
  · apply h.distinct
  · apply h.below
  · apply h.numMailBox
  · intro t a ha
    rw [h.outstanding_answer hr]
    apply h.used t a ha
  · intro b hb
    rw [h.outstanding_answer hr]
    apply h.unused b hb
  · apply h.received

/-- A thread receives the reply to its request. -/
theorem Ok.receive (h : s.Ok) {t n m : ℕ} {ms : List ℕ} {u : Thread} (ht : s.threads t = some u)
    (hrequest : u.request = some n) (hbox : s.boxes u.mailBox = m :: ms) :
  Ok { s with
    threads := Function.update s.threads t (some { u with request := none })
    boxes := Function.update s.boxes u.mailBox ms
    received := s.received ++ [(n, m)] }
  := by
  have hused := h.used t u ht
  rw [outstanding, hrequest, hbox, List.cons_append, Option.toList_some] at hused
  obtain ⟨rfl, hrest⟩ := List.cons.inj hused
  refine h.exchange ht rfl ?_ ?_ rfl rfl rfl ?_
  · simp only [outstanding, Function.update_self]
    apply hrest
  · intro b hb
    simp only [outstanding, Function.update_of_ne hb]
  · intro r hr
    obtain hr | hr := List.mem_append.mp hr
    · apply h.received r hr
    · obtain rfl := List.mem_singleton.mp hr
      rfl

/-- Every action keeps the invariant when the threads it creates get mailboxes of their own. -/
theorem Ok.step (h : s.Ok) {a : Action} (hnumbered : s.Numbered a) (hstep : s.step a = some s') :
  s'.Ok
  := by
  cases a with
  | startProcess =>
      simp only [Machine.step] at hstep
      split at hstep
      · contradiction
      · rename_i hstarted
        obtain rfl := Option.some.inj hstep
        have hnone := h.main (by simpa using hstarted)
        refine h.create (b := 0) ?_ rfl rfl rfl h.numMailBox.1 (Nat.le_refl _) h.numMailBox.2 rfl
          rfl rfl
        intro t a ha
        rw [hnone t] at ha
        contradiction
  | exec t =>
      obtain ⟨u, hu, heq⟩ := Option.bind_eq_some_iff.mp hstep
      obtain rfl := Option.some.inj heq
      refine h.create (b := s.numMailBox) ?_ rfl rfl (h.started (idle_eq_some hu).1)
        (Nat.lt_succ_self _) (Nat.le_succ _) hnumbered rfl rfl rfl
      intro v a ha
      apply Nat.ne_of_lt (h.below v a ha)
  | fork t =>
      obtain ⟨u, hu, heq⟩ := Option.bind_eq_some_iff.mp hstep
      obtain rfl := Option.some.inj heq
      refine h.create (b := 0) ?_ rfl rfl (h.started (idle_eq_some hu).1) h.numMailBox.1
        (Nat.le_refl _) h.numMailBox.2 rfl rfl rfl
      intro v a ha
      apply hnumbered v (h.lt_numThreads ha) a ha
  | exit t =>
      obtain ⟨u, hu, heq⟩ := Option.bind_eq_some_iff.mp hstep
      obtain rfl := Option.some.inj heq
      obtain ⟨ht, hrequest⟩ := idle_eq_some hu
      apply h.exit ht hrequest
  | send t =>
      obtain ⟨u, hu, heq⟩ := Option.bind_eq_some_iff.mp hstep
      obtain rfl := Option.some.inj heq
      obtain ⟨ht, hrequest⟩ := idle_eq_some hu
      apply h.send ht hrequest
  | answer n =>
      obtain ⟨r, hr, heq⟩ := Option.bind_eq_some_iff.mp hstep
      split at heq
      · obtain rfl := Option.some.inj heq
        apply h.answer (List.mem_of_find?_eq_some hr)
      · contradiction
  | receive t =>
      obtain ⟨u, ht, hstep⟩ := Option.bind_eq_some_iff.mp hstep
      obtain ⟨n, hrequest, hstep⟩ := Option.bind_eq_some_iff.mp hstep
      split at hstep
      · split at hstep
        · contradiction
        · rename_i hbox
          obtain rfl := Option.some.inj hstep
          apply h.receive ht hrequest hbox
      · contradiction

theorem ok_initial :
  initial.Ok
  := by
  constructor
  · intro t _
    rfl
  · intro _ t
    rfl
  · intro t u a b ha
    contradiction
  · intro t a ha
    contradiction
  · decide
  · intro t a ha
    contradiction
  · intro b _
    rfl
  · intro r hr
    contradiction

theorem Ok.repliesOwn (h : s.Ok) :
  s.RepliesOwn
  := by
  constructor
  · apply h.distinct
  · intro t a ha
    apply Nat.lt_of_lt_of_le (h.below t a ha) h.numMailBox.2
  · intro t a n ha hrequest
    have hused := h.used t a ha
    rw [outstanding, hrequest, Option.toList_some] at hused
    obtain ⟨hbox, hmap⟩ | ⟨hbox, hmap⟩ := List.append_eq_singleton_iff.mp hused
    · left
      use hbox
      obtain ⟨r, hr, rfl⟩ := List.map_eq_singleton_iff.mp hmap
      have hmem : r ∈ s.requests.filter (fun r => r.2 = a.mailBox) := by
        rw [hr]
        apply List.mem_singleton_self
      have hbox : r.2 = a.mailBox := by simpa using (List.mem_filter.mp hmem).2
      rw [hr, ← hbox]
    · right
      exact ⟨hbox, List.map_eq_nil_iff.mp hmap⟩
  · apply h.received

/-! ### Runs -/

/-- If the replies still reach their threads after an action, then the thread it has created has a
mailbox of its own. -/
theorem RepliesOwn.numbered (hown : s'.RepliesOwn) {a : Action} (hstep : s.step a = some s') :
  s.Numbered a
  := by
  cases a with
  | fork t =>
      obtain ⟨u, hu, heq⟩ := Option.bind_eq_some_iff.mp hstep
      obtain rfl := Option.some.inj heq
      intro v hlt b hb hzero
      have hv : v ≠ s.numThreads := Nat.ne_of_lt hlt
      have hnew : (s.create 0).threads s.numThreads = some ⟨0, none⟩ := Function.update_self _ _ _
      have hold : (s.create 0).threads v = some b := by
        rw [← hb]
        apply Function.update_of_ne hv
      apply hv (hown.distinct v s.numThreads b ⟨0, none⟩ hold hnew hzero)
  | exec t =>
      obtain ⟨u, hu, heq⟩ := Option.bind_eq_some_iff.mp hstep
      obtain rfl := Option.some.inj heq
      apply hown.range s.numThreads ⟨s.numMailBox, none⟩
      apply Function.update_self
  | _ => trivial

theorem along_of_repliesOwn {as : List Action} (hrun : Transition.run step s as = some s')
    (hown : ∀ bs cs r, as = bs ++ cs → Transition.run step s bs = some r → r.RepliesOwn) :
  Transition.Along step Numbered s as
  := by
  induction as generalizing s with
  | nil => trivial
  | cons a as ih =>
      obtain ⟨s₁, hstep, hrun⟩ := Transition.run_cons.mp hrun
      have hown₁ : s₁.RepliesOwn := by
        apply hown [a] as s₁ rfl
        rw [Transition.run_singleton, hstep]
      apply (Transition.along_cons hstep).mpr
      use hown₁.numbered hstep
      apply ih hrun
      intro bs cs r heq hr
      apply hown (a :: bs) cs r (by rw [heq, List.cons_append])
      apply Transition.run_cons.mpr ⟨s₁, hstep, hr⟩

/-- In every state of a run the threads have mailboxes of their own and receive the replies to their
own requests, if and only if no thread is forked while another one uses mailbox `0` and no process is
started when all mailboxes are used up. -/
theorem replies_own_iff {as : List Action}
    (hrun : Transition.run step initial as = some s) :
  (∀ bs cs r, as = bs ++ cs → Transition.run step initial bs = some r → r.RepliesOwn) ↔
    Transition.Along step Numbered initial as
  := by
  constructor
  · apply along_of_repliesOwn hrun
  · rintro halong bs cs r rfl hr
    have hok : r.Ok := by
      refine Transition.run_invariant (I := Ok) ?_ ok_initial (Transition.along_append.mp halong).1 hr
      intro s a s' h hnumbered hstep
      apply h.step hnumbered hstep
    apply hok.repliesOwn

/-- A process starts another one and exits, and the other one forks a thread. Both threads send
requests, which are answered in the other order. -/
def startingActions : List Action :=
  [.startProcess, .exec 0, .exit 0, .fork 1, .send 1, .send 2, .answer 1, .answer 0, .receive 1,
    .receive 2]

theorem replies_own_starting :
  ∃ s, Transition.run step initial startingActions = some s ∧ s.received = [(0, 0), (1, 1)] ∧
    s.RepliesOwn
  := by
  have hsome : (Transition.run step initial startingActions).map (·.received) =
      some [(0, 0), (1, 1)] := by
    decide
  obtain ⟨s, hrun, hreceived⟩ := Option.map_eq_some_iff.mp hsome
  use s, hrun, hreceived
  exact (replies_own_iff hrun).mpr (by decide) startingActions [] s (List.append_nil _).symm hrun

/-- A thread forks another one. Both send requests, and the reply to the second request is received
by the first thread. -/
def stealingActions : List Action :=
  [.startProcess, .fork 0, .send 0, .send 1, .answer 1, .receive 0]

/-- Not every reply reaches the thread whose request it answers. -/
theorem not_replies_own :
  ¬ ∀ (as : List Action) (s : Machine), Transition.run step initial as = some s → s.RepliesOwn
  := by
  intro h
  have hsome : (Transition.run step initial stealingActions).map (·.received) = some [(0, 1)] := by
    decide
  obtain ⟨s, hrun, hreceived⟩ := Option.map_eq_some_iff.mp hsome
  have hown := (h stealingActions s hrun).received (0, 1)
  rw [hreceived] at hown
  have heq := hown (List.mem_singleton_self _)
  contradiction

end

end Machine

end Nachos.Client
