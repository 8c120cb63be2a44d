import Mathlib.Data.List.Sort
import Mathlib.Data.List.Perm.Lattice

/-!
# Events in the order of their times

Events are scheduled for times, and numbered in the order in which they are scheduled. Those that have
not occurred are pending, in the order of their times; the first of them may occur when its time has
come.

If every event is scheduled for a time that is yet to come, then no event is lost, none occurs twice
or early, and they occur in the order of their times (`Events.State.Ok`).
-/

namespace Events

/-- The event with the number `id`, which is to occur at the time `due`. -/
structure Event (τ : Type*) where
  due : τ
  id : ℕ

/-- An event that has occurred, and when. -/
structure Occurred (τ : Type*) where
  event : Event τ
  time : τ

structure State (τ : Type*) where
  /-- The present time. -/
  now : τ
  /-- The times for which events have been scheduled. -/
  scheduled : List τ
  pending : List (Event τ)
  occurred : List (Occurred τ)

variable {τ : Type*} [LinearOrder τ]

/-- An event is put behind those that are due at the same time. -/
def insert (e : Event τ) (es : List (Event τ)) : List (Event τ) :=
  es.orderedInsert (fun e f => e.due < f.due) e

theorem perm_insert (e : Event τ) (es : List (Event τ)) :
  (insert e es).Perm (e :: es)
  := List.perm_orderedInsert _ _ _

theorem mem_insert {e f : Event τ} {es : List (Event τ)} :
  f ∈ insert e es ↔ f = e ∨ f ∈ es
  := List.mem_orderedInsert _

theorem insert_sorted (e : Event τ) {es : List (Event τ)}
    (h : es.Pairwise (fun e f => e.due ≤ f.due)) :
  (insert e es).Pairwise (fun e f => e.due ≤ f.due)
  := by
  induction es with
  | nil => exact List.pairwise_singleton _ e
  | cons f fs ih =>
      obtain ⟨hf, hfs⟩ := List.pairwise_cons.mp h
      rw [insert, List.orderedInsert_cons]
      split
      · rename_i hlt
        apply List.pairwise_cons.mpr ⟨_, h⟩
        intro g hg
        obtain rfl | hg := List.mem_cons.mp hg
        · exact hlt.le
        · exact hlt.le.trans (hf g hg)
      · rename_i hge
        apply List.pairwise_cons.mpr ⟨_, ih hfs⟩
        intro g hg
        obtain rfl | hg := mem_insert.mp hg
        · exact not_lt.mp hge
        · exact hf g hg

namespace State

def schedule (due : τ) (s : State τ) : State τ :=
  { s with
    scheduled := s.scheduled ++ [due]
    pending := insert ⟨due, s.scheduled.length⟩ s.pending }

def advance (t : τ) (s : State τ) : State τ := { s with now := t }

/-- The event `e` occurs, and the events `es` are left. -/
def occur (e : Event τ) (es : List (Event τ)) (s : State τ) : State τ :=
  { s with pending := es, occurred := s.occurred ++ [⟨e, s.now⟩] }

/-- The events that have been scheduled. -/
def all (s : State τ) : List (Event τ) := s.scheduled.zipIdx.map (fun p => ⟨p.1, p.2⟩)

/-- The invariant of events that have been scheduled for times that were yet to come. -/
structure Ok (s : State τ) : Prop where
  sorted : s.pending.Pairwise (fun e f => e.due ≤ f.due)
  accounted : (s.occurred.map (·.event) ++ s.pending).Perm s.all
  reached : ∀ o ∈ s.occurred, o.event.due ≤ o.time ∧ o.time ≤ s.now
  ordered : s.occurred.Pairwise (fun o o' => o.event.due ≤ o'.event.due)
  before : ∀ o ∈ s.occurred, ∀ e ∈ s.pending, o.event.due ≤ e.due

/-- How many events are pending whose time has come. -/
def due (s : State τ) : ℕ := s.pending.countP (fun e => e.due ≤ s.now)

variable {s : State τ}

/-- The invariant does not say in which order events are pending that are due at the same time. -/
theorem Ok.reorder (h : s.Ok) {es : List (Event τ)} (hperm : es.Perm s.pending)
    (hsorted : es.Pairwise (fun e f => e.due ≤ f.due)) :
  { s with pending := es }.Ok
  where
  sorted := hsorted
  accounted := (hperm.append_left _).trans h.accounted
  reached := h.reached
  ordered := h.ordered
  before o ho e he := h.before o ho e (hperm.mem_iff.mp he)

theorem Ok.schedule (h : s.Ok) {due : τ} (hdue : s.now < due) :
  (s.schedule due).Ok
  where
  sorted := insert_sorted _ h.sorted
  accounted := by
    have hall : (s.schedule due).all = s.all ++ [⟨due, s.scheduled.length⟩] := by
      simp [all, State.schedule, List.zipIdx_append]
    rw [hall]
    apply ((perm_insert _ _).append_left _).trans
    apply List.perm_middle.trans
    apply (h.accounted.cons _).trans
    exact (List.perm_append_singleton _ _).symm
  reached := h.reached
  ordered := h.ordered
  before o ho e he := by
    obtain rfl | he := mem_insert.mp he
    · obtain ⟨hdue', hnow⟩ := h.reached o ho
      exact (hdue'.trans hnow).trans hdue.le
    · exact h.before o ho e he

theorem Ok.advance (h : s.Ok) {t : τ} (ht : s.now ≤ t) :
  (s.advance t).Ok
  where
  sorted := h.sorted
  accounted := h.accounted
  reached o ho := ⟨(h.reached o ho).1, (h.reached o ho).2.trans ht⟩
  ordered := h.ordered
  before := h.before

/-- The first event that is pending occurs, when its time has come. -/
theorem Ok.occur (h : s.Ok) {e : Event τ} {es : List (Event τ)} (hpending : s.pending = e :: es)
    (hdue : e.due ≤ s.now) :
  (s.occur e es).Ok
  where
  sorted := (List.pairwise_cons.mp (hpending ▸ h.sorted)).2
  accounted := by
    have haccounted := h.accounted
    rw [hpending] at haccounted
    have hoccurred : (s.occur e es).occurred.map (·.event) = s.occurred.map (·.event) ++ [e] := by
      simp [State.occur]
    rw [hoccurred, List.append_assoc]
    exact haccounted
  reached o ho := by
    obtain ho | ho := List.mem_append.mp ho
    · exact h.reached o ho
    · obtain rfl := List.mem_singleton.mp ho
      exact ⟨hdue, le_rfl⟩
  ordered := by
    apply List.pairwise_append.mpr ⟨h.ordered, List.pairwise_singleton _ _, _⟩
    intro o ho o' ho'
    obtain rfl := List.mem_singleton.mp ho'
    exact h.before o ho e (by simp [hpending])
  before o ho f hf := by
    obtain ho | ho := List.mem_append.mp ho
    · exact h.before o ho f (by simp [hpending, show f ∈ es from hf])
    · obtain rfl := List.mem_singleton.mp ho
      exact (List.pairwise_cons.mp (hpending ▸ h.sorted)).1 f hf

/-- No event occurs twice. -/
theorem Ok.nodup (h : s.Ok) :
  (s.occurred.map (·.event.id) ++ s.pending.map (·.id)).Perm (List.range s.scheduled.length)
  := by
  have hids : s.all.map (·.id) = List.range s.scheduled.length := by
    rw [all, List.map_map, List.range_eq_range']
    exact List.zipIdx_map_snd 0 s.scheduled
  have hperm := h.accounted.map (·.id)
  rw [List.map_append, List.map_map, hids] at hperm
  exact hperm

/-- The time for which an event was scheduled. -/
theorem Ok.scheduled (h : s.Ok) {e : Event τ} (he : e ∈ s.occurred.map (·.event) ++ s.pending) :
  s.scheduled[e.id]? = some e.due
  := by
  obtain ⟨p, hp, rfl⟩ := List.mem_map.mp (h.accounted.mem_iff.mp he)
  exact List.mem_zipIdx_iff_getElem?.mp hp

/-- If the first event that is pending is yet to come then all are. -/
theorem Ok.not_due (h : s.Ok) {e f : Event τ} {es : List (Event τ)}
    (hpending : s.pending = e :: es) (he : s.now < e.due) (hf : f ∈ s.pending) :
  s.now < f.due
  := by
  rw [hpending] at hf
  obtain rfl | hf := List.mem_cons.mp hf
  · exact he
  · exact he.trans_le ((List.pairwise_cons.mp (hpending ▸ h.sorted)).1 f hf)

/-- An event that is scheduled for a time that is yet to come is not due. -/
theorem due_schedule {due : τ} (hdue : s.now < due) :
  (s.schedule due).due = s.due
  := by
  have hperm := perm_insert ⟨due, s.scheduled.length⟩ s.pending
  rw [State.due, State.due, State.schedule, hperm.countP_eq, List.countP_cons_of_neg]
  simpa using hdue

/-- When an event occurs, one event less is due. -/
theorem due_occur {e : Event τ} {es : List (Event τ)} (hpending : s.pending = e :: es)
    (hdue : e.due ≤ s.now) :
  (s.occur e es).due + 1 = s.due
  := by
  rw [State.due, State.due, hpending, List.countP_cons_of_pos (by simpa using hdue)]
  rfl

theorem ok_new (t : τ) :
  (State.mk t [] [] []).Ok
  := by
  constructor <;> simp [all]

end State

end Events
