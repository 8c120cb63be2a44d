import Mathlib.Tactic.Common
import Nachos.Office.Stages

/-!
# Clerks and visitors

A visitor gives its number to a clerk and signals it. The clerk files the number, signals the visitor and
waits until the visitor leaves. All these waits use the same condition variable, and none of them
is repeated when its reason has not come. Still a clerk files the number of the visitor in front of it only
(`clerks_file_visitors`), if the manager signals a clerk only on its break, and a visitor that a
broadcast has taken out of a line does not come to the counter.
-/

namespace Nachos.Office

namespace State

variable {machine : Process → ℕ} {s s' t : State} {p q : Process} {r : Request}

/-! ### The invariant -/

def visit (s : State) (p : Process) : Option (Kind × ℤ × ℤ × VisitStage) :=
  (s.phase p).visit (s.tasks p).status.isWaiting (s.tasks p).signalled

def desk (s : State) (p : Process) : Option (Kind × ℤ × DeskStage) :=
  (s.phase p).desk (s.tasks p).status.isWaiting

/-- Each visitor is alone with its clerk, which files the number of the visitor. -/
structure Handshake (s : State) : Prop where
  met : ∀ q K i id st, s.visit q = some (K, i, id, st) → ∃ p c, s.desk p = some (K, i, c) ∧ Meets st c
  sole : ∀ q q' K i id id' st st', s.visit q = some (K, i, id, st) →
    s.visit q' = some (K, i, id', st') → q = q'
  dealt : ∀ p K i, s.desk p = some (K, i, .dealing) → ∃ q id, s.visit q = some (K, i, id, .dealing)
  given : ∀ q K i id st, s.visit q = some (K, i, id, st) → st = .given ∨ st = .dealing →
    s.values (.clerkToFile K) i = id
  filing : ∀ p K i custID, (s.phase p).files = some (K, i, custID) →
    s.values (.clerkToFile K) i = custID

/-- Nothing happens to clerks and visitors. -/
theorem Handshake.congr (h : Handshake s) (hvisit : ∀ q, s'.visit q = s.visit q)
    (hdesk : ∀ q, s'.desk q = s.desk q)
    (hvalues : ∀ K i, K ≠ .pic → s'.values (.clerkToFile K) i = s.values (.clerkToFile K) i)
    (hfiles : ∀ p K i custID, (s'.phase p).files = some (K, i, custID) →
      (s.phase p).files = some (K, i, custID)) :
  Handshake s'
  := by
  constructor
  · intro q K i id st hq
    rw [hvisit] at hq
    obtain ⟨p, c, hp, hmeets⟩ := h.met q K i id st hq
    exact ⟨p, c, by rw [hdesk, hp], hmeets⟩
  · intro q q' K i id id' st st' hq hq'
    rw [hvisit] at hq hq'
    exact h.sole q q' K i id id' st st' hq hq'
  · intro p K i hp
    rw [hdesk] at hp
    obtain ⟨q, id, hq⟩ := h.dealt p K i hp
    exact ⟨q, id, by rw [hvisit, hq]⟩
  · intro q K i id st hq hst
    rw [hvisit] at hq
    rw [hvalues _ _ (of_visit (p := q) hq).1]
    exact h.given q K i id st hq hst
  · intro p K i custID hp
    have hfiling := hfiles p K i custID hp
    rw [hvalues _ _ (of_desk (p := p) (of_files (b := false) hfiling)).1]
    exact h.filing p K i custID hfiling

theorem indexOf_clerk {K : Kind} (hp : isClerk K p = true) :
  indexOf p = .clerkIndex K
  := by
  cases p <;> simp [isClerk, indexOf] at hp ⊢
  exact hp

/-- There is one clerk with a number. -/
theorem desk_unique (hok : Ok s) (hnumbered : Numbered s) {K : Kind} {i : ℤ} {c c' : DeskStage}
    (hp : s.desk p = some (K, i, c)) (hq : s.desk q = some (K, i, c')) :
  p = q
  := by
  obtain ⟨-, hpi, -, hpK⟩ := of_desk (p := p) hp
  obtain ⟨-, hqi, -, hqK⟩ := of_desk (p := q) hq
  have hpK := indexOf_clerk (hpK (hok.suits p))
  have hqK := indexOf_clerk (hqK (hok.suits q))
  exact hnumbered.distinct p q i (by rw [hpK]; rfl) (by rw [hpK, hqK]) hpi hqi

/-- The number of a clerk is one of an element. -/
theorem desk_inRange (hok : Ok s) (hnumbered : Numbered s) {K : Kind} {i : ℤ} {c : DeskStage}
    (hp : s.desk p = some (K, i, c)) :
  inRange (.clerkToFile K) i = true ∧ char i = i
  := by
  obtain ⟨-, hpi, -, hpK⟩ := of_desk (p := p) hp
  have hindex := indexOf_clerk (hpK (hok.suits p))
  have hbounds := hnumbered.number_lt (by rw [hindex]; rfl) hpi
  rw [hindex, population] at hbounds
  have hlt : numClerks K < 128 := population_lt (.clerkIndex K)
  have hchar : char i = i := char_eq hbounds.1 (by omega)
  refine ⟨?_, hchar⟩
  simp [inRange, hchar, numElements]
  omega

/-- A process whose part in the handshake does not change. -/
theorem view_congr (hphase : s'.phase q = s.phase q)
    (hwaiting : (s'.tasks q).status.isWaiting = (s.tasks q).status.isWaiting)
    (hsignalled : (s'.tasks q).signalled = (s.tasks q).signalled) :
  s'.visit q = s.visit q ∧ s'.desk q = s.desk q
  := by
  rw [visit, desk, hphase, hwaiting, hsignalled]
  exact ⟨rfl, rfl⟩

/-- What the processes do that do not make the request and are not signalled. -/
theorem Asked.view_other (hasked : Asked machine s p r t s') (hok : Ok s) (hq : q ≠ p)
    (hsignal : ∀ c l, r = .signal c l → (s.conditions c).waitQueue.head? ≠ some q) :
  s'.visit q = s.visit q ∧ s'.desk q = s.desk q
  := by
  have hphase := hasked.phase q hq
  rcases hasked.status_cases machine hok q with ⟨hwaiting, hsignalled⟩ | ⟨hqp, -⟩ |
      ⟨c, hstatus, hwaiting, ⟨hr, hhead, -⟩ | ⟨hr, hsignalled⟩⟩
  · exact view_congr hphase hwaiting hsignalled
  · exact absurd hqp hq
  · exact absurd hhead (hsignal c _ hr)
  · have hnext := hasked.next
    rw [hr, Office.next, if_pos rfl] at hnext
    have hstage := stage_of_broadcast (s.tasks q).signalled hnext (hok.waits hstatus)
    rw [visit, desk, visit, desk, hphase, hwaiting, hsignalled, hstatus]
    exact hstage

theorem Asked.view_before (hasked : Asked machine s p r t s') :
  s.visit p = (s.phase p).visit false (s.tasks p).signalled ∧ s.desk p = (s.phase p).desk false
  := by
  rw [visit, desk, hasked.ready]
  exact ⟨rfl, rfl⟩

theorem Asked.view_after (hasked : Asked machine s p r t s') (hok : Ok s)
    (hr : ∀ c l, r ≠ .wait c l) :
  s'.visit p = (s'.phase p).visit false (s.tasks p).signalled ∧ s'.desk p = (s'.phase p).desk false
  := by
  have hready : (s.tasks p).status.isWaiting = false := by rw [hasked.ready]; rfl
  obtain ⟨hsignalled, hwaiting | ⟨-, c, l, heq⟩⟩ := hasked.moving machine hok hready
  · rw [visit, desk, hwaiting, hsignalled]
    exact ⟨rfl, rfl⟩
  · exact absurd heq (hr c l)

theorem Asked.view_wait {c : ConditionName} {l : LockName} (hasked : Asked machine s p (.wait c l) t s')
    (hok : Ok s) :
  s'.visit p = s.visit p ∧ s'.desk p = s.desk p
  := by
  have hready : (s.tasks p).status.isWaiting = false := by rw [hasked.ready]; rfl
  have hnext := (moves_next hasked.next).1
  have hstage := hasked.next
  rw [Office.next, if_pos hnext] at hstage
  rw [hasked.view_before.1, hasked.view_before.2, visit, desk, hasked.waits,
    (hasked.moving machine hok hready).1]
  exact stage_onWait _ hstage

/-- Only a visitor that gives its number changes what the clerks read. -/
theorem Asked.clerkToFile (hasked : Asked machine s p r t s') (K : Kind) (i : ℤ)
    (hr : ∀ j id, r ≠ .setMV (.clerkToFile K) j id) :
  s'.values (.clerkToFile K) i = s.values (.clerkToFile K) i
  := by
  rw [hasked.values]
  exact stored_of_ne hr i

/-- A clerk does not begin to file a number. -/
theorem Asked.files (hasked : Asked machine s p r t s')
    (hr : ∀ K i, s.phase p = .awaiting K i → r ≠ .getMV (.clerkToFile K) i) {K : Kind} {i custID : ℤ}
    (hq : (s'.phase q).files = some (K, i, custID)) :
  (s.phase q).files = some (K, i, custID)
  := by
  by_cases hqp : q = p
  · rw [hqp] at hq ⊢
    rcases files_next hasked.next with hsame | hnone | ⟨K', i', hφ, -, hget⟩
    · rwa [hsame] at hq
    · rw [hnone] at hq
      cases hq
    · exact absurd hget (hr K' i' hφ)
  · rwa [hasked.phase q hqp] at hq

/-- What neither sets nor gets a monitor variable changes no more than the views. -/
theorem Handshake.of_view (h : Handshake s) (hasked : Asked machine s p r t s')
    (hset : ∀ mv j value, r ≠ .setMV mv j value) (hget : ∀ mv j, r ≠ .getMV mv j)
    (hview : ∀ q, s'.visit q = s.visit q ∧ s'.desk q = s.desk q) :
  Handshake s'
  := by
  apply h.congr (fun q => (hview q).1) (fun q => (hview q).2)
  · intro K i _
    exact hasked.clerkToFile K i (hset _)
  · intro q K i custID
    exact hasked.files fun K i _ => hget _ i

theorem Handshake.wait (h : Handshake s) (hok : Ok s) {c : ConditionName} {l : LockName}
    (hasked : Asked machine s p (.wait c l) t s') :
  Handshake s'
  := by
  have hview : ∀ q, s'.visit q = s.visit q ∧ s'.desk q = s.desk q := by
    intro q
    by_cases hqp : q = p
    · rw [hqp]
      exact hasked.view_wait hok
    · exact hasked.view_other hok hqp (by simp)
  exact h.of_view hasked (by simp) (by simp) hview

theorem Handshake.broadcast (h : Handshake s) (hok : Ok s) {c : ConditionName} {l : LockName}
    (hasked : Asked machine s p (.broadcast c l) t s') :
  Handshake s'
  := by
  have hl := (moves_next hasked.next).1
  have hnext := hasked.next
  rw [Office.next, if_pos hl] at hnext
  have hview : ∀ q, s'.visit q = s.visit q ∧ s'.desk q = s.desk q := by
    intro q
    by_cases hqp : q = p
    · have hbefore := hasked.view_before
      have hafter := hasked.view_after hok (by simp)
      rw [hqp, hafter.1, hafter.2, hbefore.1, hbefore.2]
      exact stage_onBroadcast _ hnext
    · exact hasked.view_other hok hqp (by simp)
  exact h.of_view hasked (by simp) (by simp) hview

/-! ### Visitors -/

/-- A visitor that does not deal with its clerk goes on. -/
theorem Handshake.goOn (h : Handshake s) (hdesk : ∀ q, s'.desk q = s.desk q)
    (hother : ∀ q, q ≠ p → s'.visit q = s.visit q)
    (hvalues : ∀ K i, K ≠ .pic → s'.values (.clerkToFile K) i = s.values (.clerkToFile K) i)
    (hfiles : ∀ p K i custID, (s'.phase p).files = some (K, i, custID) →
      (s.phase p).files = some (K, i, custID))
    (hold : ∀ K i id, s.visit p ≠ some (K, i, id, .dealing))
    (hnew : ∀ K i id st, s'.visit p = some (K, i, id, st) →
      (∃ st', s.visit p = some (K, i, id, st')) ∧ (∃ p' c, s.desk p' = some (K, i, c) ∧ Meets st c) ∧
        st = .coming) :
  Handshake s'
  := by
  have hboth : ∀ q K i id st, s'.visit q = some (K, i, id, st) →
      ∃ st', s.visit q = some (K, i, id, st') ∧ (q ≠ p → st' = st) := by
    intro q K i id st hq
    by_cases hqp : q = p
    · rw [hqp] at hq ⊢
      obtain ⟨⟨st', hold⟩, -⟩ := hnew K i id st hq
      exact ⟨st', hold, fun hne => absurd rfl hne⟩
    · rw [hother q hqp] at hq
      exact ⟨st, hq, fun _ => rfl⟩
  constructor
  · intro q K i id st hq
    by_cases hqp : q = p
    · rw [hqp] at hq
      obtain ⟨-, ⟨p', c, hp', hmeets⟩, -⟩ := hnew K i id st hq
      exact ⟨p', c, by rw [hdesk, hp'], hmeets⟩
    · rw [hother q hqp] at hq
      obtain ⟨p', c, hp', hmeets⟩ := h.met q K i id st hq
      exact ⟨p', c, by rw [hdesk, hp'], hmeets⟩
  · intro q q' K i id id' st st' hq hq'
    obtain ⟨_, hq, -⟩ := hboth q K i id st hq
    obtain ⟨_, hq', -⟩ := hboth q' K i id' st' hq'
    exact h.sole q q' K i _ _ _ _ hq hq'
  · intro p' K i hp'
    rw [hdesk] at hp'
    obtain ⟨q, id, hq⟩ := h.dealt p' K i hp'
    refine ⟨q, id, ?_⟩
    rw [hother q _, hq]
    rintro rfl
    exact hold K i id hq
  · intro q K i id st hq hst
    by_cases hqp : q = p
    · rw [hqp] at hq
      obtain ⟨-, -, rfl⟩ := hnew K i id st hq
      obtain hst | hst := hst <;> cases hst
    · rw [hother q hqp] at hq
      rw [hvalues K i (of_visit (p := q) hq).1]
      exact h.given q K i id st hq hst
  · intro q K i custID hq
    have hfiling := hfiles q K i custID hq
    rw [hvalues K i (of_desk (p := q) (of_files (b := false) hfiling)).1]
    exact h.filing q K i custID hfiling

/-- A visitor gives its number to the clerk. -/
theorem Handshake.give (h : Handshake s) (hok : Ok s) (hnumbered : Numbered s) {K : Kind} {i id : ℤ}
    (hK : K ≠ .pic) (hdesk : ∀ q, s'.desk q = s.desk q)
    (hother : ∀ q, q ≠ p → s'.visit q = s.visit q)
    (hold : s.visit p = some (K, i, id, .coming)) (hnew : s'.visit p = some (K, i, id, .given))
    (hvalues : s'.values = s.stored (.setMV (.clerkToFile K) i id))
    (hfiles : ∀ p K i custID, (s'.phase p).files = some (K, i, custID) →
      (s.phase p).files = some (K, i, custID)) :
  Handshake s'
  := by
  obtain ⟨p₀, c, hp₀, hmeets⟩ := h.met p K i id _ hold
  obtain ⟨hrange, hchar⟩ := desk_inRange hok hnumbered hp₀
  have hnumber := (of_visit (p := p) hold).2.1
  have hid : char id = id := by
    have hvisitor := (of_visit (p := p) hold).2.2.2 (hok.suits p)
    have hindex : isIndex (indexOf p) = true := by cases p <;> first | rfl | cases hvisitor
    have hbounds := hnumbered.number_lt hindex hnumber
    have hlt := population_lt (indexOf p)
    exact char_eq hbounds.1 (by omega)
  have hsame : ∀ K' i', ¬ (K' = K ∧ i' = i) →
      s'.values (.clerkToFile K') i' = s.values (.clerkToFile K') i' := by
    intro K' i' hne
    rw [hvalues, stored, if_pos hrange, hchar]
    apply if_neg
    rintro ⟨heq, rfl⟩
    injection heq with heq
    exact hne ⟨heq, rfl⟩
  have hvalue : s'.values (.clerkToFile K) i = id := by
    rw [hvalues, stored, if_pos hrange]
    exact (if_pos ⟨rfl, hchar.symm⟩).trans hid
  have hvisit : ∀ q K' i' id' st, s'.visit q = some (K', i', id', st) →
      ∃ st', s.visit q = some (K', i', id', st') ∧ (q ≠ p → st' = st) := by
    intro q K' i' id' st hq
    by_cases hqp : q = p
    · rw [hqp, hnew] at hq
      rw [hqp, hold]
      obtain ⟨rfl, rfl, rfl, rfl⟩ : K = K' ∧ i = i' ∧ id = id' ∧ _ = st := by simpa using hq
      exact ⟨_, rfl, fun hne => absurd rfl hne⟩
    · rw [hother q hqp] at hq
      exact ⟨st, hq, fun _ => rfl⟩
  constructor
  · intro q K' i' id' st hq
    by_cases hqp : q = p
    · rw [hqp, hnew] at hq
      obtain ⟨rfl, rfl, rfl, rfl⟩ : K = K' ∧ i = i' ∧ id = id' ∧ _ = st := by simpa using hq
      exact ⟨p₀, c, by rw [hdesk, hp₀], hmeets⟩
    · rw [hother q hqp] at hq
      obtain ⟨p', c, hp', hmeets⟩ := h.met q K' i' id' st hq
      exact ⟨p', c, by rw [hdesk, hp'], hmeets⟩
  · intro q q' K' i' id' id'' st st' hq hq'
    obtain ⟨_, hq, -⟩ := hvisit q K' i' id' st hq
    obtain ⟨_, hq', -⟩ := hvisit q' K' i' id'' st' hq'
    exact h.sole q q' K' i' _ _ _ _ hq hq'
  · intro p' K' i' hp'
    rw [hdesk] at hp'
    obtain ⟨q, id', hq⟩ := h.dealt p' K' i' hp'
    refine ⟨q, id', ?_⟩
    rw [hother q _, hq]
    rintro rfl
    rw [hold] at hq
    simp at hq
  · intro q K' i' id' st hq hst
    by_cases hqp : q = p
    · rw [hqp, hnew] at hq
      obtain ⟨rfl, rfl, rfl, rfl⟩ : K = K' ∧ i = i' ∧ id = id' ∧ _ = st := by simpa using hq
      exact hvalue
    · rw [hother q hqp] at hq
      rw [hsame, h.given q K' i' id' st hq hst]
      rintro ⟨rfl, rfl⟩
      exact hqp (h.sole q p K' i' _ _ _ _ hq hold)
  · intro q K' i' custID hq
    have hfiling := hfiles q K' i' custID hq
    rw [hsame, h.filing q K' i' custID hfiling]
    rintro ⟨rfl, rfl⟩
    have hq : s.desk q = some (K', i', .dealing) := of_files hfiling
    obtain rfl := desk_unique hok hnumbered hq hp₀
    rw [hp₀] at hq
    obtain rfl : c = .dealing := by simpa using hq
    cases hmeets

theorem Asked.setsClerkToFile (hasked : Asked machine s p r t s') {K : Kind} {i id : ℤ}
    (hr : r = .setMV (.clerkToFile K) i id) :
  s.phase p = .atCounter id K i ∧ s'.phase p = .given id K i
  := by
  have hnext := hasked.next
  rw [hr] at hnext
  exact onSet_clerkToFile hnext

/-- A visitor that has been called owns `lineLock`, so its clerk waits for it. -/
theorem Handshake.listening (h : Handshake s) (hok : Ok s) {K : Kind} {i id : ℤ}
    (hvisit : s.visit p = some (K, i, id, .called)) (howner : (s.locks .lineLock).owner = some p) :
  ∃ p', s.desk p' = some (K, i, .listening)
  := by
  obtain ⟨p', c, hp', hmeets⟩ := h.met p K i id _ hvisit
  obtain rfl | rfl := hmeets
  · obtain ⟨hheld, hasking⟩ := lineLock_of_calling (p := p') hp'
    have heq := hok.owner hheld (.inr hasking)
    rw [howner] at heq
    obtain rfl := Option.some.inj heq
    rw [visit, desk] at *
    rw [(of_visit (p := p) hvisit).2.2.1] at hp'
    cases hp'
  · exact ⟨p', hp'⟩

/-- A visitor moves without waiting or signalling. -/
theorem Handshake.visitor (h : Handshake s) (hok : Ok s) (hnumbered : Numbered s)
    (hasked : Asked machine s p r t s') (hr : r.quiet = true) (hp : isVisitor p = true)
    (hpass : r = .getMV .senatorFlag 0 → ∀ id K i, s.phase p = .lined id K i →
      (s.tasks p).signalled = false → s.values .senatorFlag 0 = 1) :
  Handshake s'
  := by
  have hother : ∀ q, q ≠ p → s'.visit q = s.visit q ∧ s'.desk q = s.desk q :=
    fun q hq => hasked.view_other hok hq fun c l heq => by rw [heq] at hr; cases hr
  have hafter := hasked.view_after hok fun c l heq => by rw [heq] at hr; cases hr
  have hbefore := hasked.view_before
  have hsuits := hok.suits p
  have hdesk : ∀ q, s'.desk q = s.desk q := by
    intro q
    by_cases hqp : q = p
    · rw [hqp, hafter.2, hbefore.2, desk_of_visitor hsuits hp,
        desk_of_visitor (suits_next hasked.next hsuits) hp]
    · exact (hother q hqp).2
  have hfiles : ∀ q K i custID, (s'.phase q).files = some (K, i, custID) →
      (s.phase q).files = some (K, i, custID) := by
    intro q K i custID
    apply hasked.files
    intro K' i' hφ
    rw [hφ] at hsuits
    cases p <;> simp [isVisitor, Phase.suits, isClerk] at hp hsuits
  have hset : ∀ K i id, r = .setMV (.clerkToFile K) i id →
      s.phase p = .atCounter id K i ∧ s'.phase p = .given id K i := fun _ _ _ => hasked.setsClerkToFile
  have hvisit := visit_next (s.tasks p).signalled hasked.next hr
  rw [VisitMoves, ← hafter.1, ← hbefore.1] at hvisit
  rcases hvisit with hsame | ⟨hnone, K, i, id, st, hold, hst⟩ | ⟨K, i, id, hnew, hφ⟩ |
      ⟨K, i, id, hφ, hφ', hget⟩
  · have hvisit : ∀ q, s'.visit q = s.visit q := by
      intro q
      by_cases hqp : q = p
      · rw [hqp, hsame]
      · exact (hother q hqp).1
    apply h.congr hvisit hdesk _ hfiles
    intro K i hK
    apply hasked.clerkToFile
    intro j id hset'
    obtain ⟨hφ, hφ'⟩ := hset K j id hset'
    rw [hafter.1, hbefore.1, hφ, hφ', Phase.visit, Phase.visit, seat_of_ne hK, seat_of_ne hK] at hsame
    simp at hsame
  · apply h.goOn (p := p) hdesk (fun q hq => (hother q hq).1) _ hfiles
    · intro K' i' id' hdealing
      rw [hold] at hdealing
      obtain rfl | rfl := hst <;> simp at hdealing
    · intro K' i' id' st' hnew
      rw [hnone] at hnew
      cases hnew
    · intro K' j hK
      apply hasked.clerkToFile
      intro j id' hset'
      obtain ⟨hφ, -⟩ := hset K' j id' hset'
      rw [hbefore.1, hφ, Phase.visit, seat_of_ne hK] at hold
      obtain rfl | rfl := hst <;> simp at hold
  · have hcalled : K ≠ .pic → s.visit p = some (K, i, id, .called) := by
      intro hK
      obtain ⟨hφ, rfl, hv⟩ | hφ := hφ
      · have hsignalled : (s.tasks p).signalled = true := by
          rw [← Bool.not_eq_false]
          intro hsignalled
          exact hv (hpass rfl id K i hφ hsignalled)
        rw [hbefore.1, hφ, hsignalled]
        exact seat_of_ne hK _
      · rw [hbefore.1, hφ]
        exact seat_of_ne hK _
    have hlineLock : (s.locks .lineLock).owner = some p := by
      apply hok.owner _ (.inl hasked.ready)
      obtain ⟨hφ, -⟩ | hφ := hφ <;> rw [hφ] <;> simp [held]
    have hnotSet : ∀ K' i', s'.values (.clerkToFile K') i' = s.values (.clerkToFile K') i' := by
      intro K' i'
      apply hasked.clerkToFile
      intro j id' hset'
      obtain ⟨hφ', -⟩ := hset K' j id' hset'
      obtain ⟨hφ, -⟩ | hφ := hφ <;> rw [hφ] at hφ' <;> cases hφ'
    apply h.goOn (p := p) hdesk (fun q hq => (hother q hq).1) (fun K i _ => hnotSet K i) hfiles
    · intro K' i' id' hdealing
      rw [hbefore.1] at hdealing
      obtain ⟨hφ, -⟩ | hφ := hφ <;> rw [hφ] at hdealing <;> grind [Phase.visit, seat]
    · intro K' i' id' st hnew'
      rw [hnew] at hnew'
      obtain ⟨hK, heq⟩ := seat_eq_some.mp hnew'
      obtain ⟨rfl, rfl, rfl, rfl⟩ : K = K' ∧ i = i' ∧ id = id' ∧ _ = st := by simpa using heq
      obtain ⟨p', hp'⟩ := h.listening hok (hcalled hK) hlineLock
      exact ⟨⟨_, hcalled hK⟩, ⟨p', _, hp', rfl⟩, rfl⟩
  · by_cases hK : K = .pic
    · have hvisit : ∀ q, s'.visit q = s.visit q := by
        intro q
        by_cases hqp : q = p
        · rw [hqp, hafter.1, hbefore.1, hφ, hφ', hK]
          rfl
        · exact (hother q hqp).1
      apply h.congr hvisit hdesk _ hfiles
      intro K' i' hK'
      apply hasked.clerkToFile
      intro j id' heq
      rw [hget] at heq
      injection heq with heq
      injection heq with heq
      exact hK' (heq ▸ hK)
    · have hold : s.visit p = some (K, i, id, .coming) := by
        rw [hbefore.1, hφ]
        exact seat_of_ne hK _
      have hnew : s'.visit p = some (K, i, id, .given) := by
        rw [hafter.1, hφ']
        exact seat_of_ne hK _
      exact h.give hok hnumbered hK hdesk (fun q hq => (hother q hq).1) hold hnew
        (by rw [hasked.values, hget]) hfiles

/-! ### Clerks -/

/-- A clerk gets on with its visitor. -/
theorem Handshake.serve (h : Handshake s) (hvisit : ∀ q, s'.visit q = s.visit q)
    (hother : ∀ q, q ≠ p → s'.desk q = s.desk q)
    (hvalues : ∀ K i, s'.values (.clerkToFile K) i = s.values (.clerkToFile K) i)
    (hmeets : ∀ K i c q id st, s.desk p = some (K, i, c) → s.visit q = some (K, i, id, st) →
      Meets st c → ∃ c', s'.desk p = some (K, i, c') ∧ Meets st c')
    (hdealing : ∀ K i, s'.desk p = some (K, i, .dealing) → s.desk p = some (K, i, .dealing))
    (hfiling : ∀ q K i custID, (s'.phase q).files = some (K, i, custID) →
      s.values (.clerkToFile K) i = custID) :
  Handshake s'
  := by
  constructor
  · intro q K i id st hq
    rw [hvisit] at hq
    obtain ⟨p', c, hp', hmeet⟩ := h.met q K i id st hq
    by_cases hp : p' = p
    · rw [hp] at hp'
      obtain ⟨c', hc', hmeet'⟩ := hmeets K i c q id st hp' hq hmeet
      exact ⟨p, c', hc', hmeet'⟩
    · exact ⟨p', c, by rw [hother p' hp, hp'], hmeet⟩
  · intro q q' K i id id' st st' hq hq'
    rw [hvisit] at hq hq'
    exact h.sole q q' K i id id' st st' hq hq'
  · intro p' K i hp'
    have hold : s.desk p' = some (K, i, .dealing) := by
      by_cases hp : p' = p
      · rw [hp] at hp' ⊢
        exact hdealing K i hp'
      · rwa [hother p' hp] at hp'
    obtain ⟨q, id, hq⟩ := h.dealt p' K i hold
    exact ⟨q, id, by rw [hvisit, hq]⟩
  · intro q K i id st hq hst
    rw [hvisit] at hq
    rw [hvalues]
    exact h.given q K i id st hq hst
  · intro q K i custID hq
    rw [hvalues]
    exact hfiling q K i custID hq

/-- Nobody is at the counter when the clerk has the lock again. -/
theorem nobody (hok : Ok s) {K : Kind} {i id : ℤ} {st : VisitStage}
    (hφ : s.phase p = .parting K i) (hready : (s.tasks p).status = .ready)
    (hvisit : s.visit q = some (K, i, id, st)) :
  ¬ Meets st .closing
  := by
  intro hmeets
  have hst : st = .leaving := by cases st <;> simp [Meets] at hmeets ⊢
  have howner : (s.locks (.clerkLock K i)).owner = some p := by
    apply hok.owner _ (.inl hready)
    rw [hφ]
    exact List.mem_singleton_self _
  have hqp : q ≠ p := by
    rintro rfl
    rw [visit, hφ] at hvisit
    cases hvisit
  obtain ⟨hheld, hasking⟩ := clerkLock_of_visit (p := q) hvisit (.inr hst)
  have hasking : (s.phase q).asking q ≠ some (.clerkLock K i) := by
    obtain hwaiting | hasking := hasking
    · cases hstatus : (s.tasks q).status with
      | atCondition c =>
          rw [visit, hwaiting] at hvisit
          have hdealing := ((clerkCV_of_waits (hok.waits hstatus)).2 _ K i id st hvisit).2
          rw [hst] at hdealing
          cases hdealing
      | _ =>
          rw [hstatus] at hwaiting
          cases hwaiting
    · exact hasking
  have heq := hok.owner hheld (.inr hasking)
  rw [howner] at heq
  exact hqp (Option.some.inj heq).symm

/-- A clerk, or the manager, moves without waiting or signalling. -/
theorem Handshake.clerk (h : Handshake s) (hok : Ok s) (hnumbered : Numbered s)
    (hasked : Asked machine s p r t s') (hr : r.quiet = true) (hp : isVisitor p = false) :
  Handshake s'
  := by
  have hother : ∀ q, q ≠ p → s'.visit q = s.visit q ∧ s'.desk q = s.desk q :=
    fun q hq => hasked.view_other hok hq fun c l heq => by rw [heq] at hr; cases hr
  have hafter := hasked.view_after hok fun c l heq => by rw [heq] at hr; cases hr
  have hbefore := hasked.view_before
  have hsuits := hok.suits p
  have hvisit : ∀ q, s'.visit q = s.visit q := by
    intro q
    by_cases hqp : q = p
    · rw [hqp, hafter.1, hbefore.1, visit_of_not_visitor hsuits hp,
        visit_of_not_visitor (suits_next hasked.next hsuits) hp]
    · exact (hother q hqp).1
  have hvalues : ∀ K i, s'.values (.clerkToFile K) i = s.values (.clerkToFile K) i := by
    intro K i
    apply hasked.clerkToFile
    intro j id hset
    rw [(hasked.setsClerkToFile hset).1] at hsuits
    have hvisitor : isVisitor p = true := hsuits
    rw [hp] at hvisitor
    cases hvisitor
  have hfiling : ∀ q K i custID, (s'.phase q).files = some (K, i, custID) →
      s.values (.clerkToFile K) i = custID := by
    intro q K i custID hq
    by_cases hqp : q = p
    · rw [hqp] at hq
      rcases files_next hasked.next with hsame | hnone | ⟨K', i', hφ, hφ', hget⟩
      · rw [hsame] at hq
        exact h.filing p K i custID hq
      · rw [hnone] at hq
        cases hq
      · rw [hφ'] at hq
        obtain ⟨hK, heq⟩ := seat_eq_some.mp hq
        obtain ⟨rfl, rfl, hcust⟩ : K' = K ∧ i' = i ∧ _ = custID := by simpa using heq
        have hdesk : s.desk p = some (K', i', .dealing) := by
          rw [hbefore.2, hφ]
          exact seat_of_ne hK _
        obtain ⟨hrange, hchar⟩ := desk_inRange hok hnumbered hdesk
        rw [hget, reply, if_pos hrange, hchar] at hcust
        exact hcust
    · rw [hasked.phase q hqp] at hq
      exact h.filing q K i custID hq
  have hdesk := desk_next hasked.next hr
  rw [DeskMoves, ← hafter.2, ← hbefore.2] at hdesk
  apply h.serve (p := p) hvisit (fun q hq => (hother q hq).2) hvalues _ _ hfiling
  · intro K i c q id st hc hq hmeets
    rcases hdesk with hsame | ⟨hnone, -⟩ | ⟨K', i', hφ, hφ'⟩ | ⟨K', i', hφ, -⟩
    · exact ⟨c, by rw [hsame, hc], hmeets⟩
    · rw [hnone] at hc
      cases hc
    · rw [hbefore.2, hφ] at hc
      obtain ⟨hK, heq⟩ := seat_eq_some.mp hc
      obtain ⟨rfl, rfl, rfl⟩ : K' = K ∧ i' = i ∧ _ = c := by simpa using heq
      refine ⟨.listening, ?_, ?_⟩
      · rw [hafter.2, hφ']
        exact seat_of_ne hK _
      · cases st <;> simp [Meets] at hmeets ⊢
    · rw [hbefore.2, hφ] at hc
      obtain ⟨hK, heq⟩ := seat_eq_some.mp hc
      obtain ⟨rfl, rfl, rfl⟩ : K' = K ∧ i' = i ∧ _ = c := by simpa using heq
      exact absurd hmeets (nobody hok hφ hasked.ready hq)
  · intro K i hdealing
    rcases hdesk with hsame | ⟨-, K', i', hnew⟩ | ⟨K', i', -, hφ'⟩ | ⟨K', i', -, hφ'⟩
    · rwa [hsame] at hdealing
    · rw [hnew] at hdealing
      have heq := (seat_eq_some.mp hdealing).2
      simp at heq
    · rw [hafter.2, hφ'] at hdealing
      have heq := (seat_eq_some.mp hdealing).2
      simp at heq
    · rw [hafter.2, hφ'] at hdealing
      have heq := (seat_eq_some.mp hdealing).2
      simp at heq

/-! ### Signals -/

/-- A visitor and its clerk get to the next stage together. -/
theorem Handshake.together (h : Handshake s) (hok : Ok s) (hnumbered : Numbered s) {K : Kind}
    {i id : ℤ} {st st' : VisitStage} {c c' : DeskStage} {u w : Process}
    (hu : s.visit u = some (K, i, id, st)) (hu' : s'.visit u = some (K, i, id, st'))
    (hw : s.desk w = some (K, i, c)) (hw' : s'.desk w = some (K, i, c')) (hmeets : Meets st' c')
    (hgiven : st' = .given ∨ st' = .dealing → st = .given ∨ st = .dealing)
    (hvisit : ∀ q, q ≠ u → s'.visit q = s.visit q) (hdesk : ∀ q, q ≠ w → s'.desk q = s.desk q)
    (hvalues : ∀ K i, s'.values (.clerkToFile K) i = s.values (.clerkToFile K) i)
    (hfiles : ∀ p K i custID, (s'.phase p).files = some (K, i, custID) →
      (s.phase p).files = some (K, i, custID)) :
  Handshake s'
  := by
  have hboth : ∀ q K' i' id' st'', s'.visit q = some (K', i', id', st'') →
      ∃ st₀, s.visit q = some (K', i', id', st₀) := by
    intro q K' i' id' st'' hq
    by_cases hqu : q = u
    · rw [hqu, hu'] at hq
      obtain ⟨rfl, rfl, rfl, -⟩ : K = K' ∧ i = i' ∧ id = id' ∧ _ = st'' := by simpa using hq
      exact ⟨st, by rw [hqu, hu]⟩
    · exact ⟨st'', by rw [← hvisit q hqu, hq]⟩
  constructor
  · intro q K' i' id' st'' hq
    by_cases hqu : q = u
    · rw [hqu, hu'] at hq
      obtain ⟨rfl, rfl, rfl, rfl⟩ : K = K' ∧ i = i' ∧ id = id' ∧ _ = st'' := by simpa using hq
      exact ⟨w, c', hw', hmeets⟩
    · rw [hvisit q hqu] at hq
      obtain ⟨p', c'', hp', hmeet⟩ := h.met q K' i' id' st'' hq
      have hne : p' ≠ w := by
        rintro rfl
        rw [hw] at hp'
        obtain ⟨rfl, rfl, -⟩ : K = K' ∧ i = i' ∧ _ = c'' := by simpa using hp'
        exact hqu (h.sole q u K i _ _ _ _ hq hu)
      exact ⟨p', c'', by rw [hdesk p' hne, hp'], hmeet⟩
  · intro q q' K' i' id' id'' st₁ st₂ hq hq'
    obtain ⟨_, hq⟩ := hboth q K' i' id' st₁ hq
    obtain ⟨_, hq'⟩ := hboth q' K' i' id'' st₂ hq'
    exact h.sole q q' K' i' _ _ _ _ hq hq'
  · intro x K' i' hx
    by_cases hxw : x = w
    · rw [hxw, hw'] at hx
      obtain ⟨rfl, rfl, rfl⟩ : K = K' ∧ i = i' ∧ c' = _ := by simpa using hx
      have hst : st' = .dealing := by cases st' <;> simp [Meets] at hmeets ⊢
      exact ⟨u, id, by rw [hu', hst]⟩
    · rw [hdesk x hxw] at hx
      obtain ⟨q, id', hq⟩ := h.dealt x K' i' hx
      have hqu : q ≠ u := by
        rintro rfl
        rw [hu] at hq
        obtain ⟨rfl, rfl, -, -⟩ : K = K' ∧ i = i' ∧ id = id' ∧ st = _ := by simpa using hq
        exact hxw (desk_unique hok hnumbered hx hw)
      exact ⟨q, id', by rw [hvisit q hqu, hq]⟩
  · intro q K' i' id' st'' hq hst
    rw [hvalues]
    by_cases hqu : q = u
    · rw [hqu, hu'] at hq
      obtain ⟨rfl, rfl, rfl, rfl⟩ : K = K' ∧ i = i' ∧ id = id' ∧ _ = st'' := by simpa using hq
      exact h.given u K i id st hu (hgiven hst)
    · rw [hvisit q hqu] at hq
      exact h.given q K' i' id' st'' hq hst
  · intro q K' i' custID hq
    rw [hvalues]
    exact h.filing q K' i' custID (hfiles q K' i' custID hq)

/-- A clerk calls a visitor. -/
theorem Handshake.call (h : Handshake s) (hok : Ok s) (hnumbered : Numbered s) {K : Kind} {i : ℤ}
    (waiting : List Process) (hp : s.desk p = some (K, i, .away))
    (hp' : s'.desk p = some (K, i, .calling)) (hdesk : ∀ q, q ≠ p → s'.desk q = s.desk q)
    (hvisit : ∀ q, s'.visit q = s.visit q ∨ waiting.head? = some q ∧ s.visit q = none ∧
      ∃ id, s'.visit q = some (K, i, id, .called))
    (hvalues : ∀ K i, s'.values (.clerkToFile K) i = s.values (.clerkToFile K) i)
    (hfiles : ∀ p K i custID, (s'.phase p).files = some (K, i, custID) →
      (s.phase p).files = some (K, i, custID)) :
  Handshake s'
  := by
  have hnobody : ∀ q id st, s.visit q ≠ some (K, i, id, st) := by
    intro q id st hq
    obtain ⟨p', c, hpc, hmeets⟩ := h.met q K i id st hq
    obtain rfl := desk_unique hok hnumbered hpc hp
    rw [hp] at hpc
    obtain rfl : _ = c := by simpa using hpc
    cases st <;> simp [Meets] at hmeets
  constructor
  · intro q K' i' id st hq
    obtain hsame | ⟨-, -, id', hnew⟩ := hvisit q
    · rw [hsame] at hq
      obtain ⟨p', c, hpc, hmeets⟩ := h.met q K' i' id st hq
      have hne : p' ≠ p := by
        rintro rfl
        rw [hp] at hpc
        obtain ⟨rfl, rfl, -⟩ : K = K' ∧ i = i' ∧ _ = c := by simpa using hpc
        exact hnobody q id st hq
      exact ⟨p', c, by rw [hdesk p' hne, hpc], hmeets⟩
    · rw [hnew] at hq
      obtain ⟨rfl, rfl, rfl, rfl⟩ : K = K' ∧ i = i' ∧ id' = id ∧ _ = st := by simpa using hq
      exact ⟨p, _, hp', .inl rfl⟩
  · intro q q' K' i' id id' st st' hq hq'
    have hcalled : ∀ u id₀ st₀, s'.visit u = some (K', i', id₀, st₀) →
        s.visit u = some (K', i', id₀, st₀) ∨ waiting.head? = some u ∧ K' = K ∧ i' = i := by
      intro u id₀ st₀ hu
      obtain hsame | ⟨hhead, -, id₁, hnew⟩ := hvisit u
      · exact .inl (by rw [← hsame, hu])
      · rw [hnew] at hu
        obtain ⟨rfl, rfl, -, -⟩ : K = K' ∧ i = i' ∧ id₁ = id₀ ∧ _ = st₀ := by simpa using hu
        exact .inr ⟨hhead, rfl, rfl⟩
    rcases hcalled q id st hq with hold | ⟨hhead, rfl, rfl⟩ <;>
      rcases hcalled q' id' st' hq' with hold' | ⟨hhead', hK, hi⟩
    · exact h.sole q q' K' i' _ _ _ _ hold hold'
    · rw [hK, hi] at hold
      exact absurd hold (hnobody q id st)
    · exact absurd hold' (hnobody q' id' st')
    · rw [hhead] at hhead'
      exact Option.some.inj hhead'
  · intro x K' i' hx
    by_cases hxp : x = p
    · rw [hxp, hp'] at hx
      simp at hx
    · rw [hdesk x hxp] at hx
      obtain ⟨q, id, hq⟩ := h.dealt x K' i' hx
      refine ⟨q, id, ?_⟩
      obtain hsame | ⟨-, hnone, -⟩ := hvisit q
      · rw [hsame, hq]
      · rw [hnone] at hq
        cases hq
  · intro q K' i' id st hq hst
    rw [hvalues]
    obtain hsame | ⟨-, -, id', hnew⟩ := hvisit q
    · rw [hsame] at hq
      exact h.given q K' i' id st hq hst
    · rw [hnew] at hq
      obtain ⟨-, -, -, rfl⟩ : K = K' ∧ i = i' ∧ id' = id ∧ _ = st := by simpa using hq
      obtain hst | hst := hst <;> cases hst
  · intro q K' i' custID hq
    rw [hvalues]
    exact h.filing q K' i' custID (hfiles q K' i' custID hq)

section

variable {c : ConditionName} {l : LockName} {u : Process}

/-- What the first process in a queue does when it is signalled. -/
theorem Asked.view_woken (hasked : Asked machine s p (.signal c l) t s') (hok : Ok s)
    (hu : (s.conditions c).waitQueue.head? = some u) :
  u ≠ p ∧ (s.phase u).waits c ∧ s.visit u = (s.phase u).visit true (s.tasks u).signalled ∧
    s'.visit u = (s.phase u).visit false true ∧ s.desk u = (s.phase u).desk true ∧
    s'.desk u = (s.phase u).desk false
  := by
  obtain ⟨hup, hstatus, hwaiting, hsignalled⟩ := hasked.woken machine hok hu
  refine ⟨hup, hok.waits hstatus, ?_, ?_, ?_, ?_⟩
  · rw [visit, hstatus]
    rfl
  · rw [visit, hasked.phase u hup, hwaiting, hsignalled]
  · rw [desk, hstatus]
    rfl
  · rw [desk, hasked.phase u hup, hwaiting]

theorem Asked.view_unsignalled (hasked : Asked machine s p (.signal c l) t s') (hok : Ok s)
    (hqp : q ≠ p) (hq : (s.conditions c).waitQueue.head? ≠ some q) :
  s'.visit q = s.visit q ∧ s'.desk q = s.desk q
  := by
  apply hasked.view_other hok hqp
  intro c' l' heq
  injection heq with heq
  rw [← heq]
  exact hq

/-- A clerk or visitor at a counter, when another process has the lock, waits. -/
theorem waits_at {K : Kind} {i : ℤ} (hok : Ok s) (hp : (s.locks (.clerkLock K i)).owner = some p)
    (hqp : q ≠ p) (hheld : .clerkLock K i ∈ held q (s.phase q))
    (hasking : (s.tasks q).status.isWaiting = true ∨ (s.phase q).asking q ≠ some (.clerkLock K i)) :
  ∃ c, (s.tasks q).status = .atCondition c
  := by
  obtain hwaiting | hasking := hasking
  · cases hstatus : (s.tasks q).status with
    | atCondition c => exact ⟨c, rfl⟩
    | _ =>
        rw [hstatus] at hwaiting
        cases hwaiting
  · have heq := hok.owner hheld (.inr hasking)
    rw [hp] at heq
    exact absurd (Option.some.inj heq).symm hqp

/-- Who waits for the condition variable of a clerk. -/
theorem view_of_clerkCV {K : Kind} {i : ℤ} (hok : Ok s) (hK : K ≠ .pic)
    (hq : (s.tasks q).status = .atCondition (.clerkCV K i)) :
  (∃ id, s.phase q = .served id K i ∧ s.visit q = some (K, i, id, .dealing)) ∨
    ∃ c, s.desk q = some (K, i, c)
  := by
  rw [visit, desk, hq]
  rcases phase_of_waits hK (hok.waits hq) with ⟨id, hφ⟩ | hφ | hφ | hφ <;> rw [hφ]
  · exact .inl ⟨id, rfl, seat_of_ne hK _⟩
  · exact .inr ⟨_, seat_of_ne hK _⟩
  · exact .inr ⟨_, seat_of_ne hK _⟩
  · exact .inr ⟨_, seat_of_ne hK _⟩

/-- A clerk that waits for its visitor, while the visitor has the lock, is the first one that is
signalled. -/
theorem Handshake.first_clerk (h : Handshake s) (hok : Ok s) (hnumbered : Numbered s) {K : Kind}
    {i id : ℤ} {st : VisitStage} {d : DeskStage} {w : Process} (hp : s.visit p = some (K, i, id, st))
    (howner : (s.locks (.clerkLock K i)).owner = some p) (hst : st ≠ .dealing)
    (hw : s.desk w = some (K, i, d)) (hd : d = .listening ∨ d = .done) :
  (s.conditions (.clerkCV K i)).waitQueue.head? = some w ∧ (s.tasks w).status.isWaiting = true
  := by
  have hwp : w ≠ p := by
    rintro rfl
    rw [visit, desk] at *
    rw [(of_visit (p := w) hp).2.2.1] at hw
    cases hw
  obtain ⟨hheld, hasking⟩ := clerkLock_of_desk (p := w) hw hd
  obtain ⟨c, hstatus⟩ := waits_at hok howner hwp hheld hasking
  have hwaiting : (s.tasks w).status.isWaiting = true := by rw [hstatus]; rfl
  have hdesk := hw
  rw [desk, hwaiting] at hdesk
  obtain rfl := (clerkCV_of_waits (hok.waits hstatus)).1 K i d hdesk
  have hmem := (hok.locked.conditionQueue _ w).mpr hstatus
  refine ⟨?_, hwaiting⟩
  cases hqueue : (s.conditions (.clerkCV K i)).waitQueue with
  | nil =>
      rw [hqueue] at hmem
      cases hmem
  | cons u us =>
      have hu := (hok.locked.conditionQueue (.clerkCV K i) u).mp (by simp [hqueue])
      have hK := (of_visit (p := p) hp).1
      obtain ⟨id', -, hvisit⟩ | ⟨c, hc⟩ := view_of_clerkCV hok hK hu
      · obtain rfl := h.sole u p K i _ _ _ _ hvisit hp
        rw [hp] at hvisit
        obtain ⟨-, rfl⟩ : id = id' ∧ st = _ := by simpa using hvisit
        exact absurd rfl hst
      · rw [desk_unique hok hnumbered hc hw]
        rfl

/-- The visitor of a clerk that has the lock is the first one that is signalled. -/
theorem Handshake.first_visitor (h : Handshake s) (hok : Ok s) (hnumbered : Numbered s) {K : Kind}
    {i : ℤ} (hp : s.desk p = some (K, i, .dealing))
    (hnot : (s.tasks p).status.isWaiting = false)
    (howner : (s.locks (.clerkLock K i)).owner = some p) :
  ∃ u id, (s.conditions (.clerkCV K i)).waitQueue.head? = some u ∧
    s.visit u = some (K, i, id, .dealing) ∧ s.phase u = .served id K i
  := by
  have hK := (of_desk (p := p) hp).1
  obtain ⟨v, id, hv⟩ := h.dealt p K i hp
  have hvp : v ≠ p := by
    rintro rfl
    rw [visit, desk] at *
    rw [(of_visit (p := v) hv).2.2.1] at hp
    cases hp
  obtain ⟨hheld, hasking⟩ := clerkLock_of_visit (p := v) hv (.inl rfl)
  obtain ⟨c, hstatus⟩ := waits_at hok howner hvp hheld hasking
  have hvisit := hv
  rw [visit, hstatus] at hvisit
  obtain ⟨rfl, -⟩ := (clerkCV_of_waits (hok.waits hstatus)).2 _ K i id _ hvisit
  have hmem := (hok.locked.conditionQueue _ v).mpr hstatus
  cases hqueue : (s.conditions (.clerkCV K i)).waitQueue with
  | nil =>
      rw [hqueue] at hmem
      cases hmem
  | cons u us =>
      have hu := (hok.locked.conditionQueue (.clerkCV K i) u).mp (by simp [hqueue])
      obtain ⟨id', hφ, hvisit⟩ | ⟨c, hc⟩ := view_of_clerkCV hok hK hu
      · exact ⟨u, id', rfl, hvisit, hφ⟩
      · obtain rfl := desk_unique hok hnumbered hc hp
        rw [hu] at hnot
        cases hnot

/-- A visitor signals its clerk. -/
theorem Handshake.signal_clerk (h : Handshake s) (hok : Ok s) (hnumbered : Numbered s) {K : Kind}
    {i id : ℤ} {st st' : VisitStage} {d d' : DeskStage}
    (hasked : Asked machine s p (.signal (.clerkCV K i) l) t s')
    (hp : s.visit p = some (K, i, id, st)) (hp' : s'.visit p = some (K, i, id, st'))
    (hst : st = .given ∧ st' = .dealing ∧ d = .listening ∧ d' = .dealing ∨
      st = .answered ∧ st' = .leaving ∧ d = .done ∧ d' = .closing) :
  Handshake s'
  := by
  have hK := (of_visit (p := p) hp).1
  have howner : (s.locks (.clerkLock K i)).owner = some p := by
    have hgrants := hasked.grants.1
    rwa [(moves_next hasked.next).1] at hgrants
  obtain ⟨w, c, hw, hmeets⟩ := h.met p K i id st hp
  have hc : c = d := by
    rcases hst with ⟨rfl, -, rfl, -⟩ | ⟨rfl, -, rfl, -⟩ <;> exact hmeets
  rw [hc] at hw
  obtain ⟨hhead, hwaiting⟩ := h.first_clerk hok hnumbered hp howner
    (by rcases hst with ⟨rfl, -⟩ | ⟨rfl, -⟩ <;> simp) hw
    (by rcases hst with ⟨-, -, rfl, -⟩ | ⟨-, -, rfl, -⟩ <;> simp)
  obtain ⟨hwp, hwaits, -, hwvisit, hwdesk, hwdesk'⟩ := hasked.view_woken hok hhead
  have hw' : s'.desk w = some (K, i, d') ∧ s'.visit w = s.visit w := by
    rw [hwdesk', hwvisit]
    rw [hwdesk] at hw
    rw [visit, hwaiting]
    rcases phase_of_waits hK hwaits with ⟨id', hφ⟩ | hφ | hφ | hφ <;> rw [hφ] at hw ⊢
    · cases hw
    all_goals
      have hd := (seat_eq_some.mp hw).2
      rcases hst with ⟨-, -, rfl, rfl⟩ | ⟨-, -, rfl, rfl⟩ <;> simp at hd
      try exact ⟨seat_of_ne hK _, rfl⟩
  have hother : ∀ q, q ≠ p → q ≠ w → s'.visit q = s.visit q ∧ s'.desk q = s.desk q := by
    intro q hqp hqw
    apply hasked.view_unsignalled hok hqp
    rw [hhead]
    exact fun heq => hqw (Option.some.inj heq).symm
  have hdesk : s'.desk p = s.desk p := by
    have hvisitor := (of_visit (p := p) hp).2.2.2 (hok.suits p)
    have hafter := hasked.view_after hok (by simp)
    rw [hafter.2, hasked.view_before.2, desk_of_visitor (hok.suits p) hvisitor,
      desk_of_visitor (suits_next hasked.next (hok.suits p)) hvisitor]
  apply h.together hok hnumbered hp hp' hw hw'.1 _ _ _ _ (fun K i => hasked.clerkToFile K i (by simp))
    (fun q K i custID => hasked.files (by simp))
  · rcases hst with ⟨-, rfl, -, rfl⟩ | ⟨-, rfl, -, rfl⟩ <;> rfl
  · rcases hst with ⟨rfl, -⟩ | ⟨-, rfl, -⟩
    · exact fun _ => .inl rfl
    · simp
  · intro q hqp
    by_cases hqw : q = w
    · rw [hqw, hw'.2]
    · exact (hother q hqp hqw).1
  · intro q hqw
    by_cases hqp : q = p
    · rw [hqp, hdesk]
    · exact (hother q hqp hqw).2

/-- A clerk signals its visitor. -/
theorem Handshake.signal_visitor (h : Handshake s) (hok : Ok s) (hnumbered : Numbered s) {K : Kind}
    {i : ℤ} (hasked : Asked machine s p (.signal (.clerkCV K i) l) t s')
    (hp : s.desk p = some (K, i, .dealing)) (hp' : s'.desk p = some (K, i, .done)) :
  Handshake s'
  := by
  have hK := (of_desk (p := p) hp).1
  have howner : (s.locks (.clerkLock K i)).owner = some p := by
    have hgrants := hasked.grants.1
    rwa [(moves_next hasked.next).1] at hgrants
  obtain ⟨u, id, hhead, hu, hφ⟩ := h.first_visitor hok hnumbered hp (by rw [hasked.ready]; rfl) howner
  obtain ⟨hup, -, -, huvisit, hudesk, hudesk'⟩ := hasked.view_woken hok hhead
  have hu' : s'.visit u = some (K, i, id, .answered) ∧ s'.desk u = s.desk u := by
    rw [huvisit, hudesk, hudesk', hφ]
    exact ⟨seat_of_ne hK _, rfl⟩
  have hother : ∀ q, q ≠ p → q ≠ u → s'.visit q = s.visit q ∧ s'.desk q = s.desk q := by
    intro q hqp hqu
    apply hasked.view_unsignalled hok hqp
    rw [hhead]
    exact fun heq => hqu (Option.some.inj heq).symm
  have hvisit : s'.visit p = s.visit p := by
    have hclerk : isVisitor p = false := by
      have hclerk := (of_desk (p := p) hp).2.2.2 (hok.suits p)
      cases p <;> simp [isClerk, isVisitor] at hclerk ⊢
    have hafter := hasked.view_after hok (by simp)
    rw [hafter.1, hasked.view_before.1,
      visit_of_not_visitor (hok.suits p) hclerk,
      visit_of_not_visitor (suits_next hasked.next (hok.suits p)) hclerk]
  apply h.together hok hnumbered hu hu'.1 hp hp' rfl _ _ _ (fun K i => hasked.clerkToFile K i (by simp))
    (fun q K i custID => hasked.files (by simp))
  · simp
  · intro q hqu
    by_cases hqp : q = p
    · rw [hqp, hvisit]
    · exact (hother q hqp hqu).1
  · intro q hqp
    by_cases hqu : q = u
    · rw [hqu, hu'.2]
    · exact (hother q hqp hqu).2

/-- A signal that does not concern clerks and visitors. -/
theorem Handshake.signal_elsewhere (h : Handshake s) (hok : Ok s)
    (hasked : Asked machine s p (.signal c l) t s')
    (hp : ∀ b, (s'.phase p).visit false b = (s.phase p).visit false b ∧
      (s'.phase p).desk false = (s.phase p).desk false)
    (hu : ∀ u, (s.conditions c).waitQueue.head? = some u → (s.phase u).waits c → ∀ b,
      (s.phase u).visit false true = (s.phase u).visit true b ∧
        (s.phase u).desk false = (s.phase u).desk true) :
  Handshake s'
  := by
  have hview : ∀ q, s'.visit q = s.visit q ∧ s'.desk q = s.desk q := by
    intro q
    by_cases hqp : q = p
    · have hbefore := hasked.view_before
      have hafter := hasked.view_after hok (by simp)
      rw [hqp, hafter.1, hafter.2, hbefore.1, hbefore.2]
      exact hp _
    · by_cases hq : (s.conditions c).waitQueue.head? = some q
      · obtain ⟨-, hwaits, hvisit, hvisit', hdesk, hdesk'⟩ := hasked.view_woken hok hq
        rw [hvisit, hvisit', hdesk, hdesk']
        exact hu q hq hwaits _
      · exact hasked.view_unsignalled hok hqp hq
  exact h.of_view hasked (by simp) (by simp) hview

theorem stage_of_pic {i : ℤ} {φ : Phase} (h : φ.waits (.clerkCV .pic i)) (b : Bool) :
  φ.visit false true = φ.visit true b ∧ φ.desk false = φ.desk true
  := by
  have hnone := stage_elsewhere (.inr ⟨i, rfl⟩) h
  rw [(hnone false true).1, (hnone true b).1, (hnone false true).2, (hnone true b).2]
  exact ⟨rfl, rfl⟩

/-- A clerk signals a line. -/
theorem Handshake.signal_line (h : Handshake s) (hok : Ok s) (hnumbered : Numbered s) {K : Kind}
    {i : ℤ} (hasked : Asked machine s p (.signal c l) t s') (hφ : s.phase p = .looking K i)
    (hφ' : s'.phase p = .called K i)
    (hc : c = .lineCV K i ∨ c = .bribeLineCV K i ∨ c = .senatorLineCV K i) :
  Handshake s'
  := by
  by_cases hK : K = .pic
  · apply h.signal_elsewhere hok hasked
    · rw [hφ, hφ', hK]
      exact fun _ => ⟨rfl, rfl⟩
    · intro u hu hwaits b
      obtain ⟨hnone, id, hcalled⟩ := stage_of_line hc hwaits
      rw [hcalled, (hnone b).1, (hnone false).2, (hnone true).2, hK]
      exact ⟨rfl, rfl⟩
  · have hbefore := hasked.view_before
    have hafter := hasked.view_after hok (by simp)
    have hp : s.desk p = some (K, i, .away) := by
      rw [hbefore.2, hφ]
      exact seat_of_ne hK _
    have hp' : s'.desk p = some (K, i, .calling) := by
      rw [hafter.2, hφ']
      exact seat_of_ne hK _
    have hvisit : s'.visit p = s.visit p := by
      rw [hafter.1, hbefore.1, hφ, hφ']
      rfl
    apply h.call hok hnumbered (s.conditions c).waitQueue hp hp' _ _
      (fun K i => hasked.clerkToFile K i (by simp)) (fun q K i custID => hasked.files (by simp))
    · intro q hqp
      by_cases hq : (s.conditions c).waitQueue.head? = some q
      · obtain ⟨-, hwaits, -, -, hdesk, hdesk'⟩ := hasked.view_woken hok hq
        obtain ⟨hnone, -⟩ := stage_of_line hc hwaits
        rw [hdesk, hdesk', (hnone true).2, (hnone false).2]
      · exact (hasked.view_unsignalled hok hqp hq).2
    · intro q
      by_cases hqp : q = p
      · rw [hqp]
        exact .inl hvisit
      · by_cases hq : (s.conditions c).waitQueue.head? = some q
        · right
          obtain ⟨-, hwaits, hvisit, hvisit', -, -⟩ := hasked.view_woken hok hq
          obtain ⟨hnone, id, hcalled⟩ := stage_of_line hc hwaits
          refine ⟨hq, by rw [hvisit, (hnone _).1], id, ?_⟩
          rw [hvisit', hcalled]
          exact seat_of_ne hK _
        · exact .inl (hasked.view_unsignalled hok hqp hq).1

theorem Handshake.signal (h : Handshake s) (hok : Ok s) (hnumbered : Numbered s)
    (hasked : Asked machine s p (.signal c l) t s')
    (hwakes : p = .manager → ∀ K i, c = .clerkCV K i → ∀ u,
      (s.conditions c).waitQueue.head? = some u → s.phase u = .asleep K i) :
  Handshake s'
  := by
  have hl := (moves_next hasked.next).1
  have hnext := hasked.next
  rw [Office.next, if_pos hl] at hnext
  have hbefore := hasked.view_before
  have hafter := hasked.view_after hok (by simp)
  rcases onSignal_cases hnext with ⟨id, K, i, hφ, rfl, hne, hpic⟩ | ⟨id, K, i, hφ, rfl, hφ'⟩ |
      ⟨K, i, hφ, rfl, hφ'⟩ | ⟨K, i, hφ, hφ', hc⟩ | ⟨hsame, hc⟩
  · by_cases hK : K = .pic
    · apply h.signal_elsewhere hok hasked
      · rw [hφ, hpic hK, hK]
        exact fun _ => ⟨rfl, rfl⟩
      · rw [hK]
        exact fun u _ hwaits => stage_of_pic hwaits
    · have hp : s.visit p = some (K, i, id, .given) := by
        rw [hbefore.1, hφ]
        exact seat_of_ne hK _
      have hp' : s'.visit p = some (K, i, id, .dealing) := by
        rw [hafter.1, hne hK]
        exact seat_of_ne hK _
      exact h.signal_clerk hok hnumbered hasked hp hp' (.inl ⟨rfl, rfl, rfl, rfl⟩)
  · by_cases hK : K = .pic
    · apply h.signal_elsewhere hok hasked
      · rw [hφ, hφ', hK]
        exact fun _ => ⟨rfl, rfl⟩
      · rw [hK]
        exact fun u _ hwaits => stage_of_pic hwaits
    · have hp : s.visit p = some (K, i, id, .answered) := by
        rw [hbefore.1, hφ]
        exact seat_of_ne hK _
      have hp' : s'.visit p = some (K, i, id, .leaving) := by
        rw [hafter.1, hφ']
        exact seat_of_ne hK _
      exact h.signal_clerk hok hnumbered hasked hp hp' (.inr ⟨rfl, rfl, rfl, rfl⟩)
  · have hdesk : s.desk p = seat K (K, i, .dealing) := by
      rw [hbefore.2]
      obtain hφ | ⟨hφ, rfl⟩ := hφ <;> rw [hφ] <;> rfl
    by_cases hK : K = .pic
    · apply h.signal_elsewhere hok hasked
      · rw [← hbefore.2, hdesk, hφ', hK]
        obtain hφ | ⟨hφ, rfl⟩ := hφ <;> rw [hφ] <;> exact fun _ => ⟨rfl, rfl⟩
      · rw [hK]
        exact fun u _ hwaits => stage_of_pic hwaits
    · apply h.signal_visitor hok hnumbered hasked
      · rw [hdesk]
        exact seat_of_ne hK _
      · rw [hafter.2, hφ']
        exact seat_of_ne hK _
  · exact h.signal_line hok hnumbered hasked hφ hφ' hc
  · apply h.signal_elsewhere hok hasked
    · rw [hsame]
      exact fun _ => ⟨rfl, rfl⟩
    · intro u hu hwaits b
      rcases hc with rfl | ⟨i, rfl⟩ | ⟨n, K, i, hφ, rfl⟩
      · have hnone := stage_elsewhere (.inl rfl) hwaits
        rw [(hnone false true).1, (hnone true b).1, (hnone false true).2, (hnone true b).2]
        exact ⟨rfl, rfl⟩
      · exact stage_of_pic hwaits b
      · have hmanager : p = .manager := by
          have hsuits := hok.suits p
          rw [hφ] at hsuits
          exact of_decide_eq_true hsuits
        rw [hwakes hmanager K i rfl u hu]
        exact ⟨rfl, rfl⟩

end

/-! ### Runs -/

/-- Whether the step of a process is not one of those that go wrong: the manager signals a clerk only
on its break, and a visitor that a broadcast has taken out of a line finds the flag of the senator. -/
def proper (s : State) (p : Process) : Bool :=
  match s.asks p, s.phase p with
  | some (.signal (.clerkCV K i) _), _ =>
      p ≠ .manager ||
        (s.conditions (.clerkCV K i)).waitQueue.head?.all (fun u => s.phase u = .asleep K i)
  | some (.getMV .senatorFlag 0), .lined _ _ _ =>
      (s.tasks p).signalled || s.values .senatorFlag 0 = 1
  | _, _ => true

theorem Handshake.asked (h : Handshake s) (hok : Ok s) (hnumbered : Numbered s)
    (hproper : s.proper p = true) (hasks : s.asks p = some r) (hasked : Asked machine s p r t s') :
  Handshake s'
  := by
  by_cases hr : r.quiet = true
  · by_cases hp : isVisitor p = true
    · apply h.visitor hok hnumbered hasked hr hp
      rintro rfl id K i hφ hsignalled
      simpa [proper, hasks, hφ, hsignalled] using hproper
    · exact h.clerk hok hnumbered hasked hr (Bool.not_eq_true _ ▸ hp)
  · cases r with
    | wait c l => exact h.wait hok hasked
    | broadcast c l => exact h.broadcast hok hasked
    | signal c l =>
        apply h.signal hok hnumbered hasked
        rintro hmanager K i rfl u hu
        rw [proper, hasks] at hproper
        simpa [hmanager, hu] using hproper
    | _ => exact absurd rfl hr

theorem handshake_initial (started : Process → Bool) :
  Handshake (initial started)
  := by
  have hvisit : ∀ p, (initial started).visit p = none := by
    intro p
    cases p <;> rfl
  have hdesk : ∀ p, (initial started).desk p = none := by
    intro p
    cases p <;> rfl
  constructor
  · intro q K i id st hq
    rw [hvisit] at hq
    cases hq
  · intro q q' K i id id' st st' hq
    rw [hvisit] at hq
    cases hq
  · intro p K i hp
    rw [hdesk] at hp
    cases hp
  · intro q K i id st hq
    rw [hvisit] at hq
    cases hq
  · intro p K i custID hp
    cases p <;> cases hp

theorem Handshake.same (h : Handshake s) (hsame : Same s s') :
  Handshake s'
  := by
  have hview : ∀ q, s'.visit q = s.visit q ∧ s'.desk q = s.desk q :=
    fun q => view_congr (hsame.phase q) (by rw [hsame.status]) (hsame.signalled q)
  exact h.congr (fun q => (hview q).1) (fun q => (hview q).2) (fun K i _ => by rw [hsame.values])
    (fun q K i custID => by rw [hsame.phase]; exact id)

theorem handshake_run {started : Process → Bool} {ps : List Process}
    (hproper : Transition.Along (State.step machine) (fun s p => s.proper p = true) (initial started) ps)
    (hrun : Transition.run (State.step machine) (initial started) ps = some s) :
  Handshake s
  := by
  have hboth : Numbered s ∧ Handshake s := by
    refine run_induction machine (I := fun s => Numbered s ∧ Handshake s)
      (P := fun s p r => s.proper p = true ∧ s.asks p = some r)
      ⟨numbered_initial started, handshake_initial started⟩ ?_ ?_
      (hproper.mono fun _ _ hproper _ hasks => ⟨hproper, hasks⟩) hrun
    · exact fun s s' hsame h => ⟨h.1.same hsame, h.2.same hsame⟩
    · rintro s p r t s' hok ⟨hnumbered, h⟩ ⟨hproper, hasks⟩ hasked
      exact ⟨hnumbered.asked hok hasked, h.asked hok hnumbered hproper hasks hasked⟩
  exact hboth.2

/-- The number that a visitor has given to a clerk since it has the lock of the clerk. -/
def numberGiven (K : Kind) (i : ℤ) : List (Request × ℤ) → Option ℤ
  | [] => none
  | (.setMV mv position value, _) :: history =>
      if mv = .clerkToFile K ∧ position = i then some value else numberGiven K i history
  | (.release l, _) :: history => if l = .clerkLock K i then none else numberGiven K i history
  | _ :: history => numberGiven K i history

theorem numberGiven_of_gave (hallowed : Prog.Allowed (Office.next p) (.first p) (s.tasks p).history)
    {K : Kind} {i id : ℤ} (h : (s.phase p).gave = some (K, i, id)) :
  numberGiven K i (s.tasks p).history = some id
  := by
  refine hallowed.invariant (I := fun φ history => φ.gave = some (K, i, id) →
    numberGiven K i history = some id) ?_ ?_ h
  · cases p <;> exact nofun
  · intro φ history r v φ' ih hnext hgave
    obtain rfl | ⟨hgave, hrelease, hset⟩ := gave_next hnext hgave
    · exact if_pos ⟨rfl, rfl⟩
    · have hold := ih hgave
      cases r with
      | setMV mv position value =>
          rw [numberGiven, if_neg, hold]
          rintro ⟨rfl, rfl⟩
          exact hset value rfl
      | release l =>
          rw [numberGiven, if_neg, hold]
          rintro rfl
          exact hrelease rfl
      | _ => exact hold

/-- A customer has come to an application clerk. -/
def atAppClerk : List Process :=
  List.replicate 26 (.customer 0) ++ List.replicate 17 (.clerk .app 0) ++
    List.replicate 10 (.customer 0) ++ List.replicate 3 (.clerk .app 0)

end State

end Nachos.Office
