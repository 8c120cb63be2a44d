import Mathlib.Data.Finset.Card
import Nachos.Office.Steps

/-!
# The numbers of the processes

The processes of a kind get their numbers from a monitor variable, which they read and set with a lock.
No two of them get the same number, and there is an element for each number in the monitor variables
(`numbers_distinct`).
-/

namespace Nachos.Office

/-! ### Numbers and phases -/

/-- The number that a process has read but has not set. -/
def Phase.reading : Phase → Option ℤ
  | .indexed id => some id
  | .printing φ => φ.reading
  | _ => none

/-- The number that a process has got. -/
def Phase.number : Phase → Option ℤ
  | .fresh | .indexing | .indexed _ | .managing _ | .waking _ _ _ | .atEntrance _ | .counting _
  | .collected _ _ _ _ => none
  | .numbered id | .roaming id _ | .outside id _ | .choosing id _ | .debited id | .crediting id
  | .creditRead id _ _ _ | .credited id | .lined id _ _ | .sentAway id | .passed id _ _
  | .arrived id _ _ | .atCounter id _ _ | .given id _ _ | .signalled id _ _ | .paying id _ _
  | .paid id _ | .served id _ _ | .goodbye id _ _ | .posing id _ | .flagging id | .raised id
  | .atDoor id | .entered id | .visiting id | .lining id | .summoned id _ _ | .exiting id
  | .dismissed id | .emptied id | .lowered id | .gone id => some id
  | .free _ i | .looking _ i | .called _ i | .ready _ i | .listening _ i | .awaiting _ i
  | .filing _ i _ | .filed _ i | .charging i | .chargeRead i _ | .charged i | .accounted i
  | .done _ i | .parting _ i | .developing i | .retiring _ i | .resting _ i | .asleep _ i => some i
  | .printing φ => φ.number

/-- The variables from which the processes get their numbers. -/
def isIndex : Variable → Bool
  | .customerIndex | .senatorIndex | .clerkIndex _ => true
  | _ => false

/-- The request has nothing to do with an index. -/
def Request.spares : Request → Prop
  | .setMV mv _ _ | .getMV mv _ => isIndex mv = false
  | _ => True

section

variable {p : Process} {φ φ' : Phase}

theorem Phase.number_start (id : ℤ) :
  (Phase.start id p).number = some id
  := by cases p <;> rfl

theorem Phase.number_back (id : ℤ) :
  (Phase.back id p).number = some id
  := by cases p <;> rfl

theorem Phase.reading_start (id : ℤ) :
  (Phase.start id p).reading = none
  := by cases p <;> rfl

theorem Phase.reading_back (id : ℤ) :
  (Phase.back id p).reading = none
  := by cases p <;> rfl

theorem isIndex_of_guarded {mv : Variable} (h : guarded mv = false) :
  isIndex mv = false
  := by cases mv <;> first | rfl | cases h

theorem isIndex_of_watched {mv : Variable} (h : watched mv = false) :
  isIndex mv = false
  := by cases mv <;> first | rfl | cases h

theorem isIndex_moneyOf :
  isIndex (moneyOf p) = false
  := by cases p <;> rfl

theorem isIndex_of_files {K : Kind} {mv : Variable} (h : files K mv = true) :
  isIndex mv = false
  := by
  revert h
  fun_cases files K mv <;> simp [isIndex]

theorem reading_held {id : ℤ} (h : φ.reading = some id) :
  indexLock p ∈ held p φ
  := by
  induction φ with
  | indexed => exact List.mem_singleton_self _
  | printing φ ih => exact List.mem_cons_of_mem _ (ih h)
  | _ => cases h

theorem reading_asking {id : ℤ} (h : φ.reading = some id) :
  φ.asking p ≠ some (indexLock p)
  := by
  cases φ with
  | indexed => exact nofun
  | printing φ => cases p <;> exact nofun
  | _ => cases h

theorem number_of_reading {id : ℤ} (h : φ.reading = some id) :
  φ.number = none
  := by
  induction φ with
  | indexed => rfl
  | printing φ ih => exact ih h
  | _ => cases h

theorem indexLock_eq {q : Process} (hp : isIndex (indexOf p) = true) (h : indexOf p = indexOf q) :
  indexLock p = indexLock q
  := by
  cases p <;> cases q <;> simp [isIndex, indexOf, indexLock] at hp h ⊢
  exact h

theorem number_next {r : Request} {v : ℤ} (h : next p φ r v = some φ') :
  r.spares ∧ φ'.number = φ.number ∧ φ'.reading = φ.reading ∨
    (φ = .indexing ∧ φ' = .indexed v ∧ r = .getMV (indexOf p) 0) ∨
    ∃ id, φ = .indexed id ∧ φ' = .numbered id ∧ r = .setMV (indexOf p) 0 (id + 1)
  := by
  refine next_cases (M := fun φ r v φ' =>
    r.spares ∧ φ'.number = φ.number ∧ φ'.reading = φ.reading ∨
      (φ = .indexing ∧ φ' = .indexed v ∧ r = .getMV (indexOf p) 0) ∨
      ∃ id, φ = .indexed id ∧ φ' = .numbered id ∧ r = .setMV (indexOf p) 0 (id + 1))
    ?_ ?_ ?_ ?_ ?_ ?_ ?_ ?_ ?_ h
  · exact fun _ _ _ => .inl ⟨trivial, rfl, rfl⟩
  · exact fun _ _ _ => .inl ⟨trivial, rfl, rfl⟩
  · intro φ l v φ' h
    refine .inl ⟨trivial, ?_⟩
    revert h
    fun_cases onAcquire p φ l <;> intro h <;> simp at h <;> grind [Phase.number, Phase.reading]
  · intro φ l v φ' h
    refine .inl ⟨trivial, ?_⟩
    revert h
    fun_cases onRelease p φ l <;> intro h <;> simp at h <;>
      grind [Phase.number, Phase.reading, Phase.number_start, Phase.number_back, Phase.reading_start,
        Phase.reading_back]
  · intro φ c v φ' h
    refine .inl ⟨trivial, ?_⟩
    revert h
    fun_cases onWait φ c <;> intro h <;> simp at h <;> grind [Phase.number, Phase.reading]
  · intro φ c v φ' h
    refine .inl ⟨trivial, ?_⟩
    revert h
    fun_cases onSignal φ c <;> intro h <;> simp at h <;> grind [Phase.number, Phase.reading]
  · intro φ c v φ' h
    refine .inl ⟨trivial, ?_⟩
    revert h
    fun_cases onBroadcast φ c <;> intro h <;> simp at h <;> grind [Phase.number, Phase.reading]
  · intro φ mv position value v φ'
    fun_cases onSet p φ mv position value <;> intro h <;> simp at h <;>
      grind [Phase.number, Phase.reading, Request.spares, isIndex, isIndex_of_guarded,
        isIndex_of_files, isIndex_moneyOf]
  · intro φ mv position v φ'
    fun_cases onGet p φ mv position v <;> intro h <;> simp at h <;>
      grind [Phase.number, Phase.reading, Request.spares, isIndex, isIndex_of_watched,
        isIndex_moneyOf]

end

/-! ### The processes of a kind -/

/-- The processes that get their numbers from a variable. -/
def group : Variable → Finset Process
  | .customerIndex => (Finset.range NUM_CUSTOMERS).image .customer
  | .senatorIndex => (Finset.range NUM_SENATORS).image .senator
  | .clerkIndex K => (Finset.range (numClerks K)).image (.clerk K)
  | _ => ∅

/-- How many processes get their numbers from a variable. -/
def population : Variable → ℕ
  | .customerIndex => NUM_CUSTOMERS
  | .senatorIndex => NUM_SENATORS
  | .clerkIndex K => numClerks K
  | _ => 0

theorem mem_group {x : Variable} {p : Process} (hx : isIndex x = true) :
  p ∈ group x ↔ State.fits p = true ∧ indexOf p = x
  := by
  cases p <;> cases x <;> simp [isIndex, group, State.fits, indexOf] at hx ⊢
  grind

theorem card_group_le (x : Variable) :
  (group x).card ≤ population x
  := by
  cases x <;> simp only [group, population, Finset.card_empty, le_refl] <;>
    exact Finset.card_image_le.trans (Finset.card_range _).le

theorem population_lt (x : Variable) :
  population x < 128
  := by
  cases x with
  | customerIndex | senatorIndex => decide
  | clerkIndex K => cases K <;> decide
  | _ => exact Nat.zero_lt_succ _

theorem char_eq {n : ℤ} (h : 0 ≤ n) (hlt : n < 128) :
  State.char n = n
  := by
  rw [State.char, Int.bmod_eq_of_le] <;> omega

theorem inRange_zero {x : Variable} (h : isIndex x = true) :
  State.inRange x 0 = true
  := by cases x <;> first | rfl | cases h

namespace State

variable {machine : Process → ℕ} {s s' t : State} {p q : Process}

/-- The processes that have got their numbers from a variable. -/
def counted (s : State) (x : Variable) : Finset Process :=
  (group x).filter (fun p => (s.phase p).number.isSome)

/-- The processes have got the numbers from `0` on. -/
structure Numbered (s : State) : Prop where
  reading : ∀ p id, isIndex (indexOf p) → (s.phase p).reading = some id → s.values (indexOf p) 0 = id
  count : ∀ x, isIndex x → s.values x 0 = (s.counted x).card
  bounds : ∀ p a, isIndex (indexOf p) → (s.phase p).number = some a →
    0 ≤ a ∧ a < s.values (indexOf p) 0
  distinct : ∀ p q a, isIndex (indexOf p) → indexOf p = indexOf q → (s.phase p).number = some a →
    (s.phase q).number = some a → p = q

theorem numbered_congr (h : Numbered s) (hphase : ∀ q, (s'.phase q).number = (s.phase q).number ∧
    (s'.phase q).reading = (s.phase q).reading) (hvalues : ∀ x, isIndex x → s'.values x 0 = s.values x 0) :
  Numbered s'
  := by
  have hcounted : ∀ x, s'.counted x = s.counted x := by
    intro x
    simp only [counted, (hphase _).1]
  constructor
  · intro p id hp hid
    rw [(hphase p).2] at hid
    rw [hvalues _ hp]
    exact h.reading p id hp hid
  · intro x hx
    rw [hvalues x hx, hcounted]
    exact h.count x hx
  · intro p a hp ha
    rw [(hphase p).1] at ha
    rw [hvalues _ hp]
    exact h.bounds p a hp ha
  · intro p q a hp hpq ha hb
    rw [(hphase p).1] at ha
    rw [(hphase q).1] at hb
    exact h.distinct p q a hp hpq ha hb

theorem Numbered.value_le (h : Numbered s) {x : Variable} (hx : isIndex x = true) :
  s.values x 0 ≤ population x
  := by
  rw [h.count x hx]
  exact_mod_cast (Finset.card_filter_le _ _).trans (card_group_le x)

theorem Numbered.number_lt (h : Numbered s) (hp : isIndex (indexOf p) = true) {a : ℤ}
    (ha : (s.phase p).number = some a) :
  0 ≤ a ∧ a < population (indexOf p)
  := by
  have hbounds := h.bounds p a hp ha
  have hle := h.value_le hp
  omega

/-- Requests that have nothing to do with an index. -/
theorem stored_of_spares {r : Request} (h : r.spares) {x : Variable} (hx : isIndex x = true) (i : ℤ) :
  s.stored r x i = s.values x i
  := by
  apply stored_of_ne
  rintro position value rfl
  rw [Request.spares, hx] at h
  cases h

/-- Only one process has read the index and has not set it. -/
theorem Ok.reading_unique (h : Ok s) {a b : ℤ} (hp : (s.phase p).reading = some a)
    (hq : (s.phase q).reading = some b) (hpq : indexLock p = indexLock q) :
  p = q
  := by
  have howner := h.owner (reading_held hp) (.inr (reading_asking hp))
  rw [hpq, h.owner (reading_held hq) (.inr (reading_asking hq))] at howner
  exact (Option.some.inj howner).symm

/-- A process that reads the index is not among those that have got their numbers. -/
theorem Numbered.reading_lt (h : Numbered s) (hfits : fits p = true) (hp : isIndex (indexOf p) = true)
    {id : ℤ} (hreading : (s.phase p).reading = some id) :
  0 ≤ id ∧ id < population (indexOf p)
  := by
  have hcount := h.count _ hp
  rw [h.reading p id hp hreading] at hcount
  have hlt : (s.counted (indexOf p)).card < (group (indexOf p)).card := by
    apply Finset.card_lt_card
    apply Finset.filter_ssubset.mpr
    exact ⟨p, (mem_group hp).mpr ⟨hfits, rfl⟩, by simp [number_of_reading hreading]⟩
  have hle := card_group_le (indexOf p)
  omega

/-- A process that has read the index makes it one more. -/
theorem Numbered.stored_eq (h : Numbered s) (hfits : fits p = true) {id : ℤ}
    (hφ : s.phase p = .indexed id) {x : Variable} (hx : isIndex x = true) :
  s.stored (.setMV (indexOf p) 0 (id + 1)) x 0 = if x = indexOf p then id + 1 else s.values x 0
  := by
  by_cases heq : x = indexOf p
  · subst heq
    have hlt := h.reading_lt hfits hx (by rw [hφ]; rfl)
    have hpopulation := population_lt (indexOf p)
    rw [stored, if_pos (inRange_zero hx), if_pos rfl]
    change (if _ then char (id + 1) else _) = _
    rw [if_pos ⟨rfl, rfl⟩, char_eq (by omega) (by omega)]
  · rw [stored, if_neg heq]
    split
    · exact if_neg fun hsame => heq hsame.1
    · rfl

/-- A process sets its index. -/
theorem Numbered.counts (h : Numbered s) (hok : Ok s) {id : ℤ}
    (hasked : Asked machine s p (.setMV (indexOf p) 0 (id + 1)) t s') (hφ : s.phase p = .indexed id)
    (hφ' : s'.phase p = .numbered id) :
  Numbered s'
  := by
  have hphase := hasked.phase
  have hvalues : ∀ x, isIndex x → s'.values x 0 = if x = indexOf p then id + 1 else s.values x 0 := by
    intro x hx
    rw [hasked.values]
    exact h.stored_eq hasked.room hφ hx
  have hnone : (s.phase p).number = none := by rw [hφ]; rfl
  have hreading : (s.phase p).reading = some id := by rw [hφ]; rfl
  have hnumber : (s'.phase p).number = some id := by rw [hφ']; rfl
  have hid : isIndex (indexOf p) → s.values (indexOf p) 0 = id := fun hx => h.reading p id hx hreading
  constructor
  · intro q a hq ha
    have hqp : q ≠ p := by
      rintro rfl
      rw [hφ'] at ha
      cases ha
    rw [hphase q hqp] at ha
    rw [hvalues _ hq, if_neg, h.reading q a hq ha]
    intro hsame
    exact hqp (hok.reading_unique ha hreading (indexLock_eq hq hsame))
  · intro x hx
    rw [hvalues x hx]
    by_cases heq : x = indexOf p
    · subst heq
      have hinsert : s'.counted (indexOf p) = insert p (s.counted (indexOf p)) := by
        ext q
        have hmem := mem_group (p := p) hx
        by_cases hqp : q = p
        · simp [counted, hqp, hnumber, hmem, hasked.room]
        · simp [counted, hqp, hphase q hqp]
      have hnot : p ∉ s.counted (indexOf p) := by simp [counted, hnone]
      rw [if_pos rfl, hinsert, Finset.card_insert_of_notMem hnot, ← hid hx, h.count _ hx]
      push_cast
      rfl
    · have hsame : s'.counted x = s.counted x := by
        ext q
        by_cases hqp : q = p
        · rw [hqp]
          have hmem := mem_group (p := p) hx
          simp [counted, hmem, Ne.symm heq]
        · simp [counted, hphase q hqp]
      rw [if_neg heq, hsame]
      exact h.count x hx
  · intro q a hq ha
    rw [hvalues _ hq]
    by_cases hqp : q = p
    · subst hqp
      have hcount := h.count _ hq
      rw [hid hq] at hcount
      rw [hnumber] at ha
      obtain rfl := Option.some.inj ha
      rw [if_pos rfl]
      omega
    · rw [hphase q hqp] at ha
      have hbounds := h.bounds q a hq ha
      split
      · rename_i hsame
        rw [hsame, hid (hsame ▸ hq)] at hbounds
        omega
      · exact hbounds
  · intro q q' a hq heq ha ha'
    have hfresh : ∀ u, u ≠ p → indexOf u = indexOf p → isIndex (indexOf p) →
        (s.phase u).number ≠ some id := by
      intro u hu hsame hx hnumber
      have hbounds := h.bounds u id (hsame ▸ hx) hnumber
      rw [hsame, hid hx] at hbounds
      omega
    by_cases hqp : q = p
    · by_cases hqp' : q' = p
      · rw [hqp, hqp']
      · rw [hphase q' hqp'] at ha'
        rw [hqp] at ha heq hq
        rw [hnumber] at ha
        rw [← ha] at ha'
        exact absurd ha' (hfresh q' hqp' heq.symm hq)
    · rw [hphase q hqp] at ha
      by_cases hqp' : q' = p
      · rw [hqp'] at ha' heq
        rw [hnumber] at ha'
        rw [← ha'] at ha
        exact absurd ha (hfresh q hqp heq (heq ▸ hq))
      · rw [hphase q' hqp'] at ha'
        exact h.distinct q q' a hq heq ha ha'

theorem Numbered.asked (h : Numbered s) (hok : Ok s) {r : Request} (hasked : Asked machine s p r t s') :
  Numbered s'
  := by
  have hphase := hasked.phase
  rcases number_next hasked.next with ⟨hspares, hnumber, hreading⟩ | ⟨hφ, hφ', rfl⟩ |
      ⟨id, hφ, hφ', rfl⟩
  · apply numbered_congr h
    · intro q
      by_cases hq : q = p
      · rw [hq]
        exact ⟨hnumber, hreading⟩
      · rw [hphase q hq]
        exact ⟨rfl, rfl⟩
    · intro x hx
      rw [hasked.values, stored_of_spares hspares hx]
  · have hp : (s.phase p).number = none ∧ (s'.phase p).number = none := by simp [hφ, hφ', Phase.number]
    have hnumber : ∀ q, (s'.phase q).number = (s.phase q).number := by
      intro q
      by_cases hq : q = p
      · rw [hq, hp.1, hp.2]
      · rw [hphase q hq]
    have hvalues : s'.values = s.values := hasked.values
    constructor
    · intro q id hq hid
      rw [hvalues]
      by_cases hqp : q = p
      · rw [hqp] at hid hq ⊢
        rw [hφ', reply, if_pos (inRange_zero hq), char_eq (by decide) (by decide)] at hid
        exact Option.some.inj hid
      · rw [hphase q hqp] at hid
        exact h.reading q id hq hid
    · intro x hx
      have hcounted : s'.counted x = s.counted x := by simp only [counted, hnumber]
      rw [hvalues, hcounted]
      exact h.count x hx
    · intro q a hq ha
      rw [hnumber] at ha
      rw [hvalues]
      exact h.bounds q a hq ha
    · intro q q' a hq heq ha ha'
      rw [hnumber] at ha ha'
      exact h.distinct q q' a hq heq ha ha'
  · exact h.counts hok hasked hφ hφ'

theorem numbered_initial (started : Process → Bool) :
  Numbered (initial started)
  := by
  have hphase : ∀ p, ((initial started).phase p).number = none ∧
      ((initial started).phase p).reading = none := by
    intro p
    cases p <;> exact ⟨rfl, rfl⟩
  have hcounted : ∀ x, (initial started).counted x = ∅ := by
    intro x
    simp [counted, hphase]
  constructor
  · intro p id hp hid
    rw [(hphase p).2] at hid
    cases hid
  · intro x hx
    rw [hcounted]
    rfl
  · intro p a hp ha
    rw [(hphase p).1] at ha
    cases ha
  · intro p q a hp heq ha
    rw [(hphase p).1] at ha
    cases ha

theorem Numbered.same (h : Numbered s) (hsame : Same s s') :
  Numbered s'
  := numbered_congr h (fun q => by rw [hsame.phase]; exact ⟨rfl, rfl⟩) (fun x _ => by rw [hsame.values])

theorem numbered_run {started : Process → Bool} {ps : List Process}
    (hrun : Transition.run (State.step machine) (initial started) ps = some s) :
  Numbered s
  := by
  refine run_induction machine (I := Numbered) (P := fun _ _ _ => True) (numbered_initial started)
    ?_ ?_ (Transition.along_of_forall (fun _ _ _ _ => trivial) _ _) hrun
  · exact fun s s' hsame h => h.same hsame
  · intro s p r t s' hok h _ hasked
    exact h.asked hok hasked

/-- The number that a process has read is the one of its phase. -/
theorem number_of_mem (hallowed : Prog.Allowed (Office.next p) (.first p) (s.tasks p).history)
    (hp : isIndex (indexOf p) = true) {v : ℤ}
    (hmem : (.getMV (indexOf p) 0, v) ∈ (s.tasks p).history) :
  (s.phase p).reading = some v ∨ (s.phase p).number = some v
  := by
  refine hallowed.invariant (I := fun φ history => ∀ v, (.getMV (indexOf p) 0, v) ∈ history →
    φ.reading = some v ∨ φ.number = some v) ?_ ?_ v hmem
  · exact fun _ h => absurd h List.not_mem_nil
  · intro φ history r w φ' ih hnext v hmem
    obtain heq | hmem := List.mem_cons.mp hmem
    · obtain ⟨rfl, rfl⟩ := Prod.mk.inj heq
      rcases number_next hnext with ⟨hspares, -⟩ | ⟨-, rfl, -⟩ | ⟨id, -, -, hr⟩
      · rw [Request.spares, hp] at hspares
        cases hspares
      · exact .inl rfl
      · cases hr
    · have hold := ih v hmem
      rcases number_next hnext with ⟨-, hnumber, hreading⟩ | ⟨rfl, -, -⟩ | ⟨id, rfl, rfl, -⟩
      · rw [hnumber, hreading]
        exact hold
      · obtain h | h := hold <;> cases h
      · obtain h | h := hold
        · exact .inr h
        · cases h

theorem mem_of_number (hallowed : Prog.Allowed (Office.next p) (.first p) (s.tasks p).history)
    {v : ℤ} (h : (s.phase p).number = some v) :
  (.getMV (indexOf p) 0, v) ∈ (s.tasks p).history
  := by
  refine hallowed.invariant (I := fun φ history => φ.reading = some v ∨ φ.number = some v →
    (.getMV (indexOf p) 0, v) ∈ history) ?_ ?_ (.inr h)
  · cases p <;> exact fun h => h.elim nofun nofun
  · intro φ history r w φ' ih hnext h
    rcases number_next hnext with ⟨-, hnumber, hreading⟩ | ⟨-, rfl, rfl⟩ | ⟨id, rfl, rfl, -⟩
    · rw [hnumber, hreading] at h
      exact List.mem_cons_of_mem _ (ih h)
    · obtain h | h := h
      · obtain rfl := Option.some.inj h
        exact List.mem_cons_self
      · cases h
    · obtain h | h := h
      · cases h
      · exact List.mem_cons_of_mem _ (ih (.inl h))

/-- A process that has done something fits. -/
theorem Ok.fits (h : Ok s) {e : Request × ℤ} (hmem : e ∈ (s.tasks p).history) :
  fits p = true
  := by
  rw [← Bool.not_eq_false]
  intro hfits
  rw [(h.room p hfits).2] at hmem
  exact List.not_mem_nil hmem

/-- The customers, the senators and the clerks of each kind get different numbers, which are less than
the number of processes of the kind. -/
theorem numbers_distinct (started : Process → Bool) (ps : List Process) (s : State)
    (hrun : Transition.run (State.step machine) (initial started) ps = some s) (p q : Process) (v : ℤ)
    (hp : p ≠ .manager) (hv : (.getMV (indexOf p) 0, v) ∈ (s.tasks p).history) :
  0 ≤ v ∧ v < population (indexOf p) ∧
    (indexOf q = indexOf p → (.getMV (indexOf q) 0, v) ∈ (s.tasks q).history → q = p)
  := by
  have hok := ok_run machine hrun
  have h := numbered_run hrun
  have hindex : isIndex (indexOf p) = true := by cases p <;> first | rfl | exact absurd rfl hp
  have hfits := hok.fits hv
  have hnumber := number_of_mem (hok.followed.allowed p) hindex hv
  have hbounds : 0 ≤ v ∧ v < population (indexOf p) := by
    obtain hreading | hnumber := hnumber
    · exact h.reading_lt hfits hindex hreading
    · exact h.number_lt hindex hnumber
  refine ⟨hbounds.1, hbounds.2, fun heq hv' => ?_⟩
  have hnumber' := number_of_mem (hok.followed.allowed q) (heq ▸ hindex) hv'
  rcases hnumber with hreading | hnumber <;> rcases hnumber' with hreading' | hnumber'
  · exact hok.reading_unique hreading' hreading (indexLock_eq (heq ▸ hindex) heq)
  · have hlt := h.bounds q v (heq ▸ hindex) hnumber'
    rw [heq, h.reading p v hindex hreading] at hlt
    omega
  · have hlt := h.bounds p v hindex hnumber
    rw [← heq, h.reading q v (heq ▸ hindex) hreading'] at hlt
    omega
  · exact h.distinct q p v (heq ▸ hindex) heq hnumber' hnumber

/-- Two customers have been started, and the second one to come gets the number 1. -/
theorem numbers_distinct_two :
  ∃ s, Transition.run (State.step fun _ => 0) (initial fun _ => true)
      (List.replicate 4 (.customer 2) ++ List.replicate 2 (.customer 1)) = some s ∧
    (.getMV .customerIndex 0, 1) ∈ (s.tasks (.customer 1)).history ∧ 1 < population .customerIndex ∧
    ∀ q, indexOf q = .customerIndex → (.getMV .customerIndex 0, 1) ∈ (s.tasks q).history →
      q = .customer 1
  := by
  have hdata : (Transition.run (State.step fun _ => 0) (initial fun _ => true)
      (List.replicate 4 (.customer 2) ++ List.replicate 2 (.customer 1))).map
      (fun s => decide ((.getMV .customerIndex 0, 1) ∈ (s.tasks (.customer 1)).history)) =
      some true := by decide +kernel
  obtain ⟨s, hrun, heq⟩ := Option.map_eq_some_iff.mp hdata
  have hmem := of_decide_eq_true heq
  refine ⟨s, hrun, hmem, by decide, fun q hq hv => ?_⟩
  exact (numbers_distinct (fun _ => true) _ s hrun (.customer 1) q 1 (by decide) hmem).2.2 hq (hq ▸ hv)

end State

end Nachos.Office
