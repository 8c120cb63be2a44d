import Mathlib.Tactic.Common
import Nachos.Office.Steps

/-!
# Senators

While a senator is inside, no customer should be at a counter. That depends on the manager, which lets
the senator in: if it does so only when no customer has passed the flag of the senator, the senator is
alone (`senators_alone`).
-/

namespace Nachos.Office

/-! ### Where a visitor is -/

/-- A senator has been let in, or waits for that, and has not been dismissed. -/
def Phase.inside (p : Process) : Phase → Bool
  | .entered _ | .visiting _ | .lining _ | .summoned _ _ _ | .exiting _ => true
  | .arrived _ _ _ | .atCounter _ _ _ | .given _ _ _ | .signalled _ _ _ | .paying _ _ _ | .paid _ _
  | .served _ _ _ | .goodbye _ _ _ | .posing _ _ => isSenator p
  | .printing φ => φ.inside p
  | _ => false

/-- A senator has set `senatorFlag`. -/
def Phase.flagged (p : Process) : Phase → Bool
  | .raised _ | .atDoor _ | .dismissed _ | .emptied _ => true
  | .printing φ => φ.flagged p
  | φ => φ.inside p

/-- A visitor has found `senatorFlag` lowered when it came out of a line, or was summoned, and has not
left the counter. -/
def Phase.past : Phase → Bool
  | .passed _ _ _ | .arrived _ _ _ | .atCounter _ _ _ | .given _ _ _ | .signalled _ _ _ | .paying _ _ _
  | .paid _ _ | .served _ _ _ | .goodbye _ _ _ | .posing _ _ => true
  | .printing φ => φ.past
  | _ => false

/-- Whether a senator is inside after a request. -/
def Request.enters (before : Bool) : Request → Bool
  | .wait c _ => c = .customerCV || before
  | .broadcast c _ => c ≠ .senatorCV && before
  | _ => before

section

variable {p : Process} {φ φ' : Phase} {r : Request} {v : ℤ}

theorem Phase.inside_start (id : ℤ) :
  (Phase.start id p).inside p = false
  := by cases p <;> rfl

theorem Phase.inside_back (id : ℤ) :
  (Phase.back id p).inside p = isSenator p
  := by cases p <;> rfl

theorem inside_next (h : next p φ r v = some φ') :
  φ'.inside p = r.enters (φ.inside p)
  := by
  refine next_cases (M := fun φ r _ φ' => φ'.inside p = r.enters (φ.inside p))
    ?_ ?_ ?_ ?_ ?_ ?_ ?_ ?_ ?_ h
  · exact fun _ _ _ => rfl
  · exact fun _ _ _ => rfl
  · intro φ l v φ'
    fun_cases onAcquire p φ l <;> intro h <;> simp at h <;> grind [Phase.inside, Request.enters]
  · intro φ l v φ'
    fun_cases onRelease p φ l <;> intro h <;> simp at h <;>
      grind [Phase.inside, Request.enters, Phase.inside_start, Phase.inside_back]
  · intro φ c v φ'
    fun_cases onWait φ c <;> intro h <;> simp at h <;> grind [Phase.inside, Request.enters]
  · intro φ c v φ'
    fun_cases onSignal φ c <;> intro h <;> simp at h <;> grind [Phase.inside, Request.enters]
  · intro φ c v φ'
    fun_cases onBroadcast φ c <;> intro h <;> simp at h <;> grind [Phase.inside, Request.enters]
  · intro φ mv position value v φ'
    fun_cases onSet p φ mv position value <;> intro h <;> simp at h <;>
      grind [Phase.inside, Request.enters]
  · intro φ mv position v φ'
    fun_cases onGet p φ mv position v <;> intro h <;> simp at h <;>
      grind [Phase.inside, Request.enters]

theorem Phase.flagged_start (id : ℤ) :
  (Phase.start id p).flagged p = false
  := by cases p <;> rfl

theorem Phase.flagged_back (id : ℤ) :
  (Phase.back id p).flagged p = isSenator p
  := by cases p <;> rfl

theorem flagged_of_inside (h : φ.inside p = true) :
  φ.flagged p = true
  := by
  induction φ with
  | printing φ ih => exact ih h
  | raised | atDoor | dismissed | emptied => rfl
  | _ => exact h

/-- A senator that has set the flag has the lock for it. -/
theorem held_of_flagged (h : φ.flagged p = true) :
  .senatorLock ∈ held p φ ∧ φ.asking p ≠ some .senatorLock
  := by
  induction φ with
  | printing φ ih => exact ⟨List.mem_cons_of_mem _ (ih h).1, nofun⟩
  | _ =>
      simp only [Phase.flagged, Phase.inside, Bool.false_eq_true] at h
      all_goals simp [held, visitorLocks, Phase.asking, h]

theorem indexOf_ne :
  indexOf p ≠ .senatorFlag
  := by cases p <;> exact nofun

theorem moneyOf_ne :
  moneyOf p ≠ .senatorFlag
  := by cases p <;> exact nofun

theorem flagged_onSet {mv : Variable} {position value : ℤ}
    (h : onSet p φ mv position value = some φ') :
  mv ≠ .senatorFlag ∧ φ'.flagged p = φ.flagged p ∨
    (mv = .senatorFlag ∧ position = 0 ∧ value = 1) ∧ φ'.flagged p = true ∨
    (mv = .senatorFlag ∧ position = 0 ∧ value = 0) ∧ φ.flagged p = true ∧ φ'.flagged p = false
  := by
  revert h
  fun_cases onSet p φ mv position value <;> intro h <;> simp at h <;>
    grind [Phase.inside, Phase.flagged, guarded, files, moneyOf_ne, indexOf_ne]

/-- The flag is set when a senator comes and when it goes. -/
theorem flagged_next (h : next p φ r v = some φ') :
  (∀ position value, r ≠ .setMV .senatorFlag position value) ∧ φ'.flagged p = φ.flagged p ∨
    r = .setMV .senatorFlag 0 1 ∧ φ'.flagged p = true ∨
    r = .setMV .senatorFlag 0 0 ∧ φ.flagged p = true ∧ φ'.flagged p = false
  := by
  refine next_cases (M := fun φ r _ φ' =>
    (∀ position value, r ≠ .setMV .senatorFlag position value) ∧ φ'.flagged p = φ.flagged p ∨
    r = .setMV .senatorFlag 0 1 ∧ φ'.flagged p = true ∨
    r = .setMV .senatorFlag 0 0 ∧ φ.flagged p = true ∧ φ'.flagged p = false)
    ?_ ?_ ?_ ?_ ?_ ?_ ?_ ?_ ?_ h
  · exact fun _ _ _ => .inl ⟨nofun, rfl⟩
  · exact fun _ _ _ => .inl ⟨nofun, rfl⟩
  · intro φ l v φ'
    fun_cases onAcquire p φ l <;> intro h <;> simp at h <;> grind [Phase.inside, Phase.flagged]
  · intro φ l v φ'
    fun_cases onRelease p φ l <;> intro h <;> simp at h <;>
      grind [Phase.inside, Phase.flagged, Phase.flagged_start, Phase.flagged_back]
  · intro φ c v φ'
    fun_cases onWait φ c <;> intro h <;> simp at h <;> grind [Phase.inside, Phase.flagged]
  · intro φ c v φ'
    fun_cases onSignal φ c <;> intro h <;> simp at h <;> grind [Phase.inside, Phase.flagged]
  · intro φ c v φ'
    fun_cases onBroadcast φ c <;> intro h <;> simp at h <;> grind [Phase.inside, Phase.flagged]
  · intro φ mv position value v φ' h
    rcases flagged_onSet h with ⟨hmv, hsame⟩ | ⟨⟨rfl, rfl, rfl⟩, hflagged⟩ |
        ⟨⟨rfl, rfl, rfl⟩, hflagged⟩
    · exact .inl ⟨fun _ _ heq => hmv (by injection heq), hsame⟩
    · exact .inr (.inl ⟨rfl, hflagged⟩)
    · exact .inr (.inr ⟨rfl, hflagged⟩)
  · intro φ mv position v φ'
    fun_cases onGet p φ mv position v <;> intro h <;> simp at h <;>
      grind [Phase.inside, Phase.flagged]

theorem Phase.past_start (id : ℤ) :
  (Phase.start id p).past = false
  := by cases p <;> rfl

theorem Phase.past_back (id : ℤ) :
  (Phase.back id p).past = false
  := by cases p <;> rfl

/-- A customer passes when it finds the flag lowered. -/
theorem past_next (hp : isSenator p = false) (h : next p φ r v = some φ') :
  φ'.past = true → φ.past = true ∨ r = .getMV .senatorFlag 0 ∧ v ≠ 1
  := by
  refine next_cases (M := fun φ r v φ' =>
    φ'.past = true → φ.past = true ∨ r = .getMV .senatorFlag 0 ∧ v ≠ 1)
    ?_ ?_ ?_ ?_ ?_ ?_ ?_ ?_ ?_ h
  · exact fun _ _ _ => .inl
  · exact fun _ _ _ => .inl
  · intro φ l v φ'
    fun_cases onAcquire p φ l <;> intro h <;> simp at h <;> grind [Phase.past]
  · intro φ l v φ'
    fun_cases onRelease p φ l <;> intro h <;> simp at h <;>
      grind [Phase.past, Phase.past_start, Phase.past_back]
  · intro φ c v φ'
    fun_cases onWait φ c <;> intro h <;> simp at h <;> grind [Phase.past]
  · intro φ c v φ'
    fun_cases onSignal φ c <;> intro h <;> simp at h <;> grind [Phase.past]
  · intro φ c v φ'
    fun_cases onBroadcast φ c <;> intro h <;> simp at h <;> grind [Phase.past]
  · intro φ mv position value v φ'
    fun_cases onSet p φ mv position value <;> intro h <;> simp at h <;> grind [Phase.past]
  · intro φ mv position v φ'
    fun_cases onGet p φ mv position v <;> intro h <;> simp at h <;> grind [Phase.past]

/-- A customer with the lock of a clerk is past the flag. -/
theorem past_of_held {n : ℕ} {K : Kind} {i : ℤ} (h : φ.suits (.customer n) = true)
    (hheld : .clerkLock K i ∈ held (.customer n) φ) :
  φ.past = true
  := by
  induction φ with
  | printing φ ih =>
      obtain heq | hmem := List.mem_cons.mp hheld
      · cases heq
      · exact ih h hmem
  | _ =>
      first
      | rfl
      | cases h; done
      | simp [held, indexLock] at hheld

end

namespace State

variable {machine : Process → ℕ} {s s' t : State} {p q : Process}

/-- Whether a senator has waited for the manager and has not dismissed the customers that are outside
since. -/
def visiting : List (Request × ℤ) → Bool
  | [] => false
  | (r, _) :: history => r.enters (visiting history)

/-- A senator has been let in and has not left. -/
def Inside (s : State) (p : Process) : Prop :=
  visiting (s.tasks p).history = true ∧ (s.tasks p).status ≠ .atCondition .customerCV

/-- A process has acquired the lock of a clerk and has not released it. -/
def AtCounter (s : State) (p : Process) : Prop :=
  ∃ K i, acquired (.clerkLock K i) (s.tasks p).history = true

/-- No customer has passed the flag of a senator without having left the counter. -/
def Cleared (s : State) : Prop := ∀ n < NUM_CUSTOMERS, (s.phase (.customer n)).past = false

/-- If the step of the process lets a senator in, no customer has passed. -/
def LetsIn (s : State) (p : Process) : Prop :=
  s.asks p = some (.signal .customerCV .outsideLock) → (s.conditions .customerCV).waitQueue ≠ [] →
    s.Cleared

instance (s : State) : Decidable s.Cleared :=
  inferInstanceAs (Decidable (∀ n < NUM_CUSTOMERS, (s.phase (.customer n)).past = false))

instance (s : State) (p : Process) : Decidable (s.LetsIn p) :=
  inferInstanceAs (Decidable (s.asks p = some _ → (s.conditions .customerCV).waitQueue ≠ [] →
    s.Cleared))

theorem visiting_eq (h : Prog.Allowed (Office.next p) (.first p) (s.tasks p).history) :
  visiting (s.tasks p).history = (s.phase p).inside p
  := by
  refine h.invariant (I := fun φ history => visiting history = φ.inside p) ?_ ?_
  · cases p <;> rfl
  · intro φ history r v φ' ih hnext
    rw [visiting, ih, inside_next hnext]

/-- Customers that have not been started have not passed. -/
theorem Cleared.past (hcleared : s.Cleared) (h : Ok s) (n : ℕ) :
  (s.phase (.customer n)).past = false
  := by
  by_cases hn : n < NUM_CUSTOMERS
  · exact hcleared n hn
  · have hroom := (h.room (.customer n) (decide_eq_false hn)).2
    rw [phase, hroom]
    rfl

structure Alone (s : State) : Prop where
  flag : ∀ p, (s.phase p).flagged p = true → s.values .senatorFlag 0 = 1
  alone : ∀ p n, Inside s p → (s.phase (.customer n)).past = false

theorem Alone.congr (h : Alone s) (hsame : Same s s') :
  Alone s'
  := by
  constructor
  · intro p hp
    rw [hsame.phase] at hp
    rw [hsame.values]
    exact h.flag p hp
  · intro p n hp
    rw [Inside, hsame.history, hsame.status] at hp
    rw [hsame.phase]
    exact h.alone p n hp

/-- A senator that is inside has set the flag. -/
theorem Alone.flag_of_inside (h : Alone s) (hok : Ok s) (hp : Inside s p) :
  s.values .senatorFlag 0 = 1
  := by
  apply h.flag p
  apply flagged_of_inside
  rw [← visiting_eq (hok.followed.allowed p)]
  exact hp.1

theorem flag_asked (h : ∀ p, (s.phase p).flagged p = true → s.values .senatorFlag 0 = 1) (hok : Ok s)
    {r : Request} (hasked : Asked machine s p r t s') (hq : (s'.phase q).flagged q = true) :
  s'.values .senatorFlag 0 = 1
  := by
  have howner : ∀ u, (s.phase u).flagged u = true → (s.locks .senatorLock).owner = some u := by
    intro u hu
    obtain ⟨hheld, hasking⟩ := held_of_flagged hu
    exact hok.owner hheld (.inr hasking)
  have hold : q ≠ p → (s.phase q).flagged q = true := by
    intro hqp
    rwa [hasked.phase q hqp] at hq
  rw [hasked.values]
  rcases flagged_next hasked.next with ⟨hne, hsame⟩ | ⟨rfl, -⟩ | ⟨rfl, hp, hp'⟩
  · rw [stored_of_ne hne]
    by_cases hqp : q = p
    · rw [hqp, hsame] at hq
      exact h p hq
    · exact h q (hold hqp)
  · rfl
  · by_cases hqp : q = p
    · rw [hqp, hp'] at hq
      cases hq
    · have heq := howner q (hold hqp)
      rw [howner p hp] at heq
      exact absurd (Option.some.inj heq).symm hqp

/-- A senator comes in when the manager signals it. -/
theorem inside_asked (hok : Ok s) {r : Request} (hasked : Asked machine s p r t s')
    (hq : Inside s' q) :
  Inside s q ∨ r = .signal .customerCV .outsideLock ∧ (s.conditions .customerCV).waitQueue ≠ []
  := by
  obtain ⟨hvisiting, hstatus⟩ := hq
  by_cases hqp : q = p
  · left
    subst hqp
    rw [hasked.history, visiting] at hvisiting
    refine ⟨?_, by simp [hasked.ready]⟩
    cases r with
    | wait c l =>
        by_cases hc : c = .customerCV
        · rw [hc] at hasked
          exact absurd hasked.waits hstatus
        · simpa [Request.enters, hc] using hvisiting
    | broadcast c l => exact (Bool.and_eq_true_iff.mp hvisiting).2
    | _ => exact hvisiting
  · rw [hasked.histories q hqp] at hvisiting
    by_cases hwaits : (s.tasks q).status = .atCondition .customerCV
    · rcases hasked.waiting machine hok hwaits with ⟨hsame, -⟩ | ⟨-, ⟨rfl, hhead, -⟩ | ⟨rfl, -⟩⟩
      · exact absurd hsame hstatus
      · right
        refine ⟨rfl, fun hnil => ?_⟩
        rw [hnil] at hhead
        cases hhead
      · have hnext := hasked.next
        rw [Office.next, if_pos rfl] at hnext
        revert hnext
        fun_cases onBroadcast (s.phase p) .customerCV <;> simp
    · exact .inl ⟨hvisiting, hwaits⟩

theorem Alone.asked (h : Alone s) (hok : Ok s) {r : Request} (hlets : s.LetsIn p)
    (hasks : s.asks p = some r) (hasked : Asked machine s p r t s') :
  Alone s'
  := by
  constructor
  · exact fun q hq => flag_asked h.flag hok hasked hq
  · intro q n hq
    by_contra hpast
    have hpast := Bool.not_eq_false _ ▸ hpast
    have hold : (s.phase (.customer n)).past = true ∨ r = .getMV .senatorFlag 0 ∧ s.reply r ≠ 1 := by
      by_cases hn : .customer n = p
      · rw [← hn] at hasked
        exact past_next rfl hasked.next hpast
      · left
        rwa [hasked.phase _ hn] at hpast
    obtain hinside | ⟨rfl, hqueue⟩ := inside_asked hok hasked hq
    · obtain hpast | ⟨rfl, hreply⟩ := hold
      · rw [h.alone q n hinside] at hpast
        cases hpast
      · exact hreply (h.flag_of_inside hok hinside)
    · obtain hpast | ⟨hr, -⟩ := hold
      · rw [(hlets hasks hqueue).past hok n] at hpast
        cases hpast
      · cases hr

theorem alone_initial (started : Process → Bool) :
  Alone (initial started)
  := by
  constructor
  · intro p hp
    cases p <;> cases hp
  · exact fun _ _ _ => rfl

/-- When a senator is let in only while no customer has passed its flag, no customer is at a counter
while a senator is inside. -/
theorem senators_alone (started : Process → Bool) (ps : List Process) (s : State)
    (hlets : Transition.Along (State.step machine) LetsIn (initial started) ps)
    (hrun : Transition.run (State.step machine) (initial started) ps = some s) (p : Process) (n : ℕ)
    (hp : s.Inside p) :
  ¬ s.AtCounter (.customer n)
  := by
  have hok := ok_run machine hrun
  have h : Alone s := by
    refine run_induction machine (P := fun s p r => s.LetsIn p ∧ s.asks p = some r)
      (alone_initial started) (fun _ _ hsame h => h.congr hsame) ?_
      (hlets.mono fun _ _ hlets _ hasks => ⟨hlets, hasks⟩) hrun
    intro s p r t s' hok h hP hasked
    exact h.asked hok hP.1 hP.2 hasked
  rintro ⟨K, i, hacquired⟩
  rw [acquired_iff (hok.followed.allowed _)] at hacquired
  have hpast := past_of_held (hok.suits (.customer n)) hacquired
  rw [h.alone p n hp] at hpast
  cases hpast

/-- The customer waits outside when the manager lets the senator in. -/
theorem senators_alone_outside :
  ∃ s, Transition.run (State.step fun _ => 0) (initial fun _ => true)
      (List.replicate 10 (.senator 0) ++ List.replicate 10 (.customer 0) ++
        List.replicate 35 .manager) = some s ∧
    s.Inside (.senator 0) ∧ (s.tasks (.customer 0)).status = .atCondition .senatorCV ∧
    ∀ n, ¬ s.AtCounter (.customer n)
  := by
  have hlets : Transition.Along (State.step fun _ => 0) LetsIn (initial fun _ => true)
      (List.replicate 10 (.senator 0) ++ List.replicate 10 (.customer 0) ++
        List.replicate 35 .manager) := by decide +kernel
  have hdata : (Transition.run (State.step fun _ => 0) (initial fun _ => true)
      (List.replicate 10 (.senator 0) ++ List.replicate 10 (.customer 0) ++
        List.replicate 35 .manager)).map (fun s => (visiting (s.tasks (.senator 0)).history,
          (s.tasks (.senator 0)).status, (s.tasks (.customer 0)).status)) =
      some (true, .atLock .outsideLock, .atCondition .senatorCV) := by decide +kernel
  obtain ⟨s, hrun, heq⟩ := Option.map_eq_some_iff.mp hdata
  obtain ⟨hvisiting, hsenator, hcustomer⟩ : _ ∧ _ ∧ _ := by simpa only [Prod.mk.injEq] using heq
  have hinside : s.Inside (.senator 0) := ⟨hvisiting, by rw [hsenator]; simp⟩
  exact ⟨s, hrun, hinside, hcustomer,
    fun n => senators_alone _ _ s hlets hrun (.senator 0) n hinside⟩

end State

end Nachos.Office
