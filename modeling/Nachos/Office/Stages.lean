import Mathlib.Tactic.Common
import Nachos.Office.Numbers

/-!
# The stages of clerks and visitors

What happens between a clerk and its visitor, as the phases of both tell. A visitor is called from a line
or summoned, gives its number, signals the clerk and waits. The clerk waits for the number, files it,
signals the visitor and waits until the visitor leaves.
-/

namespace Nachos.Office

/-! ### Where the processes are -/

/-- The stages of a visitor: it has been called from a line, comes to the counter, has given its number,
has signalled the clerk, has been signalled by the clerk, has signalled the clerk again. -/
inductive VisitStage where
  | called
  | coming
  | given
  | dealing
  | answered
  | leaving
deriving DecidableEq

/-- The stages of a clerk: it has no visitor, has called one, waits for its number or is going to, has
been signalled, has signalled the visitor, has been signalled again. -/
inductive DeskStage where
  | away
  | calling
  | listening
  | dealing
  | done
  | closing
deriving DecidableEq

/-- The stages of a visitor and a clerk that belong together. -/
def Meets : VisitStage → DeskStage → Prop
  | .called, c => c = .calling ∨ c = .listening
  | .coming, c | .given, c => c = .listening
  | .dealing, c => c = .dealing
  | .answered, c => c = .done
  | .leaving, c => c = .closing

/-- The counters of the picture clerks have a protocol of their own. -/
def seat {α : Type} (K : Kind) (a : α) : Option α := if K = .pic then none else some a

theorem seat_of_ne {α : Type} {K : Kind} (hK : K ≠ .pic) (a : α) :
  seat K a = some a
  := if_neg hK

theorem seat_eq_some {α : Type} {K : Kind} {a b : α} :
  seat K a = some b ↔ K ≠ .pic ∧ a = b
  := by simp [seat]

/-- The kind and the number of the clerk, the number of the visitor and its stage, when it waits for a
condition variable or not, and the last one it waited for has been signalled or not. -/
def Phase.visit (waiting signalled : Bool) : Phase → Option (Kind × ℤ × ℤ × VisitStage)
  | .lined id K i => if waiting || !signalled then none else seat K (K, i, id, .called)
  | .summoned id K i => if waiting then none else seat K (K, i, id, .called)
  | .passed id K i | .arrived id K i | .atCounter id K i => seat K (K, i, id, .coming)
  | .given id K i => seat K (K, i, id, .given)
  | .signalled id K i => seat K (K, i, id, .dealing)
  | .paying id i _ | .paid id i => seat .cashier (.cashier, i, id, .dealing)
  | .served id K i => seat K (K, i, id, if waiting then .dealing else .answered)
  | .goodbye id K i => seat K (K, i, id, .leaving)
  | .printing φ => φ.visit waiting signalled
  | _ => none

/-- The kind and the number of a clerk and its stage. -/
def Phase.desk (waiting : Bool) : Phase → Option (Kind × ℤ × DeskStage)
  | .free K i | .looking K i | .retiring K i | .resting K i | .asleep K i => seat K (K, i, .away)
  | .called K i | .ready K i => seat K (K, i, .calling)
  | .listening K i => seat K (K, i, .listening)
  | .awaiting K i => seat K (K, i, if waiting then .listening else .dealing)
  | .filing K i _ | .filed K i => seat K (K, i, .dealing)
  | .charging i | .chargeRead i _ | .charged i | .accounted i => seat .cashier (.cashier, i, .dealing)
  | .done K i => seat K (K, i, .done)
  | .parting K i => seat K (K, i, if waiting then .done else .closing)
  | .printing φ => φ.desk waiting
  | _ => none

/-- The clerk and the number that it files. -/
def Phase.files : Phase → Option (Kind × ℤ × ℤ)
  | .filing K i custID => seat K (K, i, custID)
  | .printing φ => φ.files
  | _ => none

/-- A request that has nothing to do with condition variables. -/
def Request.quiet : Request → Bool
  | .wait _ _ | .signal _ _ | .broadcast _ _ => false
  | _ => true

/-- How a visitor moves without waiting or signalling: it is sent away or leaves, it comes to the counter,
or it gives its number. -/
def VisitMoves (b : Bool) (φ : Phase) (r : Request) (v : ℤ) (φ' : Phase) : Prop :=
  φ'.visit false b = φ.visit false b ∨
    φ'.visit false b = none ∧ (∃ K i id st, φ.visit false b = some (K, i, id, st) ∧
      (st = .called ∨ st = .leaving)) ∨
    (∃ K i id, φ'.visit false b = seat K (K, i, id, .coming) ∧
      (φ = .lined id K i ∧ r = .getMV .senatorFlag 0 ∧ v ≠ 1 ∨ φ = .summoned id K i)) ∨
    ∃ K i id, φ = .atCounter id K i ∧ φ' = .given id K i ∧ r = .setMV (.clerkToFile K) i id

/-- How a clerk moves without waiting or signalling: it begins, or it goes on with its visitor. -/
def DeskMoves (φ φ' : Phase) : Prop :=
  φ'.desk false = φ.desk false ∨
    φ.desk false = none ∧ (∃ K i, φ'.desk false = seat K (K, i, .away)) ∨
    (∃ K i, φ = .ready K i ∧ φ' = .listening K i) ∨
    ∃ K i, φ = .parting K i ∧ φ' = .free K i

section

variable {p : Process} {φ φ' : Phase} {r : Request} {v : ℤ}

theorem Phase.visit_start (id : ℤ) (b b' : Bool) :
  (Phase.start id p).visit b b' = none
  := by cases p <;> rfl

theorem Phase.visit_back (id : ℤ) (b b' : Bool) :
  (Phase.back id p).visit b b' = none
  := by cases p <;> rfl

theorem Phase.desk_back (id : ℤ) (b : Bool) :
  (Phase.back id p).desk b = none
  := by cases p <;> rfl

theorem Phase.desk_start (id : ℤ) (b : Bool) :
  (Phase.start id p).desk b = none ∨ ∃ K i, (Phase.start id p).desk b = seat K (K, i, .away)
  := by
  cases p with
  | clerk K n => exact .inr ⟨K, id, rfl⟩
  | _ => exact .inl rfl

theorem Phase.files_start (id : ℤ) :
  (Phase.start id p).files = none
  := by cases p <;> rfl

theorem Phase.files_back (id : ℤ) :
  (Phase.back id p).files = none
  := by cases p <;> rfl

theorem clerkToFile_ne_indexOf {K : Kind} :
  .clerkToFile K ≠ indexOf p
  := by cases p <;> exact nofun

theorem clerkToFile_ne_moneyOf {K : Kind} :
  .clerkToFile K ≠ moneyOf p
  := by cases p <;> exact nofun

theorem files_indexOf {K : Kind} :
  files K (indexOf p) = false
  := by cases K <;> cases p <;> rfl

theorem files_moneyOf {K : Kind} :
  files K (moneyOf p) = false
  := by cases K <;> cases p <;> rfl

theorem visit_next (b : Bool) (h : next p φ r v = some φ') (hr : r.quiet = true) :
  VisitMoves b φ r v φ'
  := by
  revert hr
  refine next_cases (M := fun φ r v φ' => r.quiet = true → VisitMoves b φ r v φ')
    ?_ ?_ ?_ ?_ ?_ ?_ ?_ ?_ ?_ h
  · exact fun _ _ _ _ => .inl rfl
  · exact fun _ _ _ _ => .inl rfl
  · intro φ l v φ'
    fun_cases onAcquire p φ l <;> intro h <;> simp at h <;> grind [VisitMoves, Phase.visit]
  · intro φ l v φ'
    fun_cases onRelease p φ l <;> intro h <;> simp at h <;>
      grind [VisitMoves, Phase.visit, Phase.visit_start, Phase.visit_back, seat]
  · intro _ _ _ _ _ hr
    cases hr
  · intro _ _ _ _ _ hr
    cases hr
  · intro _ _ _ _ _ hr
    cases hr
  · intro φ mv position value v φ'
    fun_cases onSet p φ mv position value <;> intro h <;> simp at h <;> grind [VisitMoves, Phase.visit]
  · intro φ mv position v φ'
    fun_cases onGet p φ mv position v <;> intro h <;> simp at h <;>
      grind [VisitMoves, Phase.visit, seat]

theorem desk_next (h : next p φ r v = some φ') (hr : r.quiet = true) :
  DeskMoves φ φ'
  := by
  revert hr
  refine next_cases (M := fun φ r v φ' => r.quiet = true → DeskMoves φ φ')
    ?_ ?_ ?_ ?_ ?_ ?_ ?_ ?_ ?_ h
  · exact fun _ _ _ _ => .inl rfl
  · exact fun _ _ _ _ => .inl rfl
  · intro φ l v φ'
    fun_cases onAcquire p φ l <;> intro h <;> simp at h <;> grind [DeskMoves, Phase.desk]
  · intro φ l v φ'
    fun_cases onRelease p φ l <;> intro h <;> simp at h <;>
      grind [DeskMoves, Phase.desk, Phase.desk_start, Phase.desk_back, seat]
  · intro _ _ _ _ _ hr
    cases hr
  · intro _ _ _ _ _ hr
    cases hr
  · intro _ _ _ _ _ hr
    cases hr
  · intro φ mv position value v φ'
    fun_cases onSet p φ mv position value <;> intro h <;> simp at h <;> grind [DeskMoves, Phase.desk]
  · intro φ mv position v φ'
    fun_cases onGet p φ mv position v <;> intro h <;> simp at h <;>
      grind [DeskMoves, Phase.desk, seat]

/-- A clerk gets the number that its visitor has given it. -/
theorem files_next (h : next p φ r v = some φ') :
  φ'.files = φ.files ∨ φ'.files = none ∨
    ∃ K i, φ = .awaiting K i ∧ φ' = .filing K i v ∧ r = .getMV (.clerkToFile K) i
  := by
  refine next_cases (M := fun φ r v φ' => φ'.files = φ.files ∨ φ'.files = none ∨
    ∃ K i, φ = .awaiting K i ∧ φ' = .filing K i v ∧ r = .getMV (.clerkToFile K) i)
    ?_ ?_ ?_ ?_ ?_ ?_ ?_ ?_ ?_ h
  · exact fun _ _ _ => .inl rfl
  · exact fun _ _ _ => .inl rfl
  · intro φ l v φ'
    fun_cases onAcquire p φ l <;> intro h <;> simp at h <;> grind [Phase.files]
  · intro φ l v φ'
    fun_cases onRelease p φ l <;> intro h <;> simp at h <;>
      grind [Phase.files, Phase.files_start, Phase.files_back]
  · intro φ c v φ'
    fun_cases onWait φ c <;> intro h <;> simp at h <;> grind [Phase.files]
  · intro φ c v φ'
    fun_cases onSignal φ c <;> intro h <;> simp at h <;> grind [Phase.files]
  · intro φ c v φ'
    fun_cases onBroadcast φ c <;> intro h <;> simp at h <;> grind [Phase.files]
  · intro φ mv position value v φ'
    fun_cases onSet p φ mv position value <;> intro h <;> simp at h <;> grind [Phase.files]
  · intro φ mv position v φ'
    fun_cases onGet p φ mv position v <;> intro h <;> simp at h <;> grind [Phase.files]

/-- Only a visitor at the counter gives a number to a clerk. -/
theorem onSet_clerkToFile {K : Kind} {i id : ℤ} (h : onSet p φ (.clerkToFile K) i id = some φ') :
  φ = .atCounter id K i ∧ φ' = .given id K i
  := by
  revert h
  fun_cases onSet p φ (.clerkToFile K) i id <;> intro h <;> simp at h <;>
    grind [guarded, files, clerkToFile_ne_indexOf, clerkToFile_ne_moneyOf]

/-- A process that begins to wait stays in its stage. -/
theorem stage_onWait {c : ConditionName} (b : Bool) (h : onWait φ c = some φ') :
  φ'.visit true b = φ.visit false b ∧ φ'.desk true = φ.desk false
  := by
  revert h
  fun_cases onWait φ c <;> intro h <;> simp at h <;> grind [Phase.visit, Phase.desk, seat]

theorem stage_onBroadcast {c : ConditionName} (b : Bool) (h : onBroadcast φ c = some φ') :
  φ'.visit false b = φ.visit false b ∧ φ'.desk false = φ.desk false
  := by
  revert h
  fun_cases onBroadcast φ c <;> intro h <;> simp at h <;> grind [Phase.visit, Phase.desk]

/-- A visitor that has been taken out of a line with others is not called. -/
theorem stage_of_broadcast {ψ : Phase} {c : ConditionName} (b : Bool) (h : onBroadcast φ c = some φ')
    (hwaits : ψ.waits c) :
  ψ.visit false false = ψ.visit true b ∧ ψ.desk false = ψ.desk true
  := by
  have hc : c = .senatorCV ∨ ∃ K i, c = .lineCV K i ∨ c = .bribeLineCV K i := by
    revert h
    fun_cases onBroadcast φ c <;> intro h <;> simp at h <;> grind
  cases ψ with
  | outside | lined | summoned | served | awaiting | parting | asleep | posing | developing | entered =>
      grind [Phase.waits, Phase.visit, Phase.desk]
  | _ => cases hwaits

/-- A visitor has a number, and is not a clerk. -/
theorem of_visit {b b' : Bool} {K : Kind} {i id : ℤ} {st : VisitStage}
    (h : φ.visit b b' = some (K, i, id, st)) :
  K ≠ .pic ∧ φ.number = some id ∧ φ.desk b = none ∧ (φ.suits p = true → isVisitor p = true)
  := by
  induction φ with
  | printing φ ih => exact ih h
  | lined | summoned | passed | arrived | atCounter | given | signalled | paying | paid | served | goodbye =>
      grind [Phase.visit, Phase.desk, Phase.number, Phase.suits, seat, isVisitor_of_isSenator]
  | _ => cases h

/-- A clerk has a number, and is not a visitor. -/
theorem of_desk {b : Bool} {K : Kind} {i : ℤ} {c : DeskStage} (h : φ.desk b = some (K, i, c)) :
  K ≠ .pic ∧ φ.number = some i ∧ (∀ b', φ.visit b b' = none) ∧
    (φ.suits p = true → isClerk K p = true)
  := by
  induction φ with
  | printing φ ih => exact ih h
  | free | looking | retiring | resting | asleep | called | ready | listening | awaiting | filing | filed
  | charging | chargeRead | charged | accounted | done | parting =>
      grind [Phase.visit, Phase.desk, Phase.number, Phase.suits, seat]
  | _ => cases h

theorem of_files {b : Bool} {K : Kind} {i custID : ℤ} (h : φ.files = some (K, i, custID)) :
  φ.desk b = some (K, i, .dealing)
  := by
  induction φ with
  | printing φ ih => exact ih h
  | filing => grind [Phase.files, Phase.desk, seat]
  | _ => cases h

theorem desk_of_visitor (hsuits : φ.suits p = true) (hp : isVisitor p = true) (b : Bool) :
  φ.desk b = none
  := by
  rw [Option.eq_none_iff_forall_ne_some]
  rintro ⟨K, i, c⟩ h
  have hclerk := (of_desk h).2.2.2 hsuits
  cases p <;> simp [isVisitor, isClerk] at hp hclerk

theorem visit_of_not_visitor (hsuits : φ.suits p = true) (hp : isVisitor p = false) (b b' : Bool) :
  φ.visit b b' = none
  := by
  rw [Option.eq_none_iff_forall_ne_some]
  rintro ⟨K, i, id, st⟩ h
  rw [(of_visit h).2.2.2 hsuits] at hp
  cases hp

/-- A clerk that calls a visitor has `lineLock`. -/
theorem lineLock_of_calling {b : Bool} {K : Kind} {i : ℤ} (h : φ.desk b = some (K, i, .calling)) :
  .lineLock ∈ held p φ ∧ φ.asking p ≠ some .lineLock
  := by
  induction φ with
  | printing φ ih => exact ⟨List.mem_cons_of_mem _ (ih h).1, nofun⟩
  | free | looking | retiring | resting | asleep | called | ready | listening | awaiting | filing | filed
  | charging | chargeRead | charged | accounted | done | parting =>
      grind [Phase.desk, seat, held, Phase.asking]
  | _ => cases h

/-- A clerk that waits for its visitor, or is going to, has its lock otherwise. -/
theorem clerkLock_of_desk {b : Bool} {K : Kind} {i : ℤ} {c : DeskStage}
    (h : φ.desk b = some (K, i, c)) (hc : c = .listening ∨ c = .done) :
  .clerkLock K i ∈ held p φ ∧ (b = true ∨ φ.asking p ≠ some (.clerkLock K i))
  := by
  induction φ with
  | printing φ ih => exact ⟨List.mem_cons_of_mem _ (ih h).1, .inr nofun⟩
  | free | looking | retiring | resting | asleep | called | ready | listening | awaiting | filing | filed
  | charging | chargeRead | charged | accounted | done | parting =>
      grind [Phase.desk, seat, held, Phase.asking]
  | _ => cases h

/-- A visitor that deals with a clerk waits for it, or has its lock. -/
theorem clerkLock_of_visit {b b' : Bool} {K : Kind} {i id : ℤ} {st : VisitStage}
    (h : φ.visit b b' = some (K, i, id, st)) (hst : st = .dealing ∨ st = .leaving) :
  .clerkLock K i ∈ held p φ ∧ (b = true ∨ φ.asking p ≠ some (.clerkLock K i))
  := by
  induction φ with
  | printing φ ih => exact ⟨List.mem_cons_of_mem _ (ih h).1, .inr nofun⟩
  | lined | summoned | passed | arrived | atCounter | given | signalled | paying | paid | served | goodbye =>
      grind [Phase.visit, seat, held, Phase.asking]
  | _ => cases h

/-- A clerk or a visitor that waits for the condition variable of a clerk is at its counter. -/
theorem clerkCV_of_waits {c : ConditionName} (h : φ.waits c) :
  (∀ K i st, φ.desk true = some (K, i, st) → c = .clerkCV K i) ∧
    (∀ b K i id st, φ.visit true b = some (K, i, id, st) → c = .clerkCV K i ∧ st = .dealing)
  := by
  cases φ with
  | outside | lined | summoned | served | awaiting | parting | asleep | posing | developing | entered =>
      grind [Phase.waits, Phase.desk, Phase.visit, seat]
  | _ => cases h

theorem phase_of_waits {K : Kind} {i : ℤ} (hK : K ≠ .pic) (h : φ.waits (.clerkCV K i)) :
  (∃ id, φ = .served id K i) ∨ φ = .awaiting K i ∨ φ = .parting K i ∨ φ = .asleep K i
  := by
  cases φ <;> simp [Phase.waits, hK] at h ⊢ <;> exact ⟨h.1.symm, h.2.symm⟩

/-- Who signals whom. -/
theorem onSignal_cases {c : ConditionName} (h : onSignal φ c = some φ') :
  (∃ id K i, φ = .given id K i ∧ c = .clerkCV K i ∧ (K ≠ .pic → φ' = .signalled id K i) ∧
      (K = .pic → φ' = .posing id i)) ∨
    (∃ id K i, φ = .served id K i ∧ c = .clerkCV K i ∧ φ' = .goodbye id K i) ∨
    (∃ K i, (φ = .filed K i ∨ φ = .accounted i ∧ K = .cashier) ∧ c = .clerkCV K i ∧
      φ' = .done K i) ∨
    (∃ K i, φ = .looking K i ∧ φ' = .called K i ∧
      (c = .lineCV K i ∨ c = .bribeLineCV K i ∨ c = .senatorLineCV K i)) ∨
    φ' = φ ∧ (c = .customerCV ∨ (∃ i, c = .clerkCV .pic i) ∨
      ∃ n K i, φ = .waking n K i ∧ c = .clerkCV K i)
  := by
  revert h
  fun_cases onSignal φ c <;> intro h <;> simp at h <;> grind

/-- Neither a senator that comes in nor what happens at the counter of a picture clerk matters. -/
theorem stage_elsewhere {c : ConditionName} (hc : c = .customerCV ∨ ∃ i, c = .clerkCV .pic i)
    (h : φ.waits c) (b b' : Bool) :
  φ.visit b b' = none ∧ φ.desk b = none
  := by
  cases φ with
  | outside | lined | summoned | served | awaiting | parting | asleep | posing | developing | entered =>
      grind [Phase.waits, Phase.visit, Phase.desk, seat]
  | _ => cases h

/-- A visitor that is signalled in a line has been called. -/
theorem stage_of_line {K : Kind} {i : ℤ} {c : ConditionName}
    (hc : c = .lineCV K i ∨ c = .bribeLineCV K i ∨ c = .senatorLineCV K i) (h : φ.waits c) :
  (∀ b, φ.visit true b = none ∧ φ.desk b = none) ∧
    ∃ id, φ.visit false true = seat K (K, i, id, .called)
  := by
  have hφ : (∃ id, φ = .lined id K i) ∨ ∃ id, φ = .summoned id K i := by
    cases φ <;> simp [Phase.waits] at h ⊢ <;> grind
  obtain ⟨id, rfl⟩ | ⟨id, rfl⟩ := hφ <;> exact ⟨fun _ => ⟨rfl, rfl⟩, id, rfl⟩

theorem files_unique {K K' : Kind} {mv : Variable} (h : files K mv = true) (h' : files K' mv = true) :
  K = K'
  := by
  revert h
  fun_cases files K mv <;> revert h' <;> cases K' <;> simp [files]

/-- Only a clerk that has read the number of its visitor files it. -/
theorem onSet_files {K : Kind} {mv : Variable} {position value : ℤ} (hmv : files K mv = true)
    (h : onSet p φ mv position value = some φ') :
  ∃ i, φ = .filing K i position ∧ value = 1
  := by
  have hguarded : guarded mv = true := by
    revert hmv
    fun_cases files K mv <;> simp [guarded]
  cases φ with
  | filing K' i custID =>
      obtain ⟨⟨hmv', rfl, rfl⟩, -⟩ := Phase.when_eq_some.mp h
      exact ⟨i, by rw [files_unique hmv' hmv], rfl⟩
  | _ =>
      simp [onSet, hguarded] at h
      all_goals grind [files, files_indexOf, files_moneyOf]

/-- The clerk to which a visitor has given its number, and the number. -/
def Phase.gave : Phase → Option (Kind × ℤ × ℤ)
  | .given id K i | .signalled id K i | .served id K i => some (K, i, id)
  | .paying id i _ | .paid id i => some (.cashier, i, id)
  | .printing φ => φ.gave
  | _ => none

theorem Phase.gave_start (id : ℤ) :
  (Phase.start id p).gave = none
  := by cases p <;> rfl

theorem Phase.gave_back (id : ℤ) :
  (Phase.back id p).gave = none
  := by cases p <;> rfl

theorem gave_next {K : Kind} {i id : ℤ} (h : next p φ r v = some φ') :
  φ'.gave = some (K, i, id) → r = .setMV (.clerkToFile K) i id ∨
    φ.gave = some (K, i, id) ∧ r ≠ .release (.clerkLock K i) ∧
      ∀ value, r ≠ .setMV (.clerkToFile K) i value
  := by
  refine next_cases (M := fun φ r _ φ' => φ'.gave = some (K, i, id) →
    r = .setMV (.clerkToFile K) i id ∨ φ.gave = some (K, i, id) ∧ r ≠ .release (.clerkLock K i) ∧
      ∀ value, r ≠ .setMV (.clerkToFile K) i value)
    ?_ ?_ ?_ ?_ ?_ ?_ ?_ ?_ ?_ h
  · exact fun _ _ _ h => .inr ⟨h, nofun, nofun⟩
  · exact fun _ _ _ h => .inr ⟨h, nofun, nofun⟩
  · intro φ l v φ'
    fun_cases onAcquire p φ l <;> intro h <;> simp at h <;> grind [Phase.gave]
  · intro φ l v φ'
    fun_cases onRelease p φ l <;> intro h <;> simp at h <;>
      grind [Phase.gave, Phase.gave_start, Phase.gave_back]
  · intro φ c v φ'
    fun_cases onWait φ c <;> intro h <;> simp at h <;> grind [Phase.gave]
  · intro φ c v φ'
    fun_cases onSignal φ c <;> intro h <;> simp at h <;> grind [Phase.gave]
  · intro φ c v φ'
    fun_cases onBroadcast φ c <;> intro h <;> simp at h <;> grind [Phase.gave]
  · intro φ mv position value v φ' h
    by_cases hmv : mv = .clerkToFile K
    · subst hmv
      obtain ⟨rfl, rfl⟩ := onSet_clerkToFile h
      simp [Phase.gave]
    · revert h
      fun_cases onSet p φ mv position value <;> intro h <;> simp at h <;> grind [Phase.gave]
  · intro φ mv position v φ'
    fun_cases onGet p φ mv position v <;> intro h <;> simp at h <;> grind [Phase.gave]

end

end Nachos.Office
