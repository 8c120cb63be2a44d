import Mathlib.Tactic.Common
import Mathlib.Data.List.Perm.Basic

/-!
# Runs of a partial step function

A system is given by a step function `step : σ → α → Option σ`: in a state, an action either
leads to a state or is not possible. `run step s as` is the state reached from `s` by the
actions `as`, and `Along step P s as` says that every step taken on the way satisfies `P`.

* An invariant that every step satisfying `P` preserves holds wherever a run along `P` leads
  (`run_invariant`).
* If moreover every such step is possible, the run is possible (`run_total`).
* Runs and what holds along them can be put together (`run_append`, `along_append`).
-/

namespace Transition

variable {σ α : Type*} (step : σ → α → Option σ)

/-- The state reached from `s` by the actions `as`, when each of them is possible. -/
def run : σ → List α → Option σ
  | s, [] => some s
  | s, a :: as => (step s a).bind (fun s' => run s' as)

/-- Every step of the run from `s` by the actions `as` satisfies `P`. -/
def Along (P : σ → α → Prop) : σ → List α → Prop
  | _, [] => True
  | s, a :: as => P s a ∧ ∀ s', step s a = some s' → Along P s' as

variable {step}

@[simp]
theorem run_nil (s : σ) :
  run step s [] = some s
  := rfl

/-- A run by `a :: as` is a step by `a` followed by a run by `as`. -/
theorem run_cons {s t : σ} {a : α} {as : List α} :
  run step s (a :: as) = some t ↔ ∃ s', step s a = some s' ∧ run step s' as = some t
  := Option.bind_eq_some_iff

/-- A run by `as ++ bs` is a run by `as` followed by a run by `bs`. -/
theorem run_append {s t : σ} {as bs : List α} :
  run step s (as ++ bs) = some t ↔ ∃ s', run step s as = some s' ∧ run step s' bs = some t
  := by
  induction as generalizing s with
  | nil => simp
  | cons a as ih =>
      simp only [List.cons_append, run_cons, ih]
      constructor
      · rintro ⟨s₁, h₁, s₂, h₂, h₃⟩
        use s₂, ⟨s₁, h₁, h₂⟩
      · rintro ⟨s₂, ⟨s₁, h₁, h₂⟩, h₃⟩
        use s₁, h₁, s₂

/-- A run by one action is a step. -/
theorem run_singleton (s : σ) (a : α) :
  run step s [a] = step s a
  := Option.bind_fun_some _

/-- `P` holds along a run by `as ++ bs` when it holds along the run by `as` and along the run
by `bs` that follows it. -/
theorem along_append {P : σ → α → Prop} {s : σ} {as bs : List α} :
  Along step P s (as ++ bs) ↔
    Along step P s as ∧ ∀ s', run step s as = some s' → Along step P s' bs
  := by
  induction as generalizing s with
  | nil => simp [Along]
  | cons a as ih =>
      simp only [List.cons_append, Along, ih, run_cons]
      constructor
      · rintro ⟨hP, h⟩
        use ⟨hP, fun s' hs => (h s' hs).1⟩
        rintro t ⟨s', hs, ht⟩
        apply (h s' hs).2 t ht
      · rintro ⟨⟨hP, h⟩, h'⟩
        use hP
        intro s' hs
        use h s' hs
        intro t ht
        apply h' t ⟨s', hs, ht⟩

/-- What holds along a run if something stronger does. -/
theorem Along.mono {P Q : σ → α → Prop} (h : ∀ s a, P s a → Q s a) {s : σ} {as : List α}
    (hP : Along step P s as) :
  Along step Q s as
  := by
  induction as generalizing s with
  | nil => trivial
  | cons a as ih =>
      use h s a hP.1
      intro s' hs
      apply ih (hP.2 s' hs)

/-- What holds of the step after every initial part of a run holds along the run. -/
theorem along_of_prefixes {P : σ → α → Prop} {s : σ} {as : List α}
    (h : ∀ bs a cs s', as = bs ++ a :: cs → run step s bs = some s' → P s' a) :
  Along step P s as
  := by
  induction as generalizing s with
  | nil => trivial
  | cons a as ih =>
      use h [] a as s rfl rfl
      intro s' hs
      apply ih
      rintro bs b cs t rfl ht
      apply h (a :: bs) b cs t rfl (run_cons.mpr ⟨s', hs, ht⟩)

/-- Along a run that starts with a step that is known. -/
theorem along_cons {P : σ → α → Prop} {s s' : σ} {a : α} {as : List α} (h : step s a = some s') :
  Along step P s (a :: as) ↔ P s a ∧ Along step P s' as
  := by
  rw [Along, h]
  simp

/-- Whether `P` holds along a run can be decided by running. -/
instance Along.decidable {P : σ → α → Prop} [∀ s a, Decidable (P s a)] :
    ∀ (s : σ) (as : List α), Decidable (Along step P s as)
  | _, [] => isTrue trivial
  | s, a :: as =>
      match h : step s a with
      | none => decidable_of_iff (P s a) ⟨fun hP => ⟨hP, by simp [h]⟩, And.left⟩
      | some s' =>
          have := Along.decidable (P := P) s' as
          decidable_of_iff (P s a ∧ Along step P s' as) (along_cons h).symm

/-- What holds of all steps holds along every run. -/
theorem along_of_forall {P : σ → α → Prop} (h : ∀ s a, P s a) :
  ∀ (s : σ) (as : List α), Along step P s as
  | _, [] => trivial
  | s, a :: as => ⟨h s a, fun s' _ => along_of_forall h s' as⟩

/-- What every step satisfying `P` preserves, a run along `P` preserves. -/
theorem run_invariant {I : σ → Prop} {P : σ → α → Prop}
    (hstep : ∀ s a s', I s → P s a → step s a = some s' → I s')
    {s t : σ} {as : List α} (hs : I s) (hP : Along step P s as) (hrun : run step s as = some t) :
  I t
  := by
  induction as generalizing s with
  | nil =>
      obtain rfl := Option.some.inj hrun
      apply hs
  | cons a as ih =>
      obtain ⟨s', hs', hrun'⟩ := run_cons.mp hrun
      apply ih (hstep s a s' hs hP.1 hs') (hP.2 s' hs') hrun'

/-- If every step satisfying `P` lowers `f`, as far as it does not raise `h`, and those that `c`
selects lower it by one more, then a run along `P` bounds the number of these. -/
theorem run_potential {I : σ → Prop} {P : σ → α → Prop} {f h : σ → ℕ} {c : α → Bool}
    (hstep : ∀ s a s', I s → P s a → step s a = some s' → I s')
    (hcost : ∀ s a s', I s → P s a → step s a = some s' →
      f s' + (if c a then 1 else 0) + h s ≤ f s + h s')
    {s t : σ} {as : List α} (hs : I s) (hP : Along step P s as) (hrun : run step s as = some t) :
  f t + as.countP c + h s ≤ f s + h t
  := by
  induction as generalizing s with
  | nil =>
      obtain rfl := Option.some.inj hrun
      simp
  | cons a as ih =>
      obtain ⟨s', hs', hrun'⟩ := run_cons.mp hrun
      have hle := ih (hstep s a s' hs hP.1 hs') (hP.2 s' hs') hrun'
      have hone := hcost s a s' hs hP.1 hs'
      rw [List.countP_cons]
      omega

/-- A run along `P` is possible when every step satisfying `P` is, and it preserves what these
steps preserve. -/
theorem run_total {I : σ → Prop} {P : σ → α → Prop}
    (hstep : ∀ s a, I s → P s a → ∃ s', step s a = some s' ∧ I s')
    {s : σ} {as : List α} (hs : I s) (hP : Along step P s as) :
  ∃ t, run step s as = some t ∧ I t
  := by
  induction as generalizing s with
  | nil => exact ⟨s, rfl, hs⟩
  | cons a as ih =>
      obtain ⟨s', hs', hI⟩ := hstep s a hs hP.1
      obtain ⟨t, ht, hIt⟩ := ih hI (hP.2 s' hs')
      use t, run_cons.mpr ⟨s', hs', ht⟩

end Transition
