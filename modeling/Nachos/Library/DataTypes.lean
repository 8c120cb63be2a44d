import Mathlib.Tactic.Common

/-!
# Data types

The operations of a data type are performed one after the other, and each of them answers. `acts`
says what an operation may answer, and what it does, in terms of the values that are represented.
When every operation does so, every sequence of operations does (`Represents.run`).
-/

namespace DataType

variable {σ τ Operation Answer : Type*}

/-- The operations are performed one after the other. -/
def run (perform : σ → Operation → Option (Answer × σ)) :
    σ → List Operation → Option (List Answer × σ)
  | s, [] => some ([], s)
  | s, op :: ops =>
      (perform s op).bind (fun r => (run perform r.2 ops).map (fun r' => (r.1 :: r'.1, r'.2)))

/-- What a sequence of operations may answer, and what it does. -/
inductive Runs (acts : τ → Operation → Answer → τ → Prop) :
    τ → List Operation → List Answer → τ → Prop
  | nil (t : τ) : Runs acts t [] [] t
  | cons {t t' t'' : τ} {op : Operation} {ops : List Operation} {answer : Answer}
      {answers : List Answer} (h : acts t op answer t') (hs : Runs acts t' ops answers t'') :
      Runs acts t (op :: ops) (answer :: answers) t''

/-- Every operation is one that may be performed where it is performed. -/
def Along (perform : σ → Operation → Option (Answer × σ)) (P : σ → Operation → Prop) :
    σ → List Operation → Prop
  | _, [] => True
  | s, op :: ops => P s op ∧ ∀ r, perform s op = some r → Along perform P r.2 ops

variable {perform : σ → Operation → Option (Answer × σ)}
  {acts : τ → Operation → Answer → τ → Prop} {R : σ → τ → Prop}

theorem along_of_forall {P : Operation → Prop} {ops : List Operation} (h : ∀ op ∈ ops, P op) (s : σ) :
  Along perform (fun _ => P) s ops
  := by
  induction ops generalizing s with
  | nil => trivial
  | cons op ops ih =>
      rw [List.forall_mem_cons] at h
      exact ⟨h.1, fun r _ => ih h.2 r.2⟩

/-- An operation that may be performed on a representation of `t` is possible, it answers as it may,
and it leaves a representation of the value that it should. -/
def Represents (perform : σ → Operation → Option (Answer × σ))
    (acts : τ → Operation → Answer → τ → Prop) (R : σ → τ → Prop) (P : σ → Operation → Prop) : Prop :=
  ∀ s t op, R s t → P s op → ∃ answer s' t', perform s op = some (answer, s') ∧
    acts t op answer t' ∧ R s' t'

theorem run_cons {s s' s'' : σ} {op : Operation} {ops : List Operation} {answer : Answer}
    {answers : List Answer} (h : perform s op = some (answer, s'))
    (hs : run perform s' ops = some (answers, s'')) :
  run perform s (op :: ops) = some (answer :: answers, s'')
  := by
  rw [run, h, Option.bind_some, hs]
  rfl

theorem Represents.run {P : σ → Operation → Prop} (h : Represents perform acts R P)
    {ops : List Operation} {s : σ} {t : τ} (hR : R s t) (hops : Along perform P s ops) :
  ∃ answers s' t', DataType.run perform s ops = some (answers, s') ∧
    Runs acts t ops answers t' ∧ R s' t'
  := by
  induction ops generalizing s t with
  | nil => exact ⟨[], s, t, rfl, .nil t, hR⟩
  | cons op ops ih =>
      obtain ⟨answer, s₁, t₁, hperform, hacts, hR₁⟩ := h s t op hR hops.1
      obtain ⟨answers, s', t', hrun, hruns, hR'⟩ := ih hR₁ (hops.2 _ hperform)
      exact ⟨answer :: answers, s', t', run_cons hperform hrun, .cons hacts hruns, hR'⟩

end DataType
