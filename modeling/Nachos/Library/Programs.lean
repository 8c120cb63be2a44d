import Mathlib.Logic.Basic

/-!
# Programs that make requests

A program makes requests in `ρ`, one after the other, and goes on with the responses in `ω`. What is
known of a program on account of its requests is in `κ`, and a function `track` says how each of them
changes it, and which requests are not allowed. A program keeps to `track` when all its requests are
allowed, whatever the responses are (`Prog.Keeps`).
-/

/-- A program that returns a value in `α`. -/
inductive Prog (ρ ω α : Type) where
  | pure (a : α)
  | call (request : ρ) (k : ω → Prog ρ ω α)

namespace Prog

variable {ρ ω α β κ : Type}

/-- One program after the other. -/
def bind : Prog ρ ω α → (α → Prog ρ ω β) → Prog ρ ω β
  | .pure a, f => f a
  | .call r k, f => .call r (fun v => (k v).bind f)

instance : Monad (Prog ρ ω) where
  pure := .pure
  bind := .bind

/-- A single request, whose response is returned. -/
def request (r : ρ) : Prog ρ ω ω := .call r .pure

variable (track : κ → ρ → ω → Option κ)

/-- What is known after the requests and responses of a history, the last of which comes first. -/
def known (start : κ) : List (ρ × ω) → κ
  | [] => start
  | (r, v) :: history => (track (known start history) r v).getD (known start history)

/-- All requests of a history were allowed. -/
def Allowed (start : κ) : List (ρ × ω) → Prop
  | [] => True
  | (r, v) :: history => Allowed start history ∧ (track (known track start history) r v).isSome

/-- Whatever the responses are, the requests of the program are allowed when `a` is known, and `Q`
holds of the value that it returns and of what is known then. -/
def Keeps : Prog ρ ω α → κ → (α → κ → Prop) → Prop
  | .pure x, a, Q => Q x a
  | .call r k, a, Q => ∀ v, ∃ a', track a r v = some a' ∧ Keeps (k v) a' Q

variable {track}

theorem known_cons {start a : κ} {history : List (ρ × ω)} {r : ρ} {v : ω}
    (h : track (known track start history) r v = some a) :
  known track start ((r, v) :: history) = a
  := by rw [known, h, Option.getD_some]

theorem Allowed.cons {start a : κ} {history : List (ρ × ω)} {r : ρ} {v : ω}
    (hallowed : Allowed track start history) (h : track (known track start history) r v = some a) :
  Allowed track start ((r, v) :: history)
  := ⟨hallowed, by simp [h]⟩

/-- What each allowed request preserves holds after all of them. -/
theorem Allowed.invariant {I : κ → List (ρ × ω) → Prop} {start : κ} (hstart : I start [])
    (hstep : ∀ a history r v a', I a history → track a r v = some a' → I a' ((r, v) :: history))
    {history : List (ρ × ω)} (h : Allowed track start history) :
  I (known track start history) history
  := by
  induction history with
  | nil => exact hstart
  | cons event history ih =>
      obtain ⟨r, v⟩ := event
      obtain ⟨a', ha'⟩ := Option.isSome_iff_exists.mp h.2
      rw [known_cons ha']
      exact hstep _ _ _ _ _ (ih h.1) ha'

theorem keeps_pure {x : α} {a : κ} {Q : α → κ → Prop} :
  Keeps track (pure x : Prog ρ ω α) a Q ↔ Q x a
  := Iff.rfl

theorem keeps_request {r : ρ} {a : κ} {Q : ω → κ → Prop} :
  Keeps track (request r : Prog ρ ω ω) a Q ↔ ∀ v, ∃ a', track a r v = some a' ∧ Q v a'
  := Iff.rfl

theorem Keeps.mono {p : Prog ρ ω α} {a : κ} {Q R : α → κ → Prop} (h : Keeps track p a Q)
    (hQR : ∀ x a, Q x a → R x a) :
  Keeps track p a R
  := by
  induction p generalizing a with
  | pure x => exact hQR x a h
  | call r k ih =>
      intro v
      obtain ⟨a', htrack, hk⟩ := h v
      exact ⟨a', htrack, ih v hk⟩

/-- A program after another one. -/
theorem keeps_bind {p : Prog ρ ω α} {f : α → Prog ρ ω β} {a : κ} {Q : β → κ → Prop} :
  Keeps track (p >>= f) a Q ↔ Keeps track p a (fun x a' => Keeps track (f x) a' Q)
  := by
  induction p generalizing a with
  | pure x => exact Iff.rfl
  | call r k ih =>
      apply forall_congr'
      intro v
      apply exists_congr
      intro a'
      exact and_congr_right fun _ => ih v

theorem keeps_map {p : Prog ρ ω α} {f : α → β} {a : κ} {Q : β → κ → Prop} :
  Keeps track (f <$> p) a Q ↔ Keeps track p a (fun x a' => Q (f x) a')
  := keeps_bind

theorem keeps_ite {P : Prop} [Decidable P] {p q : Prog ρ ω α} {a : κ} {Q : α → κ → Prop} :
  Keeps track (if P then p else q) a Q ↔ (P → Keeps track p a Q) ∧ (¬ P → Keeps track q a Q)
  := by
  split
  · rename_i h
    simp [h]
  · rename_i h
    simp [h]

/-- The invariant `I` of a loop holds before each iteration and at the end of the loop. -/
theorem keeps_forIn {γ : Type} {xs : List γ} {s : β} {f : γ → β → Prog ρ ω (ForInStep β)} {a : κ}
    {Q : β → κ → Prop} (I : β → κ → Prop) (hstart : I s a)
    (hstep : ∀ x ∈ xs, ∀ s a, I s a → Keeps track (f x s) a (fun r a' => I r.value a'))
    (hend : ∀ s a, I s a → Q s a) :
  Keeps track (forIn xs s f) a Q
  := by
  induction xs generalizing s a with
  | nil => exact hend s a hstart
  | cons x xs ih =>
      rw [List.forIn_cons, keeps_bind]
      apply (hstep x List.mem_cons_self s a hstart).mono
      rintro (s' | s') a' hs'
      · exact hend s' a' hs'
      · exact ih hs' fun y hy => hstep y (List.mem_cons_of_mem x hy)

end Prog
