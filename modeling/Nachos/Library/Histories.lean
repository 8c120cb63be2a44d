import Mathlib.Tactic.Common
import Mathlib.Data.List.Basic

/-!
# Histories

A history is the list of what has happened. What begins with `x` and ends with `y` is going on when
`x` is in the history and `y` is not after it (`Histories.Open`). If `x a` happens only when what
`x b` has begun is not going on for any other `b`, then the beginnings of different elements are
separated by ends (`Histories.Exclusive.concat`).

A queue is what has entered it without what has left it, if what leaves it is always its head
(`Histories.Queued`).
-/

namespace Histories

variable {ε τ : Type*}

/-- `x` has happened, and `y` has not happened since. -/
def Open (x y : ε) (h : List ε) : Prop := ∃ h₁ h₂, h = h₁ ++ x :: h₂ ∧ y ∉ h₂

/-- Between `x a` and `x b` there is `y a`, unless `a` and `b` are the same. -/
def Exclusive (x y : τ → ε) (h : List ε) : Prop :=
  ∀ h₁ h₂ h₃ a b, h = h₁ ++ x a :: (h₂ ++ x b :: h₃) → y a ∉ h₂ → b = a

theorem not_open_nil {x y : ε} :
  ¬ Open x y []
  := by
  rintro ⟨h₁, h₂, heq, -⟩
  simp at heq

theorem exclusive_nil {x y : τ → ε} :
  Exclusive x y []
  := by
  intro h₁ h₂ h₃ a b heq
  simp at heq

/-- What is going on after `e` has begun with `e`, or was going on before and has not ended
with `e`. -/
theorem Open.of_concat {x y e : ε} {h : List ε} (hopen : Open x y (h ++ [e])) :
  e = x ∨ e ≠ y ∧ Open x y h
  := by
  obtain ⟨h₁, h₂, heq, hy⟩ := hopen
  obtain rfl | ⟨h₂', e', rfl⟩ := List.eq_nil_or_concat h₂
  · left
    obtain ⟨-, he⟩ := List.append_inj' heq rfl
    apply List.head_eq_of_cons_eq he
  · right
    rw [List.concat_eq_append, ← List.cons_append, ← List.append_assoc] at heq
    obtain ⟨rfl, he⟩ := List.append_inj' heq rfl
    obtain rfl := List.head_eq_of_cons_eq he
    simp only [List.concat_eq_append, List.mem_append, List.mem_singleton, not_or] at hy
    use Ne.symm hy.2, h₁, h₂', rfl, hy.1

/-- What is going on after something else than its beginning was going on before. -/
theorem Open.of_concat_ne {x y e : ε} {h : List ε} (hopen : Open x y (h ++ [e])) (he : e ≠ x) :
  Open x y h
  := by
  obtain heq | ⟨-, hold⟩ := hopen.of_concat
  · contradiction
  · apply hold

/-- What happens keeps the beginnings of different elements separated. -/
theorem Exclusive.concat {x y : τ → ε} {h : List ε} (hexclusive : Exclusive x y h) {e : ε}
    (he : ∀ b, e = x b → ∀ a, Open (x a) (y a) h → b = a) :
  Exclusive x y (h ++ [e])
  := by
  intro h₁ h₂ h₃ a b heq hy
  obtain rfl | ⟨h₃', e', rfl⟩ := List.eq_nil_or_concat h₃
  · rw [← List.cons_append, ← List.append_assoc] at heq
    obtain ⟨hh, heb⟩ := List.append_inj' heq rfl
    apply he b (List.head_eq_of_cons_eq heb)
    exact ⟨h₁, h₂, hh, hy⟩
  · apply hexclusive h₁ h₂ h₃' a b _ hy
    rw [List.concat_eq_append, ← List.cons_append, ← List.append_assoc, ← List.cons_append,
      ← List.append_assoc] at heq
    simpa only [List.append_assoc, List.cons_append] using (List.append_inj' heq rfl).1

/-- Something else than a beginning keeps the beginnings separated. -/
theorem Exclusive.concat_ne {x y : τ → ε} {h : List ε} (hexclusive : Exclusive x y h) {e : ε}
    (he : ∀ b, e ≠ x b) :
  Exclusive x y (h ++ [e])
  := by
  apply hexclusive.concat
  intro b hb
  apply absurd hb (he b)

/-- What has entered and not left, in the order in which it has entered. -/
def Queued (enters leaves : ε → Option τ) (h : List ε) (queue : List τ) : Prop :=
  h.filterMap enters = h.filterMap leaves ++ queue

section

variable {enters leaves : ε → Option τ} {h : List ε} {e : ε} {queue : List τ} {a : τ}

theorem Queued.skip (hqueued : Queued enters leaves h queue) (henters : enters e = none)
    (hleaves : leaves e = none) :
  Queued enters leaves (h ++ [e]) queue
  := by
  rw [Queued, List.filterMap_append, List.filterMap_append, List.filterMap_cons_none henters,
    List.filterMap_cons_none hleaves, List.filterMap_nil, List.filterMap_nil, List.append_nil,
    List.append_nil]
  apply hqueued

theorem Queued.enter (hqueued : Queued enters leaves h queue) (henters : enters e = some a)
    (hleaves : leaves e = none) :
  Queued enters leaves (h ++ [e]) (queue ++ [a])
  := by
  rw [Queued, List.filterMap_append, List.filterMap_append, List.filterMap_cons_some henters,
    List.filterMap_cons_none hleaves, List.filterMap_nil, List.filterMap_nil, List.append_nil,
    hqueued, List.append_assoc]

theorem Queued.leave (hqueued : Queued enters leaves h (a :: queue)) (henters : enters e = none)
    (hleaves : leaves e = some a) :
  Queued enters leaves (h ++ [e]) queue
  := by
  rw [Queued, List.filterMap_append, List.filterMap_append, List.filterMap_cons_none henters,
    List.filterMap_cons_some hleaves, List.filterMap_nil, List.filterMap_nil, List.append_nil,
    hqueued, List.append_assoc, List.singleton_append]

end

end Histories
