import Mathlib.Data.List.MinMax

/-!
# The first least element below a bound

A loop over a list that keeps the last element which was below all before it, and below a bound at the
start, finds the first least element of the list, if that is below the bound.
-/

namespace Least

variable {α β : Type*} [LinearOrder β] (f : α → β) (b : β)

/-- What the bound is when `best` has been found. -/
def bound (best : Option α) : β := best.elim b f

/-- One iteration of the loop. -/
def better (best : Option α) (a : α) : Option α := if f a < bound f b best then some a else best

/-- The loop. -/
def least (l : List α) : Option α := l.foldl (better f b) none

theorem least_append (l l' : List α) :
  least f b (l ++ l') = l'.foldl (better f b) (least f b l)
  := by
  rw [least, List.foldl_append, ← least]

theorem least_eq (l : List α) :
  least f b l = (l.argmin f).filter (fun a => f a < b)
  := by
  induction l using List.reverseRecOn with
  | nil => rfl
  | append_singleton l a ih =>
      rw [least_append, ih, List.argmin_concat]
      cases hargmin : l.argmin f with
      | none =>
          by_cases ha : f a < b
          · simp [better, bound, Option.filter, ha]
          · simp [better, bound, Option.filter, ha]
      | some m =>
          by_cases hm : f m < b
          · by_cases ha : f a < f m
            · simp [better, bound, Option.filter, hm, ha, ha.trans hm]
            · simp [better, bound, Option.filter, hm, ha]
          · by_cases ha : f a < b
            · have ham : f a < f m := lt_of_lt_of_le ha (not_lt.mp hm)
              simp [better, bound, Option.filter, hm, ha, ham]
            · by_cases ham : f a < f m
              · simp [better, bound, Option.filter, hm, ha, ham]
              · simp [better, bound, Option.filter, hm, ha, ham]

variable {f b} {l : List α}

theorem mem_of_least {a : α} (h : least f b l = some a) :
  a ∈ l
  := by
  rw [least_eq] at h
  exact List.argmin_mem (Option.mem_def.mpr (Option.eq_some_of_filter_eq_some h))

/-- If an element is below the bound, the first least one is found. -/
theorem least_eq_argmin (h : ∃ a ∈ l, f a < b) :
  least f b l = l.argmin f
  := by
  rw [least_eq]
  cases hargmin : l.argmin f with
  | none => rfl
  | some m =>
      obtain ⟨a, hmem, ha⟩ := h
      have hm : f m < b := lt_of_le_of_lt (List.le_of_mem_argmin hmem hargmin) ha
      simp [Option.filter, hm]

/-- Nothing is found exactly if no element is below the bound. -/
theorem least_eq_none_iff :
  least f b l = none ↔ ∀ a ∈ l, b ≤ f a
  := by
  constructor
  · intro hnone a hmem
    by_contra ha
    rw [least_eq_argmin ⟨a, hmem, not_le.mp ha⟩, List.argmin_eq_none] at hnone
    rw [hnone] at hmem
    cases hmem
  · intro hall
    rw [least_eq]
    cases hargmin : l.argmin f with
    | none => rfl
    | some m => simp [Option.filter, not_lt.mpr (hall m (List.argmin_mem hargmin))]

end Least
