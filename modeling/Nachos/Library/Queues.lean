import Mathlib.Tactic.Common
import Mathlib.Data.List.Nodup
import Mathlib.Data.List.Perm.Basic

/-!
# Tables of queues

A table is a list `l` of records, each of which holds a queue `f x`. Replacing one record
exchanges its queue for the queue of the new record in the concatenation `l.flatMap f` of all
the queues (`flatMap_set_perm`), so what an operation on one record adds to the table or takes
from it can be read off that record. If the records have different keys, replacing one leaves
those with other keys (`mem_set_iff`).
-/

namespace Queues

variable {ε τ : Type*}

/-- Replacing the record `x` of a table by `y` exchanges the queue of `x` for that of `y`. -/
theorem flatMap_set_perm (f : ε → List τ) (y : ε) :
  ∀ {l : List ε} {i : ℕ} {x : ε}, l[i]? = some x →
    (f x ++ (l.set i y).flatMap f).Perm (f y ++ l.flatMap f)
  | [], _, _, h => by simp at h
  | a :: l, 0, x, h => by
      obtain rfl : a = x := by simpa using h
      simp only [List.set_cons_zero, List.flatMap_cons]
      rw [← List.append_assoc, ← List.append_assoc]
      apply List.Perm.append_right
      apply List.perm_append_comm
  | a :: l, i + 1, x, h => by
      have ih := flatMap_set_perm f y (l := l) (i := i) (x := x) (by simpa using h)
      simp only [List.set_cons_succ, List.flatMap_cons]
      apply List.Perm.trans (List.perm_append_comm_assoc _ _ _)
      apply List.Perm.trans (List.Perm.append_left _ ih)
      apply List.perm_append_comm_assoc

/-- A list with at most one entry has at most one member. -/
theorem eq_of_length_le_one {a b : τ} :
  ∀ {l : List τ}, l.length ≤ 1 → a ∈ l → b ∈ l → a = b
  | [], _, ha, _ => by simp at ha
  | [x], _, ha, hb => by
      rw [List.mem_singleton.mp ha, List.mem_singleton.mp hb]
  | _ :: _ :: _, h, _, _ => by simp at h

/-- The members of a table of records with different keys after one of them has been replaced. -/
theorem mem_set_iff {f : ε → τ} {l : List ε} {i : ℕ} {x y z : ε} (hl : (l.map f).Nodup)
    (hi : l[i]? = some x) :
  z ∈ l.set i y ↔ z = y ∨ z ∈ l ∧ f z ≠ f x
  := by
  obtain ⟨hlt, hx⟩ := List.getElem?_eq_some_iff.mp hi
  constructor
  · intro hz
    obtain ⟨j, hj⟩ := List.getElem?_of_mem hz
    rw [List.getElem?_set] at hj
    split at hj
    · left
      simpa [hlt] using hj.symm
    · rename_i hij
      right
      use List.mem_of_getElem? hj
      intro hf
      apply hij
      obtain ⟨hlt', hz'⟩ := List.getElem?_eq_some_iff.mp hj
      apply (@List.Nodup.getElem_inj_iff _ _ hl i (by simpa using hlt) j (by simpa using hlt')).mp
      simp [hx, hz', hf]
  · rintro (rfl | ⟨hz, hf⟩)
    · apply List.mem_set hlt
    · obtain ⟨j, hj⟩ := List.getElem?_of_mem hz
      have hij : i ≠ j := by
        rintro rfl
        apply hf
        rw [Option.some.inj (hj.symm.trans hi)]
      apply List.mem_of_getElem? (i := j)
      rw [List.getElem?_set_ne hij, hj]

end Queues
