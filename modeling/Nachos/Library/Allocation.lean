import Mathlib.Algebra.Order.Ring.Nat
import Mathlib.Data.List.Nodup
import Mathlib.Data.List.Perm.Basic

/-!
# Allocation

Numbers below `n` are given out and taken back, and a bit for each of them says whether it is in use.
`Exact` says that the bits are those of the numbers that have been given out, each of them once.
-/

namespace Allocation

/-- The numbers whose bits are set are those of `used`, which are different from each other. -/
structure Exact (n : ℕ) (bits : ℕ → Bool) (used : List ℕ) : Prop where
  nodup : used.Nodup
  lt : ∀ s ∈ used, s < n
  mem_iff : ∀ s < n, bits s = true ↔ s ∈ used

variable {n : ℕ} {bits bits' : ℕ → Bool} {used used' : List ℕ}

theorem exact_nil (h : ∀ s < n, bits s = false) :
  Exact n bits []
  := by
  constructor
  · apply List.nodup_nil
  · intro s hs
    cases hs
  · intro s hs
    simp [h s hs]

theorem Exact.perm (h : Exact n bits used) (hperm : used.Perm used') :
  Exact n bits used'
  := by
  constructor
  · exact hperm.nodup h.nodup
  · intro s hs
    apply h.lt s (hperm.mem_iff.mpr hs)
  · intro s hs
    rw [h.mem_iff s hs, hperm.mem_iff]

theorem Exact.congr (h : Exact n bits used) (hbits : ∀ s < n, bits' s = bits s) :
  Exact n bits' used
  := by
  constructor
  · apply h.nodup
  · apply h.lt
  · intro s hs
    rw [hbits s hs]
    apply h.mem_iff s hs

/-- A number that was free is given out. -/
theorem Exact.mark (h : Exact n bits used) {s : ℕ} (hs : s < n) (hfree : bits s = false)
    (hbits : ∀ t < n, bits' t = (bits t || decide (t = s))) :
  Exact n bits' (s :: used)
  := by
  constructor
  · apply List.nodup_cons.mpr
    use fun hmem => Bool.false_ne_true (hfree ▸ (h.mem_iff s hs).mpr hmem)
    apply h.nodup
  · intro t ht
    cases List.mem_cons.mp ht with
    | inl heq => exact heq ▸ hs
    | inr hmem => apply h.lt t hmem
  · intro t ht
    rw [hbits t ht, Bool.or_eq_true, decide_eq_true_eq, h.mem_iff t ht, List.mem_cons, or_comm]

/-- A number is taken back. -/
theorem Exact.clear {s : ℕ} (h : Exact n bits (s :: used))
    (hbits : ∀ t < n, bits' t = (bits t && !decide (t = s))) :
  Exact n bits' used
  := by
  obtain ⟨hs, hnodup⟩ := List.nodup_cons.mp h.nodup
  constructor
  · apply hnodup
  · intro t ht
    apply h.lt t (List.mem_cons_of_mem s ht)
  · intro t ht
    rw [hbits t ht, Bool.and_eq_true, h.mem_iff t ht, List.mem_cons]
    constructor
    · rintro ⟨heq | hmem, hne⟩
      · simp [heq] at hne
      · apply hmem
    · intro hmem
      use .inr hmem
      have hne : t ≠ s := fun heq => hs (heq ▸ hmem)
      simp [hne]

/-- The numbers that are free and those that are in use are all of them. -/
theorem Exact.countP_add_length (h : Exact n bits used) :
  (List.range n).countP (fun i => !bits i) + used.length = n
  := by
  have hperm : used.Perm ((List.range n).filter bits) := by
    rw [List.perm_ext_iff_of_nodup h.nodup (List.nodup_range.filter bits)]
    intro s
    rw [List.mem_filter, List.mem_range]
    constructor
    · intro hs
      exact ⟨h.lt s hs, (h.mem_iff s (h.lt s hs)).mpr hs⟩
    · rintro ⟨hs, hbit⟩
      apply (h.mem_iff s hs).mp hbit
  have hcount := List.length_eq_countP_add_countP bits (l := List.range n)
  rw [hperm.length_eq, ← List.countP_eq_length_filter]
  simp only [List.length_range, Bool.not_eq_true, Bool.decide_eq_false] at hcount
  omega

/-- The first free number. -/
theorem find_some {s : ℕ} (h : (List.range n).find? (fun i => !bits i) = some s) :
  s < n ∧ bits s = false
  := by
  constructor
  · apply List.mem_range.mp (List.mem_of_find?_eq_some h)
  · simpa using List.find?_some h

/-- When no number is free, all of them are in use. -/
theorem Exact.length_of_find_none (h : Exact n bits used)
    (hfind : (List.range n).find? (fun i => !bits i) = none) :
  used.length = n
  := by
  have hcount : (List.range n).countP (fun i => !bits i) = 0 := by
    apply List.countP_eq_zero.mpr
    apply List.find?_eq_none.mp hfind
  have hlength := h.countP_add_length
  omega

/-- One of several owners, which had nothing, gets `xs`. -/
theorem flatMap_perm {ι α : Type*} {l : List ι} (hl : l.Nodup) {i : ι} (hi : i ∈ l)
    {f f' : ι → List α} {xs : List α} (hf : f i = []) (hf' : f' i = xs)
    (hother : ∀ j ∈ l, j ≠ i → f' j = f j) :
  (l.flatMap f').Perm (xs ++ l.flatMap f)
  := by
  induction l with
  | nil => cases hi
  | cons j l ih =>
      obtain ⟨hj, hnodup⟩ := List.nodup_cons.mp hl
      rw [List.flatMap_cons, List.flatMap_cons]
      by_cases hji : j = i
      · subst hji
        have hrest : l.flatMap f' = l.flatMap f := by
          apply List.flatMap_congr
          intro k hk
          apply hother k (List.mem_cons_of_mem j hk)
          rintro rfl
          apply hj hk
        rw [hf', hf, hrest, List.nil_append]
      · have hmem : i ∈ l := (List.mem_cons.mp hi).resolve_left (Ne.symm hji)
        have hrest := ih hnodup hmem (fun k hk => hother k (List.mem_cons_of_mem j hk))
        rw [hother j List.mem_cons_self hji]
        apply (hrest.append_left (f j)).trans
        apply List.perm_append_comm_assoc

end Allocation
