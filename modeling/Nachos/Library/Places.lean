import Mathlib.Tactic.Common
import Mathlib.Data.List.Nodup
import Mathlib.Data.List.Count

/-!
# Elements in places

A family `q` of lists, one for each place. The elements are distributed over the places when each of
them is at one place, and there once (`Places.Distributed`). Moving an element from the front of one
list to the end of another one keeps the elements distributed (`Places.Distributed.move`).
-/

namespace Places

variable {ι τ : Type*} {q q' : ι → List τ} {members : List τ}

/-- Each of the members is at one place, and there once. -/
structure Distributed (q : ι → List τ) (members : List τ) : Prop where
  nodup : ∀ p, (q p).Nodup
  eq_of_mem : ∀ a p p', a ∈ q p → a ∈ q p' → p = p'
  mem_iff : ∀ a, a ∈ members ↔ ∃ p, a ∈ q p

/-- The element `a` moves from the front of place `p` to the end of place `p'`. -/
structure Moves (q q' : ι → List τ) (p p' : ι) (a : τ) : Prop where
  ne : p ≠ p'
  source : q p = a :: q' p
  target : q' p' = q p' ++ [a]
  other : ∀ r, r ≠ p → r ≠ p' → q' r = q r

/-- The place of a member, and how often it is there and elsewhere. -/
theorem Distributed.count [DecidableEq τ] (h : Distributed q members) {a : τ} (ha : a ∈ members) :
  ∃ p, (q p).count a = 1 ∧ ∀ p', p' ≠ p → (q p').count a = 0
  := by
  obtain ⟨p, hp⟩ := (h.mem_iff a).mp ha
  use p, List.count_eq_one_of_mem (h.nodup p) hp
  intro p' hne
  apply List.count_eq_zero.mpr
  intro hp'
  apply hne (h.eq_of_mem a p' p hp' hp)

/-- Where an element is when `a` has moved. -/
theorem Moves.mem_iff {p p' : ι} {a : τ} (h : Moves q q' p p' a) (hq : Distributed q members) (b : τ)
    (r : ι) :
  b ∈ q' r ↔ b = a ∧ r = p' ∨ b ≠ a ∧ b ∈ q r
  := by
  have ha : a ∈ q p := by
    rw [h.source]
    apply List.mem_cons_self
  have hnot : ∀ s, s ≠ p → a ∉ q s := by
    intro s hs has
    apply hs (hq.eq_of_mem a s p has ha)
  by_cases hr' : r = p'
  · subst hr'
    rw [h.target, List.mem_append, List.mem_singleton]
    by_cases hba : b = a
    · simp [hba]
    · simp [hba]
  · by_cases hr : r = p
    · subst hr
      have hnodup := hq.nodup r
      rw [h.source] at hnodup ⊢
      obtain ⟨hnot', -⟩ := List.nodup_cons.mp hnodup
      by_cases hba : b = a
      · subst hba
        simp [hr', hnot']
      · simp [hba]
    · rw [h.other r hr hr']
      by_cases hba : b = a
      · subst hba
        simp [hr', hnot r hr]
      · simp [hba]

/-- Moving an element keeps the elements distributed. -/
theorem Distributed.move (hq : Distributed q members) {p p' : ι} {a : τ} (h : Moves q q' p p' a) :
  Distributed q' members
  := by
  have hmem := h.mem_iff hq
  have ha : a ∈ q p := by
    rw [h.source]
    apply List.mem_cons_self
  constructor
  · intro r
    by_cases hr' : r = p'
    · subst hr'
      rw [h.target, ← List.concat_eq_append]
      apply List.Nodup.concat _ (hq.nodup r)
      intro har
      apply h.ne (hq.eq_of_mem a p r ha har)
    · by_cases hr : r = p
      · subst hr
        have hnodup := hq.nodup r
        rw [h.source] at hnodup
        apply (List.nodup_cons.mp hnodup).2
      · rw [h.other r hr hr']
        apply hq.nodup r
  · intro b r r' hbr hbr'
    obtain ⟨rfl, rfl⟩ | ⟨hba, hb⟩ := (hmem b r).mp hbr
    · obtain ⟨-, rfl⟩ | ⟨hba, -⟩ := (hmem b r').mp hbr'
      · rfl
      · contradiction
    · obtain ⟨rfl, -⟩ | ⟨-, hb'⟩ := (hmem b r').mp hbr'
      · contradiction
      · apply hq.eq_of_mem b r r' hb hb'
  · intro b
    rw [hq.mem_iff]
    constructor
    · rintro ⟨r, hr⟩
      by_cases hba : b = a
      · use p'
        apply (hmem b p').mpr
        left
        exact ⟨hba, rfl⟩
      · use r
        apply (hmem b r).mpr
        right
        exact ⟨hba, hr⟩
    · rintro ⟨r, hr⟩
      obtain ⟨rfl, -⟩ | ⟨-, hb⟩ := (hmem b r).mp hr
      · exact ⟨p, ha⟩
      · exact ⟨r, hb⟩

/-- How many elements of a list satisfy `p'` rather than `p`, when these agree but for `a`. -/
theorem countP_of_agree {l : List τ} (hl : l.Nodup) {a : τ} (ha : a ∈ l) (p p' : τ → Bool)
    (hagree : ∀ b ∈ l, b ≠ a → p' b = p b) :
  l.countP p' + (p a).toNat = l.countP p + (p' a).toNat
  := by
  induction l with
  | nil => cases ha
  | cons b l ih =>
      obtain ⟨hb, hl⟩ := List.nodup_cons.mp hl
      have hcount : ∀ q : τ → Bool, (b :: l).countP q = l.countP q + (q b).toNat := by
        intro q
        rw [List.countP_cons]
        cases q b <;> rfl
      rw [hcount, hcount]
      obtain rfl | ha := List.mem_cons.mp ha
      · have hrest : l.countP p' = l.countP p := by
          apply List.countP_congr
          intro c hc
          rw [hagree c (List.mem_cons_of_mem _ hc) (fun hca => hb (hca ▸ hc))]
        omega
      · have hba : b ≠ a := fun hba => hb (hba ▸ ha)
        have hrest := ih hl ha (fun c hc => hagree c (List.mem_cons_of_mem _ hc))
        rw [hagree b List.mem_cons_self hba]
        omega

end Places
