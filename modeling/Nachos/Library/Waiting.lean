import Mathlib.Logic.Relation
import Mathlib.Order.WellFounded

/-!
# Waiting for what others have

A process may wait for a resource, and a resource may have an owner. If resources have ranks and a
process that waits for a resource owns only resources of lower ranks, then

* no process waits for itself, by way of other processes (`Ranked.not_waits_self`);
* if moreover nobody waits for a resource without an owner and ranks do not rise forever, a process that
  waits does so for one that does not wait (`Ranked.exists_last`).
-/

namespace Waiting

variable {π ρ κ : Type*} (needs : π → Option ρ) (owner : ρ → Option π)

/-- The process `p` waits for a resource of the process `q`. -/
def WaitsFor (p q : π) : Prop := ∃ l, needs p = some l ∧ owner l = some q

/-- A process that waits for a resource owns only resources of lower ranks. -/
def Ranked [LT κ] (rank : ρ → κ) : Prop :=
  ∀ p l m, needs p = some l → owner m = some p → rank m < rank l

namespace Ranked

variable {needs owner} [Preorder κ] {rank : ρ → κ} {p q : π} {l m : ρ}

/-- The ranks rise from one waiting process to the next. -/
theorem rank_lt (h : Ranked needs owner rank) (hwaits : Relation.TransGen (WaitsFor needs owner) p q)
    (hp : needs p = some l) (hq : needs q = some m) :
  rank l < rank m
  := by
  induction hwaits generalizing m with
  | single hstep =>
      obtain ⟨l', hl', howner⟩ := hstep
      obtain rfl := Option.some.inj (hp.symm.trans hl')
      exact h _ _ _ hq howner
  | tail _ hstep ih =>
      obtain ⟨l', hl', howner⟩ := hstep
      exact (ih hl').trans (h _ _ _ hq howner)

theorem not_waits_self (h : Ranked needs owner rank) :
  ¬ Relation.TransGen (WaitsFor needs owner) p p
  := by
  intro hwaits
  obtain ⟨q, ⟨l, hl, -⟩, -⟩ := Relation.TransGen.head'_iff.mp hwaits
  exact lt_irrefl _ (h.rank_lt hwaits hl hl)

/-- The last one owns a resource of the rank that the first one waits for, or of a higher rank. -/
theorem exists_last [WellFoundedGT κ] (h : Ranked needs owner rank)
    (howned : ∀ p l, needs p = some l → owner l ≠ none) (hp : needs p = some l) :
  ∃ q m, Relation.TransGen (WaitsFor needs owner) p q ∧ needs q = none ∧ owner m = some q ∧
    rank l ≤ rank m
  := by
  induction hr : rank l using WellFoundedGT.induction generalizing p l with
  | ind r ih =>
      obtain ⟨q, hq⟩ := Option.ne_none_iff_exists'.mp (howned p l hp)
      have hstep : WaitsFor needs owner p q := ⟨l, hp, hq⟩
      cases hneeds : needs q with
      | none => exact ⟨q, l, .single hstep, hneeds, hq, hr.ge⟩
      | some m =>
          have hlt := h q m l hneeds hq
          rw [hr] at hlt
          obtain ⟨q', m', hwaits, hnone, howner, hle⟩ := ih (rank m) hlt hneeds rfl
          exact ⟨q', m', .head hstep hwaits, hnone, howner, hlt.le.trans hle⟩

end Ranked

end Waiting
