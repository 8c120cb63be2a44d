import Mathlib.Data.List.Basic
import Mathlib.Logic.Relation

/-!
# Chains

Cells that are linked by pointers, each to the next one. A chain is the list of its cells, from a
pointer to the first one up to the pointer in the last one.
-/

namespace Chain

variable {α : Type*} {next next' : α → Option α} {p q : Option α} {a x : α} {as bs : List α}

/-- Following the pointers from `p` leads through the cells `as` to `q`. -/
def Linked (next : α → Option α) : Option α → List α → Option α → Prop
  | p, [], q => p = q
  | p, a :: as, q => p = some a ∧ Linked next (next a) as q

theorem linked_append :
  Linked next p (as ++ bs) q ↔ ∃ m, Linked next p as m ∧ Linked next m bs q
  := by
  induction as generalizing p with
  | nil => simp [Linked]
  | cons a as ih => simp [Linked, ih, and_assoc]

/-- A chain depends on its own pointers alone. -/
theorem linked_congr (h : ∀ a ∈ as, next a = next' a) :
  Linked next p as q ↔ Linked next' p as q
  := by
  induction as generalizing p with
  | nil => rfl
  | cons a as ih =>
      rw [List.forall_mem_cons] at h
      rw [Linked, Linked, h.1, ih h.2]

theorem Linked.head_eq (h : Linked next p as none) :
  p = as.head?
  := by
  cases as with
  | nil => exact h
  | cons a as => exact h.1

/-- Only the pointer in the last cell leads out of the chain. -/
theorem Linked.next_last (h : Linked next p (as ++ [a]) q) :
  next a = q
  := by
  obtain ⟨m, -, -, hlast⟩ := linked_append.mp h
  exact hlast

theorem linked_concat :
  Linked next p (as ++ [a]) q ↔ Linked next p as (some a) ∧ next a = q
  := by
  simp [linked_append, Linked]

theorem Linked.reaches (h : Linked next (some a) as q) (hx : x ∈ as) :
  Relation.ReflTransGen (fun b c => next b = some c) a x
  := by
  induction as generalizing a with
  | nil => contradiction
  | cons b as ih =>
      obtain ⟨hb, hrest⟩ := h
      obtain rfl := Option.some.inj hb
      rcases List.mem_cons.mp hx with rfl | hx
      · exact .refl
      · cases as with
        | nil => contradiction
        | cons c as =>
            have hc : next a = some c := hrest.1
            exact .head hc (ih (hc ▸ hrest) hx)

/-- A cell is put in front of a chain. -/
theorem Linked.cons (h : Linked next p as q) (hx : x ∉ as) (hnext : next' x = p)
    (hsame : ∀ a, a ≠ x → next' a = next a) :
  Linked next' (some x) (x :: as) q
  := by
  have hcongr : Linked next' p as q ↔ Linked next p as q :=
    linked_congr (fun a ha => hsame a (fun h => hx (h ▸ ha)))
  exact ⟨rfl, hnext ▸ hcongr.mpr h⟩

/-- A cell is put into a chain behind the cell `a`. -/
theorem Linked.insert_after (h : Linked next p (as ++ a :: bs) q) (hnodup : (as ++ a :: bs).Nodup)
    (hx : x ∉ as ++ a :: bs) (hnext : next' x = next a) (hlink : next' a = some x)
    (hsame : ∀ b, b ≠ x → b ≠ a → next' b = next b) :
  Linked next' p (as ++ a :: x :: bs) q
  := by
  obtain ⟨m, has, hm, hbs⟩ := linked_append.mp h
  obtain ⟨-, hcons, hdisjoint⟩ := List.nodup_append.mp hnodup
  have hother : ∀ b ∈ as ++ bs, next' b = next b := by
    intro b hb
    have hmem : b ∈ as ++ a :: bs := by
      rw [List.mem_append, List.mem_cons]
      rw [List.mem_append] at hb
      exact hb.imp_right .inr
    apply hsame b (fun h => hx (h ▸ hmem))
    rintro rfl
    rcases List.mem_append.mp hb with hb | hb
    · exact hdisjoint b hb b List.mem_cons_self rfl
    · exact (List.nodup_cons.mp hcons).1 hb
  refine linked_append.mpr ⟨m, ?_, hm, hlink, ?_⟩
  · exact (linked_congr (fun b hb => hother b (List.mem_append_left _ hb))).mpr has
  · rw [hnext]
    exact (linked_congr (fun b hb => hother b (List.mem_append_right _ hb))).mpr hbs

end Chain
