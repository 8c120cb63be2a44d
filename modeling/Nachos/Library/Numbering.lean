import Mathlib.Tactic.Common
import Mathlib.Data.List.Basic
import Mathlib.Data.List.Nodup
import Mathlib.Data.List.Infix

/-!
# Numbers for names

Names are put into a list, and the numbers that are given out for them are their positions counted
from `base` on (`Numbering.Numbered`). If the position itself is given out when a name comes again,
a name has one number exactly when `base` is `0` or no name comes again
(`Numbering.Renumbered.consistent_iff`).
-/

namespace Numbering

variable {ν : Type*}

/-- The numbers that have been given out for the names are their positions, from `base` on, and
every name has got its number. -/
structure Numbered (base : ℕ) (names : List ν) (given : List (ν × ℤ)) : Prop where
  each : ∀ e ∈ given, ∃ p, names[p]? = some e.1 ∧ e.2 = (p + base : ℕ)
  all : ∀ p name, names[p]? = some name → (name, ((p + base : ℕ) : ℤ)) ∈ given

theorem numbered_nil (base : ℕ) :
  Numbered base ([] : List ν) []
  := by
  constructor
  · simp
  · simp

section Numbered

variable {base base' : ℕ} {names names' : List ν} {given given' : List (ν × ℤ)}

/-- A name that has a number is asked for again. -/
theorem Numbered.again (h : Numbered base names given) {p : ℕ} {name : ν}
    (hp : names[p]? = some name) :
  Numbered base names (given ++ [(name, ((p + base : ℕ) : ℤ))])
  := by
  constructor
  · intro e he
    obtain he | he := List.mem_append.mp he
    · apply h.each e he
    · obtain rfl := List.mem_singleton.mp he
      use p, hp
  · intro q name hq
    apply List.mem_append_left
    apply h.all q name hq

/-- A name is added. -/
theorem Numbered.add (h : Numbered base names given) (name : ν) :
  Numbered base (names ++ [name]) (given ++ [(name, ((names.length + base : ℕ) : ℤ))])
  := by
  constructor
  · intro e he
    obtain he | he := List.mem_append.mp he
    · obtain ⟨p, hp, heq⟩ := h.each e he
      have hlt := (List.getElem?_eq_some_iff.mp hp).1
      use p
      rw [List.getElem?_append_left hlt]
      exact ⟨hp, heq⟩
    · obtain rfl := List.mem_singleton.mp he
      use names.length
      simp
  · intro p name' hp
    by_cases hlt : p < names.length
    · rw [List.getElem?_append_left hlt] at hp
      apply List.mem_append_left
      apply h.all p name' hp
    · have hle := (List.getElem?_eq_some_iff.mp hp).1
      rw [List.length_append, List.length_singleton] at hle
      obtain rfl : p = names.length := by omega
      obtain rfl : name = name' := by simpa using hp
      simp

/-- Different names have different numbers. -/
theorem Numbered.ne (h : Numbered base names given) {e e' : ν × ℤ} (he : e ∈ given)
    (he' : e' ∈ given) (hne : e.1 ≠ e'.1) :
  e.2 ≠ e'.2
  := by
  obtain ⟨p, hp, heq⟩ := h.each e he
  obtain ⟨p', hp', heq'⟩ := h.each e' he'
  intro hsame
  obtain rfl : p = p' := by omega
  apply hne
  exact Option.some.inj (hp.symm.trans hp')

/-- The numbers given out from two bases differ exactly when their ranges do not overlap. -/
theorem Numbered.disjoint_iff (h : Numbered base names given) (h' : Numbered base' names' given')
    (hlt : base < base') :
  (∀ e ∈ given, ∀ e' ∈ given', e.2 ≠ e'.2) ↔ base + names.length ≤ base' ∨ names' = []
  := by
  constructor
  · intro hne
    by_contra hnot
    push Not at hnot
    obtain ⟨hover, hnil⟩ := hnot
    obtain ⟨name', rest, rfl⟩ := List.exists_cons_of_ne_nil hnil
    have hin : base' - base < names.length := by omega
    have hfirst := h'.all 0 name' rfl
    have hsecond := h.all (base' - base) names[base' - base] (List.getElem?_eq_getElem hin)
    apply hne _ hsecond _ hfirst
    simp only
    omega
  · rintro hapart e he e' he' hsame
    obtain ⟨p, hp, heq⟩ := h.each e he
    obtain ⟨p', hp', heq'⟩ := h'.each e' he'
    have hlength := (List.getElem?_eq_some_iff.mp hp).1
    obtain hle | rfl := hapart
    · omega
    · simp at hp'

end Numbered

section Renumbered

variable [BEq ν] [LawfulBEq ν]

/-- A name gets its position from `base` on when it comes first, and its position when it comes
again. -/
structure Renumbered (base : ℕ) (names : List ν) (given : List (ν × ℤ)) : Prop where
  mem : ∀ e ∈ given, e.1 ∈ names
  all : ∀ name ∈ names, (name, ((names.idxOf name + base : ℕ) : ℤ)) ∈ given
  first : (given.map Prod.fst).Nodup → ∀ e ∈ given, e.2 = (names.idxOf e.1 + base : ℕ)
  zero : base = 0 → ∀ e ∈ given, e.2 = names.idxOf e.1
  again : ¬ (given.map Prod.fst).Nodup → ∃ name ∈ names, (name, (names.idxOf name : ℤ)) ∈ given
  nodup : names.Nodup

theorem renumbered_nil (base : ℕ) :
  Renumbered base ([] : List ν) []
  := by
  constructor <;> simp

variable {base : ℕ} {names : List ν} {given : List (ν × ℤ)} {name : ν}

/-- A name comes again. -/
theorem Renumbered.repeat (h : Renumbered base names given) (hname : name ∈ names) :
  Renumbered base names (given ++ [(name, (names.idxOf name : ℤ))])
  := by
  have hrepeat : ¬ ((given ++ [(name, (names.idxOf name : ℤ))]).map Prod.fst).Nodup := by
    intro hnodup
    rw [List.map_append, List.nodup_append] at hnodup
    apply hnodup.2.2 name (List.mem_map.mpr ⟨_, h.all name hname, rfl⟩) name
    · simp
    · rfl
  constructor
  · intro e he
    obtain he | he := List.mem_append.mp he
    · apply h.mem e he
    · obtain rfl := List.mem_singleton.mp he
      apply hname
  · intro name' hname'
    apply List.mem_append_left
    apply h.all name' hname'
  · intro hnodup
    contradiction
  · intro hbase e he
    obtain he | he := List.mem_append.mp he
    · apply h.zero hbase e he
    · obtain rfl := List.mem_singleton.mp he
      rfl
  · intro _
    use name, hname
    simp
  · apply h.nodup

/-- A name comes first. -/
theorem Renumbered.add (h : Renumbered base names given) (hname : name ∉ names) :
  Renumbered base (names ++ [name]) (given ++ [(name, ((names.length + base : ℕ) : ℤ))])
  := by
  have hold : ∀ name' ∈ names, (names ++ [name]).idxOf name' = names.idxOf name' :=
    fun name' hname' => List.idxOf_append_of_mem hname'
  have hnew : (names ++ [name]).idxOf name = names.length := by
    rw [List.idxOf_append_of_notMem hname]
    simp
  have hfresh : name ∉ given.map Prod.fst := by
    intro hmem
    obtain ⟨e, he, rfl⟩ := List.mem_map.mp hmem
    apply hname (h.mem e he)
  have hnodup : ((given ++ [(name, ((names.length + base : ℕ) : ℤ))]).map Prod.fst).Nodup ↔
      (given.map Prod.fst).Nodup := by
    rw [List.map_append, List.map_singleton]
    constructor
    · intro hdup
      apply (List.nodup_append.mp hdup).1
    · intro hdup
      rw [← List.concat_eq_append]
      apply hdup.concat hfresh
  constructor
  · intro e he
    obtain he | he := List.mem_append.mp he
    · apply List.mem_append_left
      apply h.mem e he
    · obtain rfl := List.mem_singleton.mp he
      simp
  · intro name' hname'
    obtain hname' | hname' := List.mem_append.mp hname'
    · rw [hold name' hname']
      apply List.mem_append_left
      apply h.all name' hname'
    · obtain rfl := List.mem_singleton.mp hname'
      rw [hnew]
      simp
  · intro hdup e he
    obtain he | he := List.mem_append.mp he
    · rw [hold e.1 (h.mem e he)]
      apply h.first (hnodup.mp hdup) e he
    · obtain rfl := List.mem_singleton.mp he
      rw [hnew]
  · intro hbase e he
    obtain he | he := List.mem_append.mp he
    · rw [hold e.1 (h.mem e he)]
      apply h.zero hbase e he
    · obtain rfl := List.mem_singleton.mp he
      rw [hnew, hbase, Nat.add_zero]
  · intro hdup
    rw [hnodup] at hdup
    obtain ⟨name', hname', hmem⟩ := h.again hdup
    use name', List.mem_append_left _ hname'
    rw [hold name' hname']
    apply List.mem_append_left _ hmem
  · rw [← List.concat_eq_append]
    apply h.nodup.concat hname

/-- A name has one number exactly when the numbers start at `0` or no name comes again. -/
theorem Renumbered.consistent_iff (h : Renumbered base names given) :
  (∀ e ∈ given, ∀ e' ∈ given, e.1 = e'.1 → e.2 = e'.2) ↔
    base = 0 ∨ (given.map Prod.fst).Nodup
  := by
  constructor
  · intro hsame
    by_contra hnot
    push Not at hnot
    obtain ⟨hbase, hdup⟩ := hnot
    obtain ⟨name, hname, hmem⟩ := h.again hdup
    have heq := hsame _ (h.all name hname) _ hmem rfl
    simp only at heq
    omega
  · rintro (hbase | hdup) e he e' he' hname
    · rw [h.zero hbase e he, h.zero hbase e' he', hname]
    · rw [h.first hdup e he, h.first hdup e' he', hname]

/-- Then the numbers are positions from `base` on. -/
theorem Renumbered.numbered (h : Renumbered base names given)
    (hbase : base = 0 ∨ (given.map Prod.fst).Nodup) :
  Numbered base names given
  := by
  constructor
  · intro e he
    use names.idxOf e.1
    constructor
    · apply List.getElem?_idxOf
      apply h.mem e he
    · obtain hbase | hdup := hbase
      · rw [h.zero hbase e he, hbase, Nat.add_zero]
      · apply h.first hdup e he
  · intro p name hp
    obtain ⟨hlt, rfl⟩ := List.getElem?_eq_some_iff.mp hp
    have hall := h.all names[p] (List.getElem_mem hlt)
    rwa [h.nodup.idxOf_getElem] at hall

end Renumbered

end Numbering
