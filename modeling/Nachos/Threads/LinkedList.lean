import Mathlib.Data.Finmap
import Mathlib.Data.List.Sort
import Nachos.Library.Chains
import Nachos.Library.DataTypes

/-!
# Lists

`threads/list.cc`: the elements of a list are linked by pointers, and the list has pointers to the
first and to the last one. A pointer is `none` when it is `NULL`, and following a pointer to what is
not in memory fails. `new` returns any address that is not in use.
-/

namespace Nachos.Threads.LinkedList

abbrev Address := ℕ

structure ListElement (Item : Type) where
  next : Option Address
  key : ℤ
  item : Item

/-- The memory that is in use for elements, and a list. -/
structure Store (Item : Type) where
  heap : Finmap (fun _ : Address => ListElement Item)
  first : Option Address
  last : Option Address

variable {Item : Type}

namespace Store

def deref (s : Store Item) (p : Option Address) : Option (ListElement Item) := p.bind s.heap.lookup

/-- `new ListElement(item, key)`, at the address that is returned. -/
def alloc (s : Store Item) (address : Address) (item : Item) (key : ℤ) : Store Item :=
  { s with heap := s.heap.insert address ⟨none, key, item⟩ }

/-- `p->next = next` -/
def setNext (s : Store Item) (p next : Option Address) : Option (Store Item) := do
  let address ← p
  let element ← s.heap.lookup address
  return { s with heap := s.heap.insert address { element with next := next } }

/-- `delete p` -/
def free (s : Store Item) (address : Address) : Store Item :=
  { s with heap := s.heap.erase address }

def isEmpty (s : Store Item) : Bool := s.first.isNone

def append (s : Store Item) (element : Address) (item : Item) : Option (Store Item) :=
  let s := s.alloc element item 0
  if s.isEmpty then some { s with first := some element, last := some element }
  else do
    let s ← s.setNext s.last (some element)
    return { s with last := some element }

def prepend (s : Store Item) (element : Address) (item : Item) : Option (Store Item) :=
  let s := s.alloc element item 0
  if s.isEmpty then some { s with first := some element, last := some element }
  else do
    let s ← s.setNext (some element) s.first
    return { s with first := some element }

/-- The loop of `SortedInsert`, for `n` elements at most. -/
def insertLoop (element : Address) (sortKey : ℤ) : ℕ → Store Item → Option Address → Option (Store Item)
  | 0, _, _ => none
  | n + 1, s, ptr => do
      let e ← s.deref ptr
      if e.next.isNone then
        let s ← s.setNext s.last (some element)
        return { s with last := some element }
      else
        let e' ← s.deref e.next
        if sortKey < e'.key then
          let s ← s.setNext (some element) e.next
          s.setNext ptr (some element)
        else insertLoop element sortKey n s e.next

def sortedInsert (s : Store Item) (element : Address) (item : Item) (sortKey : ℤ) :
    Option (Store Item) :=
  let s := s.alloc element item sortKey
  if s.isEmpty then some { s with first := some element, last := some element }
  else do
    let e ← s.deref s.first
    if sortKey < e.key then
      let s ← s.setNext (some element) s.first
      return { s with first := some element }
    else insertLoop element sortKey s.heap.keys.card s s.first

/-- `SortedRemove`: what is removed, with its key. It is `none` when `NULL` is returned. -/
def sortedRemove (s : Store Item) : Option (Option (Item × ℤ) × Store Item) :=
  if s.isEmpty then some (none, s)
  else do
    let address ← s.first
    let e ← s.deref s.first
    let s' :=
      if s.first = s.last then { s with first := none, last := none } else { s with first := e.next }
    return (some (e.item, e.key), s'.free address)

/-- `Remove`, which ignores the key. -/
def remove (s : Store Item) : Option (Option Item × Store Item) :=
  s.sortedRemove.map (fun r => (r.1.map Prod.fst, r.2))

end Store

/-! ### Operations -/

/-- An operation, with the address of the element that it creates. -/
inductive Operation (Item : Type) where
  | append (element : Address) (item : Item)
  | prepend (element : Address) (item : Item)
  | remove
  | sortedInsert (element : Address) (item : Item) (sortKey : ℤ)
  | sortedRemove

inductive Answer (Item : Type) where
  | done
  | item (thing : Option Item)
  | itemAndKey (thing : Option (Item × ℤ))

def Store.perform (s : Store Item) : Operation Item → Option (Answer Item × Store Item)
  | .append element item => (s.append element item).map (.done, ·)
  | .prepend element item => (s.prepend element item).map (.done, ·)
  | .remove => s.remove.map (fun r => (.item r.1, r.2))
  | .sortedInsert element item sortKey => (s.sortedInsert element item sortKey).map (.done, ·)
  | .sortedRemove => s.sortedRemove.map (fun r => (.itemAndKey r.1, r.2))

/-- The address that `new` returns is not in use. -/
def Fresh (s : Store Item) : Operation Item → Prop
  | .append element _ | .prepend element _ | .sortedInsert element _ _ => element ∉ s.heap
  | .remove | .sortedRemove => True

/-- A sequence of keys and items, with an item before the first one of a greater key. -/
def insertBefore (sortKey : ℤ) (item : Item) (t : List (ℤ × Item)) : List (ℤ × Item) :=
  t.takeWhile (fun p => p.1 ≤ sortKey) ++ (sortKey, item) :: t.dropWhile (fun p => p.1 ≤ sortKey)

theorem insertBefore_of_le {sortKey : ℤ} {item : Item} {p : ℤ × Item} (hp : p.1 ≤ sortKey)
    (t : List (ℤ × Item)) :
  insertBefore sortKey item (p :: t) = p :: insertBefore sortKey item t
  := by
  simp [insertBefore, hp]

theorem insertBefore_of_lt {sortKey : ℤ} {item : Item} {p : ℤ × Item} (hp : sortKey < p.1)
    (t : List (ℤ × Item)) :
  insertBefore sortKey item (p :: t) = (sortKey, item) :: p :: t
  := by
  simp [insertBefore, not_le.mpr hp]

/-- An operation on a sequence of keys and items. -/
def act (t : List (ℤ × Item)) : Operation Item → Answer Item × List (ℤ × Item)
  | .append _ item => (.done, t ++ [(0, item)])
  | .prepend _ item => (.done, (0, item) :: t)
  | .remove => (.item (t.head?.map Prod.snd), t.tail)
  | .sortedInsert _ item sortKey => (.done, insertBefore sortKey item t)
  | .sortedRemove => (.itemAndKey (t.head?.map Prod.swap), t.tail)

namespace Store

/-! ### Elements -/

def next (s : Store Item) (a : Address) : Option Address := (s.heap.lookup a).bind ListElement.next

/-- What an element holds. -/
def content (s : Store Item) (a : Address) : Option (ℤ × Item) :=
  (s.heap.lookup a).map (fun e => (e.key, e.item))

theorem lookup_of_content {s : Store Item} {a : Address} {p : ℤ × Item} (h : s.content a = some p) :
  s.heap.lookup a = some ⟨s.next a, p.1, p.2⟩
  := by
  obtain ⟨e, he, rfl⟩ := Option.map_eq_some_iff.mp h
  rw [next, he]
  rfl

@[simp]
theorem next_alloc (s : Store Item) (x : Address) (item : Item) (key : ℤ) (a : Address) :
  (s.alloc x item key).next a = if a = x then none else s.next a
  := by
  by_cases h : a = x
  · subst h
    rw [if_pos rfl, next, alloc, Finmap.lookup_insert]
    rfl
  · rw [if_neg h, next, alloc, Finmap.lookup_insert_of_ne _ h]
    rfl

@[simp]
theorem content_alloc (s : Store Item) (x : Address) (item : Item) (key : ℤ) (a : Address) :
  (s.alloc x item key).content a = if a = x then some (key, item) else s.content a
  := by
  by_cases h : a = x
  · subst h
    rw [if_pos rfl, content, alloc, Finmap.lookup_insert]
    rfl
  · rw [if_neg h, content, alloc, Finmap.lookup_insert_of_ne _ h]
    rfl

/-- A pointer of one element is changed. -/
structure Links (s s' : Store Item) (a : Address) (p : Option Address) : Prop where
  first : s'.first = s.first
  last : s'.last = s.last
  next : ∀ b, s'.next b = if b = a then p else s.next b
  content : ∀ b, s'.content b = s.content b

theorem exists_setNext {s : Store Item} {a : Address} {q : ℤ × Item} (h : s.content a = some q)
    (p : Option Address) :
  ∃ s', s.setNext (some a) p = some s' ∧ s.Links s' a p
  := by
  have hlookup := lookup_of_content h
  refine ⟨{ s with heap := s.heap.insert a ⟨p, q.1, q.2⟩ }, ?_, rfl, rfl, ?_, ?_⟩
  · rw [setNext, Option.bind_eq_bind, Option.bind_some, hlookup]
    rfl
  · intro b
    by_cases hb : b = a
    · subst hb
      rw [if_pos rfl, Store.next, Finmap.lookup_insert]
      rfl
    · rw [if_neg hb, Store.next, Finmap.lookup_insert_of_ne _ hb]
      rfl
  · intro b
    by_cases hb : b = a
    · subst hb
      rw [Store.content, Finmap.lookup_insert, h]
      rfl
    · rw [Store.content, Finmap.lookup_insert_of_ne _ hb]
      rfl

/-! ### Representation -/

/-- The elements at `as` are the list, and they hold the sequence `t`. -/
structure Holds (s : Store Item) (as : List Address) (t : List (ℤ × Item)) : Prop where
  linked : Chain.Linked s.next s.first as none
  last : s.last = as.getLast?
  nodup : as.Nodup
  contents : as.map s.content = t.map some

/-- The list represents a sequence of keys and items. -/
def Represents (s : Store Item) (t : List (ℤ × Item)) : Prop := ∃ as, s.Holds as t

/-- The pointers to the first and to the last element are as they should. -/
structure WellFormed (s : Store Item) : Prop where
  none_iff : s.first = none ↔ s.last = none
  reaches : ∀ a b, s.first = some a → s.last = some b →
    Relation.ReflTransGen (fun c d => s.next c = some d) a b
  ends : ∀ b, s.last = some b → s.next b = none

variable {s : Store Item} {as bs : List Address} {t : List (ℤ × Item)} {a x : Address}

theorem Holds.wellFormed (h : s.Holds as t) :
  s.WellFormed
  := by
  have hfirst := h.linked.head_eq
  have hlast := h.last
  rcases List.eq_nil_or_concat' as with rfl | ⟨bs, b, rfl⟩
  · exact ⟨by rw [hfirst, hlast]; rfl, by rw [hfirst]; rintro a b ⟨⟩, by rw [hlast]; rintro b ⟨⟩⟩
  · rw [List.getLast?_concat] at hlast
    refine ⟨?_, ?_, ?_⟩
    · simp [hfirst, hlast]
    · intro a c ha hc
      obtain rfl := Option.some.inj (hlast.symm.trans hc)
      exact (ha ▸ h.linked).reaches (by simp)
    · intro c hc
      obtain rfl := Option.some.inj (hlast.symm.trans hc)
      exact h.linked.next_last

theorem Holds.content_of_mem (h : s.Holds as t) (ha : a ∈ as) :
  ∃ p, s.content a = some p
  := by
  have hmem : s.content a ∈ t.map some := h.contents ▸ List.mem_map_of_mem ha
  obtain ⟨p, -, hp⟩ := List.mem_map.mp hmem
  exact ⟨p, hp.symm⟩

theorem Holds.not_mem (h : s.Holds as t) (hx : x ∉ s.heap) :
  x ∉ as
  := by
  intro hmem
  obtain ⟨p, hp⟩ := h.content_of_mem hmem
  apply hx
  rw [← Finmap.lookup_isSome, lookup_of_content hp]
  rfl

theorem Holds.alloc (h : s.Holds as t) (hx : x ∉ as) (item : Item) (key : ℤ) :
  (s.alloc x item key).Holds as t
  := by
  have hne : ∀ a ∈ as, a ≠ x := fun a ha heq => hx (heq ▸ ha)
  refine ⟨?_, h.last, h.nodup, ?_⟩
  · refine (Chain.linked_congr ?_).mpr h.linked
    intro a ha
    rw [next_alloc, if_neg (hne a ha)]
  · rw [← h.contents, List.map_inj_left]
    intro a ha
    rw [content_alloc, if_neg (hne a ha)]

theorem Holds.eq_nil (h : s.Holds as t) (hempty : s.isEmpty = true) :
  as = [] ∧ t = []
  := by
  have hfirst : s.first = none := Option.isNone_iff_eq_none.mp hempty
  obtain rfl : as = [] := List.head?_eq_none_iff.mp (h.linked.head_eq.symm.trans hfirst)
  exact ⟨rfl, List.map_eq_nil_iff.mp h.contents.symm⟩

theorem Holds.exists_cons (h : s.Holds as t) (hempty : s.isEmpty = false) :
  ∃ a bs p t', as = a :: bs ∧ t = p :: t' ∧ s.first = some a ∧ s.content a = some p
  := by
  have hfirst := h.linked.head_eq
  have hcontents := h.contents
  cases as with
  | nil =>
      rw [isEmpty, hfirst] at hempty
      contradiction
  | cons a bs =>
      obtain ⟨p, t', rfl, hp, -⟩ := List.map_eq_cons_iff.mp hcontents.symm
      exact ⟨a, bs, p, t', rfl, rfl, hfirst, hp.symm⟩

theorem holds_singleton {p : ℤ × Item} (hcontent : s.content x = some p) (hnext : s.next x = none) :
  Holds { s with first := some x, last := some x } [x] [p]
  := ⟨⟨rfl, hnext⟩, rfl, List.nodup_singleton x, congrArg (fun c => [c]) hcontent⟩

/-- An element is put in front of the list. -/
theorem Holds.cons (h : s.Holds as t) (hx : x ∉ as) {s' : Store Item} {p : ℤ × Item}
    (hempty : s.isEmpty = false) (hcontent : s.content x = some p) (hlinks : s.Links s' x s.first) :
  Holds { s' with first := some x } (x :: as) (p :: t)
  := by
  obtain ⟨a, bs, -, -, rfl, -⟩ := h.exists_cons hempty
  refine ⟨?_, ?_, List.nodup_cons.mpr ⟨hx, h.nodup⟩, ?_⟩
  · apply h.linked.cons hx
    · exact (hlinks.next x).trans (if_pos rfl)
    · exact fun a ha => (hlinks.next a).trans (if_neg ha)
  · exact hlinks.last.trans (h.last.trans (List.getLast?_cons_cons).symm)
  · have hsame : s'.content = s.content := funext hlinks.content
    change (x :: a :: bs).map s'.content = _
    rw [hsame, List.map_cons, hcontent, h.contents]
    rfl

/-- An element is put behind the element `a`. -/
theorem Holds.insert_after {t₁ t₂ : List (ℤ × Item)} {p q : ℤ × Item}
    (h : s.Holds (as ++ a :: bs) (t₁ ++ p :: t₂)) (hlength : as.length = t₁.length)
    (hx : x ∉ as ++ a :: bs) (hcontent : s.content x = some q) {s' : Store Item}
    (hfirst : s'.first = s.first) (hlast : s'.last = (as ++ a :: x :: bs).getLast?)
    (hnext : s'.next x = s.next a) (hlink : s'.next a = some x)
    (hsame : ∀ b, b ≠ x → b ≠ a → s'.next b = s.next b) (hcontents : ∀ b, s'.content b = s.content b) :
  s'.Holds (as ++ a :: x :: bs) (t₁ ++ p :: q :: t₂)
  := by
  have hsplit := h.contents
  rw [List.map_append, List.map_append] at hsplit
  obtain ⟨has, hbs⟩ := List.append_inj hsplit (by simpa using hlength)
  obtain ⟨ha, hbs⟩ := List.cons.inj hbs
  refine ⟨?_, hlast, ?_, ?_⟩
  · rw [hfirst]
    exact h.linked.insert_after h.nodup hx hnext hlink hsame
  · have hperm : (as ++ a :: x :: bs).Perm (x :: (as ++ a :: bs)) := by
      have hmiddle : (as ++ [a] ++ x :: bs).Perm (x :: (as ++ [a] ++ bs)) := List.perm_middle
      simpa using hmiddle
    exact hperm.nodup_iff.mpr (List.nodup_cons.mpr ⟨hx, h.nodup⟩)
  · have hsame : s'.content = s.content := funext hcontents
    rw [hsame, List.map_append, List.map_append, has, List.map_cons, List.map_cons, List.map_cons,
      List.map_cons, hcontent, ha, hbs]

/-! ### Operations on the representation -/

/-- The last pointer is changed to an element that is put at the end. -/
theorem Holds.exists_append {t₁ : List (ℤ × Item)} {p q : ℤ × Item}
    (h : s.Holds (as ++ [a]) (t₁ ++ [p])) (hx : x ∉ as ++ [a]) (hcontent : s.content x = some q)
    (hnext : s.next x = none) :
  ∃ s', s.setNext s.last (some x) = some s' ∧
    Holds { s' with last := some x } (as ++ [a, x]) (t₁ ++ [p, q])
  := by
  have hlast : s.last = some a := h.last.trans List.getLast?_concat
  obtain ⟨p', hp'⟩ := h.content_of_mem (a := a) (by simp)
  obtain ⟨s', hset, hlinks⟩ := exists_setNext hp' (some x)
  have hne : x ≠ a := by
    rintro rfl
    simp at hx
  refine ⟨s', hlast ▸ hset, ?_⟩
  apply h.insert_after (by simpa using congrArg List.length h.contents) hx hcontent
  · exact hlinks.first
  · simp
  · exact (hlinks.next x).trans ((if_neg hne).trans (hnext.trans h.linked.next_last.symm))
  · exact (hlinks.next a).trans (if_pos rfl)
  · exact fun b _ hb => (hlinks.next b).trans (if_neg hb)
  · exact hlinks.content

/-- The pointers are changed for an element that is put between two others. -/
theorem Holds.exists_link {b : Address} {t₁ t₂ : List (ℤ × Item)} {p q : ℤ × Item}
    (h : s.Holds (as ++ a :: b :: bs) (t₁ ++ p :: t₂)) (hlength : as.length = t₁.length)
    (hx : x ∉ as ++ a :: b :: bs) (hcontent : s.content x = some q) :
  ∃ s₁ s₂, s.setNext (some x) (s.next a) = some s₁ ∧ s₁.setNext (some a) (some x) = some s₂ ∧
    s₂.Holds (as ++ a :: x :: b :: bs) (t₁ ++ p :: q :: t₂)
  := by
  obtain ⟨p', hp'⟩ := h.content_of_mem (a := a) (by simp)
  obtain ⟨s₁, hset₁, hlinks₁⟩ := exists_setNext hcontent (s.next a)
  obtain ⟨s₂, hset₂, hlinks₂⟩ := exists_setNext ((hlinks₁.content a).trans hp') (some x)
  have hne : x ≠ a := by
    rintro rfl
    simp at hx
  refine ⟨s₁, s₂, hset₁, hset₂, h.insert_after hlength hx hcontent ?_ ?_ ?_ ?_ ?_ ?_⟩
  · exact hlinks₂.first.trans hlinks₁.first
  · rw [hlinks₂.last, hlinks₁.last, h.last]
    simp
  · rw [hlinks₂.next, if_neg hne, hlinks₁.next, if_pos rfl]
  · rw [hlinks₂.next, if_pos rfl]
  · intro c hcx hca
    rw [hlinks₂.next, if_neg hca, hlinks₁.next, if_neg hcx]
  · exact fun c => (hlinks₂.content c).trans (hlinks₁.content c)

/-- The loop of `SortedInsert` at the element `a`. No element up to there has a greater key. -/
theorem Holds.exists_insertLoop {t₁ t₂ : List (ℤ × Item)} {p : ℤ × Item} {item : Item} {sortKey : ℤ}
    {n : ℕ} (h : s.Holds (as ++ a :: bs) (t₁ ++ p :: t₂)) (hlength : as.length = t₁.length)
    (hx : x ∉ as ++ a :: bs) (hcontent : s.content x = some (sortKey, item)) (hnext : s.next x = none)
    (hn : bs.length < n) :
  ∃ s', insertLoop x sortKey n s (some a) = some s' ∧
    s'.Represents (t₁ ++ p :: insertBefore sortKey item t₂)
  := by
  induction n generalizing as a bs t₁ p t₂ with
  | zero => contradiction
  | succ n ih =>
      obtain ⟨p', hp'⟩ := h.content_of_mem (a := a) (by simp)
      have hderef : s.deref (some a) = some ⟨s.next a, p'.1, p'.2⟩ := lookup_of_content hp'
      obtain ⟨m, -, -, hbs⟩ := Chain.linked_append.mp h.linked
      have hsplit := h.contents
      rw [List.map_append, List.map_append] at hsplit
      obtain ⟨-, hcons⟩ := List.append_inj hsplit (by simpa using hlength)
      obtain ⟨-, hrest⟩ := List.cons.inj hcons
      cases bs with
      | nil =>
          obtain rfl : t₂ = [] := List.map_eq_nil_iff.mp hrest.symm
          have hend : s.next a = none := hbs
          obtain ⟨s', hset, hholds⟩ := h.exists_append hx hcontent hnext
          refine ⟨_, ?_, _, hholds⟩
          rw [insertLoop, Option.bind_eq_bind, hderef, Option.bind_some, hend]
          simp [hset]
      | cons b bs =>
          obtain ⟨q, t₂, rfl, hq, -⟩ := List.map_eq_cons_iff.mp hrest.symm
          have hb : s.next a = some b := hbs.1
          have hderefb : s.deref (some b) = some ⟨s.next b, q.1, q.2⟩ := lookup_of_content hq.symm
          by_cases hkey : sortKey < q.1
          · obtain ⟨s₁, s₂, hset₁, hset₂, hholds⟩ := h.exists_link hlength hx hcontent
            refine ⟨s₂, ?_, _, insertBefore_of_lt hkey t₂ ▸ hholds⟩
            rw [hb] at hset₁
            rw [insertLoop, Option.bind_eq_bind, hderef, Option.bind_some, hb]
            simp [hderefb, hkey, hset₁, hset₂]
          · have hmore : s.Holds ((as ++ [a]) ++ b :: bs) ((t₁ ++ [p]) ++ q :: t₂) := by
              simpa using h
            obtain ⟨s', hloop, hrep⟩ :=
              ih hmore (by simpa using hlength) (by simpa using hx) (by simpa using hn)
            refine ⟨s', ?_, ?_⟩
            · rw [insertLoop, Option.bind_eq_bind, hderef, Option.bind_some, hb]
              simp [hderefb, hkey, hloop]
            · rw [insertBefore_of_le (not_lt.mp hkey)]
              simpa using hrep

/-- The elements of the list are among those in memory. -/
theorem Holds.length_le (h : s.Holds as t) :
  as.length ≤ s.heap.keys.card
  := by
  rw [← List.toFinset_card_of_nodup h.nodup]
  apply Finset.card_le_card
  intro a ha
  obtain ⟨p, hp⟩ := h.content_of_mem (List.mem_toFinset.mp ha)
  rw [Finmap.mem_keys, ← Finmap.lookup_isSome, lookup_of_content hp]
  rfl

theorem Represents.exists_append (h : s.Represents t) (hx : x ∉ s.heap) (item : Item) :
  ∃ s', s.append x item = some s' ∧ s'.Represents (t ++ [(0, item)])
  := by
  obtain ⟨as, h⟩ := h
  have hnot := h.not_mem hx
  have halloc := h.alloc hnot item 0
  have hcontent : (s.alloc x item 0).content x = some (0, item) := by simp
  have hnext : (s.alloc x item 0).next x = none := by simp
  cases hempty : (s.alloc x item 0).isEmpty with
  | true =>
      obtain ⟨rfl, rfl⟩ := halloc.eq_nil hempty
      refine ⟨_, ?_, _, holds_singleton hcontent hnext⟩
      rw [append, hempty]
      rfl
  | false =>
      obtain ⟨c, cs, q, t', has, ht, -⟩ := halloc.exists_cons hempty
      obtain ⟨bs, a, rfl⟩ : ∃ bs a, as = bs ++ [a] :=
        (List.eq_nil_or_concat' as).resolve_left (fun h => by simp [h] at has)
      obtain ⟨t₁, p, rfl⟩ : ∃ t₁ p, t = t₁ ++ [p] :=
        (List.eq_nil_or_concat' t).resolve_left (fun h => by simp [h] at ht)
      obtain ⟨s', hset, hholds⟩ := halloc.exists_append hnot hcontent hnext
      rw [List.append_assoc]
      refine ⟨_, ?_, _, hholds⟩
      rw [append, hempty]
      simp [hset]

theorem Represents.exists_prepend (h : s.Represents t) (hx : x ∉ s.heap) (item : Item) :
  ∃ s', s.prepend x item = some s' ∧ s'.Represents ((0, item) :: t)
  := by
  obtain ⟨as, h⟩ := h
  have hnot := h.not_mem hx
  have halloc := h.alloc hnot item 0
  have hcontent : (s.alloc x item 0).content x = some (0, item) := by simp
  have hnext : (s.alloc x item 0).next x = none := by simp
  cases hempty : (s.alloc x item 0).isEmpty with
  | true =>
      obtain ⟨rfl, rfl⟩ := halloc.eq_nil hempty
      refine ⟨_, ?_, _, holds_singleton hcontent hnext⟩
      rw [prepend, hempty]
      rfl
  | false =>
      obtain ⟨s', hset, hlinks⟩ := exists_setNext hcontent (s.alloc x item 0).first
      refine ⟨_, ?_, _, halloc.cons hnot hempty hcontent hlinks⟩
      rw [prepend, hempty]
      simp [hset]

theorem Represents.exists_sortedInsert (h : s.Represents t) (hx : x ∉ s.heap) (item : Item)
    (sortKey : ℤ) :
  ∃ s', s.sortedInsert x item sortKey = some s' ∧ s'.Represents (insertBefore sortKey item t)
  := by
  obtain ⟨as, h⟩ := h
  have hnot := h.not_mem hx
  have halloc := h.alloc hnot item sortKey
  have hcontent : (s.alloc x item sortKey).content x = some (sortKey, item) := by simp
  have hnext : (s.alloc x item sortKey).next x = none := by simp
  cases hempty : (s.alloc x item sortKey).isEmpty with
  | true =>
      obtain ⟨rfl, rfl⟩ := halloc.eq_nil hempty
      refine ⟨_, ?_, _, holds_singleton hcontent hnext⟩
      rw [sortedInsert, hempty]
      rfl
  | false =>
      obtain ⟨a, bs, p, t', rfl, rfl, hfirst, hp⟩ := halloc.exists_cons hempty
      have hderef : (s.alloc x item sortKey).deref (some a) = some ⟨_, p.1, p.2⟩ :=
        lookup_of_content hp
      by_cases hkey : sortKey < p.1
      · obtain ⟨s', hset, hlinks⟩ := exists_setNext hcontent (s.alloc x item sortKey).first
        rw [insertBefore_of_lt hkey]
        refine ⟨_, ?_, _, halloc.cons hnot hempty hcontent hlinks⟩
        rw [sortedInsert, hempty]
        rw [hfirst] at hset
        simp [hfirst, hderef, hkey, hset]
      · have hloop : (s.alloc x item sortKey).Holds ([] ++ a :: bs) ([] ++ p :: t') := halloc
        have hfuel := halloc.length_le
        obtain ⟨s', hinsert, hrep⟩ := hloop.exists_insertLoop rfl hnot hcontent hnext hfuel
        rw [insertBefore_of_le (not_lt.mp hkey)]
        refine ⟨s', ?_, hrep⟩
        rw [sortedInsert, hempty]
        simp [hfirst, hderef, hkey, hinsert]

theorem next_free (s : Store Item) (a b : Address) :
  (s.free a).next b = if b = a then none else s.next b
  := by
  by_cases h : b = a
  · subst h
    rw [if_pos rfl, next, free, Finmap.lookup_erase]
    rfl
  · rw [if_neg h, next, free, Finmap.lookup_erase_ne h]
    rfl

theorem content_free_of_ne (s : Store Item) {a b : Address} (h : b ≠ a) :
  (s.free a).content b = s.content b
  := by
  rw [content, free, Finmap.lookup_erase_ne h]
  rfl

/-- The first element is removed and deleted. -/
theorem Represents.exists_sortedRemove (h : s.Represents t) :
  ∃ s', s.sortedRemove = some (t.head?.map Prod.swap, s') ∧ s'.Represents t.tail
  := by
  obtain ⟨as, h⟩ := h
  cases hempty : s.isEmpty with
  | true =>
      obtain ⟨rfl, rfl⟩ := h.eq_nil hempty
      refine ⟨s, ?_, [], h⟩
      rw [sortedRemove, hempty]
      rfl
  | false =>
      obtain ⟨a, bs, p, t', rfl, rfl, hfirst, hp⟩ := h.exists_cons hempty
      have hderef : s.deref (some a) = some ⟨_, p.1, p.2⟩ := lookup_of_content hp
      have hnot : a ∉ bs := (List.nodup_cons.mp h.nodup).1
      have hcontents : bs.map s.content = t'.map some := (List.cons.inj h.contents).2
      refine ⟨_, by rw [sortedRemove, hempty]; simp [hfirst, hderef]; exact ⟨rfl, rfl⟩, ?_⟩
      by_cases honly : some a = s.last
      · obtain rfl : bs = [] := by
          cases bs with
          | nil => rfl
          | cons b bs =>
              rw [h.last, List.getLast?_cons_cons] at honly
              exact absurd (List.mem_of_getLast? honly.symm) hnot
        obtain rfl : t' = [] := List.map_eq_nil_iff.mp hcontents.symm
        rw [if_pos honly]
        exact ⟨[], rfl, rfl, List.nodup_nil, rfl⟩
      · rw [if_neg honly]
        have hne : ∀ b ∈ bs, b ≠ a := fun b hb h => hnot (h ▸ hb)
        refine ⟨bs, ?_, ?_, (List.nodup_cons.mp h.nodup).2, ?_⟩
        · refine (Chain.linked_congr ?_).mpr h.linked.2
          intro b hb
          rw [next_free, if_neg (hne b hb)]
          rfl
        · cases bs with
          | nil => exact absurd h.last.symm honly
          | cons b bs => exact h.last.trans List.getLast?_cons_cons
        · rw [List.tail_cons, ← hcontents, List.map_inj_left]
          intro b hb
          exact content_free_of_ne _ (hne b hb)

theorem represents_act :
  DataType.Represents (@perform Item) (fun t op answer t' => act t op = (answer, t')) Represents Fresh
  := by
  intro s t op h hfresh
  cases op with
  | append x item =>
      obtain ⟨s', happend, hrep⟩ := h.exists_append hfresh item
      exact ⟨_, s', _, by rw [perform, happend]; rfl, rfl, hrep⟩
  | prepend x item =>
      obtain ⟨s', hprepend, hrep⟩ := h.exists_prepend hfresh item
      exact ⟨_, s', _, by rw [perform, hprepend]; rfl, rfl, hrep⟩
  | remove =>
      obtain ⟨s', hremove, hrep⟩ := h.exists_sortedRemove
      refine ⟨_, s', _, ?_, rfl, hrep⟩
      rw [perform, remove, hremove]
      simp [Function.comp_def]
  | sortedInsert x item sortKey =>
      obtain ⟨s', hinsert, hrep⟩ := h.exists_sortedInsert hfresh item sortKey
      exact ⟨_, s', _, by rw [perform, hinsert]; rfl, rfl, hrep⟩
  | sortedRemove =>
      obtain ⟨s', hremove, hrep⟩ := h.exists_sortedRemove
      exact ⟨_, s', _, by rw [perform, hremove]; rfl, rfl, hrep⟩

end Store

/-! ### Sorted sequences -/

def Sorted (t : List (ℤ × Item)) : Prop := t.Pairwise (fun p q => p.1 ≤ q.1)

/-- In a sorted sequence the items of equal and smaller keys are before the new one, and all others
are behind it. -/
theorem Sorted.exists_insertBefore {t : List (ℤ × Item)} (h : Sorted t) (sortKey : ℤ) (item : Item) :
  ∃ l r, t = l ++ r ∧ insertBefore sortKey item t = l ++ (sortKey, item) :: r ∧
    (∀ p ∈ l, p.1 ≤ sortKey) ∧ ∀ p ∈ r, sortKey < p.1
  := by
  induction t with
  | nil => exact ⟨[], [], rfl, rfl, fun _ h => (List.not_mem_nil h).elim, fun _ h =>
      (List.not_mem_nil h).elim⟩
  | cons p t ih =>
      obtain ⟨hfirst, hrest⟩ := List.pairwise_cons.mp h
      by_cases hkey : p.1 ≤ sortKey
      · obtain ⟨l, r, rfl, hinsert, hl, hr⟩ := ih hrest
        refine ⟨p :: l, r, rfl, ?_, List.forall_mem_cons.mpr ⟨hkey, hl⟩, hr⟩
        rw [insertBefore_of_le hkey, hinsert]
        rfl
      · refine ⟨[], p :: t, rfl, insertBefore_of_lt (not_le.mp hkey) t,
          fun _ h => (List.not_mem_nil h).elim, ?_⟩
        exact List.forall_mem_cons.mpr ⟨not_le.mp hkey,
          fun q hq => lt_of_lt_of_le (not_le.mp hkey) (hfirst q hq)⟩

theorem Sorted.insertBefore {t : List (ℤ × Item)} (h : Sorted t) (sortKey : ℤ) (item : Item) :
  Sorted (insertBefore sortKey item t)
  := by
  obtain ⟨l, r, rfl, hinsert, hl, hr⟩ := h.exists_insertBefore sortKey item
  obtain ⟨hsortedl, hsortedr, hbetween⟩ := List.pairwise_append.mp h
  rw [hinsert]
  refine List.pairwise_append.mpr ⟨hsortedl, ?_, ?_⟩
  · exact List.pairwise_cons.mpr ⟨fun q hq => (hr q hq).le, hsortedr⟩
  · intro q hq
    exact List.forall_mem_cons.mpr ⟨hl q hq, hbetween q hq⟩

/-- A list that is empty at first does what the operations do on the sequence that it represents, and
its pointers are always as they should be. An insertion keeps a sorted sequence sorted, with the new
item behind those of equal and smaller keys. -/
theorem refines_sequence (s : Store Item) (hfirst : s.first = none) (hlast : s.last = none) :
  (∀ ops, DataType.Along Store.perform Fresh s ops → ∃ answers s' t,
    DataType.run Store.perform s ops = some (answers, s') ∧
      DataType.Runs (fun t op answer t' => act t op = (answer, t')) [] ops answers t ∧
      s'.Represents t ∧ s'.WellFormed) ∧
    ∀ (t : List (ℤ × Item)) (sortKey : ℤ) (item : Item), Sorted t →
      Sorted (insertBefore sortKey item t) ∧ ∃ l r, t = l ++ r ∧
        insertBefore sortKey item t = l ++ (sortKey, item) :: r ∧
        (∀ p ∈ l, p.1 ≤ sortKey) ∧ ∀ p ∈ r, sortKey < p.1
  := by
  constructor
  · intro ops hops
    have hempty : s.Represents [] := ⟨[], hfirst, hlast, List.nodup_nil, rfl⟩
    obtain ⟨answers, s', t, hrun, hruns, as, hholds⟩ := Store.represents_act.run hempty hops
    exact ⟨answers, s', t, hrun, hruns, ⟨as, hholds⟩, hholds.wellFormed⟩
  · intro t sortKey item h
    exact ⟨h.insertBefore sortKey item, h.exists_insertBefore sortKey item⟩

/-- An item is inserted and removed again, and an item is inserted behind one of the same key. -/
theorem refines_sequence_one :
  (∃ answers s' t, DataType.run Store.perform (⟨∅, none, none⟩ : Store ℕ)
      [.sortedInsert 0 7 5, .sortedRemove, .remove] = some (answers, s') ∧
      DataType.Runs (fun t op answer t' => act t op = (answer, t')) []
        [.sortedInsert 0 7 5, .sortedRemove, .remove] answers t ∧
      s'.Represents t ∧ s'.WellFormed) ∧
    Sorted (insertBefore 5 8 [(5, 7), (6, 9)])
  := by
  have hrefines := refines_sequence (⟨∅, none, none⟩ : Store ℕ) rfl rfl
  constructor
  · exact hrefines.1 _ ⟨Finmap.notMem_empty, fun _ _ => ⟨trivial, fun _ _ => ⟨trivial, fun _ _ =>
      trivial⟩⟩⟩
  · exact (hrefines.2 [(5, 7), (6, 9)] 5 8 (by simp [Sorted])).1

end Nachos.Threads.LinkedList
