import Mathlib.Algebra.BigOperators.Group.Finset.Basic
import Nachos.Office.Handshake
import Nachos.Office.Payments

/-!
# The money of the passport office

Customers, clerks and the manager have all the money together that the customers have been given, but for
the payments under way (`money_conserved`). This holds as long as the money fits in the elements, a bribe
is paid to a clerk that there is, and no clerk is woken at a wrong time.
-/

namespace Nachos.Office

/-- The elements that hold money. -/
def elements : Finset (Variable × ℤ) :=
  ([.customerMoney, .senatorMoney, .clerkMoney .app, .clerkMoney .pic, .clerkMoney .pass,
      .clerkMoney .cashier].flatMap fun mv =>
    (List.range (numElements mv)).map fun i => (mv, (i : ℤ))).toFinset

theorem mem_elements {mv : Variable} {i : ℤ} :
  (mv, i) ∈ elements ↔ isMoney mv = true ∧ 0 ≤ i ∧ i < numElements mv
  := by
  have hrange : ∀ n : ℕ, (∃ j < n, i = (j : ℤ)) ↔ 0 ≤ i ∧ i < n := by
    intro n
    constructor
    · rintro ⟨j, hj, rfl⟩
      omega
    · rintro ⟨hi, hlt⟩
      exact ⟨i.toNat, by omega, by omega⟩
  cases mv with
  | clerkMoney K => cases K <;> simp [elements, isMoney, hrange]
  | _ => simp [elements, isMoney, hrange]

/-- The processes that `Setup` makes room for. -/
def everyone : Finset Process :=
  insert .manager (group .customerIndex ∪ group .senatorIndex ∪
    Finset.biUnion {.app, .pic, .pass, .cashier} fun K => group (.clerkIndex K))

theorem mem_everyone {p : Process} :
  p ∈ everyone ↔ State.fits p = true
  := by
  cases p with
  | clerk K n => cases K <;> simp [everyone, group, State.fits]
  | _ => simp [everyone, group, State.fits]

/-- A sum of which one summand is changed. -/
theorem sum_of_changed {ι : Type} [DecidableEq ι] {S : Finset ι} {f g : ι → ℤ} {a : ι} (ha : a ∈ S)
    (h : ∀ b, b ≠ a → g b = f b) :
  ∑ b ∈ S, g b + f a = ∑ b ∈ S, f b + g a
  := by
  have hsame : ∑ b ∈ S.erase a, g b = ∑ b ∈ S.erase a, f b :=
    Finset.sum_congr rfl fun b hb => h b (Finset.ne_of_mem_erase hb)
  rw [← Finset.add_sum_erase S g ha, ← Finset.add_sum_erase S f ha, hsame]
  omega

namespace State

variable {machine : Process → ℕ} {s s' t : State} {p q : Process} {r : Request}

/-- The money in the elements. -/
def money (s : State) : ℤ := ∑ e ∈ elements, s.values e.1 e.2

def weight (s : State) (p : Process) : ℤ := (s.phase p).weight p (s.tasks p).status.isWaiting

/-- The office is balanced: what has been read under a lock is not changed, only customers that have been
given money have some, and all money is accounted for. -/
structure Balanced (s : State) : Prop where
  remembered : ∀ p mv position money, (s.phase p).remembers p = some (mv, position, money) →
    inRange mv position = true → s.values mv (char position) = money
  rich : ∀ id, s.values .customerMoney id ≠ 0 →
    ∃ q, indexOf q = .customerIndex ∧ (s.phase q).rich q = true ∧ (s.phase q).number = some id
  balance : s.money + ∑ p ∈ everyone, s.weight p = 0

/-! ### Requests that do not change money -/

theorem stored_of_free (h : r.free) {mv : Variable} (hmv : isMoney mv = true) (i : ℤ) :
  s.stored r mv i = s.values mv i
  := by
  apply stored_of_ne
  rintro position value rfl
  rw [Request.free, hmv] at h
  cases h

theorem money_congr (h : ∀ mv i, isMoney mv = true → s'.values mv i = s.values mv i) :
  s'.money = s.money
  := Finset.sum_congr rfl fun e he => h e.1 e.2 (mem_elements.mp he).1

/-- What a process stands for is changed only by its own requests and when it is woken. -/
theorem Asked.weight_other (hasked : Asked machine s p r t s') (hok : Ok s) (hq : q ≠ p)
    (hsignal : ∀ c l, r = .signal c l → (s.conditions c).waitQueue.head? ≠ some q) :
  s'.weight q = s.weight q
  := by
  have hphase := hasked.phase q hq
  rcases hasked.status_cases machine hok q with ⟨hwaiting, -⟩ | ⟨hqp, -⟩ |
      ⟨c, hstatus, hwaiting, ⟨hr, hhead, -⟩ | ⟨hr, -⟩⟩
  · rw [weight, weight, hphase, hwaiting]
  · exact absurd hqp hq
  · exact absurd hhead (hsignal c _ hr)
  · have hnext := hasked.next
    rw [hr, Office.next, if_pos rfl] at hnext
    rw [weight, weight, hphase, hwaiting, hstatus]
    rcases weight_of_waits (p := q) (hok.waits hstatus) with hsame | ⟨id, i, -, rfl, -⟩
    · exact hsame.symm
    · revert hnext
      cases s.phase p <;> simp [onBroadcast]

theorem Asked.weight_before (hasked : Asked machine s p r t s') :
  s.weight p = (s.phase p).weight p false
  := by
  rw [weight, hasked.ready]
  rfl

theorem Asked.weight_after (hasked : Asked machine s p r t s') (hok : Ok s)
    (hr : ∀ c l, r ≠ .wait c l) :
  s'.weight p = (s'.phase p).weight p false
  := by
  have hready : (s.tasks p).status.isWaiting = false := by rw [hasked.ready]; rfl
  obtain ⟨-, hwaiting | ⟨-, c, l, heq⟩⟩ := hasked.moving machine hok hready
  · rw [weight, hwaiting]
  · exact absurd heq (hr c l)

/-- The weights when a process is not woken that has paid. -/
theorem Asked.weight_eq (hasked : Asked machine s p r t s') (hok : Ok s) (hfree : r.free)
    (hwoken : ∀ c l u, r = .signal c l → (s.conditions c).waitQueue.head? = some u →
      s'.weight u = s.weight u)
    (hdone : ∀ i, s.phase p = .accounted i → ∀ c l, r ≠ .signal c l) (q : Process) :
  s'.weight q = s.weight q
  := by
  by_cases hqp : q = p
  · subst hqp
    rw [hasked.weight_before]
    by_cases hr : r.quiet = true
    · rw [hasked.weight_after hok fun c l heq => by rw [heq] at hr; cases hr]
      exact weight_next hfree hr hasked.next
    · have hnext := hasked.next
      cases r with
      | wait c l =>
          obtain ⟨-, hnext⟩ := Option.ite_none_right_eq_some.mp hnext
          rw [weight, hasked.waits]
          exact weight_onWait hnext
      | signal c l =>
          obtain ⟨-, hnext⟩ := Option.ite_none_right_eq_some.mp hnext
          rw [hasked.weight_after hok (by simp)]
          obtain hsame | ⟨i, hφ, -⟩ := weight_onSignal (p := q) hnext
          · exact hsame
          · exact absurd rfl (hdone i hφ c l)
      | broadcast c l =>
          obtain ⟨-, hnext⟩ := Option.ite_none_right_eq_some.mp hnext
          rw [hasked.weight_after hok (by simp)]
          exact weight_onBroadcast hnext
      | _ => exact absurd rfl hr
  · by_cases hhead : ∃ c l, r = .signal c l ∧ (s.conditions c).waitQueue.head? = some q
    · obtain ⟨c, l, hr, hhead⟩ := hhead
      exact hwoken c l q hr hhead
    · exact hasked.weight_other hok hqp fun c l hr hq => hhead ⟨c, l, hr, hq⟩

/-! ### What is remembered -/

theorem isIndex_of_isVisitor (hp : isVisitor p = true) :
  isIndex (indexOf p) = true
  := by cases p <;> first | rfl | cases hp

theorem Numbered.char_number (h : Numbered s) (hp : isVisitor p = true) {i : ℤ}
    (hi : (s.phase p).number = some i) :
  char i = i
  := by
  have hbounds := h.number_lt (isIndex_of_isVisitor hp) hi
  have hlt := population_lt (indexOf p)
  exact char_eq hbounds.1 (by omega)

/-- Only one process has an element of money for itself. -/
theorem keeps_unique (hok : Ok s) (hnumbered : Numbered s) {mv : Variable} {i j : ℤ}
    (hp : (s.phase p).Keeps p mv i) (hq : (s.phase q).Keeps q mv j) (hij : char i = char j) :
  p = q
  := by
  rcases hp with ⟨⟨K, rfl⟩, hheld, hasking⟩ | ⟨hp, hmv, hi⟩
  · rcases hq with ⟨-, hheld', hasking'⟩ | ⟨-, hmv, -⟩
    · have howner := hok.owner hheld (.inr hasking)
      rw [hok.owner hheld' (.inr hasking')] at howner
      exact (Option.some.inj howner).symm
    · cases q <;> cases hmv
  · rcases hq with ⟨⟨K, rfl⟩, -⟩ | ⟨hq, hmv', hj⟩
    · cases p <;> cases hmv
    · rw [hnumbered.char_number hp hi, hnumbered.char_number hq hj] at hij
      rw [← hij] at hj
      apply hnumbered.distinct p q i (isIndex_of_isVisitor hp) _ hi hj
      rw [hmv] at hmv'
      cases p <;> cases q <;> simp [isVisitor, moneyOf, indexOf] at hp hq hmv' ⊢

theorem Asked.remembered (hasked : Asked machine s p r t s') (hok : Ok s) (hnumbered : Numbered s)
    (h : Balanced s) {mv : Variable} {position money : ℤ}
    (hq : (s'.phase q).remembers q = some (mv, position, money))
    (hrange : inRange mv position = true) :
  s'.values mv (char position) = money
  := by
  rw [hasked.values]
  by_cases hqp : q = p
  · subst hqp
    rcases remembers_next hasked.next with hnone | ⟨hsame, hfree⟩ | ⟨mv', position', rfl, hread⟩
    · rw [hnone] at hq
      cases hq
    · rw [hsame] at hq
      rw [stored_of_free hfree (isMoney_of_remembers hq)]
      exact h.remembered q mv position money hq hrange
    · rw [hread] at hq
      obtain ⟨rfl, rfl, rfl⟩ : mv' = mv ∧ position' = position ∧ _ := by simpa using hq
      rw [reply, if_pos hrange]
      rfl
  · rw [hasked.phase q hqp] at hq
    rw [← h.remembered q mv position money hq hrange]
    cases r with
    | setMV mv' position' value =>
        rw [stored]
        split
        · apply if_neg
          rintro ⟨rfl, hchar⟩
          apply hqp
          apply keeps_unique hok hnumbered (keeps_of_remembers (hok.suits q) hq) _ hchar
          exact keeps_of_set (hok.suits p) (isMoney_of_remembers hq) hasked.next
        · rfl
    | _ => rfl

theorem Asked.number (hasked : Asked machine s p r t s') {id : ℤ}
    (hnumber : (s.phase q).number = some id) :
  (s'.phase q).number = some id
  := by
  by_cases hqp : q = p
  · subst hqp
    rcases number_next hasked.next with ⟨-, hsame, -⟩ | ⟨hφ, -, -⟩ | ⟨_, hφ, -, -⟩
    · rw [hsame, hnumber]
    · rw [hφ] at hnumber
      cases hnumber
    · rw [hφ] at hnumber
      cases hnumber
  · rw [hasked.phase q hqp, hnumber]

/-- A customer that has been given money stays one that has, with its number. -/
theorem Asked.stays_rich (hasked : Asked machine s p r t s') {id : ℤ}
    (hrich : (s.phase q).rich q = true) (hnumber : (s.phase q).number = some id) :
  (s'.phase q).rich q = true ∧ (s'.phase q).number = some id
  := by
  refine ⟨?_, hasked.number hnumber⟩
  by_cases hqp : q = p
  · subst hqp
    exact (rich_next hasked.next).mpr (.inl hrich)
  · rw [hasked.phase q hqp, hrich]

theorem Asked.rich (hasked : Asked machine s p r t s') (hok : Ok s) (hnumbered : Numbered s)
    (h : Balanced s) {id : ℤ} (hid : s'.values .customerMoney id ≠ 0) :
  ∃ q, indexOf q = .customerIndex ∧ (s'.phase q).rich q = true ∧ (s'.phase q).number = some id
  := by
  by_cases hold : s.values .customerMoney id = 0
  · rw [hasked.values] at hid
    obtain ⟨position, value, rfl⟩ : ∃ position value, r = .setMV .customerMoney position value := by
      by_contra hne
      rw [stored_of_ne (fun position value heq => hne ⟨position, value, heq⟩)] at hid
      exact hid hold
    have hrange : inRange .customerMoney position = true := by
      by_contra hrange
      rw [stored, if_neg hrange] at hid
      exact hid hold
    have hchar : id = char position := by
      by_contra hne
      rw [stored, if_pos hrange] at hid
      exact hid ((if_neg fun hsame => hne hsame.2).trans hold)
    have hsuits := hok.suits p
    obtain ⟨⟨K, hK⟩, -⟩ | ⟨hvisitor, hmv, hnumber⟩ := keeps_of_set hsuits rfl hasked.next
    · cases hK
    · have hindex : indexOf p = .customerIndex := by
        cases p <;> simp [moneyOf, isVisitor, indexOf] at hmv hvisitor ⊢
      rw [hnumbered.char_number hvisitor hnumber] at hchar
      refine ⟨p, hindex, ?_⟩
      have hrich := rich_next hasked.next
      rcases weight_money rfl hasked.next with ⟨-, hφ, -, rfl, -⟩ | ⟨money, hmoney, -⟩
      · exact ⟨hrich.mpr (.inr rfl), by rw [hasked.number hnumber, hchar]⟩
      · have hold := rich_of_remembers hmoney
        rw [hchar]
        exact hasked.stays_rich hold hnumber
  · obtain ⟨q, hindex, hrich, hnumber⟩ := h.rich id hold
    obtain ⟨hrich, hnumber⟩ := hasked.stays_rich hrich hnumber
    exact ⟨q, hindex, hrich, hnumber⟩

/-! ### Requests that change money -/

/-- Only one element is changed. -/
theorem money_stored {mv : Variable} {position value : ℤ}
    (hmv : isMoney mv = true) (hrange : inRange mv position = true) (hvalue : char value = value)
    (hs' : s'.values = s.stored (.setMV mv position value)) :
  s'.money + s.values mv (char position) = s.money + value
  := by
  have hmem : (mv, char position) ∈ elements := by
    simp only [inRange, Bool.and_eq_true, decide_eq_true_eq] at hrange
    exact mem_elements.mpr ⟨hmv, by omega, hrange.2⟩
  have hsum := sum_of_changed (f := fun e => s.values e.1 e.2) (g := fun e => s'.values e.1 e.2) hmem ?_
  · have hnew : s'.values mv (char position) = value := by
      rw [hs', stored, if_pos hrange]
      exact (if_pos ⟨rfl, rfl⟩).trans hvalue
    rw [money, money, ← hnew]
    exact hsum
  · rintro ⟨mv', i⟩ hne
    rw [hs', stored, if_pos hrange]
    apply if_neg
    rintro ⟨rfl, rfl⟩
    exact hne rfl

theorem sum_weight_of_changed (hp : fits p = true) (h : ∀ q, q ≠ p → s'.weight q = s.weight q) :
  ∑ q ∈ everyone, s'.weight q + s.weight p = ∑ q ∈ everyone, s.weight q + s'.weight p
  := sum_of_changed (mem_everyone.mpr hp) h

/-- A customer that has not been given its money has none. -/
theorem Balanced.none_given (h : Balanced s) (hok : Ok s) (hnumbered : Numbered s) {id : ℤ}
    (hp : isSenator p = false) (hφ : s.phase p = .roaming id false) :
  s.values .customerMoney id = 0
  := by
  by_contra hne
  obtain ⟨q, hindex, hrich, hnumber⟩ := h.rich id hne
  have hsuits := hok.suits p
  rw [hφ] at hsuits
  have hpindex : indexOf p = .customerIndex := by
    cases p <;> simp [Phase.suits, isVisitor, isSenator, indexOf] at hp hsuits ⊢
  obtain rfl := hnumbered.distinct q p id (by rw [hindex]; rfl) (by rw [hindex, hpindex]) hnumber
    (by rw [hφ]; rfl)
  rw [hφ] at hrich
  cases hrich

/-- Money is changed in an element and in the process alike. -/
theorem Balanced.set (h : Balanced s) (hok : Ok s) (hnumbered : Numbered s) {mv : Variable}
    {position value : ℤ} (hasked : Asked machine s p (.setMV mv position value) t s')
    (hmv : isMoney mv = true) (hrange : inRange mv position = true) (hvalue : char value = value) :
  Balanced s'
  := by
  refine ⟨fun _ _ _ _ => hasked.remembered hok hnumbered h, fun _ => hasked.rich hok hnumbered h, ?_⟩
  have hmoney := money_stored hmv hrange hvalue hasked.values
  have hweight := sum_weight_of_changed hasked.room fun q hq => hasked.weight_other hok hq (by simp)
  rw [hasked.weight_before, hasked.weight_after hok (by simp)] at hweight
  have hbalance := h.balance
  rcases weight_money hmv hasked.next with ⟨hp, hφ, rfl, rfl, hchange⟩ | ⟨money, hread, hchange⟩
  · have hsuits := hok.suits p
    rw [hφ] at hsuits
    have hchar : char position = position :=
      hnumbered.char_number (Bool.and_eq_true_iff.mp hsuits).1 (by rw [hφ]; rfl)
    rw [hchar, h.none_given hok hnumbered hp hφ] at hmoney
    omega
  · rw [h.remembered p mv position money hread hrange] at hmoney
    omega

/-! ### The other requests -/

theorem Balanced.unset (h : Balanced s) (hok : Ok s) (hnumbered : Numbered s)
    (hasked : Asked machine s p r t s') (hfree : r.free)
    (hweight : ∑ q ∈ everyone, s'.weight q = ∑ q ∈ everyone, s.weight q) :
  Balanced s'
  := by
  refine ⟨fun _ _ _ _ => hasked.remembered hok hnumbered h, fun _ => hasked.rich hok hnumbered h, ?_⟩
  have hmoney : s'.money = s.money := by
    apply money_congr
    intro mv i hmv
    rw [hasked.values]
    exact stored_of_free hfree hmv i
  rw [hmoney, hweight]
  exact h.balance

section

variable {c : ConditionName} {l : LockName} {u : Process}

theorem Asked.weight_woken (hasked : Asked machine s p (.signal c l) t s') (hok : Ok s)
    (hu : (s.conditions c).waitQueue.head? = some u) :
  s.weight u = (s.phase u).weight u true ∧ s'.weight u = (s.phase u).weight u false
  := by
  obtain ⟨hup, hstatus, hwaiting, -⟩ := hasked.woken machine hok hu
  rw [weight, weight, hasked.phase u hup, hwaiting, hstatus]
  exact ⟨rfl, rfl⟩

/-- The cashier signals the visitor whose money it has got. -/
theorem Asked.weight_served (hasked : Asked machine s p (.signal c l) t s') (hok : Ok s)
    (hnumbered : Numbered s) (h : Handshake s) {i : ℤ} (hφ : s.phase p = .accounted i)
    (hφ' : s'.phase p = .done .cashier i) (hc : c = .clerkCV .cashier i) :
  ∑ q ∈ everyone, s'.weight q = ∑ q ∈ everyone, s.weight q
  := by
  subst hc
  have hdesk : s.desk p = some (.cashier, i, .dealing) := by
    rw [hasked.view_before.2, hφ]
    rfl
  have howner : (s.locks (.clerkLock .cashier i)).owner = some p := by
    have hgrants := hasked.grants.1
    rwa [(moves_next hasked.next).1] at hgrants
  obtain ⟨u, id, hhead, hu, huφ⟩ := h.first_visitor hok hnumbered hdesk (by rw [hasked.ready]; rfl) howner
  have hup := (hasked.woken machine hok hhead).1
  obtain ⟨hbefore, hafter⟩ := hasked.weight_woken hok hhead
  have hweight : ∀ q, q ≠ p → s'.weight q = if q = u then s'.weight u else s.weight q := by
    intro q hqp
    split
    · rename_i hqu
      rw [hqu]
    · rename_i hqu
      apply hasked.weight_other hok hqp
      rintro c l heq hq
      cases heq
      rw [hhead] at hq
      exact hqu (Option.some.inj hq).symm
  have hufits : fits u = true :=
    hok.fits (mem_of_number (hok.followed.allowed u) (by rw [huφ]; rfl : _ = some id))
  have hsum := sum_of_changed (mem_everyone.mpr hasked.room) hweight
  have hsum' := sum_of_changed (S := everyone) (f := s.weight)
    (g := fun q => if q = u then s'.weight u else s.weight q) (mem_everyone.mpr hufits)
    (fun q hqu => if_neg hqu)
  rw [if_neg hup.symm] at hsum
  rw [if_pos rfl] at hsum'
  have hcharged : s'.weight p = s.weight p + 10 := by
    rw [hasked.weight_before, hasked.weight_after hok (by simp), hφ, hφ']
    rfl
  have hserved : s.weight u = s'.weight u + 10 := by
    rw [hbefore, hafter, huφ]
    simp [Phase.weight, Phase.transit]
    omega
  omega

/-- Nobody else wakes a visitor that has paid. -/
theorem Asked.weight_unserved (hasked : Asked machine s p (.signal c l) t s') (hok : Ok s)
    (h : Handshake s) (hφ : ∀ i, s.phase p ≠ .accounted i)
    (hwakes : p = .manager → ∀ K i, c = .clerkCV K i → ∀ u,
      (s.conditions c).waitQueue.head? = some u → s.phase u = .asleep K i)
    (hu : (s.conditions c).waitQueue.head? = some u) :
  s'.weight u = s.weight u
  := by
  obtain ⟨hup, hstatus, -⟩ := hasked.woken machine hok hu
  obtain ⟨hbefore, hafter⟩ := hasked.weight_woken hok hu
  rw [hbefore, hafter]
  rcases weight_of_waits (p := u) (hok.waits hstatus) with hsame | ⟨id, i, huφ, rfl, -⟩
  · exact hsame.symm
  exfalso
  have hvisit : s.visit u = some (.cashier, i, id, .dealing) := by
    rw [visit, hstatus, huφ]
    rfl
  have hnext := hasked.next
  obtain ⟨-, hnext⟩ := Option.ite_none_right_eq_some.mp hnext
  rcases onSignal_cases hnext with ⟨id', K, i', hφp, heq, -⟩ | ⟨id', K, i', hφp, heq, -⟩ |
      ⟨K, i', hφp, heq, -⟩ | ⟨K, i', -, -, hc⟩ | ⟨-, hc⟩
  · cases heq
    exact hup (h.sole u p .cashier i id id' .dealing .given hvisit (by rw [hasked.view_before.1, hφp]; rfl))
  · cases heq
    exact hup (h.sole u p .cashier i id id' .dealing .answered hvisit
      (by rw [hasked.view_before.1, hφp]; rfl))
  · cases heq
    obtain hφp | ⟨hφp, -⟩ := hφp
    · rw [hφp] at hnext
      simp [onSignal] at hnext
    · exact hφ i hφp
  · rcases hc with hc | hc | hc <;> cases hc
  · rcases hc with hc | ⟨i', hc⟩ | ⟨n, K, i', hφp, heq⟩
    · cases hc
    · cases hc
    · have hmanager : p = .manager := by
        have hsuits := hok.suits p
        rw [hφp] at hsuits
        exact of_decide_eq_true hsuits
      rw [hwakes hmanager .cashier i rfl u hu] at huφ
      cases huφ

end

/-! ### Runs -/

/-- Whether a process does not set an amount of money that has no element or does not fit in it. -/
def fine (s : State) (p : Process) : Bool :=
  match s.asks p with
  | some (.setMV mv position value) =>
      !isMoney mv || (inRange mv position && decide (-128 ≤ value ∧ value < 128))
  | _ => true

theorem Balanced.asked (h : Balanced s) (hok : Ok s) (hnumbered : Numbered s) (hshake : Handshake s)
    (hproper : s.proper p = true) (hfine : s.fine p = true) (hasks : s.asks p = some r)
    (hasked : Asked machine s p r t s') :
  Balanced s'
  := by
  by_cases hfree : r.free
  · apply h.unset hok hnumbered hasked hfree
    by_cases hserved : (∃ i, s.phase p = .accounted i) ∧ ∃ c l, r = .signal c l
    · obtain ⟨⟨i, hφ⟩, c, l, rfl⟩ := hserved
      have hnext := hasked.next
      obtain ⟨-, hnext⟩ := Option.ite_none_right_eq_some.mp hnext
      rw [hφ] at hnext
      obtain ⟨hc, hφ'⟩ := Phase.when_eq_some.mp hnext
      exact hasked.weight_served hok hnumbered hshake hφ hφ'.symm hc
    · apply Finset.sum_congr rfl
      intro q _
      apply hasked.weight_eq hok hfree
      · rintro c l u rfl hu
        apply hasked.weight_unserved hok hshake _ _ hu
        · exact fun i hφ => hserved ⟨⟨i, hφ⟩, c, l, rfl⟩
        · rintro hmanager K i rfl w hw
          rw [proper, hasks] at hproper
          simpa [hmanager, hw] using hproper
      · exact fun i hφ c l hr => hserved ⟨⟨i, hφ⟩, c, l, hr⟩
  · cases r with
    | setMV mv position value =>
        have hmv : isMoney mv = true := Bool.not_eq_false _ ▸ hfree
        rw [fine, hasks] at hfine
        simp only [hmv, Bool.not_true, Bool.false_or, Bool.and_eq_true, decide_eq_true_eq] at hfine
        apply h.set hok hnumbered hasked hmv hfine.1
        rw [char, Int.bmod_eq_of_le] <;> omega
    | _ => exact absurd trivial hfree

theorem balanced_initial (started : Process → Bool) :
  Balanced (initial started)
  := by
  have hphase : ∀ p, (initial started).phase p = .first p := fun _ => rfl
  constructor
  · intro p mv position money hp
    rw [hphase] at hp
    cases p <;> cases hp
  · intro id hid
    exact absurd rfl hid
  · have hweight : ∀ p, (initial started).weight p = 0 := by
      intro p
      rw [weight, hphase]
      cases p <;> rfl
    simp only [hweight, Finset.sum_const_zero, add_zero]
    exact Finset.sum_eq_zero fun _ _ => rfl

theorem Balanced.same (h : Balanced s) (hsame : Same s s') :
  Balanced s'
  := by
  constructor
  · intro p mv position money hp hrange
    rw [hsame.phase] at hp
    rw [hsame.values]
    exact h.remembered p mv position money hp hrange
  · intro id hid
    rw [hsame.values] at hid
    simp only [hsame.phase]
    exact h.rich id hid
  · have hweight : ∀ p, s'.weight p = s.weight p := by
      intro p
      rw [weight, weight, hsame.phase, hsame.status]
    have hmoney : s'.money = s.money := money_congr fun mv i _ => by rw [hsame.values]
    simp only [hmoney, hweight]
    exact h.balance

theorem balanced_run {started : Process → Bool} {ps : List Process}
    (hproper : Transition.Along (State.step machine) (fun s p => s.proper p = true ∧ s.fine p = true)
      (initial started) ps)
    (hrun : Transition.run (State.step machine) (initial started) ps = some s) :
  Balanced s
  := by
  have hall : Numbered s ∧ Handshake s ∧ Balanced s := by
    refine run_induction machine (I := fun s => Numbered s ∧ Handshake s ∧ Balanced s)
      (P := fun s p r => (s.proper p = true ∧ s.fine p = true) ∧ s.asks p = some r)
      ⟨numbered_initial started, handshake_initial started, balanced_initial started⟩ ?_ ?_
      (hproper.mono fun _ _ hproper _ hasks => ⟨hproper, hasks⟩) hrun
    · exact fun s s' hsame h => ⟨h.1.same hsame, h.2.1.same hsame, h.2.2.same hsame⟩
    · rintro s p r t s' hok ⟨hnumbered, hshake, h⟩ ⟨⟨hproper, hfine⟩, hasks⟩ hasked
      exact ⟨hnumbered.asked hok hasked, hshake.asked hok hnumbered hproper hasks hasked,
        h.asked hok hnumbered hshake hproper hfine hasks hasked⟩
  exact hall.2.2

/-- What a process has debited and not credited. -/
def transit (s : State) (p : Process) : ℤ := (s.phase p).transit (s.tasks p).status.isWaiting

/-- What the manager has read in the elements of the clerks. -/
def received (history : List (Request × ℤ)) : ℤ := (history.map fun e => gain e.1 e.2).sum

/-- The processes that have been given their money. -/
def paidOut (s : State) : Finset Process :=
  everyone.filter fun p => (s.tasks p).history.any fun e => isGift e.1

theorem takings_eq (hallowed : Prog.Allowed (Office.next .manager) (.first .manager)
    (s.tasks .manager).history) :
  (s.phase .manager).takings = received (s.tasks .manager).history
  := by
  have hboth := hallowed.invariant (I := fun φ history => φ.suits .manager = true ∧
    φ.takings = received history) ⟨rfl, rfl⟩ ?_
  · exact hboth.2
  · rintro φ history r v φ' ⟨hsuits, htakings⟩ hnext
    refine ⟨suits_next hnext hsuits, ?_⟩
    rw [takings_next hsuits hnext, htakings, received, received, List.map_cons, List.sum_cons, add_comm]

theorem rich_iff (hallowed : Prog.Allowed (Office.next p) (.first p) (s.tasks p).history) :
  (s.phase p).rich p = (s.tasks p).history.any fun e => isGift e.1
  := by
  refine hallowed.invariant (I := fun φ history => φ.rich p = history.any fun e => isGift e.1) ?_ ?_
  · cases p <;> rfl
  · intro φ history r v φ' hrich hnext
    rw [List.any_cons, ← hrich, Bool.eq_iff_iff, rich_next hnext, Bool.or_eq_true, or_comm]

/-- Nobody but the manager collects money. -/
theorem sum_takings (hok : Ok s) :
  ∑ p ∈ everyone, (s.phase p).takings = received (s.tasks .manager).history
  := by
  rw [Finset.sum_eq_single_of_mem .manager (mem_everyone.mpr rfl)]
  · exact takings_eq (hok.followed.allowed .manager)
  · exact fun p _ hp => takings_of_suits (hok.suits p) hp

theorem sum_rich (hok : Ok s) :
  ∑ p ∈ everyone, (if (s.phase p).rich p = true then 60 else 0 : ℤ) = 60 * s.paidOut.card
  := by
  have hpaid : s.paidOut = everyone.filter fun p => (s.phase p).rich p = true := by
    apply Finset.filter_congr
    intro p _
    rw [rich_iff (hok.followed.allowed p)]
  rw [hpaid, ← Finset.sum_filter, Finset.sum_const, nsmul_eq_mul, mul_comm]

/-- The customers, the clerks and the manager have the money that the customers have been given, but for
what is on the way from one to another. -/
theorem money_conserved (started : Process → Bool) (ps : List Process) (s : State)
    (hproper : Transition.Along (State.step machine) (fun s p => s.proper p = true ∧ s.fine p = true)
      (initial started) ps)
    (hrun : Transition.run (State.step machine) (initial started) ps = some s) :
  s.money + ∑ p ∈ everyone, s.transit p + received (s.tasks .manager).history =
    60 * s.paidOut.card
  := by
  have hok := ok_run machine hrun
  have hbalance := (balanced_run hproper hrun).balance
  have hweight : ∑ p ∈ everyone, s.weight p = ∑ p ∈ everyone, s.transit p +
      ∑ p ∈ everyone, (s.phase p).takings -
        ∑ p ∈ everyone, (if (s.phase p).rich p = true then 60 else 0 : ℤ) := by
    rw [← Finset.sum_add_distrib, ← Finset.sum_sub_distrib]
    rfl
  rw [hweight, sum_takings hok, sum_rich hok] at hbalance
  omega

/-- A customer has come to a line, and another one has decided to bribe the clerk. It has paid 50, which
the clerk has not got yet. -/
def bribing : List Process :=
  List.replicate 26 (.customer 0) ++ List.replicate 24 (.customer 1)

theorem money_conserved_bribing :
  ∃ s, Transition.run (State.step fun _ => 0) (initial fun _ => true) bribing = some s ∧
    s.money = 70 ∧ s.paidOut.card = 2 ∧ ∑ p ∈ everyone, s.transit p = 50
  := by
  have hproper : Transition.Along (State.step fun _ => 0)
      (fun s p => s.proper p = true ∧ s.fine p = true) (initial fun _ => true) bribing := by
    decide +kernel
  have hdata : (Transition.run (State.step fun _ => 0) (initial fun _ => true) bribing).map
      (fun s => (s.money, s.paidOut.card, received (s.tasks .manager).history)) = some (70, 2, 0) := by
    decide +kernel
  obtain ⟨s, hrun, heq⟩ := Option.map_eq_some_iff.mp hdata
  simp only [Prod.mk.injEq] at heq
  obtain ⟨hmoney, hpaid, hreceived⟩ := heq
  have hconserved := money_conserved _ _ s hproper hrun
  rw [hmoney, hpaid, hreceived] at hconserved
  exact ⟨s, hrun, hmoney, hpaid, by omega⟩

end State

end Nachos.Office
