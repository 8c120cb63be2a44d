import Mathlib.Data.Nat.Notation
import Mathlib.Logic.Function.Basic
import Nachos.Library.Run

/-!
# Coroutines and a level

Threads execute procedures that call each other, and there is a level, which all of them share. A
procedure can save the level and restore it. When the level is restored to `on` after it has been
`off`, a procedure is called (`Program.tick`). A thread goes on where another thread switches to it,
and finds the level as the other thread has left it.

A discipline says at which levels a procedure may be called, and which procedures return at the level
at which they have been called. Whether a procedure keeps to it can be read off its code
(`Code.Keeps`). If all procedures do, then they do in every run (`Coroutines.Ok.step`).
-/

namespace Coroutines

inductive Level where
  | off
  | on
deriving DecidableEq

/-- Code in procedures in `κ` over data in `σ`. What is not determined by the data and the thread is
chosen in `ι`. -/
inductive Code (σ ι κ : Type) where
  /-- The procedure returns. -/
  | ret
  | halt
  /-- The level is saved and becomes `off`. -/
  | disable (c : Code σ ι κ)
  /-- The level becomes that which has been saved. -/
  | restore (c : Code σ ι κ)
  | setLevel (now : Level) (c : Code σ ι κ)
  /-- The same without a call of `tick`. -/
  | changeLevel (now : Level) (c : Code σ ι κ)
  /-- An assertion about the level. -/
  | expect (level : Level) (c : Code σ ι κ)
  | read (k : σ → ι → ℕ → Code σ ι κ)
  | write (f : σ → ι → ℕ → σ) (c : Code σ ι κ)
  | call (f : κ) (c : Code σ ι κ)
  /-- As long as the body has a value, the data changes and a procedure is called. -/
  | loop (body : σ → ι → ℕ → Option (σ × κ)) (c : Code σ ι κ)
  /-- The thread `u` goes on. -/
  | switch (u : ℕ) (c : Code σ ι κ)

structure Program (σ ι κ : Type) where
  code : κ → Code σ ι κ
  /-- What is called when the level has become `on`. -/
  tick : κ

/-- A call that has not returned. -/
structure Frame (σ ι κ : Type) where
  proc : κ
  code : Code σ ι κ
  saved : Level
  /-- The level at the call. -/
  entry : Level

inductive Event (κ : Type) where
  | entered (f : κ) (level : Level)
  /-- The level at the call and that at the return. -/
  | returned (f : κ) (entry level : Level)
deriving DecidableEq

structure State (σ ι κ : Type) where
  data : σ
  level : Level
  current : ℕ
  calls : ℕ → List (Frame σ ι κ)
  history : List (Event κ)

variable {σ ι κ : Type}

namespace State

/-- The current thread goes on. -/
def goOn (frames : List (Frame σ ι κ)) (s : State σ ι κ) : State σ ι κ :=
  { s with calls := Function.update s.calls s.current frames }

/-- The current thread calls a procedure. -/
def enter (p : Program σ ι κ) (f : κ) (frames : List (Frame σ ι κ)) (s : State σ ι κ) :
    State σ ι κ :=
  { s with calls := Function.update s.calls s.current (⟨f, p.code f, .off, s.level⟩ :: frames)
           history := s.history ++ [.entered f s.level] }

/-- The level changes. -/
def setLevel (p : Program σ ι κ) (now : Level) (frames : List (Frame σ ι κ)) (s : State σ ι κ) :
    State σ ι κ :=
  if now = .on ∧ s.level = .off then { s with level := .on }.enter p p.tick frames
  else { s with level := now }.goOn frames

end State

/-- A step of the current thread. -/
def step (p : Program σ ι κ) (s : State σ ι κ) (i : ι) : Option (State σ ι κ) :=
  match s.calls s.current with
  | [] => none
  | frame :: frames =>
      match frame.code with
      | .ret =>
          some { s.goOn frames with
            history := s.history ++ [.returned frame.proc frame.entry s.level] }
      | .halt => none
      | .disable c =>
          some ({ s with level := .off }.goOn ({ frame with code := c, saved := s.level } :: frames))
      | .restore c => some (s.setLevel p frame.saved ({ frame with code := c } :: frames))
      | .setLevel now c => some (s.setLevel p now ({ frame with code := c } :: frames))
      | .changeLevel now c =>
          some ({ s with level := now }.goOn ({ frame with code := c } :: frames))
      | .expect level c =>
          if s.level = level then some (s.goOn ({ frame with code := c } :: frames)) else none
      | .read k => some (s.goOn ({ frame with code := k s.data i s.current } :: frames))
      | .write f c =>
          some ({ s with data := f s.data i s.current }.goOn ({ frame with code := c } :: frames))
      | .call f c => some (s.enter p f ({ frame with code := c } :: frames))
      | .loop body c =>
          match body s.data i s.current with
          | none => some (s.goOn ({ frame with code := c } :: frames))
          | some (data, f) => some ({ s with data := data }.enter p f (frame :: frames))
      | .switch u c => some { s.goOn ({ frame with code := c } :: frames) with current := u }

/-! ### Disciplines -/

structure Discipline (κ : Type) where
  /-- The levels at which a procedure may be called. -/
  allowed : κ → Level → Prop
  /-- The procedure returns at the level at which it has been called. -/
  balanced : κ → Prop

variable (d : Discipline κ)

/-- The levels at which a procedure returns that has been called at `entry`. -/
def Discipline.returns (f : κ) (entry level : Level) : Prop := d.balanced f → level = entry

/-- The code keeps to the discipline and returns at a level in `post`, whatever the data and the
choices are. -/
def Code.Keeps (post : Level → Prop) : Code σ ι κ → (level saved : Level) → Prop
  | .ret, level, _ => post level
  | .halt, _, _ => True
  | .disable c, level, _ => Keeps post c .off level
  | .restore c, _, saved => Keeps post c saved saved
  | .setLevel now c, _, saved | .changeLevel now c, _, saved => Keeps post c now saved
  | .expect l c, level, saved => level = l ∧ Keeps post c level saved
  | .read k, level, saved => ∀ s i t, Keeps post (k s i t) level saved
  | .write _ c, level, saved => Keeps post c level saved
  | .call f c, level, saved =>
      d.allowed f level ∧ ∀ now, d.returns f level now → Keeps post c now saved
  | .loop body c, level, saved =>
      (∀ s i t s' f, body s i t = some (s', f) → d.allowed f level ∧ d.balanced f) ∧
        Keeps post c level saved
  | .switch _ c, level, saved => level = .off ∧ Keeps post c .off saved

/-- All procedures keep to the discipline. -/
structure Program.Keeps (p : Program σ ι κ) : Prop where
  code : ∀ f level, d.allowed f level → (p.code f).Keeps d (d.returns f level) level .off
  tick : d.allowed p.tick .on ∧ d.balanced p.tick

/-- A thread keeps to the discipline when it goes on at a level. -/
def Stack : Level → List (Frame σ ι κ) → Prop
  | _, [] => True
  | level, frame :: frames =>
      frame.code.Keeps d (d.returns frame.proc frame.entry) level frame.saved ∧
        ∀ l, d.returns frame.proc frame.entry l → Stack l frames

/-- The invariant. A thread that does not run goes on at the level `off`. -/
structure Ok (s : State σ ι κ) : Prop where
  current : Stack d s.level (s.calls s.current)
  others : ∀ u, u ≠ s.current → Stack d .off (s.calls u)
  entered : ∀ f level, .entered f level ∈ s.history → d.allowed f level
  returned : ∀ f entry level, .returned f entry level ∈ s.history → d.returns f entry level

section

variable {d} {post : Level → Prop} {level saved : Level}

theorem Code.keeps_disable {c : Code σ ι κ} :
  (Code.disable c).Keeps d post level saved ↔ c.Keeps d post .off level
  := Iff.rfl

theorem Code.keeps_changeLevel {now : Level} {c : Code σ ι κ} :
  (Code.changeLevel now c).Keeps d post level saved ↔ c.Keeps d post now saved
  := Iff.rfl

theorem Code.keeps_write {f : σ → ι → ℕ → σ} {c : Code σ ι κ} :
  (Code.write f c).Keeps d post level saved ↔ c.Keeps d post level saved
  := Iff.rfl

theorem Code.keeps_read {k : σ → ι → ℕ → Code σ ι κ} :
  (Code.read k).Keeps d post level saved ↔ ∀ s i t, (k s i t).Keeps d post level saved
  := Iff.rfl

theorem Code.keeps_loop {body : σ → ι → ℕ → Option (σ × κ)} {c : Code σ ι κ} :
  (Code.loop body c).Keeps d post level saved ↔
    (∀ s i t s' f, body s i t = some (s', f) → d.allowed f level ∧ d.balanced f) ∧
      c.Keeps d post level saved
  := Iff.rfl

/-- The code calls a procedure that returns at the same level. -/
theorem Code.keeps_call {f : κ} {c : Code σ ι κ} (hallowed : d.allowed f level)
    (hbalanced : d.balanced f) (hc : c.Keeps d post level saved) :
  (Code.call f c).Keeps d post level saved
  := by
  use hallowed
  intro now hnow
  rw [hnow hbalanced]
  exact hc

/-- A procedure restores the level at which it has been called, and returns. -/
theorem Code.keeps_restore {f : κ} {entry : Level} :
  (Code.restore .ret : Code σ ι κ).Keeps d (d.returns f entry) level entry
  := fun _ => rfl

end

variable {d} {p : Program σ ι κ} {s s' : State σ ι κ} {frames : List (Frame σ ι κ)}

/-- The current thread goes on. -/
theorem Ok.goOn (h : Ok d s) {data : σ} {level : Level} (hstack : Stack d level frames) :
  Ok d ({ s with data := data, level := level }.goOn frames)
  := by
  refine ⟨?_, ?_, h.entered, h.returned⟩
  · simpa [State.goOn] using hstack
  · intro u hu
    have hu' : u ≠ s.current := hu
    simpa [State.goOn, hu'] using h.others u hu'

/-- The current thread calls a procedure. -/
theorem Ok.enter (hp : p.Keeps d) (h : Ok d s) {data : σ} {level : Level} {f : κ}
    (hallowed : d.allowed f level) (hstack : ∀ l, d.returns f level l → Stack d l frames) :
  Ok d ({ s with data := data, level := level }.enter p f frames)
  := by
  refine ⟨?_, ?_, ?_, ?_⟩
  · have hpushed : Stack d level (⟨f, p.code f, .off, level⟩ :: frames) :=
      ⟨hp.code f level hallowed, hstack⟩
    simpa [State.enter] using hpushed
  · intro u hu
    have hu' : u ≠ s.current := hu
    simpa [State.enter, hu'] using h.others u hu'
  · intro g l hg
    obtain hg | hg := List.mem_append.mp hg
    · exact h.entered g l hg
    · obtain ⟨rfl, rfl⟩ := Event.entered.inj (List.mem_singleton.mp hg)
      exact hallowed
  · intro g e l hg
    obtain hg | hg := List.mem_append.mp hg
    · exact h.returned g e l hg
    · cases List.mem_singleton.mp hg

/-- The level changes. -/
theorem Ok.setLevel (hp : p.Keeps d) (h : Ok d s) {now : Level} (hstack : Stack d now frames) :
  Ok d (s.setLevel p now frames)
  := by
  rw [State.setLevel]
  split
  · rename_i hraised
    apply h.enter hp hp.tick.1
    intro l hl
    rw [hl hp.tick.2, ← hraised.1]
    exact hstack
  · exact h.goOn hstack

/-- Every step keeps to the discipline. -/
theorem Ok.step (hp : p.Keeps d) (h : Ok d s) {i : ι} (hstep : Coroutines.step p s i = some s') :
  Ok d s'
  := by
  rw [Coroutines.step] at hstep
  split at hstep
  · cases hstep
  · rename_i frame frames hframes
    obtain ⟨proc, code, saved, entry⟩ := frame
    have hcurrent := h.current
    rw [hframes] at hcurrent
    obtain ⟨hcode, hrest⟩ := hcurrent
    cases code with
    | ret =>
        obtain rfl := Option.some.inj hstep
        have hok : Ok d (s.goOn frames) := h.goOn (hrest s.level hcode)
        refine ⟨hok.current, hok.others, ?_, ?_⟩
        · intro f l hf
          obtain hf | hf := List.mem_append.mp hf
          · exact h.entered f l hf
          · cases List.mem_singleton.mp hf
        · intro f e l hf
          obtain hf | hf := List.mem_append.mp hf
          · exact h.returned f e l hf
          · obtain ⟨rfl, rfl, rfl⟩ := Event.returned.inj (List.mem_singleton.mp hf)
            exact hcode
    | halt => cases hstep
    | disable c | changeLevel now c =>
        obtain rfl := Option.some.inj hstep
        exact h.goOn ⟨hcode, hrest⟩
    | restore c | setLevel now c =>
        obtain rfl := Option.some.inj hstep
        exact h.setLevel hp ⟨hcode, hrest⟩
    | expect level c =>
        simp only [Option.ite_none_right_eq_some, Option.some.injEq] at hstep
        obtain ⟨-, rfl⟩ := hstep
        exact h.goOn ⟨hcode.2, hrest⟩
    | read k =>
        obtain rfl := Option.some.inj hstep
        exact h.goOn ⟨hcode s.data i s.current, hrest⟩
    | write f c =>
        obtain rfl := Option.some.inj hstep
        exact h.goOn ⟨hcode, hrest⟩
    | call f c =>
        obtain rfl := Option.some.inj hstep
        exact h.enter hp hcode.1 (fun l hl => ⟨hcode.2 l hl, hrest⟩)
    | loop body c =>
        simp only at hstep
        split at hstep
        · obtain rfl := Option.some.inj hstep
          exact h.goOn ⟨hcode.2, hrest⟩
        · rename_i data f hbody
          obtain rfl := Option.some.inj hstep
          obtain ⟨hallowed, hbalanced⟩ := hcode.1 _ _ _ _ _ hbody
          apply h.enter hp hallowed
          intro l hl
          rw [hl hbalanced]
          exact ⟨hcode, hrest⟩
    | switch u c =>
        obtain rfl := Option.some.inj hstep
        obtain ⟨hoff, hcode⟩ := hcode
        have hcalls : ∀ v, Stack d .off
            ((s.goOn (⟨proc, c, saved, entry⟩ :: frames)).calls v) := by
          intro v
          by_cases hv : v = s.current
          · have hself : Stack d .off (⟨proc, c, saved, entry⟩ :: frames) := ⟨hcode, hrest⟩
            simpa [State.goOn, hv] using hself
          · simpa [State.goOn, hv] using h.others v hv
        have hlevel : s.level = .off := hoff
        refine ⟨?_, fun v _ => hcalls v, h.entered, h.returned⟩
        simp only [State.goOn, hlevel]
        exact hcalls u

/-- In every run of procedures that keep to a discipline, they are called at the levels that it
allows, and return at the levels at which they have been called. -/
theorem Ok.of_run (hp : p.Keeps d) (h : Ok d s) {is : List ι}
    (hrun : Transition.run (Coroutines.step p) s is = some s') :
  Ok d s'
  := @Transition.run_invariant _ _ _ (Ok d) (fun _ _ => True)
    (fun _ _ _ hs _ hstep => hs.step hp hstep) _ _ _ h
    (Transition.along_of_forall (fun _ _ => trivial) _ _) hrun

end Coroutines
