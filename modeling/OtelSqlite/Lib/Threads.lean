import Mathlib.Logic.Function.Basic
import OtelSqlite.Lib.Run

/-!
# Threads over a shared state

Any number of threads, each at a place of its program, move one at a time; a move reads and
writes the shared state. Between the moves the surroundings may change the shared state. A
thread's place changes by its own moves only. `sampled` is the rule for an operation that takes
effect at one moment: what it decides is read off the shared state at some moment between its
first and its last move, whatever the other threads do.
-/

namespace OtelSqlite.Lib.Threads

structure System (S P : Type) where
  shared : S
  places : Nat → P

inductive Event (M C : Type) where
  | thread (i : Nat) (move : M)
  | change (c : C)

section Step

variable {S P M C : Type} (move : S → P → M → Option (S × P)) (change : S → C → Option S)

def System.step (s : System S P) : Event M C → Option (System S P)
  | .thread i m =>
    (move s.shared (s.places i) m).map fun next => ⟨next.1, Function.update s.places i next.2⟩
  | .change c => (change s.shared c).map fun shared => { s with shared }

def System.run (s : System S P) (events : List (Event M C)) : Option (System S P) :=
  events.foldlM (System.step move change) s

variable {move change} {s s' : System S P} {e : Event M C} {events : List (Event M C)}

/-- What a step can do. -/
inductive Steps (move : S → P → M → Option (S × P)) (change : S → C → Option S)
    (s : System S P) : Event M C → System S P → Prop where
  | thread {i : Nat} {m : M} {shared : S} {place : P}
      (h : move s.shared (s.places i) m = some (shared, place)) :
      Steps move change s (.thread i m) ⟨shared, Function.update s.places i place⟩
  | change {c : C} {shared : S} (h : change s.shared c = some shared) :
      Steps move change s (.change c) { s with shared }

theorem step_cases (h : s.step move change e = some s') : Steps move change s e s' := by
  cases e with
  | thread i m =>
    obtain ⟨⟨shared, place⟩, hm, rfl⟩ := Option.map_eq_some_iff.mp h
    exact .thread hm
  | change c =>
    obtain ⟨shared, hc, rfl⟩ := Option.map_eq_some_iff.mp h
    exact .change hc

theorem run_cons_iff :
    s.run move change (e :: events) = some s' ↔
      ∃ s₁, s.step move change e = some s₁ ∧ s₁.run move change events = some s' :=
  Option.bind_eq_some_iff

theorem run_append_iff {more : List (Event M C)} :
    s.run move change (events ++ more) = some s' ↔
      ∃ s₁, s.run move change events = some s₁ ∧ s₁.run move change more = some s' := by
  rw [System.run, List.foldlM_append]
  exact Option.bind_eq_some_iff

end Step

section Rules

variable {S P M C : Type} {move : S → P → M → Option (S × P)} {change : S → C → Option S}
  {s s' : System S P} {events : List (Event M C)}

/-- A preorder that every move and every change respects. -/
structure Respected (move : S → P → M → Option (S × P)) (change : S → C → Option S)
    (R : S → S → Prop) : Prop where
  refl : ∀ v, R v v
  trans : ∀ {u v w}, R u v → R v w → R u w
  moves : ∀ {v p m v' p'}, move v p m = some (v', p') → R v v'
  changes : ∀ {v c v'}, change v c = some v' → R v v'

variable {R : S → S → Prop}

theorem Respected.step (hr : Respected move change R) {e : Event M C}
    (h : s.step move change e = some s') : R s.shared s'.shared := by
  cases step_cases h with
  | thread hm => exact hr.moves hm
  | change hc => exact hr.changes hc

theorem Respected.run (hr : Respected move change R)
    (h : s.run move change events = some s') : R s.shared s'.shared :=
  Run.invariant (P := fun x : System S P => R s.shared x.shared)
    (fun hx hstep => hr.trans hx (hr.step hstep)) (hr.refl _) h

/-- What a thread's own moves keep, holds of its place. -/
theorem place_run {Q : P → Prop} (hmove : ∀ {v p m v' p'}, Q p → move v p m = some (v', p') → Q p')
    {i : Nat} (h : Q (s.places i)) (hrun : s.run move change events = some s') :
    Q (s'.places i) := by
  refine Run.invariant (P := fun x : System S P => Q (x.places i)) ?_ h hrun
  intro x e x' hx hstep
  cases step_cases hstep with
  | change hc => exact hx
  | @thread j m shared place hm =>
    show Q (Function.update x.places j place i)
    by_cases hij : i = j
    · subst hij
      rw [Function.update_self]
      exact hmove hx hm
    · rw [Function.update_of_ne hij]
      exact hx

/-- An undecided operation (`U`) decides on the state just before or just after one of its moves
(`D`), and keeps to that. So what it has decided was right at some moment since. -/
theorem sampled (hr : Respected move change R) {U : P → Prop} {D : S → P → Prop}
    (hdecide : ∀ {v p m v' p'}, U p → move v p m = some (v', p') → U p' ∨ D v p' ∨ D v' p')
    (hkeep : ∀ {t v p m v' p'}, D t p → move v p m = some (v', p') → D t p') {i : Nat}
    (h : U (s.places i)) (hrun : s.run move change events = some s') :
    U (s'.places i) ∨ ∃ t, R s.shared t ∧ R t s'.shared ∧ D t (s'.places i) := by
  have hinv : R s.shared s'.shared ∧ (U (s'.places i) ∨
      ∃ t, R s.shared t ∧ R t s'.shared ∧ D t (s'.places i)) := by
    refine Run.invariant (P := fun x : System S P => R s.shared x.shared ∧ (U (x.places i) ∨
      ∃ t, R s.shared t ∧ R t x.shared ∧ D t (x.places i))) ?_ ⟨hr.refl _, .inl h⟩ hrun
    rintro x e x' ⟨hbefore, hx⟩ hstep
    have hlater := hr.step hstep
    refine ⟨hr.trans hbefore hlater, ?_⟩
    -- a step of another thread leaves the place, so only the last moment moves on
    have hsame : x'.places i = x.places i → U (x'.places i) ∨
        ∃ t, R s.shared t ∧ R t x'.shared ∧ D t (x'.places i) := by
      intro hplace
      rw [hplace]
      exact hx.imp_right fun ⟨t, hst, htx, hd⟩ => ⟨t, hst, hr.trans htx hlater, hd⟩
    cases step_cases hstep with
    | change hc => exact hsame rfl
    | @thread j m shared place hm =>
      by_cases hij : i = j
      · subst hij
        have hplace : (⟨shared, Function.update x.places i place⟩ : System S P).places i = place :=
          Function.update_self ..
        rw [hplace]
        rcases hx with hu | ⟨t, hst, htx, hd⟩
        · rcases hdecide hu hm with hu' | hd | hd
          · exact .inl hu'
          · exact .inr ⟨x.shared, hbefore, hlater, hd⟩
          · exact .inr ⟨shared, hr.trans hbefore hlater, hr.refl _, hd⟩
        · exact .inr ⟨t, hst, hr.trans htx hlater, hkeep hd hm⟩
      · exact hsame (Function.update_of_ne hij ..)
  exact hinv.2

end Rules

end OtelSqlite.Lib.Threads
