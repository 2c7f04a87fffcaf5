import Mathlib.Data.List.Basic

/-!
# Runs of a step function that may refuse an event

A run folds a partial step function over a list of events. `invariant` is the
induction rule for the states a run ends in. `Throughout` says that a property
holds in every state a run passes, `Along` that every event it takes finds a
condition met; both look at the run up to the first refused event. If a step
keeps the property exactly when its event meets the condition, then a run has the
property throughout exactly when it meets the condition along the way. `gather` lists
what an observer of the steps sees.
-/

namespace OtelSqlite.Lib.Run

variable {S E : Type} (step : S → E → Option S)

def Throughout (P : S → Prop) : S → List E → Prop
  | s, [] => P s
  | s, e :: events =>
    P s ∧ match step s e with
      | some s' => Throughout P s' events
      | none => True

def Along (Q : S → E → Prop) : S → List E → Prop
  | _, [] => True
  | s, e :: events =>
    match step s e with
    | some s' => Q s e ∧ Along Q s' events
    | none => True

/-- What `seen` shows of the steps of a run, in order. -/
def gather {A : Type} (seen : S → E → List A) : S → List E → List A
  | _, [] => []
  | s, e :: events =>
    match step s e with
    | some s' => seen s e ++ gather seen s' events
    | none => []

instance decidableThroughout (P : S → Prop) [DecidablePred P] :
    ∀ (s : S) (events : List E), Decidable (Throughout step P s events)
  | s, [] => inferInstanceAs (Decidable (P s))
  | s, e :: events => by
    unfold Throughout
    cases step s e with
    | none => exact inferInstanceAs (Decidable (P s ∧ True))
    | some s' =>
      have := decidableThroughout P s' events
      exact inferInstanceAs (Decidable (P s ∧ Throughout step P s' events))

instance decidableAlong (Q : S → E → Prop) [∀ s e, Decidable (Q s e)] :
    ∀ (s : S) (events : List E), Decidable (Along step Q s events)
  | _, [] => isTrue trivial
  | s, e :: events => by
    unfold Along
    cases step s e with
    | none => exact isTrue trivial
    | some s' =>
      have := decidableAlong Q s' events
      exact inferInstanceAs (Decidable (Q s e ∧ Along step Q s' events))

variable {step} {s s' : S} {events : List E} {P : S → Prop} {Q : S → E → Prop}

/-- What every step keeps holds where a run ends. -/
theorem invariant (hstep : ∀ {s e s'}, P s → step s e = some s' → P s') (h : P s)
    (hrun : events.foldlM step s = some s') : P s' := by
  induction events generalizing s with
  | nil => exact Option.some.inj hrun ▸ h
  | cons e events ih =>
    obtain ⟨s₁, h₁, hrest⟩ := Option.bind_eq_some_iff.mp hrun
    exact ih (hstep h h₁) hrest

/-- The same for what a step keeps if its event meets a condition. -/
theorem invariant_along (hstep : ∀ {s e s'}, P s → Q s e → step s e = some s' → P s') (h : P s)
    (halong : Along step Q s events) (hrun : events.foldlM step s = some s') : P s' := by
  induction events generalizing s with
  | nil => exact Option.some.inj hrun ▸ h
  | cons e events ih =>
    obtain ⟨s₁, h₁, hrest⟩ := Option.bind_eq_some_iff.mp hrun
    simp only [Along, h₁] at halong
    exact ih (hstep h halong.1 h₁) halong.2 hrest

/-- The same for what holds of a state and of all that was seen before it. -/
theorem invariant_gather {A : Type} {seen : S → E → List A} {P : S → List A → Prop}
    (hstep : ∀ {s e s' log}, P s log → step s e = some s' → P s' (log ++ seen s e)) {log : List A}
    (h : P s log) (hrun : events.foldlM step s = some s') :
    P s' (log ++ gather step seen s events) := by
  induction events generalizing s log with
  | nil =>
    rw [gather, List.append_nil]
    exact Option.some.inj hrun ▸ h
  | cons e events ih =>
    obtain ⟨s₁, h₁, hrest⟩ := Option.bind_eq_some_iff.mp hrun
    simp only [gather, h₁]
    rw [← List.append_assoc]
    exact ih (hstep h h₁) hrest

section Gather

variable {A : Type} {seen : S → E → List A}

theorem gather_cons {e : E} (h : step s e = some s') :
    gather step seen s (e :: events) = seen s e ++ gather step seen s' events := by
  simp only [gather, h]

theorem gather_append {later : List E} (h : events.foldlM step s = some s') :
    gather step seen s (events ++ later) =
      gather step seen s events ++ gather step seen s' later := by
  induction events generalizing s with
  | nil =>
    obtain rfl := Option.some.inj h
    rfl
  | cons e events ih =>
    obtain ⟨s₁, h₁, hrest⟩ := Option.bind_eq_some_iff.mp h
    rw [List.cons_append, gather_cons h₁, gather_cons h₁, ih hrest, List.append_assoc]

end Gather

theorem Throughout.start (h : Throughout step P s events) : P s := by
  cases events with
  | nil => exact h
  | cons e events => exact h.1

/-- `P` may be lost only by an event that fails `Q`, and then it is. -/
theorem throughout_iff_along {I : S → Prop}
    (hstep : ∀ {s e s'}, I s → P s → step s e = some s' → I s' ∧ (P s' ↔ Q s e)) (hi : I s)
    (hp : P s) : Throughout step P s events ↔ Along step Q s events := by
  induction events generalizing s with
  | nil => exact iff_of_true hp trivial
  | cons e events ih =>
    unfold Throughout Along
    cases hs : step s e with
    | none => exact iff_of_true ⟨hp, trivial⟩ trivial
    | some s' =>
      obtain ⟨hi', hiff⟩ := hstep hi hp hs
      constructor
      · intro h
        exact ⟨hiff.mp h.2.start, (ih hi' h.2.start).mp h.2⟩
      · intro h
        exact ⟨hp, (ih hi' (hiff.mpr h.1)).mpr h.2⟩

end OtelSqlite.Lib.Run
