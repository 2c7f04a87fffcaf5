import Mathlib.Logic.Basic

/-!
# Computations that fail and keep what they did

A computation over a state ends with a value or with an error and, in both
cases, in the state it reached: what a failed call has written stays written.
The rules below take a sequence of calls apart at its first call.
-/

namespace OtelSqlite.Lib

structure Fallible (σ ε α : Type) where
  run : σ → Except ε α × σ

namespace Fallible

variable {σ ε ε' α β : Type}

instance : Monad (Fallible σ ε) where
  pure a := ⟨fun s => (.ok a, s)⟩
  bind m f := ⟨fun s =>
    match m.run s with
    | (.ok a, s') => (f a).run s'
    | (.error e, s') => (.error e, s')⟩

def fail (e : ε) : Fallible σ ε α := ⟨fun s => (.error e, s)⟩

/-- The outcome as a value: the caller looks at it and goes on. -/
def attempt (m : Fallible σ ε α) : Fallible σ ε (Except ε α) :=
  ⟨fun s => (.ok (m.run s).1, (m.run s).2)⟩

def mapError (f : ε → ε') (m : Fallible σ ε α) : Fallible σ ε' α :=
  ⟨fun s => ((m.run s).1.mapError f, (m.run s).2)⟩

/-- Run `cleanup`, whose own outcome is ignored, if `m` fails. -/
def onError (m : Fallible σ ε α) (cleanup : Fallible σ ε Unit) : Fallible σ ε α := do
  match ← attempt m with
  | .ok a => pure a
  | .error e => do
    let _ ← attempt cleanup
    fail e

/-- Run `cleanup`, whose own outcome is ignored, whatever the outcome of `m`. -/
def ensuring (m : Fallible σ ε α) (cleanup : Fallible σ ε Unit) : Fallible σ ε α :=
  ⟨fun s => ((m.run s).1, (cleanup.run (m.run s).2).2)⟩

variable {m : Fallible σ ε α} {f : α → Fallible σ ε β} {s s' s'' : σ} {a : α} {b : β} {e : ε}
  {g : ε → ε'} {cleanup : Fallible σ ε Unit} {r : Except ε α}

@[simp] theorem run_pure : (pure a : Fallible σ ε α).run s = (.ok a, s) := rfl

theorem pure_bind (a : α) (f : α → Fallible σ ε β) : (pure a >>= f) = f a := rfl

@[simp] theorem run_fail : (fail e : Fallible σ ε α).run s = (.error e, s) := rfl

theorem run_attempt : (attempt m).run s = (.ok (m.run s).1, (m.run s).2) := rfl

/-- The error a computation ended with. -/
def errorOf : Except ε α → Option ε
  | .ok _ => none
  | .error e => some e

theorem errorOf_eq_some_iff : errorOf r = some e ↔ r = .error e := by
  cases r <;> simp [errorOf]

theorem errorOf_eq_none_iff : errorOf r = none ↔ ∃ a, r = .ok a := by
  cases r <;> simp [errorOf]

theorem run_bind_of_ok (h : m.run s = (.ok a, s')) : (m >>= f).run s = (f a).run s' := by
  show (match m.run s with
    | (.ok a, s') => (f a).run s'
    | (.error e, s') => (.error e, s')) = _
  rw [h]

theorem run_bind_of_error (h : m.run s = (.error e, s')) :
    (m >>= f).run s = (.error e, s') := by
  show (match m.run s with
    | (.ok a, s') => (f a).run s'
    | (.error e, s') => (.error e, s')) = _
  rw [h]

theorem run_cases (m : Fallible σ ε α) (s : σ) :
    (∃ a s', m.run s = (.ok a, s')) ∨ ∃ e s', m.run s = (.error e, s') := by
  rcases h : m.run s with ⟨e | a, s'⟩
  · exact .inr ⟨e, s', rfl⟩
  · exact .inl ⟨a, s', rfl⟩

/-- A sequence ends with a value iff its first call does and then the rest. -/
theorem run_bind_ok_iff : (m >>= f).run s = (.ok b, s'') ↔
    ∃ a s', m.run s = (.ok a, s') ∧ (f a).run s' = (.ok b, s'') := by
  constructor
  · intro h
    obtain ⟨a, s', hm⟩ | ⟨e, s', hm⟩ := run_cases m s
    · rw [run_bind_of_ok hm] at h
      exact ⟨a, s', hm, h⟩
    · rw [run_bind_of_error hm] at h
      cases h
  · rintro ⟨a, s', hm, h⟩
    rw [run_bind_of_ok hm, h]

@[simp] theorem run_mapError_ok_iff :
    (mapError g m).run s = (.ok a, s') ↔ m.run s = (.ok a, s') := by
  show ((m.run s).1.mapError g, (m.run s).2) = _ ↔ _
  rcases m.run s with ⟨e | a', t⟩
  · show (Except.error (g e), t) = _ ↔ _
    simp
  · show (Except.ok a', t) = _ ↔ _
    simp

theorem run_mapError_of_error (h : m.run s = (.error e, s')) :
    (mapError g m).run s = (.error (g e), s') := by
  show ((m.run s).1.mapError g, (m.run s).2) = _
  rw [h]
  rfl

/-- A failed call is followed by its cleanup. -/
theorem run_onError_of_error (h : m.run s = (.error e, s')) :
    (onError m cleanup).run s = (.error e, (cleanup.run s').2) := by
  rw [onError, run_bind_of_ok run_attempt, h]
  rfl

@[simp] theorem run_onError_ok_iff :
    (onError m cleanup).run s = (.ok a, s') ↔ m.run s = (.ok a, s') := by
  obtain ⟨b, t, hm⟩ | ⟨e, t, hm⟩ := run_cases m s
  · rw [onError, run_bind_of_ok run_attempt, hm]
    rfl
  · rw [run_onError_of_error hm, hm]
    simp

theorem run_ensuring (h : m.run s = (r, s')) :
    (ensuring m cleanup).run s = (r, (cleanup.run s').2) := by
  simp only [ensuring, h]

theorem run_ensuring_ok_iff :
    (ensuring m cleanup).run s = (.ok a, s'') ↔
      ∃ s', m.run s = (.ok a, s') ∧ s'' = (cleanup.run s').2 := by
  obtain ⟨b, s₁, h⟩ | ⟨e, s₁, h⟩ := run_cases m s
  · rw [run_ensuring h, h]
    constructor
    · intro heq
      cases heq
      exact ⟨s₁, rfl, rfl⟩
    · rintro ⟨s', heq, rfl⟩
      cases heq
      rfl
  · rw [run_ensuring h, h]
    constructor
    · intro heq
      cases heq
    · rintro ⟨s', heq, -⟩
      cases heq

section Succeeds

/-- The computation ends with a value. -/
def Succeeds (m : Fallible σ ε α) (s : σ) : Prop := ∃ a s', m.run s = (.ok a, s')

theorem succeeds_bind_iff :
    Succeeds (m >>= f) s ↔ ∃ a s', m.run s = (.ok a, s') ∧ Succeeds (f a) s' := by
  constructor
  · rintro ⟨b, s'', h⟩
    obtain ⟨a, s', hm, hf⟩ := run_bind_ok_iff.mp h
    exact ⟨a, s', hm, b, s'', hf⟩
  · rintro ⟨a, s', hm, b, s'', hf⟩
    exact ⟨b, s'', run_bind_ok_iff.mpr ⟨a, s', hm, hf⟩⟩

end Succeeds

section Preserves

variable {I : σ → Prop}

/-- Whatever the outcome, `I` still holds if it held before. -/
def Preserves (I : σ → Prop) (m : Fallible σ ε α) : Prop := ∀ s, I s → I (m.run s).2

theorem Preserves.pure (a : α) : Preserves I (pure a : Fallible σ ε α) := fun _ h => h

theorem Preserves.fail (e : ε) : Preserves I (fail e : Fallible σ ε α) := fun _ h => h

theorem Preserves.mapError (hm : Preserves I m) : Preserves I (mapError g m) := hm

theorem Preserves.attempt (hm : Preserves I m) : Preserves I (attempt m) := hm

/-- What holds after the first call holds after the sequence. -/
theorem after_bind (hm : I (m.run s).2) (hf : ∀ a, Preserves I (f a)) :
    I ((m >>= f).run s).2 := by
  obtain ⟨a, s', h⟩ | ⟨e, s', h⟩ := run_cases m s
  · rw [h] at hm
    rw [run_bind_of_ok h]
    exact hf a s' hm
  · rw [h] at hm
    rw [run_bind_of_error h]
    exact hm

theorem Preserves.bind (hm : Preserves I m) (hf : ∀ a, Preserves I (f a)) :
    Preserves I (m >>= f) :=
  fun s hs => after_bind (hm s hs) hf

theorem Preserves.onError (hm : Preserves I m) (hcleanup : Preserves I cleanup) :
    Preserves I (onError m cleanup) := by
  refine hm.attempt.bind fun outcome => ?_
  cases outcome with
  | ok a => exact .pure a
  | error e => exact hcleanup.attempt.bind fun _ => .fail e

theorem Preserves.ensuring (hm : Preserves I m) (hcleanup : Preserves I cleanup) :
    Preserves I (ensuring m cleanup) :=
  fun s hs => hcleanup _ (hm s hs)

theorem Preserves.of_run (hm : Preserves I m) (hs : I s) (h : m.run s = (r, s')) : I s' := by
  have hkept := hm s hs
  rwa [h] at hkept

section FailsWith

/-- If the computation ends with an error, then in a state where `Q` holds. -/
def FailsWith (Q : σ → Prop) (m : Fallible σ ε α) (s : σ) : Prop :=
  ∀ e s', m.run s = (.error e, s') → Q s'

variable {Q : σ → Prop}

theorem Preserves.failsWith (hm : Preserves Q m) (hs : Q s) : FailsWith Q m s :=
  fun _ _ h => hm.of_run hs h

theorem failsWith_bind_iff : FailsWith Q (m >>= f) s ↔
    FailsWith Q m s ∧ ∀ a s', m.run s = (.ok a, s') → FailsWith Q (f a) s' := by
  constructor
  · intro h
    refine ⟨fun e s' hm => h e s' (run_bind_of_error hm), fun a s' hm e s'' hf => ?_⟩
    exact h e s'' ((run_bind_of_ok hm).trans hf)
  · rintro ⟨hm, hf⟩ e s' h
    obtain ⟨a, s₁, h₁⟩ | ⟨e₁, s₁, h₁⟩ := run_cases m s
    · exact hf a s₁ h₁ e s' ((run_bind_of_ok h₁).symm.trans h)
    · rw [run_bind_of_error h₁] at h
      cases h
      exact hm e s' h₁

theorem FailsWith.mapError (h : FailsWith Q m s) : FailsWith Q (mapError g m) s := by
  intro e s' hrun
  obtain ⟨a, s₁, hm⟩ | ⟨e₁, s₁, hm⟩ := run_cases m s
  · rw [run_mapError_ok_iff.mpr hm] at hrun
    cases hrun
  · rw [run_mapError_of_error hm] at hrun
    cases hrun
    exact h e₁ s' hm

/-- It is the cleanup that leaves the state of an error. -/
theorem failsWith_onError (h : ∀ e s', m.run s = (.error e, s') → Q (cleanup.run s').2) :
    FailsWith Q (onError m cleanup) s := by
  intro e s' hrun
  obtain ⟨a, s₁, hm⟩ | ⟨e₁, s₁, hm⟩ := run_cases m s
  · rw [run_onError_ok_iff.mpr hm] at hrun
    cases hrun
  · rw [run_onError_of_error hm] at hrun
    cases hrun
    exact h e s₁ hm

theorem failsWith_ensuring (hm : FailsWith Q m s) (hcleanup : Preserves Q cleanup) :
    FailsWith Q (ensuring m cleanup) s := by
  intro e s' hrun
  obtain ⟨a, s₁, h⟩ | ⟨e₁, s₁, h⟩ := run_cases m s
  · rw [run_ensuring h] at hrun
    cases hrun
  · rw [run_ensuring h] at hrun
    cases hrun
    exact hcleanup s₁ (hm e s₁ h)

end FailsWith

variable {τ : Type} {view : σ → τ}

/-- Whatever the outcome, the part of the state that `view` shows is as before. -/
def Keeps (view : σ → τ) (m : Fallible σ ε α) : Prop :=
  ∀ shown, Preserves (fun s => view s = shown) m

theorem Keeps.mapError (hm : Keeps view m) : Keeps view (mapError g m) :=
  fun shown => (hm shown).mapError

theorem Keeps.bind (hm : Keeps view m) (hf : ∀ a, Keeps view (f a)) : Keeps view (m >>= f) :=
  fun shown => (hm shown).bind fun a => hf a shown

theorem Keeps.preserves (hm : Keeps view m) {Q : τ → Prop} :
    Preserves (fun s => Q (view s)) m := by
  intro s hs
  rw [hm (view s) s rfl]
  exact hs

theorem Keeps.of_run (hm : Keeps view m) (h : m.run s = (r, s')) : view s' = view s :=
  (hm (view s)).of_run rfl h

end Preserves

end Fallible

end OtelSqlite.Lib
