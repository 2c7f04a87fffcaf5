import OtelSqlite.Lib.Fallible

/-!
# Computations with a log

A fallible computation that also writes down, in order, some of what it does; what it has
written down before it fails stays in the log. A computation cannot read its log. `erase`
forgets the log and maps programs to programs, so a program with notes in it can be shown
to be a given program, and what holds of its log then holds of the runs of that program.
-/

namespace OtelSqlite.Lib

structure Logged (σ ε γ α : Type) where
  run : σ → Except ε α × σ × List γ

namespace Logged

variable {σ ε γ α β : Type}

instance : Monad (Logged σ ε γ) where
  pure a := ⟨fun s => (.ok a, s, [])⟩
  bind m f := ⟨fun s =>
    match m.run s with
    | (.ok a, s', log) => (((f a).run s').1, ((f a).run s').2.1, log ++ ((f a).run s').2.2)
    | (.error e, s', log) => (.error e, s', log)⟩

/-- A call that is not written down. -/
def lift (m : Fallible σ ε α) : Logged σ ε γ α := ⟨fun s => ((m.run s).1, (m.run s).2, [])⟩

def note (entry : γ) : Logged σ ε γ Unit := ⟨fun s => (.ok (), s, [entry])⟩

/-- Run `cleanup`, whose own outcome is ignored, if `m` fails. -/
def onError (m : Logged σ ε γ α) (cleanup : Fallible σ ε Unit) : Logged σ ε γ α := ⟨fun s =>
  match m.run s with
  | (.ok a, s', log) => (.ok a, s', log)
  | (.error e, s', log) => (.error e, (cleanup.run s').2, log)⟩

def erase (m : Logged σ ε γ α) : Fallible σ ε α := ⟨fun s => ((m.run s).1, (m.run s).2.1)⟩

/-- The log of a run. -/
def log (m : Logged σ ε γ α) (s : σ) : List γ := (m.run s).2.2

section Erase

variable {m : Logged σ ε γ α} {f : α → Logged σ ε γ β}

@[simp] theorem erase_pure (a : α) : erase (pure a : Logged σ ε γ α) = pure a := rfl

@[simp] theorem erase_lift (m : Fallible σ ε α) : erase (lift m : Logged σ ε γ α) = m := rfl

theorem run_erase (m : Logged σ ε γ α) (s : σ) :
    m.erase.run s = ((m.run s).1, (m.run s).2.1) := rfl

theorem erase_bind : erase (m >>= f) = erase m >>= fun a => erase (f a) := by
  refine congrArg Fallible.mk (funext fun s => ?_)
  rcases h : m.run s with ⟨e | a, s', entries⟩
  · simp only [bind, erase, h]
  · simp only [bind, erase, h]

/-- A note is nothing the program does. -/
@[simp] theorem erase_note (entry : γ) : erase (note entry : Logged σ ε γ Unit) = pure () := rfl

theorem erase_ite {p : Prop} [Decidable p] (m n : Logged σ ε γ α) :
    erase (if p then m else n) = if p then erase m else erase n := apply_ite erase p m n

theorem erase_onError (m : Logged σ ε γ α) (cleanup : Fallible σ ε Unit) :
    erase (onError m cleanup) = (erase m).onError cleanup := by
  refine congrArg Fallible.mk (funext fun s => ?_)
  rcases h : m.run s with ⟨e | a, s', entries⟩
  · have herase : m.erase.run s = (.error e, s') := by rw [run_erase, h]
    refine Eq.trans ?_ (Fallible.run_onError_of_error herase).symm
    simp only [onError, h]
  · have herase : m.erase.run s = (.ok a, s') := by rw [run_erase, h]
    refine Eq.trans ?_ (Fallible.run_onError_ok_iff.mpr herase).symm
    simp only [onError, h]

end Erase

section Log

variable {m : Logged σ ε γ α} {n : Fallible σ ε α} {f : α → Logged σ ε γ β} {s s' : σ} {a : α}
  {e : ε} {entries : List γ} {cleanup : Fallible σ ε Unit}

@[simp] theorem log_lift (m : Fallible σ ε α) (s : σ) : (lift m : Logged σ ε γ α).log s = [] := rfl

theorem run_note_bind (entry : γ) (m : Unit → Logged σ ε γ β) (s : σ) :
    (note entry >>= m).run s =
      (((m ()).run s).1, ((m ()).run s).2.1, entry :: ((m ()).run s).2.2) := rfl

theorem run_bind_of_ok (h : m.run s = (.ok a, s', entries)) :
    (m >>= f).run s = (((f a).run s').1, ((f a).run s').2.1, entries ++ (f a).log s') := by
  simp only [bind, h, log]

theorem run_bind_of_error (h : m.run s = (.error e, s', entries)) :
    (m >>= f).run s = (.error e, s', entries) := by
  simp only [bind, h]

/-- A call that succeeds hands over to the rest. -/
theorem run_lift_bind_of_ok (h : n.run s = (.ok a, s')) :
    (lift n >>= f).run s = (f a).run s' := by
  simp only [bind, lift, h, List.nil_append]

theorem run_lift_bind_of_error (h : n.run s = (.error e, s')) :
    (lift n >>= f).run s = (.error e, s', []) := by
  simp only [bind, lift, h]

/-- Either the call fails, and nothing is written down, or the rest runs. -/
theorem run_lift_bind_of {P : Except ε β × σ × List γ → Prop}
    (herror : ∀ e s', P (.error e, s', []))
    (hok : ∀ a s', n.run s = (.ok a, s') → P ((f a).run s')) : P ((lift n >>= f).run s) := by
  rcases h : n.run s with ⟨e | a, s'⟩
  · rw [run_lift_bind_of_error h]
    exact herror e s'
  · rw [run_lift_bind_of_ok h]
    exact hok a s' h

theorem run_onError_of_ok (h : m.run s = (.ok a, s', entries)) :
    (onError m cleanup).run s = (.ok a, s', entries) := by
  simp only [onError, h]

theorem run_onError_of_error (h : m.run s = (.error e, s', entries)) :
    (onError m cleanup).run s = (.error e, (cleanup.run s').2, entries) := by
  simp only [onError, h]

end Log

end Logged

end OtelSqlite.Lib
