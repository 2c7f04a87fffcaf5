import Mathlib.Data.List.Basic

/-!
# Traces of a machine with outputs

A machine takes an event, moves on and puts something out. Its trace is the list of
outputs. An invariant over the state and the outputs so far holds at every position of
every trace, and the outputs behind a position are the trace of the state reached there.
-/

namespace OtelSqlite.Lib.Trace

variable {S E A : Type} (step : S → E → S × A)

def trace : S → List E → List A
  | _, [] => []
  | s, e :: events => (step s e).2 :: trace (step s e).1 events

variable {step} {P : S → List A → Prop}

/-- What every step keeps holds at the end of a trace. -/
theorem invariant_end (hstep : ∀ {s done} e, P s done → P (step s e).1 (done ++ [(step s e).2]))
    {s : S} {done : List A} (h : P s done) (events : List E) :
    ∃ s', P s' (done ++ trace step s events) := by
  induction events generalizing s done with
  | nil => exact ⟨s, by rwa [trace, List.append_nil]⟩
  | cons e events ih =>
    obtain ⟨s', hend⟩ := ih (hstep e h)
    exact ⟨s', by rwa [List.append_assoc] at hend⟩

/-- And before each output, which is then the output of a step from a state with `P`. -/
theorem invariant_at (hstep : ∀ {s done} e, P s done → P (step s e).1 (done ++ [(step s e).2]))
    {s : S} {done : List A} (h : P s done) {events : List E} {xs rest : List A} {x : A}
    (htrace : trace step s events = xs ++ x :: rest) :
    ∃ s' e more, P s' (done ++ xs) ∧ x = (step s' e).2 ∧
      rest = trace step (step s' e).1 more := by
  induction xs generalizing s done events with
  | nil =>
    cases events with
    | nil => cases htrace
    | cons e events =>
      obtain ⟨hx, hrest⟩ := List.cons.inj htrace
      exact ⟨s, e, events, by rwa [List.append_nil], hx.symm, hrest.symm⟩
  | cons y xs ih =>
    cases events with
    | nil => cases htrace
    | cons e events =>
      obtain ⟨rfl, hrest⟩ := List.cons.inj htrace
      obtain ⟨s', e', more, hp, hx, hmore⟩ := ih (hstep e h) hrest
      refine ⟨s', e', more, ?_, hx, hmore⟩
      rwa [List.append_assoc] at hp

end OtelSqlite.Lib.Trace
