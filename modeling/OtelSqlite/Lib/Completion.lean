import Mathlib.Data.List.Basic
import Mathlib.Order.WellFounded
import OtelSqlite.Lib.Run

/-!
# Runs that end, and end where they should

Of the events a machine can take, `Q` says which it may be offered in a state. If every such
event lowers a rank, no run goes on forever. If moreover every state that can take none of
them is final, then every run that is not cut short ends in a final state, and there is one.

`Waits` is the same for a party that waits among others: only the events it waits for need to
lower the rank, so their number is bounded in every run, whatever else happens between them.
-/

namespace OtelSqlite.Lib.Run

variable {S E : Type} {step : S → E → Option S} {Q : S → E → Prop}

/-- There is a run from `s` that never ends. -/
def Endless (step : S → E → Option S) (Q : S → E → Prop) (s : S) : Prop :=
  ∃ states : Nat → S, states 0 = s ∧
    ∀ n, ∃ e, Q (states n) e ∧ step (states n) e = some (states (n + 1))

/-- No event is left to take. -/
def Stuck (step : S → E → Option S) (Q : S → E → Prop) (s : S) : Prop :=
  ∀ e, Q s e → step s e = none

/-- What the completion of every run rests on: an invariant, a rank that falls with each event,
and an event for every state that is not final. -/
structure Completes {A : Type} (step : S → E → Option S) (Q : S → E → Prop) (I Final : S → Prop)
    (r : A → A → Prop) (rank : S → A) : Prop where
  wellFounded : WellFounded r
  keeps : ∀ {s e s'}, I s → Q s e → step s e = some s' → I s'
  falls : ∀ {s e s'}, I s → Q s e → step s e = some s' → r (rank s') (rank s)
  moves : ∀ {s}, I s → ¬Final s → ∃ e s', Q s e ∧ step s e = some s'

variable {A : Type} {I Final : S → Prop} {r : A → A → Prop} {rank : S → A} {s s' : S}
  {events : List E}

section

variable (h : Completes step Q I Final r rank)
include h

theorem Completes.not_endless (hs : I s) : ¬Endless step Q s := by
  rintro ⟨states, rfl, hsteps⟩
  have hinv : ∀ n, I (states n) := by
    intro n
    induction n with
    | zero => exact hs
    | succ n ih =>
      obtain ⟨e, he, hstep⟩ := hsteps n
      exact h.keeps ih he hstep
  -- the ranks of an endless run would have a least one
  obtain ⟨n, hleast⟩ := h.wellFounded.has_min (Set.range fun n => rank (states n)) ⟨_, 0, rfl⟩
  obtain ⟨⟨k, rfl⟩, hmin⟩ := hleast
  obtain ⟨e, he, hstep⟩ := hsteps k
  exact hmin _ ⟨k + 1, rfl⟩ (h.falls (hinv k) he hstep)

theorem Completes.final_of_stuck (hs : I s) (halong : Along step Q s events)
    (hrun : events.foldlM step s = some s') (hstuck : Stuck step Q s') : Final s' := by
  have hs' : I s' := invariant_along (fun hi hq hstep => h.keeps hi hq hstep) hs halong hrun
  by_contra hnot
  obtain ⟨e, s'', he, hstep⟩ := h.moves hs' hnot
  rw [hstuck e he] at hstep
  cases hstep

/-- There is a run to the end. -/
theorem Completes.exists_run (hs : I s) :
    ∃ events s', events.foldlM step s = some s' ∧ Along step Q s events ∧ Final s' := by
  induction hrank : rank s using h.wellFounded.induction generalizing s with
  | _ a ih =>
    by_cases hfinal : Final s
    · exact ⟨[], s, rfl, trivial, hfinal⟩
    · obtain ⟨e, s₁, he, hstep⟩ := h.moves hs hfinal
      obtain ⟨events, s', hrun, halong, hend⟩ :=
        ih (rank s₁) (hrank ▸ h.falls hs he hstep) (h.keeps hs he hstep) rfl
      refine ⟨e :: events, s', ?_, ?_, hend⟩
      · rw [List.foldlM_cons, hstep]
        exact hrun
      · simp only [Along, hstep]
        exact ⟨he, halong⟩

end

section Waits

/-- What a wait among other events rests on: the awaited events lower a rank, the others do not
raise it, and until the end one of the awaited is possible. -/
structure Waits (step : S → E → Option S) (awaits : S → E → Bool) (I Final : S → Prop)
    (rank : S → Nat) : Prop where
  keeps : ∀ {s e s'}, I s → step s e = some s' → I s'
  rests : ∀ {s e s'}, I s → step s e = some s' → rank s' ≤ rank s
  falls : ∀ {s e s'}, I s → awaits s e = true → step s e = some s' → rank s' < rank s
  moves : ∀ {s}, I s → ¬Final s → ∃ e s', awaits s e = true ∧ step s e = some s'

/-- How many of the events of a run were awaited. -/
def awaited (step : S → E → Option S) (awaits : S → E → Bool) : S → List E → Nat
  | _, [] => 0
  | s, e :: events =>
    match step s e with
    | some s' => (awaits s e).toNat + awaited step awaits s' events
    | none => 0

variable {awaits : S → E → Bool} {measure : S → Nat}

/-- Each of them is paid for by the rank. -/
theorem Waits.awaited_le (h : Waits step awaits I Final measure) (hs : I s)
    (hrun : events.foldlM step s = some s') :
    awaited step awaits s events + measure s' ≤ measure s := by
  induction events generalizing s with
  | nil =>
    obtain rfl := Option.some.inj hrun
    rw [awaited, Nat.zero_add]
  | cons e events ih =>
    obtain ⟨s₁, hstep, hrest⟩ := Option.bind_eq_some_iff.mp hrun
    have hle := ih (h.keeps hs hstep) hrest
    simp only [awaited, hstep]
    cases ha : awaits s e with
    | true =>
      have hfalls := h.falls hs ha hstep
      rw [Bool.toNat_true]
      omega
    | false =>
      have hrests := h.rests hs hstep
      rw [Bool.toNat_false]
      omega

/-- So a run has come to the end, or has not used up the rank and can go on. -/
theorem Waits.final_or_moves (h : Waits step awaits I Final measure) (hs : I s)
    (hrun : events.foldlM step s = some s') :
    Final s' ∨ awaited step awaits s events < measure s ∧
      ∃ e s'', awaits s' e = true ∧ step s' e = some s'' := by
  have hle := h.awaited_le hs hrun
  have hs' : I s' := invariant (fun hi hstep => h.keeps hi hstep) hs hrun
  by_cases hfinal : Final s'
  · exact .inl hfinal
  · obtain ⟨e, s'', ha, hstep⟩ := h.moves hs' hfinal
    have hfalls := h.falls hs' ha hstep
    exact .inr ⟨by omega, e, s'', ha, hstep⟩

end Waits

end OtelSqlite.Lib.Run
