import OtelSqlite.Ingress.AdmissionInvariant

/-!
# What a step of an enqueue call does outside the call

A step issues a ticket, sends the chunk that carries the newest ticket, voids the
newest ticket, or is not seen from outside.
-/

namespace OtelSqlite.Ingress

open OtelSqlite.Core OtelSqlite.Core.Commit

variable {O T : Type} {phase : Phase O T}

/-- The ticket the call is about to send. -/
def Phase.pending : Phase O T → Option Nat
  | .stamped chunk _ _ => some chunk.commitSeq
  | _ => none

theorem Phase.holding_of_pending {t : Nat} (h : phase.pending = some t) : phase.holding = true := by
  cases phase <;> first | rfl | cases h

namespace Admission

variable {config : QueueConfig} {traffic : Traffic O T} {s s' : Admission O T}

/-- No ticket becomes pending. -/
def NoneNew (s s' : Admission O T) : Prop :=
  ∀ k t, (s'.calls k).pending = some t → (s.calls k).pending = some t

inductive Effect (i now : Nat) (s s' : Admission O T) : Prop where
  | silent (hq : s'.queue = s.queue) (hs : s'.sent = s.sent) (hsh : s'.shared = s.shared)
      (hp : NoneNew s s')
  | issue (hq : s'.queue = s.queue) (hs : s'.sent = s.sent) (hsh : s'.shared = s.shared.call .issue)
      (hp : ∀ k t, (s'.calls k).pending = some t →
        t = s.shared.ledger.nextTicket + 1 ∨ (s.calls k).pending = some t)
  | send (chunk : LogChunk O T) (hc : s.connected = true)
      (hpend : (s.calls i).pending = some chunk.commitSeq)
      (hq : s'.queue = s.queue ++ [.logs chunk]) (hs : s'.sent = s.sent ++ [.chunk i chunk])
      (hsh : s'.shared = s.shared) (hp : NoneNew s s')
  | void (ticket : Nat) (hissued : (s.calls i).issued = some ticket)
      (hrel : (s'.calls i).pending = none) (hq : s'.queue = s.queue) (hs : s'.sent = s.sent)
      (hsh : s'.shared = s.shared.call (.void ticket now)) (hp : NoneNew s s')

theorem noneNew_goto {i : Nat} (h : ∀ t, phase.pending = some t → (s.calls i).pending = some t) :
    NoneNew s (s.goto i phase) := by
  intro k t ht
  rcases eq_or_ne k i with rfl | hk
  · exact h t (by simpa [goto] using ht)
  · simpa [goto, hk] using ht

theorem requestStep_effect {work : List (LogChunk O T)} {i now : Nat}
    (hs : s.requestStep config work i now = some s') :
    s'.connected = s.connected ∧ Effect i now s s' := by
  cases requestStep_inv hs with
  | refuse | enter | lock | reserve | full | finish | fail | release =>
    exact ⟨rfl, .silent rfl rfl rfl (noneNew_goto fun t ht => by cases ht)⟩
  | issue chunk left outcome hp =>
    refine ⟨rfl, .issue rfl rfl rfl fun k t ht => ?_⟩
    rcases eq_or_ne k i with rfl | hk
    · have ht' : some s.shared.ledger.issue.2 = some t := by simpa [goto, Phase.pending] using ht
      exact Or.inl (Option.some.inj ht').symm
    · exact Or.inr (by simpa [goto, hk] using ht)
  | send chunk left outcome hp hc =>
    exact ⟨rfl, .send chunk hc (by rw [hp]; rfl) rfl rfl rfl
      (noneNew_goto fun t ht => by cases ht)⟩
  | void ticket failure outcome hp =>
    refine ⟨rfl, .void ticket (by rw [hp]; rfl) ?_ rfl rfl rfl
      (noneNew_goto fun t ht => by cases ht)⟩
    simp [goto, Phase.pending]

/-- A control sender adds at most a barrier. -/
theorem controlStep_effect {deadline : Option Nat} {j now : Nat}
    (hs : s.controlStep config deadline j now = some s') :
    s'.connected = s.connected ∧ s'.shared = s.shared ∧ s'.calls = s.calls ∧
      (s'.queue = s.queue ∧ s'.sent = s.sent ∨
        s'.queue = s.queue ++ [.flush] ∧ s'.sent = s.sent ++ [.barrier j]) := by
  unfold controlStep at hs
  split at hs
  · split_ifs at hs
    obtain rfl := Option.some.inj hs
    exact ⟨rfl, rfl, rfl, .inl ⟨rfl, rfl⟩⟩
  · split at hs <;> obtain rfl := Option.some.inj hs
    · rename_i queue hsend
      obtain ⟨-, -, rfl⟩ := trySend_ok hsend
      exact ⟨rfl, rfl, rfl, .inr ⟨rfl, rfl⟩⟩
    · exact ⟨rfl, rfl, rfl, .inl ⟨rfl, rfl⟩⟩
    · exact ⟨rfl, rfl, rfl, .inl ⟨rfl, rfl⟩⟩
  · split_ifs at hs <;> obtain rfl := Option.some.inj hs
    all_goals exact ⟨rfl, rfl, rfl, .inl ⟨rfl, rfl⟩⟩
  all_goals cases hs

end Admission

end OtelSqlite.Ingress
