import OtelSqlite.Auth.Vault

/-!
# Which tokens are good, by the history of the reloads

The published reloads form a history. `Accepted` says which tokens are good after
it: those of the last file with tokens, unless since then the file was missing, was
found empty twice, or could not be used for the grace period.
-/

namespace OtelSqlite.Auth

section History

/-- What a file is to the vault. -/
inductive Verdict where
  | good (tokens : List Text)
  | empty
  | missing
  | failing
  deriving DecidableEq, Repr

def Reading.verdict : Reading → Verdict
  | .missing => .missing
  | .failed _ => .failing
  | .content size text =>
    if maxTokenFileBytes < size ∨ maxTokenFileBytes < byteLen text ∨
        maxTokens < (tokens text).length then .failing
    else if tokens text = [] then .empty
    else .good (tokens text)

/-- A reload that was published. -/
structure Publication where
  now : Nat
  verdict : Verdict
  deriving DecidableEq, Repr

def Publication.isGood (p : Publication) : Bool :=
  match p.verdict with
  | .good _ => true
  | _ => false

def Publication.tokens (p : Publication) : List Text :=
  match p.verdict with
  | .good tokens => tokens
  | _ => []

def Publication.isFailing (p : Publication) : Bool := p.verdict == .failing

/-- The last reload that found tokens. -/
def lastGood (history : List Publication) : Option Publication :=
  history.reverse.find? Publication.isGood

/-- The reloads since then. -/
def sinceGood (history : List Publication) : List Publication :=
  (history.reverse.takeWhile fun p => !p.isGood).reverse

/-- When the first of the reloads was that could not use the file. -/
def firstFailing (history : List Publication) : Option Nat :=
  (history.find? Publication.isFailing).map Publication.now

def emptyCount (history : List Publication) : Nat :=
  history.countP fun p => p.verdict == .empty

/-- The file was missing, was found empty for the second time, or could not be used
for the whole grace period. -/
def Revoked (maxStaleAge : Nat) (since : List Publication) : Prop :=
  (∃ p ∈ since, p.verdict = .missing) ∨ 2 ≤ emptyCount since ∨
    ∃ start, firstFailing since = some start ∧
      ∃ p ∈ since, p.isFailing = true ∧ maxStaleAge ≤ p.now - start

def Accepted (maxStaleAge : Nat) (history : List Publication) (token : Text) : Prop :=
  ∃ p, lastGood history = some p ∧ token ∈ p.tokens ∧ ¬ Revoked maxStaleAge (sinceGood history)

end History

section Concat

variable {history since : List Publication} {p : Publication} {maxStaleAge : Nat}

theorem lastGood_concat_good (h : p.isGood = true) : lastGood (history ++ [p]) = some p := by
  simp [lastGood, h]

theorem sinceGood_concat_good (h : p.isGood = true) : sinceGood (history ++ [p]) = [] := by
  simp [sinceGood, h]

theorem lastGood_concat (h : p.isGood = false) : lastGood (history ++ [p]) = lastGood history := by
  simp [lastGood, h]

theorem sinceGood_concat (h : p.isGood = false) :
    sinceGood (history ++ [p]) = sinceGood history ++ [p] := by
  simp [sinceGood, h]

theorem firstFailing_concat_failing (h : p.isFailing = true) :
    firstFailing (since ++ [p]) = some ((firstFailing since).getD p.now) := by
  simp only [firstFailing, List.find?_append]
  cases since.find? Publication.isFailing <;> simp [h]

theorem firstFailing_concat (h : p.isFailing = false) :
    firstFailing (since ++ [p]) = firstFailing since := by
  simp [firstFailing, List.find?_append, h]

theorem firstFailing_isSome {q : Publication} (hq : q ∈ since) (h : q.isFailing = true) :
    (firstFailing since).isSome := by
  simp only [firstFailing, Option.isSome_map, List.find?_isSome]
  exact ⟨q, hq, h⟩

theorem emptyCount_concat : emptyCount (since ++ [p]) =
    emptyCount since + if p.verdict = .empty then 1 else 0 := by
  by_cases h : p.verdict = .empty <;> simp [emptyCount, h]

theorem not_revoked_nil : ¬ Revoked maxStaleAge [] := by
  simp [Revoked, emptyCount, firstFailing]

/-- Nothing but a file with tokens ends a revocation. -/
theorem Revoked.concat (h : Revoked maxStaleAge since) (p : Publication) :
    Revoked maxStaleAge (since ++ [p]) := by
  rcases h with ⟨q, hq, hmissing⟩ | hempty | ⟨start, hstart, q, hq, hfailing, hage⟩
  · exact .inl ⟨q, List.mem_append_left _ hq, hmissing⟩
  · refine .inr (.inl ?_)
    rw [emptyCount_concat]
    omega
  · refine .inr (.inr ⟨start, ?_, q, List.mem_append_left _ hq, hfailing, hage⟩)
    cases hp : p.isFailing with
    | true => rw [firstFailing_concat_failing hp, hstart, Option.getD_some]
    | false => rw [firstFailing_concat hp, hstart]

/-- The reload that revokes. -/
theorem revoked_concat_iff (h : ¬ Revoked maxStaleAge since) :
    Revoked maxStaleAge (since ++ [p]) ↔
      p.verdict = .missing ∨ (p.verdict = .empty ∧ 1 ≤ emptyCount since) ∨
        (p.isFailing = true ∧ maxStaleAge ≤ p.now - (firstFailing since).getD p.now) := by
  obtain ⟨hnone, hcount, hyoung⟩ : (∀ q ∈ since, q.verdict ≠ .missing) ∧ emptyCount since < 2 ∧
      ∀ start, firstFailing since = some start → ∀ q ∈ since, q.isFailing = true →
        ¬ maxStaleAge ≤ q.now - start := by
    refine ⟨fun q hq hm => h (.inl ⟨q, hq, hm⟩), ?_, fun start hs q hq hf ha =>
      h (.inr (.inr ⟨start, hs, q, hq, hf, ha⟩))⟩
    by_contra hge
    exact h (.inr (.inl (by omega)))
  constructor
  · rintro (⟨q, hq, hmissing⟩ | hempty | ⟨start, hstart, q, hq, hfailing, hage⟩)
    · rcases List.mem_append.mp hq with hq | hq
      · exact absurd hmissing (hnone q hq)
      · exact .inl (List.mem_singleton.mp hq ▸ hmissing)
    · rw [emptyCount_concat] at hempty
      split_ifs at hempty with hp
      · exact .inr (.inl ⟨hp, by omega⟩)
      · omega
    · rcases List.mem_append.mp hq with hq | hq
      · -- an earlier reload: the clock was running already
        obtain ⟨start', hstart'⟩ := Option.isSome_iff_exists.mp (firstFailing_isSome hq hfailing)
        have hsame : start' = start := by
          cases hp : p.isFailing with
          | true =>
            rw [firstFailing_concat_failing hp, hstart'] at hstart
            exact Option.some.inj hstart
          | false =>
            rw [firstFailing_concat hp, hstart'] at hstart
            exact Option.some.inj hstart
        exact absurd (hsame ▸ hage) (hyoung start' hstart' q hq hfailing)
      · rw [List.mem_singleton.mp hq] at hfailing hage
        rw [firstFailing_concat_failing hfailing, Option.some.injEq] at hstart
        exact .inr (.inr ⟨hfailing, hstart ▸ hage⟩)
  · rintro (hmissing | ⟨hempty, hone⟩ | ⟨hfailing, hage⟩)
    · exact .inl ⟨p, by simp, hmissing⟩
    · refine .inr (.inl ?_)
      rw [emptyCount_concat, if_pos hempty]
      omega
    · exact .inr (.inr ⟨_, firstFailing_concat_failing hfailing, p, by simp, hfailing, hage⟩)

end Concat

end OtelSqlite.Auth
