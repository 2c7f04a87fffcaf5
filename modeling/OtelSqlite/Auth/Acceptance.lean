import OtelSqlite.Auth.Revocation

/-!
# The vault accepts exactly the tokens that are good

The cached set represents the history of the published reloads: it is the digests
of the tokens of the last file that had some, or nothing after a revocation. Every
reload and every request keeps that, so a request is accepted exactly if its header
presents a good token.
-/

namespace OtelSqlite.Auth

variable {reading : Reading}

section Outcome

/-- What `refresh` makes of a file. -/
inductive OutcomeOf (sha256 : Text → Digest) : Verdict → ReloadOutcome → Prop where
  | good {tokens : List Text} (skipped : Nat) (hsome : ∃ token ∈ tokens, token ≠ []) :
    OutcomeOf sha256 (.good tokens) (.loaded ⟨tokens.map sha256, skipped⟩)
  | empty (skipped : Nat) : OutcomeOf sha256 .empty (.loaded ⟨[], skipped⟩)
  | missing : OutcomeOf sha256 .missing .revoked
  | unreadable (message : String) : OutcomeOf sha256 .failing (.unreadable message)
  | invalid (message : String) : OutcomeOf sha256 .failing (.invalid message)

theorem ne_nil_of_exists {tokens : List Text} (h : ∃ token ∈ tokens, token ≠ []) :
    tokens ≠ [] := by
  obtain ⟨token, htoken, -⟩ := h
  exact List.ne_nil_of_mem htoken

theorem ne_nil_of_mem_tokens {text token : Text} (h : token ∈ tokens text) : token ≠ [] := by
  have hkept := (List.mem_filter.mp h).2
  rw [Bool.and_eq_true, Bool.not_eq_true', List.isEmpty_eq_false_iff] at hkept
  exact hkept.1

theorem outcome_of (sha256 : Text → Digest) (reading : Reading) :
    OutcomeOf sha256 reading.verdict (.of sha256 reading) := by
  cases reading with
  | missing => exact .missing
  | failed message => exact .unreadable message
  | content size text =>
    simp only [Reading.verdict, ReloadOutcome.of, readTokenFile, parseTokenLines_eq]
    by_cases hsize : maxTokenFileBytes < size
    · simp only [hsize, true_or, if_true]
      exact .invalid _
    · by_cases hbytes : maxTokenFileBytes < byteLen text
      · have hmin : maxTokenFileBytes < min (byteLen text) (maxTokenFileBytes + 1) := by omega
        simp only [hsize, hbytes, hmin, true_or, or_true, if_true, if_false]
        exact .invalid _
      · have hmin : ¬ maxTokenFileBytes < min (byteLen text) (maxTokenFileBytes + 1) := by omega
        by_cases hmany : maxTokens < (tokens text).length
        · simp only [hsize, hmin, hmany, or_true, if_true, if_false]
          exact .invalid _
        · by_cases hnil : tokens text = []
          · simp only [hsize, hbytes, hmin, hnil, if_true, if_false, List.map_nil]
            exact .empty _
          · simp only [hsize, hbytes, hmin, hmany, hnil, or_self, if_false]
            obtain ⟨token, htoken⟩ := List.exists_mem_of_ne_nil _ hnil
            exact .good _ ⟨token, htoken, ne_nil_of_mem_tokens htoken⟩

end Outcome

section Represents

/-- The cached set is the one that the history says. -/
structure Represents (sha256 : Text → Digest) (maxStaleAge : Nat) (c : CachedTokens)
    (history : List Publication) : Prop where
  some_good : ∃ p, lastGood history = some p ∧ ∃ token ∈ p.tokens, token ≠ []
  hashes : ∀ p, lastGood history = some p → ¬ Revoked maxStaleAge (sinceGood history) →
    c.hashes = p.tokens.map sha256
  cleared : Revoked maxStaleAge (sinceGood history) → c.hashes = []
  empty : ¬ Revoked maxStaleAge (sinceGood history) →
    c.consecutiveEmpty = emptyCount (sinceGood history)
  failing : ¬ Revoked maxStaleAge (sinceGood history) →
    c.unhealthySince = firstFailing (sinceGood history)

variable {sha256 : Text → Digest} {config : VaultConfig} {c : CachedTokens}
  {history : List Publication} {now : Nat}

/-- A file with tokens starts over. -/
theorem represents_good {tokens : List Text} (hsome : ∃ token ∈ tokens, token ≠ [])
    (c' : CachedTokens) (hhashes : c'.hashes = tokens.map sha256)
    (hempty : c'.consecutiveEmpty = 0) (hfailing : c'.unhealthySince = none) :
    Represents sha256 config.maxStaleAge c' (history ++ [⟨now, .good tokens⟩]) := by
  have hgood : Publication.isGood ⟨now, .good tokens⟩ = true := rfl
  constructor
  · exact ⟨_, lastGood_concat_good hgood, hsome⟩
  · intro p hp _
    rw [lastGood_concat_good hgood, Option.some.injEq] at hp
    rw [hhashes, ← hp]
    rfl
  · intro h
    rw [sinceGood_concat_good hgood] at h
    exact absurd h not_revoked_nil
  · intro _
    rw [sinceGood_concat_good hgood, hempty]
    rfl
  · intro _
    rw [sinceGood_concat_good hgood, hfailing]
    rfl

section

variable (h : Represents sha256 config.maxStaleAge c history)
include h

/-- A reload that finds no tokens leaves the set alone or clears it. -/
theorem represents_concat {verdict : Verdict} (hbad : Publication.isGood ⟨now, verdict⟩ = false)
    (c' : CachedTokens)
    (hcleared : Revoked config.maxStaleAge (sinceGood history ++ [⟨now, verdict⟩]) →
      c'.hashes = [])
    (hkept : ¬ Revoked config.maxStaleAge (sinceGood history ++ [⟨now, verdict⟩]) →
      c'.hashes = c.hashes ∧
        c'.consecutiveEmpty = emptyCount (sinceGood history ++ [⟨now, verdict⟩]) ∧
        c'.unhealthySince = firstFailing (sinceGood history ++ [⟨now, verdict⟩])) :
    Represents sha256 config.maxStaleAge c' (history ++ [⟨now, verdict⟩]) := by
  constructor
  · rw [lastGood_concat hbad]
    exact h.some_good
  · intro p hp hnot
    rw [lastGood_concat hbad] at hp
    rw [sinceGood_concat hbad] at hnot
    rw [(hkept hnot).1]
    exact h.hashes p hp fun hr => hnot (hr.concat _)
  · rw [sinceGood_concat hbad]
    exact hcleared
  · rw [sinceGood_concat hbad]
    exact fun hnot => (hkept hnot).2.1
  · rw [sinceGood_concat hbad]
    exact fun hnot => (hkept hnot).2.2

theorem represents_empty (skipped : Nat) :
    Represents sha256 config.maxStaleAge (publish config (.loaded ⟨[], skipped⟩) now c).1
      (history ++ [⟨now, .empty⟩]) := by
  have hfailing : Publication.isFailing ⟨now, .empty⟩ = false := rfl
  refine represents_concat h rfl _ ?_ ?_
  · intro hrevoked
    by_cases hbefore : Revoked config.maxStaleAge (sinceGood history)
    · have hnil := h.cleared hbefore
      simp only [publish, List.isEmpty_nil, if_true]
      split_ifs
      · rfl
      · exact hnil
    · obtain hm | ⟨-, hone⟩ | ⟨hf, -⟩ := (revoked_concat_iff hbefore).mp hrevoked
      · cases hm
      · have hcount := h.empty hbefore
        have htwo : emptyCount (sinceGood history) < 2 := by
          by_contra hge
          exact hbefore (.inr (.inl (by omega)))
        simp only [publish, List.isEmpty_nil, if_true]
        rw [if_pos (by omega)]
      · cases hf
  · intro hnot
    have hbefore : ¬ Revoked config.maxStaleAge (sinceGood history) :=
      fun hr => hnot (hr.concat _)
    have hzero : emptyCount (sinceGood history) = 0 := by
      by_contra hne
      exact hnot ((revoked_concat_iff hbefore).mpr (.inr (.inl ⟨rfl, by omega⟩)))
    have hcount := h.empty hbefore
    simp only [publish, List.isEmpty_nil, if_true]
    rw [if_neg (by omega), firstFailing_concat hfailing, emptyCount_concat, if_pos rfl]
    refine ⟨rfl, ?_, h.failing hbefore⟩
    show (c.consecutiveEmpty + 1) % 2 ^ 32 = emptyCount (sinceGood history) + 1
    omega

theorem represents_unhealthy (message : String) (event : String → LogEvent) :
    Represents sha256 config.maxStaleAge (unhealthy config now message event c).1
      (history ++ [⟨now, .failing⟩]) := by
  have hfailing : Publication.isFailing ⟨now, .failing⟩ = true := rfl
  refine represents_concat h rfl _ ?_ ?_
  · intro hrevoked
    by_cases hbefore : Revoked config.maxStaleAge (sinceGood history)
    · have hnil := h.cleared hbefore
      simp only [unhealthy]
      split_ifs
      · rfl
      · exact hnil
    · obtain hm | ⟨he, -⟩ | ⟨-, hage⟩ := (revoked_concat_iff hbefore).mp hrevoked
      · cases hm
      · cases he
      · simp only [unhealthy, h.failing hbefore]
        rw [if_pos hage]
  · intro hnot
    have hbefore : ¬ Revoked config.maxStaleAge (sinceGood history) :=
      fun hr => hnot (hr.concat _)
    have hage : ¬ config.maxStaleAge ≤ now - (firstFailing (sinceGood history)).getD now :=
      fun hage => hnot ((revoked_concat_iff hbefore).mpr (.inr (.inr ⟨rfl, hage⟩)))
    simp only [unhealthy, h.failing hbefore]
    rw [if_neg hage, firstFailing_concat_failing hfailing, emptyCount_concat, if_neg (by simp)]
    exact ⟨rfl, h.empty hbefore, rfl⟩

/-- A published reload is one more entry of the history. -/
theorem represents_publish {verdict : Verdict} {outcome : ReloadOutcome}
    (ho : OutcomeOf sha256 verdict outcome) :
    Represents sha256 config.maxStaleAge (publish config outcome now c).1
      (history ++ [⟨now, verdict⟩]) := by
  cases ho with
  | good skipped hsome =>
    have hne := ne_nil_of_exists hsome
    simp only [publish, List.isEmpty_map, List.isEmpty_iff, hne, if_false]
    exact represents_good hsome _ rfl rfl rfl
  | empty skipped => exact represents_empty h skipped
  | missing =>
    refine represents_concat h rfl _ (fun _ => rfl) fun hnot => absurd ?_ hnot
    exact .inl ⟨_, List.mem_append_right _ (List.mem_singleton.mpr rfl), rfl⟩
  | unreadable message | invalid message => exact represents_unhealthy h message _

theorem Represents.with_loadedAt (loadedAt : Option Nat) :
    Represents sha256 config.maxStaleAge { c with loadedAt := loadedAt } history :=
  ⟨h.some_good, h.hashes, h.cleared, h.empty, h.failing⟩

end

/-- The vault opens with a file that has tokens. -/
theorem openVault_ok (h : openVault sha256 reading now = .ok c) :
    ∃ tokens, reading.verdict = .good tokens ∧ (∃ token ∈ tokens, token ≠ []) ∧
      c = ⟨some now, tokens.map sha256, none, 0⟩ := by
  have houtcome := outcome_of sha256 reading
  simp only [openVault] at h
  cases hread : readTokenFile sha256 reading with
  | error e =>
    rw [hread] at h
    cases e <;> cases h
  | ok parsed =>
    simp only [hread] at h
    simp only [ReloadOutcome.of, hread] at houtcome
    split_ifs at h with hnil
    cases h
    generalize reading.verdict = verdict at houtcome
    cases houtcome with
    | good skipped hsome => exact ⟨_, rfl, hsome, rfl⟩
    | empty skipped => exact absurd rfl hnil

theorem represents_open (h : openVault sha256 reading now = .ok c) :
    Represents sha256 config.maxStaleAge c [⟨now, reading.verdict⟩] := by
  obtain ⟨tokens, hverdict, hsome, rfl⟩ := openVault_ok h
  rw [hverdict]
  show Represents sha256 config.maxStaleAge _ ([] ++ [_])
  exact represents_good hsome _ rfl rfl rfl

end Represents

section System

/-- A reload of the background thread, or a request with the reload it may make. -/
inductive Event where
  | reload (attempt : Attempt)
  | request (header : Option (List UInt8)) (asked : Nat) (attempt : Option Attempt)

/-- The vault, and the reloads it has published. -/
structure Server where
  cached : CachedTokens
  history : List Publication

variable (sha256 : Text → Digest) (config : VaultConfig)

def Event.apply (c : CachedTokens) : Event → CachedTokens
  | .reload attempt => (refresh sha256 config attempt c).1
  | .request header asked attempt => (interceptBearer sha256 config c header asked attempt).2

/-- The reload that an event makes. -/
def Event.attempted (c : CachedTokens) : Event → Option Attempt
  | .reload attempt => some attempt
  | .request header asked attempt =>
    match bearerToken header with
    | .error _ => none
    | .ok _ =>
      if isStale c.loadedAt config.reloadInterval asked && !config.backgroundReload then attempt
      else none

def published (c : CachedTokens) (attempt : Attempt) : List Publication :=
  if isStale c.loadedAt config.reloadInterval attempt.checked then
    [⟨attempt.now, attempt.reading.verdict⟩]
  else []

def Server.step (s : Server) (e : Event) : Server where
  cached := e.apply sha256 config s.cached
  history := s.history ++ (e.attempted config s.cached).elim [] (published config s.cached)

/-- A vault opened with a file, after a sequence of events. -/
def Server.run (c : CachedTokens) (opened : Publication) (events : List Event) : Server :=
  events.foldl (Server.step sha256 config) ⟨c, [opened]⟩

variable {sha256 config} {c : CachedTokens} {s : Server} {header : Option (List UInt8)}

/-- A request answers from the set that it leaves. -/
theorem interceptBearer_of_token {token : Text} (h : bearerToken header = .ok token) (asked : Nat)
    (attempt : Option Attempt) :
    (interceptBearer sha256 config c header asked attempt).1 = .ok () ↔
      known sha256 ((Event.request header asked attempt).apply sha256 config c) token = true := by
  have hne : token.isEmpty = false := by
    obtain ⟨_, _, _, _, _, _, _, _, hne⟩ := bearerToken_ok_iff.mp h
    simpa using hne
  have hverify : ∃ c', verify sha256 config c token asked attempt = (known sha256 c' token, c') := by
    simp only [verify, hne, Bool.false_eq_true, if_false]
    split_ifs
    · exact ⟨c, rfl⟩
    · exact ⟨c, rfl⟩
    · cases attempt with
      | none => exact ⟨c, rfl⟩
      | some attempt => exact ⟨_, rfl⟩
  obtain ⟨c', hverify⟩ := hverify
  simp only [Event.apply, interceptBearer, h, hverify]
  cases hknown : known sha256 c' token <;> simp [hknown]

/-- What an event does to the set is what its reload does. -/
theorem apply_eq (e : Event) : e.apply sha256 config c =
    (e.attempted config c).elim c fun attempt => (refresh sha256 config attempt c).1 := by
  cases e with
  | reload attempt => rfl
  | request header asked attempt =>
    cases h : bearerToken header with
    | error message => simp [Event.apply, Event.attempted, interceptBearer, h]
    | ok token =>
      obtain ⟨_, _, _, _, _, _, _, _, hne⟩ := bearerToken_ok_iff.mp h
      cases hstale : isStale c.loadedAt config.reloadInterval asked <;>
        cases hback : config.backgroundReload <;> cases attempt <;>
        simp [Event.apply, Event.attempted, interceptBearer, h, verify, hne, hstale, hback] <;>
        split_ifs <;> rfl

theorem apply_request_none (header : Option (List UInt8)) (asked : Nat) :
    (Event.request header asked none).apply sha256 config c = c := by
  rw [apply_eq]
  have hnone : (Event.request header asked none).attempted config c = none := by
    simp only [Event.attempted]
    cases bearerToken header <;> simp
  rw [hnone]
  rfl

/-- A request is accepted iff it presents a token that is known once it was answered. -/
theorem interceptBearer_ok_iff {asked : Nat} {attempt : Option Attempt} :
    (interceptBearer sha256 config c header asked attempt).1 = .ok () ↔
      ∃ token, Presents header token ∧
        known sha256 ((Event.request header asked attempt).apply sha256 config c) token = true := by
  constructor
  · intro hok
    cases hbearer : bearerToken header with
    | error message =>
      simp only [interceptBearer, hbearer] at hok
      cases hok
    | ok token =>
      exact ⟨token, bearerToken_ok_iff.mp hbearer,
        (interceptBearer_of_token hbearer asked attempt).mp hok⟩
  · rintro ⟨token, hpresents, hknown⟩
    exact (interceptBearer_of_token (bearerToken_ok_iff.mpr hpresents) asked attempt).mpr hknown

theorem represents_refresh {history : List Publication}
    (h : Represents sha256 config.maxStaleAge c history) (attempt : Attempt) :
    Represents sha256 config.maxStaleAge (refresh sha256 config attempt c).1
      (history ++ published config c attempt) := by
  rw [refresh, published]
  split_ifs
  · exact (represents_publish h (outcome_of sha256 attempt.reading)).with_loadedAt _
  · rw [List.append_nil]
    exact h

theorem represents_step (h : Represents sha256 config.maxStaleAge s.cached s.history) (e : Event) :
    Represents sha256 config.maxStaleAge (s.step sha256 config e).cached
      (s.step sha256 config e).history := by
  simp only [Server.step, apply_eq]
  cases e.attempted config s.cached with
  | none =>
    rw [Option.elim_none, Option.elim_none, List.append_nil]
    exact h
  | some attempt => exact represents_refresh h attempt

theorem represents_run {opened : Nat} (h : openVault sha256 reading opened = .ok c)
    (events : List Event) :
    Represents sha256 config.maxStaleAge
      (Server.run sha256 config c ⟨opened, reading.verdict⟩ events).cached
      (Server.run sha256 config c ⟨opened, reading.verdict⟩ events).history := by
  induction events using List.reverseRecOn with
  | nil => exact represents_open h
  | append_singleton events e ih =>
    rw [Server.run, List.foldl_append, List.foldl_cons, List.foldl_nil]
    exact represents_step ih e

end System

section Accept

variable {sha256 : Text → Digest} {maxStaleAge : Nat} {c : CachedTokens}
  {history : List Publication} {token : Text} {attempt : Attempt} {config : VaultConfig}

/-- The presented token collides with no token of a file the vault has loaded. -/
def NoCollision (sha256 : Text → Digest) (history : List Publication) (token : Text) : Prop :=
  ∀ p ∈ history, ∀ line ∈ p.tokens, sha256 line = sha256 token → line = token

theorem Represents.known_iff (h : Represents sha256 maxStaleAge c history)
    (hcollision : NoCollision sha256 history token) :
    known sha256 c token = true ↔ Accepted maxStaleAge history token := by
  rw [Auth.known_iff]
  obtain ⟨p, hp, -⟩ := h.some_good
  have hmem : p ∈ history := List.mem_reverse.mp (List.mem_of_find?_eq_some hp)
  by_cases hrevoked : Revoked maxStaleAge (sinceGood history)
  · rw [h.cleared hrevoked]
    constructor
    · intro hnil
      cases hnil
    · rintro ⟨_, _, _, hnot⟩
      exact absurd hrevoked hnot
  · rw [h.hashes p hp hrevoked]
    constructor
    · intro hin
      obtain ⟨line, hline, heq⟩ := List.mem_map.mp hin
      exact ⟨p, hp, hcollision p hmem line hline heq ▸ hline, hrevoked⟩
    · rintro ⟨q, hq, hin, -⟩
      rw [hp, Option.some.injEq] at hq
      exact List.mem_map_of_mem (hq ▸ hin)

/-- A request is accepted iff it presents a token that is good after its own reload. -/
theorem accepts_iff {s : Server} (h : Represents sha256 config.maxStaleAge s.cached s.history)
    (header : Option (List UInt8)) (asked : Nat) (attempt : Option Attempt)
    (hcollision : ∀ token, Presents header token →
      NoCollision sha256 (s.step sha256 config (.request header asked attempt)).history token) :
    (interceptBearer sha256 config s.cached header asked attempt).1 = .ok () ↔
      ∃ token, Presents header token ∧ Accepted config.maxStaleAge
        (s.step sha256 config (.request header asked attempt)).history token := by
  have hstep := represents_step h (.request header asked attempt)
  rw [interceptBearer_ok_iff]
  refine exists_congr fun token => and_congr_right fun hpresents => ?_
  exact hstep.known_iff (hcollision token hpresents)

/-- Right after a file with tokens was loaded, exactly its tokens are known. -/
theorem known_refresh_good {tokens : List Text}
    (hstale : isStale c.loadedAt config.reloadInterval attempt.checked = true)
    (hgood : attempt.reading.verdict = .good tokens)
    (hcollision : ∀ line ∈ tokens, sha256 line = sha256 token → line = token) :
    known sha256 (refresh sha256 config attempt c).1 token = true ↔ token ∈ tokens := by
  have houtcome := outcome_of sha256 attempt.reading
  rw [Auth.known_iff, refresh, if_pos hstale]
  rw [hgood] at houtcome
  generalize ReloadOutcome.of sha256 attempt.reading = outcome at houtcome
  cases houtcome with
  | good skipped hsome =>
    have hne := ne_nil_of_exists hsome
    simp only [publish, List.isEmpty_map, List.isEmpty_iff, hne, if_false]
    constructor
    · intro hin
      obtain ⟨line, hline, heq⟩ := List.mem_map.mp hin
      exact hcollision line hline heq ▸ hline
    · exact List.mem_map_of_mem

/-- A file with too many tokens changes nothing or clears the set. -/
theorem hashes_refresh_failing (hfailing : attempt.reading.verdict = .failing) :
    (refresh sha256 config attempt c).1.hashes = c.hashes ∨
      (refresh sha256 config attempt c).1.hashes = [] := by
  have houtcome := outcome_of sha256 attempt.reading
  rw [hfailing] at houtcome
  have hunhealthy : ∀ message event, (unhealthy config attempt.now message event c).1.hashes =
      c.hashes ∨ (unhealthy config attempt.now message event c).1.hashes = [] := by
    intro message event
    simp only [unhealthy]
    split_ifs
    · exact .inr rfl
    · exact .inl rfl
  rw [refresh]
  split_ifs
  · generalize ReloadOutcome.of sha256 attempt.reading = outcome at houtcome
    cases houtcome with
    | unreadable message | invalid message => exact hunhealthy _ _
  · exact .inl rfl

end Accept

/-- After every sequence of reloads and requests: a request is accepted iff its header
presents a token of the last file that had some, with no revocation since; right after
such a file was loaded its tokens and no others are accepted; and a file with too many
tokens is never loaded in part. -/
theorem token_acceptance_exact (sha256 : Text → Digest) (config : VaultConfig)
    (reading : Reading) (opened : Nat) (c : CachedTokens)
    (hopen : openVault sha256 reading opened = .ok c) (events : List Event) (s : Server)
    (hs : s = Server.run sha256 config c ⟨opened, reading.verdict⟩ events) :
    (∀ header asked attempt,
      (∀ token, Presents header token → NoCollision sha256
        (s.step sha256 config (.request header asked attempt)).history token) →
      ((interceptBearer sha256 config s.cached header asked attempt).1 = .ok () ↔
        ∃ token, Presents header token ∧ Accepted config.maxStaleAge
          (s.step sha256 config (.request header asked attempt)).history token)) ∧
    (∀ attempt tokens, isStale s.cached.loadedAt config.reloadInterval attempt.checked = true →
      attempt.reading.verdict = .good tokens →
      (∀ token, (∀ line ∈ tokens, sha256 line = sha256 token → line = token) →
        (known sha256 (refresh sha256 config attempt s.cached).1 token = true ↔ token ∈ tokens)) ∧
      ∀ header asked,
        (∀ token, Presents header token →
          ∀ line ∈ tokens, sha256 line = sha256 token → line = token) →
        ((interceptBearer sha256 config (refresh sha256 config attempt s.cached).1 header asked
          none).1 = .ok () ↔ ∃ token ∈ tokens, Presents header token)) ∧
    (∀ size text, maxTokens < (tokens text).length →
      (∀ now c', openVault sha256 (.content size text) now ≠ .ok c') ∧
      ∀ checked now,
        (refresh sha256 config ⟨.content size text, checked, now⟩ s.cached).1.hashes =
          s.cached.hashes ∨
        (refresh sha256 config ⟨.content size text, checked, now⟩ s.cached).1.hashes = []) := by
  subst hs
  refine ⟨accepts_iff (represents_run hopen events), ?_, ?_⟩
  · intro attempt tokens hstale hgood
    refine ⟨fun token => known_refresh_good hstale hgood, fun header asked hcollision => ?_⟩
    rw [interceptBearer_ok_iff, apply_request_none]
    refine exists_congr fun token => and_comm.trans (and_congr_left fun hpresents => ?_)
    exact known_refresh_good hstale hgood (hcollision token hpresents)
  · intro size text hmany
    have hfailing : (Reading.content size text).verdict = .failing := by
      simp [Reading.verdict, hmany]
    refine ⟨fun now c' h => ?_, fun checked now => hashes_refresh_failing hfailing⟩
    obtain ⟨tokens, hverdict, -⟩ := openVault_ok h
    rw [hfailing] at hverdict
    cases hverdict

section Example

/-- A digest that tells short texts apart. -/
def paddedDigest (text : Text) : Digest :=
  ⟨((text.map fun c : Char => UInt8.ofNat c.toNat) ++ List.replicate 32 0).take 32, by
    rw [List.length_take, List.length_append, List.length_replicate]
    omega⟩

def fileOf (text : String) : Reading := .content text.length text.toList

def headerOf (text : String) : Option (List UInt8) :=
  some (text.toList.map fun c => UInt8.ofNat c.toNat)

def serverConfig : VaultConfig := ⟨5, 300, true⟩

/-- Opened with one token, which a later file replaces. -/
def rotation : List Event := [.reload ⟨fileOf "beta\n", 5, 5⟩]

def alphaVault : CachedTokens := ⟨some 0, [paddedDigest "alpha".toList], none, 0⟩

theorem token_acceptance_exact_rotation :
    openVault paddedDigest (fileOf " alpha\r\n") 0 = .ok alphaVault ∧
      (interceptBearer paddedDigest serverConfig (Server.run paddedDigest serverConfig alphaVault
        ⟨0, (fileOf " alpha\r\n").verdict⟩ rotation).cached (headerOf "BEARER  beta") 6 none).1 =
          .ok () := by
  have hopen : openVault paddedDigest (fileOf " alpha\r\n") 0 = .ok alphaVault := by decide +kernel
  refine ⟨hopen, ?_⟩
  obtain ⟨hrequest, -⟩ := token_acceptance_exact paddedDigest serverConfig (fileOf " alpha\r\n") 0
    alphaVault hopen rotation _ rfl
  have hbeta : Presents (headerOf "BEARER  beta") "beta".toList :=
    bearerToken_ok_iff.mp (by decide +kernel)
  refine (hrequest (headerOf "BEARER  beta") 6 none fun token htoken => ?_).mpr
    ⟨"beta".toList, hbeta, ⟨5, .good ["beta".toList]⟩, by decide +kernel, by decide +kernel, ?_⟩
  · have hbearer := bearerToken_ok_iff.mpr htoken
    rw [bearerToken_ok_iff.mpr hbeta, Except.ok.injEq] at hbearer
    subst hbearer
    unfold NoCollision
    decide +kernel
  · have hsince : sinceGood (Server.step paddedDigest serverConfig (Server.run paddedDigest
        serverConfig alphaVault ⟨0, (fileOf " alpha\r\n").verdict⟩ rotation)
        (.request (headerOf "BEARER  beta") 6 none)).history = [] := by decide +kernel
    rw [hsince]
    exact not_revoked_nil

end Example

end OtelSqlite.Auth
