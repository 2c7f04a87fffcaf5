import OtelSqlite.Auth.Acceptance

/-!
# The grace period of a stale token set

The grace clock starts with the first reload that could not use the file, not with
the last good one. So after a failing reload the vault may still accept tokens
whose file was last read longer ago than the grace period.
-/

namespace OtelSqlite.Auth

variable {sha256 : Text → Digest} {config : VaultConfig} {c : CachedTokens}
  {history : List Publication}

/-- The vault accepts some token as long as no reload since the last good one revoked. -/
theorem Represents.accepts_any_iff (h : Represents sha256 config.maxStaleAge c history) :
    (∃ token asked, (verify sha256 config c token asked none).1 = true) ↔
      ¬ Revoked config.maxStaleAge (sinceGood history) := by
  have hverify : ∀ token asked, (verify sha256 config c token asked none).1 = true ↔
      token ≠ [] ∧ known sha256 c token = true := by
    intro token asked
    cases hempty : token.isEmpty with
    | true => simp [verify, List.isEmpty_iff.mp hempty]
    | false =>
      have hne : token ≠ [] := by simpa using hempty
      simp only [verify, hempty, Bool.false_eq_true, if_false, hne, ne_eq, not_false_eq_true,
        true_and]
      split_ifs <;> rfl
  simp only [hverify, Auth.known_iff]
  constructor
  · rintro ⟨token, -, -, hmem⟩ hrevoked
    rw [h.cleared hrevoked] at hmem
    cases hmem
  · intro hnot
    obtain ⟨p, hp, token, htoken, hne⟩ := h.some_good
    refine ⟨token, 0, hne, ?_⟩
    rw [h.hashes p hp hnot]
    exact List.mem_map_of_mem htoken

/-- Tokens are accepted after a failing reload as long as the clock runs from the first one. -/
theorem Represents.within_grace {before : List Publication} {t : Nat}
    (h : Represents sha256 config.maxStaleAge c (before ++ [⟨t, .failing⟩]))
    (haccepts : ∃ token asked, (verify sha256 config c token asked none).1 = true) :
    t - (firstFailing (sinceGood before)).getD t < config.maxStaleAge := by
  have hnot := h.accepts_any_iff.mp haccepts
  rw [sinceGood_concat rfl] at hnot
  have hbefore : ¬ Revoked config.maxStaleAge (sinceGood before) := fun hr => hnot (hr.concat _)
  by_contra hage
  exact hnot ((revoked_concat_iff hbefore).mpr (.inr (.inr ⟨rfl, Nat.not_lt.mp hage⟩)))

/-- If the last published reload could not use the file and tokens are still accepted, then
the last reload with tokens was less than the grace period before it. -/
def ExpiresInTime (sha256 : Text → Digest) (config : VaultConfig) (s : Server) : Prop :=
  ∀ before t, s.history = before ++ [⟨t, .failing⟩] →
    (∃ token asked, (verify sha256 config s.cached token asked none).1 = true) →
      ∃ good, lastGood before = some good ∧ t - good.now < config.maxStaleAge

/-- The grace period has passed since the last reload with tokens, but not yet since the
first reload after it that could not use the file. -/
def BetweenClocks (maxStaleAge : Nat) (before : List Publication) (t : Nat) : Prop :=
  ∃ good, lastGood before = some good ∧ good.now + maxStaleAge ≤ t ∧
    t < (firstFailing (sinceGood before)).getD t + maxStaleAge

theorem history_prefix_foldl (s : Server) (events : List Event) :
    s.history <+: (events.foldl (Server.step sha256 config) s).history := by
  induction events generalizing s with
  | nil => exact List.prefix_rfl
  | cons e events ih =>
    rw [List.foldl_cons]
    exact (List.prefix_append s.history _).trans (ih (s.step sha256 config e))

theorem Represents.expiresInTime {s : Server}
    (h : Represents sha256 config.maxStaleAge s.cached s.history)
    (houtside : ∀ before t, s.history = before ++ [⟨t, .failing⟩] →
      ¬ BetweenClocks config.maxStaleAge before t) :
    ExpiresInTime sha256 config s := by
  intro before t hhistory haccepts
  have hgrace := Represents.within_grace (hhistory ▸ h) haccepts
  obtain ⟨good, hgood, -⟩ := h.some_good
  rw [hhistory, lastGood_concat rfl] at hgood
  refine ⟨good, hgood, ?_⟩
  by_contra hlate
  exact houtside before t hhistory ⟨good, hgood, by omega, by omega⟩

section LateReload

variable (sha256 config)

/-- A vault opened at time 0 with one token. -/
def oneToken : CachedTokens := ⟨some 0, [sha256 "alpha".toList], none, 0⟩

theorem openVault_oneToken : openVault sha256 (fileOf "alpha\n") 0 = .ok (oneToken sha256) := rfl

/-- Its first reload comes when the grace period is over, and cannot use the file. -/
def lateReload : Attempt :=
  let now := config.reloadInterval + config.maxStaleAge
  ⟨.failed "permission denied", now, now⟩

def afterLateReload : Server :=
  Server.run sha256 config (oneToken sha256) ⟨0, .good ["alpha".toList]⟩
    [.reload (lateReload config)]

theorem history_afterLateReload : (afterLateReload sha256 config).history =
    [⟨0, .good ["alpha".toList]⟩] ++ [⟨(lateReload config).now, .failing⟩] := by
  have hstale : isStale (some 0) config.reloadInterval (lateReload config).checked = true := by
    simp [isStale, lateReload]
  simp only [afterLateReload, Server.run, List.foldl_cons, List.foldl_nil, Server.step,
    Event.attempted, Option.elim_some, published, oneToken, hstale, if_true]
  rfl

variable {sha256 config}

/-- The clock starts only then, so the token is accepted. -/
theorem accepts_afterLateReload (hpos : 0 < config.maxStaleAge) :
    ∃ token asked,
      (verify sha256 config (afterLateReload sha256 config).cached token asked none).1 = true := by
  have hrun : Represents sha256 config.maxStaleAge (afterLateReload sha256 config).cached
      (afterLateReload sha256 config).history :=
    represents_run (openVault_oneToken sha256) _
  rw [hrun.accepts_any_iff, history_afterLateReload, sinceGood_concat rfl]
  show ¬ Revoked _ ([] ++ _)
  rw [revoked_concat_iff not_revoked_nil]
  simp [emptyCount, firstFailing, hpos.ne']

theorem not_expiresInTime_afterLateReload (hpos : 0 < config.maxStaleAge) :
    ¬ ExpiresInTime sha256 config (afterLateReload sha256 config) := by
  intro hexpires
  obtain ⟨good, hgood, hlt⟩ :=
    hexpires _ _ (history_afterLateReload sha256 config) (accepts_afterLateReload hpos)
  cases hgood
  simp [lateReload] at hlt

end LateReload

/-- Tokens that are still accepted after a reload that could not use the file are always
within the grace period of the last reload with tokens only if there is no grace; with
one, they are in every run that has no such reload between the two clocks. -/
theorem stale_tokens_expire_iff (sha256 : Text → Digest) (config : VaultConfig) :
    ((∀ reading opened c, openVault sha256 reading opened = .ok c → ∀ events,
        ExpiresInTime sha256 config
          (Server.run sha256 config c ⟨opened, reading.verdict⟩ events)) ↔
      config.maxStaleAge = 0) ∧
    ∀ reading opened c, openVault sha256 reading opened = .ok c → ∀ events,
      (∀ before t after, (Server.run sha256 config c ⟨opened, reading.verdict⟩ events).history =
        before ++ ⟨t, .failing⟩ :: after → ¬ BetweenClocks config.maxStaleAge before t) →
      ∀ done rest, events = done ++ rest →
        ExpiresInTime sha256 config
          (Server.run sha256 config c ⟨opened, reading.verdict⟩ done) := by
  constructor
  · constructor
    · intro hall
      by_contra hne
      exact not_expiresInTime_afterLateReload (Nat.pos_of_ne_zero hne)
        (hall (fileOf "alpha\n") 0 _ (openVault_oneToken sha256) _)
    · intro hzero reading opened c hopen events before t hhistory haccepts
      have hgrace := Represents.within_grace (hhistory ▸ represents_run hopen events) haccepts
      omega
  · rintro reading opened c hopen _ houtside done rest rfl
    refine (represents_run hopen done).expiresInTime fun before t hhistory => ?_
    obtain ⟨after, hafter⟩ : (Server.run sha256 config c ⟨opened, reading.verdict⟩ done).history <+:
        (Server.run sha256 config c ⟨opened, reading.verdict⟩ (done ++ rest)).history := by
      rw [Server.run, Server.run, List.foldl_append]
      exact history_prefix_foldl _ rest
    refine houtside before t after ?_
    rw [← hafter, hhistory, List.append_assoc, List.singleton_append]

section Example

/-- Ten seconds after the last reload with tokens they are still accepted, and that is in
time. -/
theorem stale_tokens_expire_iff_early :
    (verify paddedDigest serverConfig (refresh paddedDigest serverConfig
        ⟨.failed "permission denied", 10, 10⟩ alphaVault).1 "alpha".toList 10 none).1 = true ∧
      ∃ good, lastGood [⟨0, (fileOf "alpha\n").verdict⟩] = some good ∧ 10 - good.now < 300 := by
  have haccepted : (verify paddedDigest serverConfig (refresh paddedDigest serverConfig
      ⟨.failed "permission denied", 10, 10⟩ alphaVault).1 "alpha".toList 10 none).1 = true := by
    decide +kernel
  have hexpires := (stale_tokens_expire_iff paddedDigest serverConfig).2 (fileOf "alpha\n") 0
    alphaVault (by decide +kernel) [.reload ⟨.failed "permission denied", 10, 10⟩] ?_ _ []
    (List.append_nil _).symm
  · exact ⟨haccepted, hexpires [⟨0, (fileOf "alpha\n").verdict⟩] 10 (by decide +kernel)
      ⟨_, _, haccepted⟩⟩
  · rintro before t after hhistory ⟨good, -, hlate, -⟩
    have hmem : (⟨t, .failing⟩ : Publication) ∈
        [⟨0, .good ["alpha".toList]⟩, ⟨10, .failing⟩] := by
      have hin : (⟨t, .failing⟩ : Publication) ∈ before ++ ⟨t, .failing⟩ :: after := by simp
      rw [← hhistory] at hin
      exact hin
    simp only [List.mem_cons, Publication.mk.injEq, reduceCtorEq, and_false, and_true,
      List.not_mem_nil, or_false, false_or] at hmem
    simp only [serverConfig] at hlate
    omega

/-- A file that cannot be read from the first reload on, every five seconds. -/
def unreadable : List Event :=
  (List.range 59).map fun i => .reload ⟨.failed "permission denied", 5 * (i + 1), 5 * (i + 1)⟩

def afterUnreadable : Server :=
  Server.run paddedDigest serverConfig alphaVault ⟨0, (fileOf "alpha\n").verdict⟩ unreadable

/-- The next reload, five minutes after the last good one. -/
def fiveMinutes : Attempt := ⟨.failed "permission denied", 300, 300⟩

/-- The clock has run for 295 seconds only, so the token is still accepted. -/
theorem stale_tokens_outlive_grace :
    openVault paddedDigest (fileOf "alpha\n") 0 = .ok alphaVault ∧
      isStale afterUnreadable.cached.loadedAt serverConfig.reloadInterval fiveMinutes.checked =
        true ∧
      fiveMinutes.reading.verdict = .failing ∧
      (verify paddedDigest serverConfig (refresh paddedDigest serverConfig fiveMinutes
        afterUnreadable.cached).1 "alpha".toList 300 none).1 = true ∧
      lastGood afterUnreadable.history = some ⟨0, .good ["alpha".toList]⟩ ∧
      ¬ fiveMinutes.now - 0 < serverConfig.maxStaleAge := by
  refine ⟨?_, ?_, rfl, ?_, ?_, ?_⟩ <;> decide +kernel

end Example

end OtelSqlite.Auth
