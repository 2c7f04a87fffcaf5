import OtelSqlite.Auth.Threads
import OtelSqlite.Lib.Permits

/-!
# One reload at a time, published in the order of the reads

The claim is a single permit: it is taken exactly while one thread is between its exchange and
its release, a panicking thread included. Only the holder publishes. So nothing is published
between a read of the file and the publication of what it gave, and the set never goes back to
an older file. Publications are at least a reload interval apart.
-/

namespace OtelSqlite.Auth

open OtelSqlite.Lib (Use Permits)
open OtelSqlite.Lib.Threads (step_cases)

variable {sha256 : Text → Digest} {config : VaultConfig} {reading : Reading}

section Claim

variable {v v' : VaultState} {place place' : Place} {m : Move}

/-- The claim as a permit. -/
def VaultState.claim (v : VaultState) : Permits := ⟨if v.reloading then 0 else 1⟩

theorem claim_taken_iff : v.claim.available = 0 ↔ v.reloading = true := by
  cases hr : v.reloading <;> simp [VaultState.claim, hr]

theorem resume_holds (caller : Caller) (hashes : List Digest) :
    (caller.resume sha256 hashes).holds = false := by
  cases caller <;> rfl

/-- What a move does with the claim. -/
theorem Moves.claim_use (h : Moves sha256 config v place m v' place')
    (hheld : place.holds = true → v.reloading = true) :
    ∃ use : Use, use.Fits (place.holds = true) (place'.holds = true) ∧
      v.claim.apply use = some v'.claim := by
  have hkeep : ∀ {v' : VaultState} {before after : Prop}, (before ↔ after) →
      v'.reloading = v.reloading → ∃ use : Use, use.Fits before after ∧
        v.claim.apply use = some v'.claim := by
    intro v' before after hiff hsame
    refine ⟨.keep, hiff, ?_⟩
    show some v.claim = some v'.claim
    rw [VaultState.claim, VaultState.claim, hsame]
  have hgive : ∀ {before after : Prop}, before → ¬after → v.reloading = true →
      ∃ use : Use, use.Fits before after ∧
        v.claim.apply use = some ({ v with reloading := false } : VaultState).claim := by
    intro before after hbefore hafter hr
    refine ⟨.give, ⟨hbefore, hafter⟩, ?_⟩
    simp [VaultState.claim, Permits.apply, hr]
  cases h with
  | claim hclaim =>
    refine ⟨.take, ⟨by simp [Place.holds], rfl⟩, ?_⟩
    simp [VaultState.claim, Permits.apply, hclaim]
  | @release caller hashes =>
    exact hgive rfl (by rw [resume_holds]; exact Bool.false_ne_true) (hheld rfl)
  | panic hlive =>
    cases hp : place.holds with
    | true =>
      have hgone : (v.reloading && !true) = false := Bool.and_false _
      rw [hgone]
      exact hgive rfl (by simp [Place.holds]) (hheld hp)
    | false => exact hkeep (by simp [Place.holds]) (by simp)
  | @current caller => exact hkeep (by rw [resume_holds]; rfl) rfl
  | _ => exact hkeep Iff.rfl rfl

end Claim

section Effect

variable {v v' : VaultState} {place place' : Place} {m : Move}

/-- A move publishes what its thread has read, or leaves the set, the history and the clock. -/
theorem Moves.quiet_or_publish (h : Moves sha256 config v place m v' place') :
    (v'.server = v.server ∧ v'.clock = v.clock) ∨
      ∃ caller reading readAt elapsed, place = .loaded caller reading readAt ∧
        m = .publish elapsed ∧ v' = v.publish sha256 config reading elapsed := by
  cases h with
  | @publish caller reading readAt elapsed =>
    exact .inr ⟨caller, reading, readAt, elapsed, rfl, rfl, rfl⟩
  | _ => exact .inl ⟨rfl, rfl⟩

/-- What a thread holds to publish, it has read just now or held before. -/
theorem Moves.loaded (h : Moves sha256 config v place m v' place') {caller : Caller} {readAt : Nat}
    (hp : place' = .loaded caller reading readAt) :
    m = .read reading ∧ readAt = v.clock ∧ v' = v := by
  cases h with
  | read =>
    cases hp
    exact ⟨rfl, rfl, rfl⟩
  | @current caller | @release caller => cases caller <;> cases hp
  | _ => cases hp

theorem history_publish (v : VaultState) (reading : Reading) (elapsed : Nat) :
    (v.publish sha256 config reading elapsed).server.history = v.server.history ++
      if isStale v.server.cached.loadedAt config.reloadInterval v.clock then
        [⟨v.clock + elapsed, reading.verdict⟩] else [] := rfl

theorem loadedAt_publish (v : VaultState) (reading : Reading) (elapsed : Nat) :
    (v.publish sha256 config reading elapsed).server.cached.loadedAt =
      if isStale v.server.cached.loadedAt config.reloadInterval v.clock then
        some (v.clock + elapsed) else v.server.cached.loadedAt := by
  simp only [VaultState.publish, Server.step, Event.apply, refresh]
  split <;> rfl

end Effect

section Flight

variable {v v' : VaultState}

/-- The last publication, in time. -/
structure Dated (config : VaultConfig) (v : VaultState) : Prop where
  latest : ∃ l, v.server.cached.loadedAt = some l ∧ l ≤ v.clock ∧
    ∀ p ∈ v.server.history, p.now ≤ l
  spaced : v.server.history.Pairwise fun p q => p.now + config.reloadInterval ≤ q.now

theorem Dated.past (h : Dated config v) : ∀ p ∈ v.server.history, p.now ≤ v.clock := by
  obtain ⟨l, -, hl, hall⟩ := h.latest
  intro p hp
  exact (hall p hp).trans hl

theorem Dated.publish (h : Dated config v) (reading : Reading) (elapsed : Nat) :
    Dated config (v.publish sha256 config reading elapsed) := by
  obtain ⟨l, hloaded, hl, hall⟩ := h.latest
  have hclock : (v.publish sha256 config reading elapsed).clock = v.clock + elapsed := rfl
  cases hstale : isStale v.server.cached.loadedAt config.reloadInterval v.clock with
  | false =>
    refine ⟨⟨l, ?_, ?_, ?_⟩, ?_⟩
    · rw [loadedAt_publish, hstale, if_neg Bool.false_ne_true, hloaded]
    · omega
    · rw [history_publish, hstale, if_neg Bool.false_ne_true, List.append_nil]
      exact hall
    · rw [history_publish, hstale, if_neg Bool.false_ne_true, List.append_nil]
      exact h.spaced
  | true =>
    have hage : config.reloadInterval ≤ v.clock - l := by
      simpa [isStale, hloaded] using hstale
    refine ⟨⟨v.clock + elapsed, ?_, hclock.ge, ?_⟩, ?_⟩
    · rw [loadedAt_publish, hstale, if_pos rfl]
    · rw [history_publish, hstale, if_pos rfl]
      intro p hp
      rcases List.mem_append.mp hp with hp | hp
      · have := hall p hp
        omega
      · rw [List.mem_singleton.mp hp]
    · rw [history_publish, hstale, if_pos rfl, List.pairwise_append]
      refine ⟨h.spaced, List.pairwise_singleton _ _, fun p hp q hq => ?_⟩
      have := hall p hp
      rw [List.mem_singleton.mp hq]
      show p.now + config.reloadInterval ≤ v.clock + elapsed
      omega

/-- The claim has one holder, and what a holder has read is newer than all that was published. -/
structure Flight (config : VaultConfig) (s : VaultSystem) : Prop where
  claim : s.shared.claim.Lent 1 fun i => (s.places i).holds = true
  dated : Dated config s.shared
  ordered : ∀ i caller reading readAt, s.places i = .loaded caller reading readAt →
    readAt ≤ s.shared.clock ∧ ∀ p ∈ s.shared.server.history, p.now ≤ readAt

variable {s s' : VaultSystem}

theorem Flight.reloading_iff (h : Flight config s) :
    s.shared.reloading = true ↔ ∃ i, (s.places i).holds = true :=
  claim_taken_iff.symm.trans h.claim.taken_iff

theorem flight_new {now : Nat} (h : newInterceptor sha256 config reading now = .ok s) :
    Flight config s := by
  obtain ⟨cached, hopen, rfl⟩ := newInterceptor_ok h
  obtain ⟨tokens, -, -, rfl⟩ := openVault_ok hopen
  have hplace : ∀ i, (if i = 0 ∧ config.backgroundReload = true then Place.looping
      else Place.absent).holds = false := by
    intro i
    split <;> rfl
  constructor
  · exact Permits.lent_new fun i => Bool.eq_false_iff.mp (hplace i)
  · refine ⟨⟨now, rfl, le_rfl, ?_⟩, List.pairwise_singleton _ _⟩
    intro p hp
    rw [List.mem_singleton.mp hp]
  · intro i caller reading' readAt hloaded
    have hnot := hplace i
    simp only at hloaded
    rw [hloaded] at hnot
    cases hnot

theorem Flight.thread (h : Flight config s) {i : Nat} {m : Move} {place' : Place}
    (hm : Moves sha256 config s.shared (s.places i) m v' place') :
    Flight config ⟨v', Function.update s.places i place'⟩ := by
  obtain ⟨use, hfits, happly⟩ := hm.claim_use fun hp => h.reloading_iff.mpr ⟨i, hp⟩
  have hclaim : v'.claim.Lent 1 fun j => (Function.update s.places i place' j).holds = true :=
    @Permits.Lent.apply _ _ _ _ _ _ (fun p : Place => p.holds = true) _ h.claim _ _ _ hfits happly
  rcases hm.quiet_or_publish with ⟨hserver, hclock⟩ | ⟨caller, reading, readAt, elapsed, hp, hpub, rfl⟩
  · refine ⟨hclaim, ?_, ?_⟩
    · obtain ⟨hlatest, hspaced⟩ := h.dated
      rw [← hserver] at hspaced
      rw [← hserver, ← hclock] at hlatest
      exact ⟨hlatest, hspaced⟩
    · intro j caller reading readAt hj
      simp only at hj ⊢
      rw [hserver, hclock]
      by_cases hji : j = i
      · subst hji
        rw [Function.update_self] at hj
        obtain ⟨-, rfl, -⟩ := hm.loaded hj
        exact ⟨le_rfl, h.dated.past⟩
      · rw [Function.update_of_ne hji] at hj
        exact h.ordered j caller reading readAt hj
  · refine ⟨hclaim, h.dated.publish reading elapsed, ?_⟩
    intro j caller' reading' readAt' hj
    simp only at hj
    by_cases hji : j = i
    · subst hji
      rw [Function.update_self] at hj
      rw [hpub] at hm
      cases (hm.loaded hj).1
    · rw [Function.update_of_ne hji] at hj
      -- the publishing thread holds the claim, so no other has read the file
      exact absurd (h.claim.holder_unique (by rw [hj]; rfl) (by rw [hp]; rfl)) hji

theorem Flight.change (h : Flight config s) {c : Surroundings}
    (hc : vaultChange s.shared c = some v') : Flight config { s with shared := v' } := by
  cases c with
  | tick elapsed =>
    cases hc
    obtain ⟨⟨l, hloaded, hl, hall⟩, hspaced⟩ := h.dated
    refine ⟨h.claim, ⟨⟨l, hloaded, Nat.le_add_right_of_le hl, hall⟩, hspaced⟩, ?_⟩
    intro i caller reading readAt hi
    obtain ⟨hclock, hpast⟩ := h.ordered i caller reading readAt hi
    exact ⟨Nat.le_add_right_of_le hclock, hpast⟩
  | letGo =>
    cases hc
    exact ⟨h.claim, ⟨h.dated.latest, h.dated.spaced⟩, h.ordered⟩

theorem Flight.step (h : Flight config s) {e : VaultEvent} (hs : s.step sha256 config e = some s') :
    Flight config s' := by
  cases step_cases hs with
  | thread hm => exact h.thread (vaultMove_inv hm)
  | change hc => exact h.change hc

theorem Flight.run (h : Flight config s) {events : List VaultEvent}
    (hrun : s.run sha256 config events = some s') : Flight config s' :=
  Lib.Run.invariant (fun hs hstep => Flight.step hs hstep) h hrun

end Flight

/-- Over every interleaving of requests, reloader and panics: at most one thread is between its
claim and its release, the claim is taken exactly while there is such a thread, what a thread has
read from the file is newer than everything published, and publications are at least a reload
interval apart. -/
theorem reload_single_flight (sha256 : Text → Digest) (config : VaultConfig) (reading : Reading)
    (now : Nat) (s₀ s : VaultSystem) (events : List VaultEvent)
    (hnew : newInterceptor sha256 config reading now = .ok s₀)
    (hrun : s₀.run sha256 config events = some s) :
    (∀ i j, (s.places i).holds = true → (s.places j).holds = true → i = j) ∧
    (s.shared.reloading = true ↔ ∃ i, (s.places i).holds = true) ∧
    (∀ i caller reading readAt, s.places i = .loaded caller reading readAt →
      readAt ≤ s.shared.clock ∧ ∀ p ∈ s.shared.server.history, p.now ≤ readAt) ∧
    s.shared.server.history.Pairwise fun p q => p.now + config.reloadInterval ≤ q.now := by
  have h : Flight config s := (flight_new hnew).run hrun
  exact ⟨fun i j hi hj => h.claim.holder_unique hi hj, h.reloading_iff, h.ordered, h.dated.spaced⟩

section Contention

def inlineConfig : VaultConfig := ⟨5, 300, false⟩

/-- Opened with the one token alpha. -/
def alphaSystem (config : VaultConfig) : VaultSystem :=
  ⟨⟨⟨alphaVault, [⟨0, .good ["alpha".toList]⟩]⟩, false, 0, true⟩, fun i =>
    if i = 0 ∧ config.backgroundReload = true then .looping else .absent⟩

def alphaStart : VaultSystem := alphaSystem inlineConfig

/-- Two requests find the set stale; the first claims the reload, the second is refused. -/
def contended : List VaultEvent :=
  [.thread 1 (.arrive (headerOf "Bearer alpha")), .thread 2 (.arrive (headerOf "Bearer alpha")),
    .change (.tick 6), .thread 1 .run, .thread 2 .run, .thread 2 .run, .thread 1 .run,
    .thread 1 .run, .thread 2 .run, .thread 1 (.read (fileOf "beta\n"))]

theorem newInterceptor_alpha (config : VaultConfig) :
    newInterceptor paddedDigest config (fileOf "alpha\n") 0 = .ok (alphaSystem config) := by
  have hopen : openVault paddedDigest (fileOf "alpha\n") 0 = .ok alphaVault := by decide +kernel
  have hverdict : (fileOf "alpha\n").verdict = .good ["alpha".toList] := by decide +kernel
  rw [newInterceptor, hopen, hverdict]
  rfl

theorem reload_single_flight_contended :
    ∃ s, alphaStart.run paddedDigest inlineConfig contended = some s ∧
      (s.places 1).holds = true ∧ ∀ j, (s.places j).holds = true → j = 1 := by
  have hone : ((alphaStart.run paddedDigest inlineConfig contended).map fun s =>
      (s.places 1).holds) = some true := by
    decide +kernel
  obtain ⟨s, hrun, hholds⟩ := Option.map_eq_some_iff.mp hone
  obtain ⟨hunique, -⟩ := reload_single_flight paddedDigest inlineConfig (fileOf "alpha\n") 0
    alphaStart s contended (newInterceptor_alpha _) hrun
  exact ⟨s, hrun, hholds, fun j hj => hunique j 1 hj hholds⟩

end Contention

end OtelSqlite.Auth
