import OtelSqlite.Auth.SingleFlight

/-!
# The vault with its background reloader

As the server wires it, the file belongs to the reloader. A request then takes at most two moves,
none of which waits for anybody or touches the file. The reloader is never refused the claim, and
since it sleeps a reload interval after each publication, the set is stale whenever it has read
the file: everything it reads is published. If it has ended, the set stays as it is for good.
-/

namespace OtelSqlite.Auth

open OtelSqlite.Lib.Threads (step_cases)

variable {sha256 : Text → Digest} {config : VaultConfig}

section Places

/-- A request that leaves the file to the reloader. -/
def Place.asks : Place → Bool
  | .absent | .arrived _ | .stale _ | .answered _ | .ended => true
  | _ => false

/-- The moves such a request has left. -/
def Place.left : Place → Nat
  | .arrived _ => 2
  | .stale _ => 1
  | _ => 0

/-- The set is stale. -/
def VaultState.Due (config : VaultConfig) (v : VaultState) : Prop :=
  ∀ l ∈ v.server.cached.loadedAt, l + config.reloadInterval ≤ v.clock

/-- Where the reloader can be. From its waking on the set is stale, since nobody else publishes. -/
inductive Paced (config : VaultConfig) (v : VaultState) : Place → Prop where
  | looping : Paced config v .looping
  | sleeping {wake : Nat}
      (h : ∀ l ∈ v.server.cached.loadedAt, l + config.reloadInterval ≤ wake) :
      Paced config v (.sleeping wake)
  | woken (h : v.Due config) : Paced config v .woken
  | claiming (h : v.Due config) : Paced config v (.claiming .reloader)
  | reading (h : v.Due config) : Paced config v (.reading .reloader)
  | loaded {reading : Reading} {readAt : Nat} (h : v.Due config) :
      Paced config v (.loaded .reloader reading readAt)
  | published {hashes : List Digest} : Paced config v (.published .reloader hashes)
  | ended : Paced config v .ended

variable {v v' : VaultState} {place place' : Place} {m : Move}

theorem VaultState.Due.later (h : v.Due config) (hserver : v'.server = v.server)
    (hclock : v.clock ≤ v'.clock) : v'.Due config := by
  intro l hl
  rw [hserver] at hl
  exact (h l hl).trans hclock

theorem VaultState.Due.stale (h : v.Due config) :
    isStale v.server.cached.loadedAt config.reloadInterval v.clock = true := by
  cases hl : v.server.cached.loadedAt with
  | none => rfl
  | some l =>
    have hage := h l hl
    rw [isStale, Option.all_some, decide_eq_true_eq]
    omega

/-- The others' moves and the clock leave the reloader in step. -/
theorem Paced.later (h : Paced config v place) (hserver : v'.server = v.server)
    (hclock : v.clock ≤ v'.clock) : Paced config v' place := by
  cases h with
  | looping => exact .looping
  | sleeping h => exact .sleeping (by rw [hserver]; exact h)
  | woken h => exact .woken (h.later hserver hclock)
  | claiming h => exact .claiming (h.later hserver hclock)
  | reading h => exact .reading (h.later hserver hclock)
  | loaded h => exact .loaded (h.later hserver hclock)
  | published => exact .published
  | ended => exact .ended

/-- So do its own, if nobody else holds the claim when it exchanges it. -/
theorem Moves.paced (h : Moves sha256 config v place m v' place') (hp : Paced config v place)
    (hdated : Dated config v) (hfree : ∀ caller, place = .claiming caller → v.reloading = false) :
    Paced config v' place' := by
  obtain ⟨l, hloaded, hl, -⟩ := hdated.latest
  cases hp with
  | looping =>
    cases h with
    | sleep =>
      refine .sleeping fun l' hl' => ?_
      rw [hloaded, Option.mem_some] at hl'
      omega
    | panic => exact .ended
  | sleeping hwake =>
    cases h with
    | wake hnow => exact .woken fun l hl => (hwake l hl).trans hnow
    | panic => exact .ended
  | woken hdue =>
    cases h with
    | again => exact .claiming hdue
    | exit | panic => exact .ended
  | claiming hdue =>
    cases h with
    | refuse htaken =>
      rw [hfree _ rfl] at htaken
      cases htaken
    | claim => exact .reading hdue
    | panic => exact .ended
  | reading hdue =>
    cases h with
    | read => exact .loaded hdue
    | panic => exact .ended
  | loaded hdue =>
    cases h with
    | publish => exact .published
    | panic => exact .ended
  | published =>
    cases h with
    | release => exact .looping
    | panic => exact .ended
  | ended =>
    cases h with
    | panic hlive => cases hlive

/-- A request neither takes the claim nor publishes. -/
theorem Moves.asks (h : Moves sha256 config v place m v' place')
    (hback : config.backgroundReload = true) (hp : place.asks = true) :
    place'.asks = true ∧ v'.server = v.server ∧ v'.clock = v.clock := by
  cases h with
  | malformed | arrive | blank | stale | fast | snapshot | panic => exact ⟨rfl, rfl, rfl⟩
  | inline hinline =>
    rw [hback] at hinline
    cases hinline
  | _ => cases hp

theorem not_holds_of_asks (h : place.asks = true) : place.holds = false := by
  cases place <;> first | rfl | cases h

end Places

section Wired

/-- Thread 0 is the reloader and the others are requests that leave the file to it. -/
structure Wired (config : VaultConfig) (s : VaultSystem) : Prop where
  flight : Flight config s
  requests : ∀ i, i ≠ 0 → (s.places i).asks = true
  reloader : Paced config s.shared (s.places 0)

variable {s s' : VaultSystem} {reading : Reading}

theorem wired_new (hback : config.backgroundReload = true) {now : Nat}
    (h : newInterceptor sha256 config reading now = .ok s) : Wired config s := by
  have hflight := flight_new h
  obtain ⟨cached, hopen, rfl⟩ := newInterceptor_ok h
  refine ⟨hflight, fun i hi => ?_, ?_⟩
  · show (if i = 0 ∧ config.backgroundReload = true then Place.looping else Place.absent).asks = true
    rw [if_neg fun h => hi h.1]
    rfl
  · show Paced config _ (if 0 = 0 ∧ config.backgroundReload = true then .looping else .absent)
    rw [if_pos ⟨rfl, hback⟩]
    exact .looping

/-- While the reloader is about to claim, nobody holds the claim. -/
theorem Wired.free (h : Wired config s) {caller : Caller} (hp : s.places 0 = .claiming caller) :
    s.shared.reloading = false := by
  refine Bool.eq_false_iff.mpr fun htaken => ?_
  obtain ⟨i, hi⟩ := h.flight.reloading_iff.mp htaken
  by_cases hzero : i = 0
  · rw [hzero, hp] at hi
    cases hi
  · rw [not_holds_of_asks (h.requests i hzero)] at hi
    cases hi

section

variable (hback : config.backgroundReload = true)
include hback

theorem Wired.step (h : Wired config s) {e : VaultEvent} (hs : s.step sha256 config e = some s') :
    Wired config s' := by
  have hflight : Flight config s' := h.flight.step hs
  cases step_cases hs with
  | @change c shared hc =>
    refine ⟨hflight, h.requests, ?_⟩
    cases c with
    | tick elapsed =>
      cases hc
      exact h.reloader.later rfl (Nat.le_add_right _ _)
    | letGo =>
      cases hc
      exact h.reloader.later rfl le_rfl
  | @thread i m shared place hm =>
    have hmoves := vaultMove_inv hm
    by_cases hi : i = 0
    · subst hi
      refine ⟨hflight, fun j hj => ?_, ?_⟩
      · show (Function.update s.places 0 place j).asks = true
        rw [Function.update_of_ne hj]
        exact h.requests j hj
      · show Paced config shared (Function.update s.places 0 place 0)
        rw [Function.update_self]
        exact hmoves.paced h.reloader h.flight.dated fun caller hp => h.free hp
    · obtain ⟨hasks, hserver, hclock⟩ := hmoves.asks hback (h.requests i hi)
      refine ⟨hflight, fun j hj => ?_, ?_⟩
      · show (Function.update s.places i place j).asks = true
        by_cases hji : j = i
        · rw [hji, Function.update_self]
          exact hasks
        · rw [Function.update_of_ne hji]
          exact h.requests j hj
      · show Paced config shared (Function.update s.places i place 0)
        rw [Function.update_of_ne (Ne.symm hi)]
        exact h.reloader.later hserver hclock.ge

theorem Wired.run (h : Wired config s) {events : List VaultEvent}
    (hrun : s.run sha256 config events = some s') : Wired config s' :=
  Lib.Run.invariant (fun hs hstep => Wired.step hback hs hstep) h hrun

/-- Without the reloader the set stays as it is. -/
theorem Wired.frozen (h : Wired config s) (hended : s.places 0 = .ended) {events : List VaultEvent}
    (hrun : s.run sha256 config events = some s') : s'.shared.server = s.shared.server := by
  have hkept : Wired config s' ∧ s'.places 0 = .ended ∧ s'.shared.server = s.shared.server := by
    refine Lib.Run.invariant (P := fun x : VaultSystem => Wired config x ∧ x.places 0 = .ended ∧
      x.shared.server = s.shared.server) ?_ ⟨h, hended, rfl⟩ hrun
    rintro x e x' ⟨hwired, hzero, hserver⟩ hstep
    refine ⟨hwired.step hback hstep, ?_⟩
    cases step_cases hstep with
    | @change c shared hc =>
      cases c with
      | tick elapsed | letGo =>
        cases hc
        exact ⟨hzero, hserver⟩
    | @thread i m shared place hm =>
      have hmoves := vaultMove_inv hm
      by_cases hi : i = 0
      · subst hi
        rw [hzero] at hmoves
        cases hmoves with
        | panic hlive => cases hlive
      · obtain ⟨-, hsame, -⟩ := hmoves.asks hback (hwired.requests i hi)
        exact ⟨(Function.update_of_ne (Ne.symm hi) ..).trans hzero, hsame.trans hserver⟩
  exact hkept.2.2

/-- A request can always move, and is one move closer to its answer. -/
theorem request_moves {i : Nat} (hasks : (s.places i).asks = true)
    (hlive : (s.places i).live = true) :
    ∃ s', s.step sha256 config (.thread i .run) = some s' ∧
      (s'.places i).left < (s.places i).left := by
  have hmove : ∃ v' place', vaultMove sha256 config s.shared (s.places i) .run = some (v', place') ∧
      place'.left < (s.places i).left := by
    cases hp : s.places i with
    | arrived token =>
      rw [vaultMove]
      split
      · exact ⟨_, _, rfl, Nat.two_pos⟩
      · split
        · exact ⟨_, _, rfl, Nat.one_lt_two⟩
        · exact ⟨_, _, rfl, Nat.two_pos⟩
    | stale token =>
      rw [vaultMove, if_pos hback]
      exact ⟨_, _, rfl, Nat.one_pos⟩
    | absent | answered | ended =>
      rw [hp] at hlive
      cases hlive
    | _ =>
      rw [hp] at hasks
      cases hasks
  obtain ⟨v', place', hm, hleft⟩ := hmove
  refine ⟨⟨v', Function.update s.places i place'⟩, ?_, ?_⟩
  · exact Option.map_eq_some_iff.mpr ⟨(v', place'), hm, rfl⟩
  · show (Function.update s.places i place' i).left < _
    rw [Function.update_self]
    exact hleft

end

/-- What the reloader has read is published. -/
theorem reloader_publishes (h : Wired config s) {caller : Caller} {readAt : Nat}
    (hp : s.places 0 = .loaded caller reading readAt) (elapsed : Nat) :
    ∃ s', s.step sha256 config (.thread 0 (.publish elapsed)) = some s' ∧
      s'.shared.server.history =
        s.shared.server.history ++ [⟨s.shared.clock + elapsed, reading.verdict⟩] := by
  have hdue : s.shared.Due config := by
    have hpaced := h.reloader
    rw [hp] at hpaced
    cases hpaced with
    | loaded hdue => exact hdue
  refine ⟨_, Option.map_eq_some_iff.mpr ⟨_, by rw [hp]; rfl, rfl⟩, ?_⟩
  rw [history_publish, if_pos hdue.stale]

end Wired

/-- With the background reloader, over every interleaving: a request never reads the file or
waits for a thread that does, and is answered after at most two moves; the reloader is never
refused the claim and publishes everything it reads; and if it has ended, the set never changes
again. -/
theorem background_reload_exact (sha256 : Text → Digest) (config : VaultConfig)
    (reading : Reading) (now : Nat) (s₀ s : VaultSystem) (events : List VaultEvent)
    (hback : config.backgroundReload = true)
    (hnew : newInterceptor sha256 config reading now = .ok s₀)
    (hrun : s₀.run sha256 config events = some s) :
    (∀ i, i ≠ 0 → (s.places i).asks = true ∧
      ((s.places i).live = true → ∃ s', s.step sha256 config (.thread i .run) = some s' ∧
        (s'.places i).left < (s.places i).left)) ∧
    (∀ caller, s.places 0 ≠ .refused caller) ∧
    (∀ caller reading readAt elapsed, s.places 0 = .loaded caller reading readAt →
      ∃ s', s.step sha256 config (.thread 0 (.publish elapsed)) = some s' ∧
        s'.shared.server.history =
          s.shared.server.history ++ [⟨s.shared.clock + elapsed, reading.verdict⟩]) ∧
    (s.places 0 = .ended → ∀ more s', s.run sha256 config more = some s' →
      s'.shared.server = s.shared.server) := by
  have h : Wired config s := (wired_new hback hnew).run hback hrun
  refine ⟨fun i hi => ⟨h.requests i hi, request_moves hback (h.requests i hi)⟩, ?_, ?_, ?_⟩
  · intro caller hrefused
    have hpaced := h.reloader
    rw [hrefused] at hpaced
    cases hpaced
  · intro caller reading readAt elapsed hp
    exact reloader_publishes h hp elapsed
  · intro hended more s' hmore
    exact h.frozen hback hended hmore

section Rewritten

def wiredStart : VaultSystem := alphaSystem serverConfig

/-- The reloader has read a new file while a request found the set stale. -/
def rewritten : List VaultEvent :=
  [.thread 0 .run, .change (.tick 5), .thread 0 .run, .thread 0 .run, .thread 0 .run,
    .thread 3 (.arrive (headerOf "Bearer beta")), .thread 3 .run,
    .thread 0 (.read (fileOf "beta\n"))]

theorem background_reload_exact_rewritten :
    ∃ s s', wiredStart.run paddedDigest serverConfig rewritten = some s ∧
      s.places 3 = .stale "beta".toList ∧
      s.step paddedDigest serverConfig (.thread 0 (.publish 1)) = some s' ∧
      s'.shared.server.history = [⟨0, .good ["alpha".toList]⟩, ⟨6, .good ["beta".toList]⟩] := by
  have hseen : ((wiredStart.run paddedDigest serverConfig rewritten).map fun s =>
      (s.places 0, s.places 3, s.shared.clock, s.shared.server.history)) =
      some (.loaded .reloader (fileOf "beta\n") 5, .stale "beta".toList, 5,
        [⟨0, .good ["alpha".toList]⟩]) := by
    decide +kernel
  obtain ⟨s, hrun, hplaces⟩ := Option.map_eq_some_iff.mp hseen
  simp only [Prod.mk.injEq] at hplaces
  obtain ⟨hreloader, hrequest, hclock, hhistory⟩ := hplaces
  obtain ⟨-, -, hpublishes, -⟩ := background_reload_exact paddedDigest serverConfig
    (fileOf "alpha\n") 0 wiredStart s rewritten rfl (newInterceptor_alpha _) hrun
  obtain ⟨s', hstep, hnext⟩ := hpublishes .reloader (fileOf "beta\n") 5 1 hreloader
  refine ⟨s, s', hrun, hrequest, hstep, ?_⟩
  have hverdict : (fileOf "beta\n").verdict = .good ["beta".toList] := by decide +kernel
  rw [hnext, hhistory, hclock, hverdict]
  rfl

end Rewritten

end OtelSqlite.Auth
