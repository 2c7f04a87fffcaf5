import OtelSqlite.Auth.SingleFlight

/-!
# Every answer is right at a moment of its call

However the threads interleave, a request is answered from the set as it was at one moment
between its arrival and its answer: `answer_sampled`. So the answer is the one of the sequential
vault after some of the publications up to then, and at least after those before the request
came. From this: once a rewritten file has been read and published, a request that comes later is
answered from that file.
-/

namespace OtelSqlite.Auth

open OtelSqlite.Lib.Threads (step_cases run_append_iff run_cons_iff)

section Moments

variable (sha256 : Text → Digest) (config : VaultConfig)

/-- The set is the one that the publications say. -/
def VaultState.Sound (v : VaultState) : Prop :=
  Represents sha256 config.maxStaleAge v.server.cached v.server.history

/-- Publications only add up. -/
def Before (v w : VaultState) : Prop :=
  (v.Sound sha256 config → w.Sound sha256 config) ∧ v.server.history <+: w.server.history

/-- A request with this token that has not looked at the set it will answer from. -/
inductive Undecided (token : Text) : Place → Prop where
  | arrived : Undecided token (.arrived token)
  | stale : Undecided token (.stale token)
  | claiming : Undecided token (.claiming (.request token))
  | refused : Undecided token (.refused (.request token))
  | reading : Undecided token (.reading (.request token))
  | loaded (reading : Reading) (readAt : Nat) : Undecided token (.loaded (.request token) reading readAt)

/-- A request that answers from the set in `v`, or never. -/
inductive Decided (token : Text) (v : VaultState) : Place → Prop where
  | published : Decided token v (.published (.request token) v.server.cached.hashes)
  | answered : Decided token v (.answered (judge sha256 v.server.cached.hashes token))
  | ended : Decided token v .ended

variable {sha256 config} {v v' : VaultState} {place place' : Place} {m : Move} {token : Text}

theorem judge_ok_iff {c : CachedTokens} :
    judge sha256 c.hashes token = .ok () ↔ known sha256 c token = true := by
  rw [judge, known]
  split
  · next h => exact iff_of_true rfl h
  · next h => exact iff_of_false (by rintro ⟨⟩) h

theorem before_refl (v : VaultState) : Before sha256 config v v := ⟨id, List.prefix_refl _⟩

theorem before_publish (v : VaultState) (reading : Reading) (elapsed : Nat) :
    Before sha256 config v (v.publish sha256 config reading elapsed) :=
  ⟨fun h => represents_step h _, List.prefix_append _ _⟩

theorem Moves.before (h : Moves sha256 config v place m v' place') :
    Before sha256 config v v' := by
  rcases h.quiet_or_publish with ⟨hserver, -⟩ | ⟨_, reading, _, elapsed, -, -, rfl⟩
  · rw [Before, VaultState.Sound, VaultState.Sound, hserver]
    exact ⟨id, List.prefix_refl _⟩
  · exact before_publish v reading elapsed

theorem respected_before :
    Lib.Threads.Respected (vaultMove sha256 config) vaultChange (Before sha256 config) where
  refl := before_refl
  trans h₁ h₂ := ⟨h₂.1 ∘ h₁.1, h₁.2.trans h₂.2⟩
  moves h := (vaultMove_inv h).before
  changes {v c v'} h := by
    cases c <;> cases h <;> exact before_refl v

/-- A move of an undecided request decides it at once or not at all. -/
theorem Moves.decide (h : Moves sha256 config v place m v' place') (hne : token ≠ [])
    (hu : Undecided token place) :
    Undecided token place' ∨ Decided sha256 token v place' ∨ Decided sha256 token v' place' := by
  cases h with
  | panic => exact .inr (.inl .ended)
  | malformed | arrive | release | sleep | wake | again | exit => cases hu
  | blank hempty =>
    cases hu
    exact absurd hempty hne
  | stale =>
    cases hu
    exact .inl .stale
  | fast | snapshot | current =>
    cases hu
    exact .inr (.inl .answered)
  | inline =>
    cases hu
    exact .inl .claiming
  | refuse =>
    cases hu
    exact .inl .refused
  | claim =>
    cases hu
    exact .inl .reading
  | read =>
    cases hu
    exact .inl (.loaded _ _)
  | publish =>
    cases hu
    exact .inr (.inr .published)

theorem Moves.keep (h : Moves sha256 config v place m v' place') {w : VaultState}
    (hd : Decided sha256 token w place) : Decided sha256 token w place' := by
  cases h with
  | panic => exact .ended
  | release =>
    cases hd
    exact .answered
  | _ => cases hd

end Moments

section Answers

variable {sha256 : Text → Digest} {config : VaultConfig} {s₁ s₂ s₃ : VaultSystem} {i : Nat}
  {header : Option (List UInt8)} {events : List VaultEvent} {response : Except String Unit}

theorem sound_new {reading : Reading} {now : Nat}
    (h : newInterceptor sha256 config reading now = .ok s₁) : s₁.shared.Sound sha256 config := by
  obtain ⟨cached, hopen, rfl⟩ := newInterceptor_ok h
  exact represents_open hopen

theorem before_run (h : s₁.run sha256 config events = some s₂) :
    Before sha256 config s₁.shared s₂.shared :=
  respected_before.run h

/-- A header presents one token at most. -/
theorem presents_iff {token token' : Text} (hb : bearerToken header = .ok token) :
    Presents header token' ↔ token' = token := by
  rw [← bearerToken_ok_iff, hb, Except.ok.injEq]
  exact eq_comm

/-- A request is answered from the set as it was at a moment of its call. -/
theorem answer_sampled (hsound : s₁.shared.Sound sha256 config)
    (harrive : s₁.step sha256 config (.thread i (.arrive header)) = some s₂)
    (hrun : s₂.run sha256 config events = some s₃) (hanswer : s₃.places i = .answered response) :
    ∃ v : VaultState, v.Sound sha256 config ∧
      s₁.shared.server.history <+: v.server.history ∧
      v.server.history <+: s₃.shared.server.history ∧
      (response = .ok () ↔
        ∃ token, Presents header token ∧ known sha256 v.server.cached token = true) := by
  cases step_cases harrive with
  | @thread _ _ shared place hm =>
    have hplace : Function.update s₁.places i place i = place := Function.update_self ..
    generalize s₁.places i = place₁ at hm
    cases vaultMove_inv hm with
    | @malformed _ message hb =>
      -- such a request is answered before it looks at the set
      have hkept : s₃.places i = .answered (.error message) := by
        refine Lib.Threads.place_run (Q := fun p => p = .answered (.error message)) ?_ hplace hrun
        intro v p m v' p' hp hmove
        rw [hp] at hmove
        cases vaultMove_inv hmove with
        | panic hlive => cases hlive
      rw [hkept, Place.answered.injEq] at hanswer
      refine ⟨s₁.shared, hsound, List.prefix_refl _, (before_run hrun).2, ?_⟩
      refine iff_of_false (by rw [← hanswer]; rintro ⟨⟩) ?_
      rintro ⟨token, hpresents, -⟩
      rw [bearerToken_ok_iff.mpr hpresents] at hb
      cases hb
    | @arrive _ token hb =>
      have hpresents := bearerToken_ok_iff.mp hb
      have hne : token ≠ [] := by
        obtain ⟨_, _, _, _, _, _, _, _, hne⟩ := hpresents
        exact hne
      have hstart : Undecided token (Function.update s₁.places i (.arrived token) i) := by
        rw [hplace]
        exact .arrived
      have hsampled := Lib.Threads.sampled (U := Undecided token) (D := Decided sha256 token)
        respected_before (fun hu hmove => (vaultMove_inv hmove).decide hne hu)
        (fun hd hmove => (vaultMove_inv hmove).keep hd) hstart hrun
      rw [hanswer] at hsampled
      rcases hsampled with hu | ⟨v, hbefore, hafter, hd⟩
      · cases hu
      · cases hd
        refine ⟨v, hbefore.1 hsound, hbefore.2, hafter.2, judge_ok_iff.trans ?_⟩
        simp only [presents_iff hb, exists_eq_left]

theorem NoCollision.mono {history history' : List Publication} {token : Text}
    (h : NoCollision sha256 history' token) (hle : history <+: history') :
    NoCollision sha256 history token :=
  fun p hp => h p (hle.subset hp)

end Answers

/-- Over every interleaving: the answer to a request is right for the publications up to some
moment between its arrival and its answer. -/
theorem verify_linearizable (sha256 : Text → Digest) (config : VaultConfig) (reading : Reading)
    (now : Nat) (s₀ s₁ s₂ s₃ : VaultSystem) (i : Nat) (header : Option (List UInt8))
    (response : Except String Unit) (events more : List VaultEvent)
    (hnew : newInterceptor sha256 config reading now = .ok s₀)
    (hrun : s₀.run sha256 config events = some s₁)
    (harrive : s₁.step sha256 config (.thread i (.arrive header)) = some s₂)
    (hmore : s₂.run sha256 config more = some s₃) (hanswer : s₃.places i = .answered response)
    (hcollision : ∀ token, Presents header token →
      NoCollision sha256 s₃.shared.server.history token) :
    ∃ history, s₁.shared.server.history <+: history ∧ history <+: s₃.shared.server.history ∧
      (response = .ok () ↔
        ∃ token, Presents header token ∧ Accepted config.maxStaleAge history token) := by
  have hsound := (before_run hrun).1 (sound_new hnew)
  obtain ⟨v, hv, hfirst, hlast, hiff⟩ := answer_sampled hsound harrive hmore hanswer
  refine ⟨v.server.history, hfirst, hlast, hiff.trans ?_⟩
  refine exists_congr fun token => and_congr_right fun hpresents => ?_
  exact Represents.known_iff hv ((hcollision token hpresents).mono hlast)

section Overtaken

/-- The first request is answered from the file it has read itself, while a second one, refused
the claim, still answers from the set before. -/
def overtaken : List VaultEvent :=
  [.change (.tick 6), .thread 2 .run, .thread 2 .run, .thread 1 .run, .thread 1 .run,
    .thread 1 .run, .thread 2 .run, .thread 2 .run, .thread 1 (.read (fileOf "beta\n")),
    .thread 1 (.publish 0), .thread 1 .run]

def secondArrives : VaultEvent := .thread 2 (.arrive (headerOf "Bearer alpha"))

def firstArrives : List VaultEvent := [.thread 1 (.arrive (headerOf "Bearer beta"))]

theorem verify_linearizable_overtaken :
    ∃ s₁ s₂ s₃ history, alphaStart.run paddedDigest inlineConfig firstArrives = some s₁ ∧
      s₁.step paddedDigest inlineConfig secondArrives = some s₂ ∧
      s₂.run paddedDigest inlineConfig overtaken = some s₃ ∧
      s₃.places 1 = .answered (.ok ()) ∧ s₃.places 2 = .answered (.ok ()) ∧
      history <+: s₃.shared.server.history ∧
      Accepted inlineConfig.maxStaleAge history "alpha".toList := by
  have hseen : ((alphaStart.run paddedDigest inlineConfig
      (firstArrives ++ secondArrives :: overtaken)).map fun s =>
        (s.places 1, s.places 2, s.shared.server.history)) =
      some (.answered (.ok ()), .answered (.ok ()),
        [⟨0, .good ["alpha".toList]⟩, ⟨6, .good ["beta".toList]⟩]) := by
    decide +kernel
  obtain ⟨s₃, hall, hplaces⟩ := Option.map_eq_some_iff.mp hseen
  simp only [Prod.mk.injEq] at hplaces
  obtain ⟨hone, htwo, hhistory⟩ := hplaces
  obtain ⟨s₁, hfirst, hrest⟩ := run_append_iff.mp hall
  obtain ⟨s₂, hsecond, hmore⟩ := run_cons_iff.mp hrest
  have halpha : bearerToken (headerOf "Bearer alpha") = .ok "alpha".toList := by decide +kernel
  obtain ⟨history, -, hlast, hiff⟩ := verify_linearizable paddedDigest inlineConfig
    (fileOf "alpha\n") 0 alphaStart s₁ s₂ s₃ 2 (headerOf "Bearer alpha") (.ok ()) firstArrives
    overtaken (newInterceptor_alpha _) hfirst hsecond hmore htwo (by
      intro token htoken
      rw [(presents_iff halpha).mp htoken, hhistory]
      unfold NoCollision
      decide +kernel)
  obtain ⟨token, htoken, haccepted⟩ := hiff.mp rfl
  rw [(presents_iff halpha).mp htoken] at haccepted
  exact ⟨s₁, s₂, s₃, history, hfirst, hsecond, hmore, hone, htwo, hlast, haccepted⟩

end Overtaken

end OtelSqlite.Auth
