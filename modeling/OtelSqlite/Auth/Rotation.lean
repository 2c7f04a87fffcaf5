import OtelSqlite.Auth.Linearization

/-!
# A rewritten file takes effect

From some moment on every read gives one file, or fails. Once that file has been published, a
request that comes later presents one of its tokens or is rejected; failed reads do not bring the
tokens of older files back. If no read fails, exactly its tokens are accepted. A thread may have
read an older file before that moment. It holds the claim until it has published that, so it does
so before anything else is published (`Since`).
-/

namespace OtelSqlite.Auth

open OtelSqlite.Lib.Threads (step_cases)

section Histories

variable {old new : List Publication} {token : Text} {tokens : List Text} {maxStaleAge : Nat}

theorem lastGood_append (h : ∃ p ∈ new, p.isGood = true) :
    lastGood (old ++ new) = lastGood new := by
  obtain ⟨p, hp, hgood⟩ := h
  have hfound : (new.reverse.find? Publication.isGood).isSome = true :=
    List.find?_isSome.mpr ⟨p, List.mem_reverse.mpr hp, hgood⟩
  rw [lastGood, lastGood, List.reverse_append, List.find?_append, Option.or_of_isSome hfound]

theorem sinceGood_append (h : ∀ p ∈ new, p.isGood = false) :
    sinceGood (old ++ new) = sinceGood old ++ new := by
  induction new using List.reverseRecOn with
  | nil => rw [List.append_nil, List.append_nil]
  | append_singleton new p ih =>
    have hp : p.isGood = false := h p (by simp)
    rw [← List.append_assoc, sinceGood_concat hp, ih fun q hq => h q (List.mem_append_left _ hq),
      List.append_assoc]

/-- A file with these tokens, or none at all. -/
def Verdict.Lists (verdict : Verdict) (tokens : List Text) : Prop :=
  verdict = .good tokens ∨ verdict = .missing ∧ tokens = []

/-- Behind such a file and failed reads, no other token is good. -/
theorem accepted_lists {verdict : Verdict} (hlists : verdict.Lists tokens)
    (hnew : ∀ p ∈ new, p.verdict = verdict ∨ p.verdict = .failing)
    (hsome : ∃ p ∈ new, p.verdict = verdict)
    (h : Accepted maxStaleAge (old ++ new) token) : token ∈ tokens := by
  obtain ⟨q, hq, hverdict⟩ := hsome
  obtain ⟨p, hlast, hmem, hlive⟩ := h
  rcases hlists with hgood | ⟨hmissing, rfl⟩
  · have hqgood : q.isGood = true := by rw [Publication.isGood, hverdict, hgood]
    rw [lastGood_append ⟨q, hq, hqgood⟩] at hlast
    have hpgood := List.find?_some hlast
    have hpin : p ∈ new := List.mem_reverse.mp (List.mem_of_find?_eq_some hlast)
    rcases hnew p hpin with hp | hp
    · rw [Publication.tokens, hp, hgood] at hmem
      exact hmem
    · rw [Publication.isGood, hp] at hpgood
      cases hpgood
  · have hbad : ∀ p ∈ new, p.isGood = false := by
      intro p hp
      rcases hnew p hp with hv | hv
      · rw [Publication.isGood, hv, hmissing]
      · rw [Publication.isGood, hv]
    rw [sinceGood_append hbad] at hlive
    exact absurd (.inl ⟨q, List.mem_append_right _ hq, hverdict.trans hmissing⟩) hlive

/-- If no read failed, all its tokens are. -/
theorem accepted_good (hnew : ∀ p ∈ new, p.verdict = .good tokens) (hsome : new ≠ [])
    (h : token ∈ tokens) : Accepted maxStaleAge (old ++ new) token := by
  obtain ⟨new, p, rfl⟩ := (List.eq_nil_or_concat new).resolve_left hsome
  have hverdict := hnew p (by simp)
  have hgood : p.isGood = true := by rw [Publication.isGood, hverdict]
  rw [List.concat_eq_append, ← List.append_assoc]
  refine ⟨p, lastGood_concat_good hgood, ?_, ?_⟩
  · rw [Publication.tokens, hverdict]
    exact h
  · rw [sinceGood_concat_good hgood]
    exact not_revoked_nil

end Histories

section Reads

variable {sha256 : Text → Digest} {config : VaultConfig} {s s' : VaultSystem}
  {events : List VaultEvent} {P : Reading → Prop} {e : VaultEvent} {n : Nat}

/-- All that is read in a run. -/
def ReadsOnly (P : Reading → Prop) (events : List VaultEvent) : Prop :=
  ∀ i reading, Lib.Threads.Event.thread i (Move.read reading) ∈ events → P reading

/-- From the moment of `n` publications on every read gives `P`. What had been read before is the
next publication at most: until then nothing is published. -/
structure Since (P : Reading → Prop) (n : Nat) (s : VaultSystem) : Prop where
  held : (∀ i caller reading readAt, s.places i = .loaded caller reading readAt → P reading) ∨
    s.shared.server.history.length ≤ n
  published : ∀ p ∈ s.shared.server.history.drop (n + 1),
    ∃ reading, P reading ∧ p.verdict = reading.verdict

theorem since_start (s : VaultSystem) : Since P s.shared.server.history.length s :=
  ⟨.inr le_rfl, by rw [List.drop_eq_nil_of_le (Nat.le_succ _)]; simp⟩

theorem Since.step (hflight : Flight config s) (h : Since P n s)
    (he : ∀ i reading, e = .thread i (.read reading) → P reading)
    (hs : s.step sha256 config e = some s') : Since P n s' := by
  cases step_cases hs with
  | @change c shared hc => cases c <;> cases hc <;> exact ⟨h.held, h.published⟩
  | @thread i m shared place hm =>
    have hmoves := vaultMove_inv hm
    have hloaded : ∀ {j caller reading readAt}, Function.update s.places i place j =
        .loaded caller reading readAt →
        P reading ∨ s.places j = .loaded caller reading readAt ∧ j ≠ i := by
      intro j caller reading readAt hj
      by_cases hji : j = i
      · subst hji
        rw [Function.update_self] at hj
        obtain ⟨rfl, -, -⟩ := hmoves.loaded hj
        exact .inl (he j reading rfl)
      · rw [Function.update_of_ne hji] at hj
        exact .inr ⟨hj, hji⟩
    rcases hmoves.quiet_or_publish with ⟨hserver, -⟩ | ⟨caller, reading, readAt, elapsed, hp, -, rfl⟩
    · refine ⟨?_, by simpa only [hserver] using h.published⟩
      refine h.held.imp (fun hheld j caller reading readAt hj => ?_) (by rw [hserver]; exact id)
      exact (hloaded hj).elim id fun hold => hheld j caller reading readAt hold.1
    · refine ⟨.inl fun j caller reading readAt hj => ?_, fun p hin => ?_⟩
      · -- the claim was with the thread that publishes, so no other one has read
        refine (hloaded hj).elim id fun hold => absurd ?_ hold.2
        exact hflight.claim.holder_unique (by rw [hold.1]; rfl) (by rw [hp]; rfl)
      · simp only at hin
        rw [history_publish, List.drop_append] at hin
        rcases List.mem_append.mp hin with hin | hin
        · exact h.published p hin
        rcases h.held with hheld | hfew
        · have hnew := List.mem_of_mem_drop hin
          split at hnew
          · rw [List.mem_singleton.mp hnew]
            exact ⟨reading, hheld i caller reading readAt hp, rfl⟩
          · cases hnew
        · rw [List.drop_eq_nil_of_le (by split <;> simp; omega)] at hin
          cases hin

theorem Since.run (hflight : Flight config s) (h : Since P n s) (hreads : ReadsOnly P events)
    (hrun : s.run sha256 config events = some s') : Since P n s' := by
  induction events generalizing s with
  | nil =>
    cases hrun
    exact h
  | cons e events ih =>
    obtain ⟨s₁, hstep, hrest⟩ := Lib.Threads.run_cons_iff.mp hrun
    exact ih (hflight.step hstep)
      (h.step hflight (fun i reading he => hreads i reading (he ▸ by simp)) hstep)
      (fun i reading hin => hreads i reading (List.mem_cons_of_mem _ hin)) hrest

/-- Behind a publication since, if it is the first one or not. -/
theorem exists_behind {history : List Publication} {D : Publication → Prop} {q : Publication}
    (hq : q ∈ history.drop n) (hd : D q) (hlater : ∀ p ∈ history.drop (n + 1), D p) :
    ∃ old new, history = old ++ new ∧ q ∈ new ∧ ∀ p ∈ new, D p := by
  rw [← List.tail_drop] at hlater
  cases hrest : history.drop n with
  | nil =>
    rw [hrest] at hq
    cases hq
  | cons x rest =>
    rw [hrest] at hq hlater
    have hsplit : history = history.take n ++ x :: rest := by
      rw [← hrest, List.take_append_drop]
    rcases List.mem_cons.mp hq with rfl | hq
    · exact ⟨_, _, hsplit, List.mem_cons_self, List.forall_mem_cons.mpr ⟨hd, hlater⟩⟩
    · exact ⟨history.take n ++ [x], rest, by rwa [List.append_assoc], hq, hlater⟩

end Reads

section Answer

variable {sha256 : Text → Digest} {config : VaultConfig} {s₁ s₂ s₃ s₄ : VaultSystem} {i : Nat}
  {header : Option (List UInt8)} {response : Except String Unit} {between more : List VaultEvent}
  {P : Reading → Prop} {verdict : Verdict}

/-- A request that comes once `verdict` has been published since `s₁` is answered from
publications that end with it and with what was read since. -/
theorem answer_behind (hsound : s₂.shared.Sound sha256 config) (hflight : Flight config s₁)
    (hreads : ReadsOnly P (between ++ more))
    (hbetween : s₁.run sha256 config between = some s₂)
    (hpublished : ∃ p ∈ s₂.shared.server.history.drop s₁.shared.server.history.length,
      p.verdict = verdict)
    (harrive : s₂.step sha256 config (.thread i (.arrive header)) = some s₃)
    (hmore : s₃.run sha256 config more = some s₄) (hanswer : s₄.places i = .answered response) :
    ∃ (v : VaultState) (old new : List Publication), v.Sound sha256 config ∧
      v.server.history = old ++ new ∧ (∃ p ∈ new, p.verdict = verdict) ∧
      (∀ p ∈ new, p.verdict = verdict ∨ ∃ reading, P reading ∧ p.verdict = reading.verdict) ∧
      v.server.history <+: s₄.shared.server.history ∧
      (response = .ok () ↔
        ∃ token, Presents header token ∧ known sha256 v.server.cached token = true) := by
  have hall : s₁.run sha256 config (between ++ .thread i (.arrive header) :: more) = some s₄ :=
    Lib.Threads.run_append_iff.mpr ⟨s₂, hbetween, Lib.Threads.run_cons_iff.mpr ⟨s₃, harrive, hmore⟩⟩
  have hsince : Since P s₁.shared.server.history.length s₄ :=
    (since_start s₁).run hflight (fun j reading hin => hreads j reading (by simpa using hin)) hall
  obtain ⟨v, hv, hfirst, hlast, hiff⟩ := answer_sampled hsound harrive hmore hanswer
  obtain ⟨q, hq, hverdict⟩ := hpublished
  obtain ⟨old, new, hhistory, hin, hnew⟩ := exists_behind
    (D := fun p => p.verdict = verdict ∨ ∃ reading, P reading ∧ p.verdict = reading.verdict)
    ((hfirst.drop _).subset hq) (.inl hverdict)
    fun p hp => .inr (hsince.published p ((hlast.drop _).subset hp))
  exact ⟨v, old, new, hv, hhistory, ⟨q, hin, hverdict⟩, hnew, hlast, hiff⟩

end Answer

/-- A rewritten file takes effect, whatever the threads do and whatever they have read before:
from `s₁` on every read gives `file` or fails. A request that comes once `file` has been
published is accepted only with a token of `file`, and with each of them if no read fails. -/
theorem rotation_takes_effect (sha256 : Text → Digest) (config : VaultConfig) (reading file : Reading)
    (now : Nat) (tokens : List Text) (s₀ s₁ s₂ s₃ s₄ : VaultSystem) (i : Nat)
    (header : Option (List UInt8)) (response : Except String Unit)
    (before between more : List VaultEvent)
    (hnew : newInterceptor sha256 config reading now = .ok s₀)
    (hbefore : s₀.run sha256 config before = some s₁)
    (hbetween : s₁.run sha256 config between = some s₂)
    (hlists : file.verdict.Lists tokens)
    (hpublished : ∃ p ∈ s₂.shared.server.history.drop s₁.shared.server.history.length,
      p.verdict = file.verdict)
    (harrive : s₂.step sha256 config (.thread i (.arrive header)) = some s₃)
    (hmore : s₃.run sha256 config more = some s₄) (hanswer : s₄.places i = .answered response)
    (hcollision : ∀ token, Presents header token →
      NoCollision sha256 s₄.shared.server.history token) :
    (ReadsOnly (fun reading => reading = file ∨ reading.verdict = .failing) (between ++ more) →
      response = .ok () → ∃ token ∈ tokens, Presents header token) ∧
    (ReadsOnly (fun reading => reading = file) (between ++ more) →
      (∃ token ∈ tokens, Presents header token) → response = .ok ()) := by
  have hsound := (before_run hbetween).1 ((before_run hbefore).1 (sound_new hnew))
  have hflight : Flight config s₁ := (flight_new hnew).run hbefore
  constructor
  · intro hreads hok
    obtain ⟨v, old, new, hv, hhistory, hsome, hsince, hlast, hiff⟩ :=
      answer_behind hsound hflight hreads hbetween hpublished harrive hmore hanswer
    obtain ⟨token, hpresents, hknown⟩ := hiff.mp hok
    have haccepted := (Represents.known_iff hv ((hcollision token hpresents).mono hlast)).mp hknown
    rw [hhistory] at haccepted
    refine ⟨token, accepted_lists hlists (fun p hp => ?_) hsome haccepted, hpresents⟩
    rcases hsince p hp with hfile | ⟨r, rfl | hfailing, hr⟩
    · exact .inl hfile
    · exact .inl hr
    · exact .inr (hr.trans hfailing)
  · rintro hreads ⟨token, hmem, hpresents⟩
    obtain ⟨v, old, new, hv, hhistory, ⟨q, hq, -⟩, hsince, hlast, hiff⟩ :=
      answer_behind hsound hflight hreads hbetween hpublished harrive hmore hanswer
    rcases hlists with hgood | ⟨-, rfl⟩
    · refine hiff.mpr ⟨token, hpresents, ?_⟩
      rw [Represents.known_iff hv ((hcollision token hpresents).mono hlast), hhistory]
      refine accepted_good (fun p hp => ?_) (List.ne_nil_of_mem hq) hmem
      rcases hsince p hp with hfile | ⟨r, rfl, hr⟩
      · exact hfile.trans hgood
      · exact hr.trans hgood
    · cases hmem

section Replaced

/-- A request reloads and reads the old file. -/
def oldRead : List VaultEvent :=
  [.thread 1 (.arrive (headerOf "Bearer alpha")), .change (.tick 6), .thread 1 .run, .thread 1 .run,
    .thread 1 .run, .thread 1 (.read (fileOf "alpha\n"))]

/-- It publishes that when the file has been rewritten; the next one finds the new file. -/
def replaced : List VaultEvent :=
  [.thread 1 (.publish 0), .thread 1 .run, .thread 3 (.arrive (headerOf "Bearer beta")),
    .change (.tick 6), .thread 3 .run, .thread 3 .run, .thread 3 .run,
    .thread 3 (.read (fileOf "beta\n")), .thread 3 (.publish 0), .thread 3 .run]

/-- A third one reloads in vain. -/
def unreadableAgain : List VaultEvent :=
  [.change (.tick 7), .thread 2 .run, .thread 2 .run, .thread 2 .run,
    .thread 2 (.read (.failed "slow disk")), .thread 2 (.publish 0), .thread 2 .run]

def oldTokenArrives : VaultEvent := .thread 2 (.arrive (headerOf "Bearer alpha"))

def alphaRead : VaultSystem :=
  (alphaStart.run paddedDigest inlineConfig oldRead).get (by decide +kernel)

theorem rotation_takes_effect_replaced :
    ∃ s₂ s₃ s₄ response, alphaRead.run paddedDigest inlineConfig replaced = some s₂ ∧
      s₂.step paddedDigest inlineConfig oldTokenArrives = some s₃ ∧
      s₃.run paddedDigest inlineConfig unreadableAgain = some s₄ ∧
      s₄.places 2 = .answered response ∧ response ≠ .ok () := by
  have hfirst : ((alphaRead.run paddedDigest inlineConfig replaced).map fun s =>
      s.shared.server.history.drop alphaRead.shared.server.history.length) =
      some [⟨6, .good ["alpha".toList]⟩, ⟨12, .good ["beta".toList]⟩] := by
    decide +kernel
  have hseen : ((alphaRead.run paddedDigest inlineConfig
      (replaced ++ oldTokenArrives :: unreadableAgain)).map fun s =>
        (s.places 2, s.shared.server.history)) =
      some (.answered (.error "invalid bearer token"),
        [⟨0, .good ["alpha".toList]⟩, ⟨6, .good ["alpha".toList]⟩, ⟨12, .good ["beta".toList]⟩,
          ⟨19, .failing⟩]) := by
    decide +kernel
  obtain ⟨s₂, hbetween, hpublished⟩ := Option.map_eq_some_iff.mp hfirst
  obtain ⟨s₄, hall, hplaces⟩ := Option.map_eq_some_iff.mp hseen
  obtain ⟨htwo, hhistory⟩ := Prod.mk.inj hplaces
  obtain ⟨_, hsame, hrest⟩ := Lib.Threads.run_append_iff.mp hall
  obtain rfl := Option.some.inj (hbetween.symm.trans hsame)
  obtain ⟨s₃, harrive, hmore⟩ := Lib.Threads.run_cons_iff.mp hrest
  have hverdict : (fileOf "beta\n").verdict = .good ["beta".toList] := by decide +kernel
  have halpha : bearerToken (headerOf "Bearer alpha") = .ok "alpha".toList := by decide +kernel
  obtain ⟨honlyFile, -⟩ := rotation_takes_effect paddedDigest inlineConfig (fileOf "alpha\n")
    (fileOf "beta\n") 0 ["beta".toList] alphaStart alphaRead s₂ s₃ s₄ 2 (headerOf "Bearer alpha")
    (.error "invalid bearer token") oldRead replaced unreadableAgain (newInterceptor_alpha _)
    (Option.some_get _).symm hbetween (.inl hverdict)
    (by
      rw [hpublished]
      exact ⟨⟨12, .good ["beta".toList]⟩, by decide, hverdict.symm⟩)
    harrive hmore htwo
    (by
      intro token htoken
      rw [(presents_iff halpha).mp htoken, hhistory]
      unfold NoCollision
      decide +kernel)
  refine ⟨s₂, s₃, s₄, _, hbetween, harrive, hmore, htwo, fun hok => ?_⟩
  obtain ⟨token, hmem, hpresents⟩ := honlyFile (by
    intro i reading hin
    simp only [replaced, unreadableAgain, List.mem_append, List.mem_cons, List.not_mem_nil] at hin
    rcases hin with hin | hin <;> simp at hin
    · exact .inl hin.2
    · refine .inr ?_
      rw [hin.2]
      rfl) hok
  rw [(presents_iff halpha).mp hpresents] at hmem
  exact absurd hmem (by decide)

end Replaced

end OtelSqlite.Auth
