import OtelSqlite.Ingress.Admission
import OtelSqlite.Lib.History
import OtelSqlite.Lib.Run

/-!
# What holds of the ingest queue in every reachable state

The holder of the gate owns the slots it has checked for, its chunks are the end of
the history of sent messages, and its ticket is the newest one. `Matches` ties each
phase of an `enqueue` call to the chunks the call has sent.
-/

namespace OtelSqlite.Ingress

open OtelSqlite.Core OtelSqlite.Core.Commit OtelSqlite.Lib.History

variable {O T : Type} {phase : Phase O T}

def byRequest (i : Nat) : Sent O T → Bool
  | .chunk k _ => k == i
  | .barrier _ => false

def chunksSent (sent : List (Sent O T)) : List (LogChunk O T) :=
  sent.filterMap fun
    | .chunk _ chunk => some chunk
    | .barrier _ => none

def sentBy (sent : List (Sent O T)) (i : Nat) : List (LogChunk O T) :=
  chunksSent (sent.filter (byRequest i))

/-- A chunk without its ticket. -/
def body (chunk : LogChunk O T) : O × List T := (chunk.origin, chunk.records)

/-- The outcome of a call that has sent `sent` and met no failure. -/
def progress (work sent : List (LogChunk O T)) : EnqueueOutcome where
  accepted := recordsIn sent
  rejected := 0
  disconnected := false
  lastTicket := sent.getLast?.map LogChunk.commitSeq
  totalRecords := recordsIn work
  tickets := sent.map fun c => (c.commitSeq, c.records.length)

namespace Phase

def holding : Phase O T → Bool
  | .checking | .sending _ _ | .stamped _ _ _ | .stopping _ _ _ | .releasing _ => true
  | .start | .refused | .waiting | .full _ | .done _ => false

/-- Slots the call has checked for and not used yet. -/
def reserved : Phase O T → Nat
  | .sending left _ => left.length
  | .stamped _ left _ => left.length + 1
  | _ => 0

/-- The ticket the call has issued and not sent. -/
def issued : Phase O T → Option Nat
  | .stamped chunk _ _ => some chunk.commitSeq
  | .stopping ticket _ _ => some ticket
  | _ => none

/-- The phase fits what the call has sent of its work. -/
def Matches (work sent : List (LogChunk O T)) : Phase O T → Prop
  | .start | .refused | .waiting | .checking => sent = []
  | .full outcome =>
    sent = [] ∧ outcome = { EnqueueOutcome.new (recordsIn work) with rejected := recordsIn work }
  | .sending left outcome =>
    (sent ++ left).map body = work.map body ∧ outcome = progress work sent
  | .stamped chunk left outcome =>
    (sent ++ chunk :: left).map body = work.map body ∧ outcome = progress work sent
  | .stopping _ failure outcome =>
    (∃ left, left ≠ [] ∧ (sent ++ left).map body = work.map body) ∧ failure = .disconnected ∧
      outcome = progress work sent
  | .releasing outcome =>
    (∃ left, left ≠ [] ∧ (sent ++ left).map body = work.map body) ∧
      outcome = (progress work sent).stop .disconnected
  | .done outcome =>
    sent.map body = work.map body ∧ outcome = progress work sent ∨
      (∃ left, left ≠ [] ∧ (sent ++ left).map body = work.map body) ∧
        outcome = (progress work sent).stop .disconnected

theorem holding_of_issued {t : Nat} (h : phase.issued = some t) : phase.holding = true := by
  cases phase <;> first | rfl | cases h

theorem reserved_eq_zero (h : phase.holding ≠ true) : phase.reserved = 0 := by
  cases phase <;> first | rfl | exact absurd rfl h

end Phase

namespace Admission

structure Inv (config : QueueConfig) (traffic : Traffic O T) (s : Admission O T) : Prop where
  request_gate : ∀ i, s.gate = some (.request i) ↔ (s.calls i).holding = true
  control_gate : ∀ j, s.gate = some (.control j) ↔ s.controls j = .locked
  room : ∀ i, s.queue.length + (s.calls i).reserved ≤ config.capacity
  fits_work : ∀ i, (s.calls i).Matches (traffic.work i) (sentBy s.sent i)
  consecutive : ∀ i, Consecutive (byRequest i) s.sent
  trailing : ∀ i, (s.calls i).holding = true → Trailing (byRequest i) s.sent
  increasing : ((chunksSent s.sent).map LogChunk.commitSeq).Pairwise (· < ·)
  issued : ∀ c ∈ chunksSent s.sent, 0 < c.commitSeq ∧ c.commitSeq ≤ s.shared.ledger.nextTicket
  fresh : ∀ i t, (s.calls i).issued = some t →
    0 < t ∧ t = s.shared.ledger.nextTicket ∧ ∀ c ∈ chunksSent s.sent, c.commitSeq < t

variable {config : QueueConfig} {traffic : Traffic O T} {s s' : Admission O T} {i now j : Nat}
  {gate : Option Producer} {left : List (LogChunk O T)} {outcome : EnqueueOutcome}
  {chunk : LogChunk O T} {message : IngestMessage O T} {queue : List (IngestMessage O T)}

theorem trySend_ok (h : s.trySend config message = .ok queue) :
    s.connected = true ∧ s.queue.length < config.capacity ∧ queue = s.queue ++ [message] := by
  unfold trySend at h
  split_ifs at h with hc hl
  exact ⟨Bool.eq_true_of_not_eq_false hc, hl, (Except.ok.inj h).symm⟩

theorem trySend_full (h : s.trySend config message = .error .full) :
    config.capacity ≤ s.queue.length := by
  unfold trySend at h
  split_ifs at h with hc hl
  · cases h
  · exact Nat.le_of_not_lt hl

/-- The transitions of an `enqueue` call: what each finds and what it leaves. -/
inductive RequestStep (config : QueueConfig) (work : List (LogChunk O T)) (i now : Nat)
    (s : Admission O T) : Admission O T → Prop where
  | refuse (hp : s.calls i = .start) (hlen : config.capacity < work.length) :
      RequestStep config work i now s (s.goto i .refused)
  | enter (hp : s.calls i = .start) (hlen : work.length ≤ config.capacity) :
      RequestStep config work i now s (s.goto i .waiting)
  | lock (hp : s.calls i = .waiting) (hfree : s.gate = none) :
      RequestStep config work i now s { s.goto i .checking with gate := some (.request i) }
  | reserve (hp : s.calls i = .checking) (hfit : s.fits config work.length = true) :
      RequestStep config work i now s
        (s.goto i (.sending work (EnqueueOutcome.new (recordsIn work))))
  | full (hp : s.calls i = .checking) (hfit : s.fits config work.length = false) :
      RequestStep config work i now s
        { s.goto i (.full { EnqueueOutcome.new (recordsIn work) with
            rejected := recordsIn work }) with gate := none }
  | finish (outcome : EnqueueOutcome) (hp : s.calls i = .sending [] outcome) :
      RequestStep config work i now s { s.goto i (.done outcome) with gate := none }
  | issue (chunk : LogChunk O T) (left : List (LogChunk O T)) (outcome : EnqueueOutcome)
      (hp : s.calls i = .sending (chunk :: left) outcome) :
      RequestStep config work i now s
        { s.goto i (.stamped { chunk with commitSeq := s.shared.ledger.issue.2 } left outcome) with
          shared := s.shared.call .issue }
  | send (chunk : LogChunk O T) (left : List (LogChunk O T)) (outcome : EnqueueOutcome)
      (hp : s.calls i = .stamped chunk left outcome) (hc : s.connected = true) :
      RequestStep config work i now s
        { s.goto i (.sending left (outcome.accept chunk.commitSeq chunk.records.length)) with
          queue := s.queue ++ [.logs chunk]
          sent := s.sent ++ [.chunk i chunk] }
  | fail (chunk : LogChunk O T) (left : List (LogChunk O T)) (outcome : EnqueueOutcome)
      (failure : SendFailure) (hp : s.calls i = .stamped chunk left outcome)
      (hsend : s.trySend config (.logs chunk) = .error failure) :
      RequestStep config work i now s (s.goto i (.stopping chunk.commitSeq failure outcome))
  | void (ticket : Nat) (failure : SendFailure) (outcome : EnqueueOutcome)
      (hp : s.calls i = .stopping ticket failure outcome) :
      RequestStep config work i now s
        { s.goto i (.releasing (outcome.stop failure)) with
          shared := s.shared.call (.void ticket now) }
  | release (outcome : EnqueueOutcome) (hp : s.calls i = .releasing outcome) :
      RequestStep config work i now s { s.goto i (.done outcome) with gate := none }

theorem requestStep_inv {work : List (LogChunk O T)}
    (hs : s.requestStep config work i now = some s') : RequestStep config work i now s s' := by
  unfold requestStep at hs
  split at hs
  · rename_i hp
    split_ifs at hs with hlen <;> obtain rfl := Option.some.inj hs
    · exact .refuse hp hlen
    · exact .enter hp (Nat.le_of_not_lt hlen)
  · rename_i hp
    split_ifs at hs with hfree
    obtain rfl := Option.some.inj hs
    exact .lock hp hfree
  · rename_i hp
    dsimp only at hs
    split_ifs at hs with hfit <;> obtain rfl := Option.some.inj hs
    · exact .reserve hp hfit
    · exact .full hp (Bool.eq_false_of_not_eq_true hfit)
  · rename_i outcome hp
    obtain rfl := Option.some.inj hs
    exact .finish outcome hp
  · rename_i chunk left outcome hp
    obtain rfl := Option.some.inj hs
    exact .issue chunk left outcome hp
  · rename_i chunk left outcome hp
    split at hs <;> obtain rfl := Option.some.inj hs
    · rename_i queue hsend
      obtain ⟨hc, -, rfl⟩ := trySend_ok hsend
      exact .send chunk left outcome hp hc
    · rename_i failure hsend
      exact .fail chunk left outcome failure hp hsend
  · rename_i ticket failure outcome hp
    obtain rfl := Option.some.inj hs
    exact .void ticket failure outcome hp
  · rename_i outcome hp
    obtain rfl := Option.some.inj hs
    exact .release outcome hp
  all_goals cases hs

theorem inv_new (start : Nat) : (Admission.new start : Admission O T).Inv config traffic where
  request_gate := fun i => by simp [Admission.new, Phase.holding]
  control_gate := fun j => by simp [Admission.new]
  room := fun i => Nat.zero_le _
  fits_work := fun i => rfl
  consecutive := fun i => (trailing_of_none fun x hx => absurd hx List.not_mem_nil).consecutive
  trailing := fun i _ => trailing_of_none fun x hx => absurd hx List.not_mem_nil
  increasing := List.Pairwise.nil
  issued := fun c hc => absurd hc List.not_mem_nil
  fresh := fun i t ht => by cases ht

/-- Only one call holds the gate. -/
theorem Inv.holder_unique (h : s.Inv config traffic) (hi : (s.calls i).holding = true)
    (hj : (s.calls j).holding = true) : i = j := by
  have hsame := ((h.request_gate i).mpr hi).symm.trans ((h.request_gate j).mpr hj)
  simpa using hsame

/-- How a step of request `i` may treat the gate. -/
inductive GateMove (s : Admission O T) (i : Nat) (phase : Phase O T) : Option Producer → Prop where
  | keep (h : phase.holding = (s.calls i).holding) : GateMove s i phase s.gate
  | take (hfree : s.gate = none) (h : phase.holding = true) : GateMove s i phase (some (.request i))
  | drop (hheld : (s.calls i).holding = true) (h : phase.holding = false) : GateMove s i phase none

theorem Inv.gate_move (h : s.Inv config traffic) (hm : GateMove s i phase gate) :
    (∀ k, gate = some (.request k) ↔ (Function.update s.calls i phase k).holding = true) ∧
      ∀ j, gate = some (.control j) ↔ s.controls j = .locked := by
  cases hm with
  | keep hp =>
    refine ⟨fun k => ?_, h.control_gate⟩
    rw [h.request_gate k]
    by_cases hk : k = i
    · rw [hk, Function.update_self, hp]
    · rw [Function.update_of_ne hk]
  | take hfree hp =>
    refine ⟨fun k => ?_, fun j => ?_⟩
    · by_cases hk : k = i
      · simp [hk, hp]
      · have hnot := mt (h.request_gate k).mpr (by rw [hfree]; simp)
        rw [Function.update_of_ne hk]
        exact ⟨fun he => absurd (by simpa using he.symm) hk, fun hh => absurd hh hnot⟩
    · have hnot := mt (h.control_gate j).mpr (by rw [hfree]; simp)
      exact ⟨fun he => by simp at he, fun hh => absurd hh hnot⟩
  | drop hheld hp =>
    have hgate := (h.request_gate i).mpr hheld
    refine ⟨fun k => ?_, fun j => ?_⟩
    · by_cases hk : k = i
      · simp [hk, hp]
      · have hnot : (s.calls k).holding ≠ true := fun hh => hk (h.holder_unique hh hheld)
        rw [Function.update_of_ne hk]
        exact ⟨fun he => by simp at he, fun hh => absurd hh hnot⟩
    · have hnot := mt (h.control_gate j).mpr (by rw [hgate]; simp)
      exact ⟨fun he => by simp at he, fun hh => absurd hh hnot⟩

/-- A step of request `i` that sends nothing. -/
theorem Inv.move (h : s.Inv config traffic) {shared : Shared} (hm : GateMove s i phase gate)
    (hroom : s.queue.length + phase.reserved ≤ config.capacity)
    (hfits : phase.Matches (traffic.work i) (sentBy s.sent i))
    (htrail : phase.holding = true → Trailing (byRequest i) s.sent)
    (hnext : s.shared.ledger.nextTicket ≤ shared.ledger.nextTicket)
    (hissuer : shared.ledger.nextTicket = s.shared.ledger.nextTicket ∨
      (s.calls i).holding = true) (hfresh : ∀ t, phase.issued = some t →
      0 < t ∧ t = shared.ledger.nextTicket ∧ ∀ c ∈ chunksSent s.sent, c.commitSeq < t) :
    Inv config traffic { s.goto i phase with gate, shared } where
  request_gate := (h.gate_move hm).1
  control_gate := (h.gate_move hm).2
  room := by
    intro k
    rcases eq_or_ne k i with rfl | hk
    · simpa [goto] using hroom
    · simpa [goto, hk] using h.room k
  fits_work := by
    intro k
    rcases eq_or_ne k i with rfl | hk
    · simpa [goto] using hfits
    · simpa [goto, hk] using h.fits_work k
  consecutive := h.consecutive
  trailing := by
    intro k hk
    rcases eq_or_ne k i with rfl | hne
    · exact htrail (by simpa [goto] using hk)
    · exact h.trailing k (by simpa [goto, hne] using hk)
  increasing := h.increasing
  issued := fun c hc => ⟨(h.issued c hc).1, (h.issued c hc).2.trans hnext⟩
  fresh := by
    intro k t ht
    rcases eq_or_ne k i with rfl | hk
    · exact hfresh t (by simpa [goto] using ht)
    · have ht' : (s.calls k).issued = some t := by simpa [goto, hk] using ht
      rcases hissuer with he | hheld
      · obtain ⟨hpos, heq, hlt⟩ := h.fresh k t ht'
        exact ⟨hpos, heq.trans he.symm, hlt⟩
      · exact absurd (h.holder_unique (Phase.holding_of_issued ht') hheld) hk

theorem chunksSent_chunk (sent : List (Sent O T)) (i : Nat) (chunk : LogChunk O T) :
    chunksSent (sent ++ [.chunk i chunk]) = chunksSent sent ++ [chunk] := by
  simp [chunksSent]

theorem chunksSent_barrier (sent : List (Sent O T)) (j : Nat) :
    chunksSent (sent ++ [.barrier j]) = chunksSent sent := by
  simp [chunksSent]

theorem sentBy_own (sent : List (Sent O T)) (i : Nat) (chunk : LogChunk O T) :
    sentBy (sent ++ [.chunk i chunk]) i = sentBy sent i ++ [chunk] := by
  rw [sentBy, List.filter_append, List.filter_cons_of_pos (by simp [byRequest])]
  exact chunksSent_chunk _ _ _

theorem sentBy_other (sent : List (Sent O T)) {x : Sent O T} (h : byRequest i x = false) :
    sentBy (sent ++ [x]) i = sentBy sent i := by
  rw [sentBy, List.filter_append, List.filter_cons_of_neg (by simp [h]), List.filter_nil,
    List.append_nil]
  rfl

theorem byRequest_of_sentBy_nil {sent : List (Sent O T)} (h : sentBy sent i = []) :
    ∀ x ∈ sent, byRequest i x = false := by
  intro x hx
  refine Bool.eq_false_iff.mpr fun hby => ?_
  cases x with
  | chunk k chunk =>
    have hm : chunk ∈ sentBy sent i :=
      List.mem_filterMap.mpr ⟨_, List.mem_filter.mpr ⟨hx, hby⟩, rfl⟩
    rw [h] at hm
    cases hm
  | barrier j => cases hby

theorem recordsIn_concat (chunks : List (LogChunk O T)) (chunk : LogChunk O T) :
    recordsIn (chunks ++ [chunk]) = recordsIn chunks + chunk.records.length := by
  simp [recordsIn]

theorem progress_accept (work sent : List (LogChunk O T)) (chunk : LogChunk O T) :
    (progress work sent).accept chunk.commitSeq chunk.records.length =
      progress work (sent ++ [chunk]) := by
  simp [progress, EnqueueOutcome.accept, recordsIn_concat]

/-- A slot that was checked for is there. -/
theorem Inv.not_full (h : s.Inv config traffic) (hp : s.calls i = .stamped chunk left outcome)
    (message : IngestMessage O T) : s.trySend config message ≠ .error .full := by
  intro hf
  have hroom := h.room i
  rw [hp] at hroom
  have hfull := trySend_full hf
  simp only [Phase.reserved] at hroom
  omega

/-- The step that sends the chunk with the newest ticket. -/
theorem Inv.send (h : s.Inv config traffic) (hp : s.calls i = .stamped chunk left outcome) :
    Inv config traffic
      { s.goto i (.sending left (outcome.accept chunk.commitSeq chunk.records.length)) with
        queue := s.queue ++ [.logs chunk]
        sent := s.sent ++ [.chunk i chunk] } := by
  have hheld : (s.calls i).holding = true := by rw [hp]; rfl
  obtain ⟨hpos, hnew, hlt⟩ := h.fresh i chunk.commitSeq (by rw [hp]; rfl)
  have hroom := h.room i
  have hfits := h.fits_work i
  rw [hp] at hroom hfits
  have hother : ∀ k, k ≠ i → byRequest k (Sent.chunk i chunk) = false := fun k hk => by
    simpa [byRequest] using Ne.symm hk
  have hm : GateMove s i
      (.sending left (outcome.accept chunk.commitSeq chunk.records.length)) s.gate :=
    .keep (by rw [hheld]; rfl)
  have hgate := h.gate_move hm
  refine ⟨hgate.1, hgate.2, fun k => ?_, fun k => ?_, fun k => ?_, fun k hk => ?_, ?_, ?_, ?_⟩
  · rw [List.length_append, List.length_singleton]
    rcases eq_or_ne k i with rfl | hk
    · simp only [goto, Function.update_self, Phase.reserved] at hroom ⊢
      omega
    · have hnone := Phase.reserved_eq_zero fun hh => hk (h.holder_unique hh hheld)
      simp only [goto, Function.update_of_ne hk, hnone]
      simp only [Phase.reserved] at hroom
      omega
  · rcases eq_or_ne k i with rfl | hk
    · simp only [goto, Function.update_self, sentBy_own]
      obtain ⟨hbody, rfl⟩ := hfits
      refine ⟨?_, progress_accept _ _ _⟩
      rw [List.append_assoc]
      exact hbody
    · simp only [goto, Function.update_of_ne hk, sentBy_other _ (hother k hk)]
      exact h.fits_work k
  · rcases eq_or_ne k i with rfl | hk
    · exact ((h.trailing k hheld).concat (by simp [byRequest])).consecutive
    · exact (h.consecutive k).concat (hother k hk)
  · rcases eq_or_ne k i with rfl | hne
    · exact (h.trailing k hheld).concat (by simp [byRequest])
    · simp only [goto, Function.update_of_ne hne] at hk
      exact absurd (h.holder_unique hk hheld) hne
  · rw [chunksSent_chunk, List.map_append, List.pairwise_append]
    refine ⟨h.increasing, List.pairwise_singleton _ _, fun x hx y hy => ?_⟩
    obtain ⟨c, hc, rfl⟩ := List.mem_map.mp hx
    rw [List.mem_singleton.mp hy]
    exact hlt c hc
  · intro c hc
    rw [chunksSent_chunk] at hc
    rcases List.mem_append.mp hc with hc | hc
    · exact h.issued c hc
    · rw [List.mem_singleton.mp hc]
      exact ⟨hpos, hnew.le⟩
  · intro k t ht
    rcases eq_or_ne k i with rfl | hk
    · simp [goto, Phase.issued] at ht
    · simp only [goto, Function.update_of_ne hk] at ht
      exact absurd (h.holder_unique (Phase.holding_of_issued ht) hheld) hk

theorem fits_iff (config : QueueConfig) (s : Admission O T) (n : Nat) :
    s.fits config n = true ↔ s.queue.length + n ≤ config.capacity := by
  have ha := config.allocated
  simp only [fits, decide_eq_true_eq]
  omega

section

variable (h : s.Inv config traffic)
include h

theorem Inv.bounded : s.queue.length ≤ config.capacity :=
  (Nat.le_add_right _ _).trans (h.room 0)

/-- A step that keeps the gate, the ledger and the queue. -/
theorem Inv.move_phase (hheld : phase.holding = (s.calls i).holding)
    (hroom : s.queue.length + phase.reserved ≤ config.capacity)
    (hfits : phase.Matches (traffic.work i) (sentBy s.sent i))
    (hissued : ∀ t, phase.issued = some t → (s.calls i).issued = some t) :
    Inv config traffic (s.goto i phase) :=
  h.move (.keep hheld) hroom hfits (fun hp => h.trailing i (hheld ▸ hp)) le_rfl (.inl rfl)
    fun t ht => h.fresh i t (hissued t ht)

/-- A step that returns and drops the gate. -/
theorem Inv.move_drop (hheld : (s.calls i).holding = true) (hp : phase.holding = false)
    (hfits : phase.Matches (traffic.work i) (sentBy s.sent i)) :
    Inv config traffic { s.goto i phase with gate := none } := by
  refine h.move (.drop hheld hp) ?_ hfits (fun ht => absurd (hp.symm.trans ht) (by simp)) le_rfl
    (.inl rfl) fun t ht => absurd (hp.symm.trans (Phase.holding_of_issued ht)) (by simp)
  rw [Phase.reserved_eq_zero (by rw [hp]; simp)]
  exact h.bounded

theorem Inv.issue (hp : s.calls i = .sending (chunk :: left) outcome) :
    Inv config traffic
      { s.goto i (.stamped { chunk with commitSeq := s.shared.ledger.issue.2 } left outcome) with
        shared := s.shared.call .issue } := by
  have hheld : (s.calls i).holding = true := by rw [hp]; rfl
  have hroom := h.room i
  have hfits := h.fits_work i
  rw [hp] at hroom hfits
  refine h.move (.keep (by rw [hheld]; rfl)) hroom ?_ (fun _ => h.trailing i hheld)
    (Nat.le_succ _) (.inr hheld) fun t ht => ?_
  · obtain ⟨hbody, rfl⟩ := hfits
    exact ⟨by simpa [body] using hbody, rfl⟩
  · obtain rfl := Option.some.inj ht
    exact ⟨Nat.succ_pos _, rfl, fun c hc => Nat.lt_succ_of_le (h.issued c hc).2⟩

theorem inv_request (hs : s.requestStep config (traffic.work i) i now = some s') :
    s'.Inv config traffic := by
  have hfits := h.fits_work i
  have hb := h.bounded
  cases requestStep_inv hs with
  | refuse hp _ | enter hp _ =>
    rw [hp] at hfits
    exact h.move_phase (by rw [hp]; rfl) hb hfits fun t ht => by cases ht
  | lock hp hfree =>
    rw [hp] at hfits
    refine h.move (.take hfree rfl) hb hfits (fun _ => ?_) le_rfl (.inl rfl) fun t ht => by cases ht
    exact trailing_of_none (byRequest_of_sentBy_nil hfits)
  | reserve hp hfit =>
    rw [hp] at hfits
    refine h.move_phase (by rw [hp]; rfl) ((fits_iff config s _).mp hfit) ?_ fun t ht => by cases ht
    rw [hfits]
    exact ⟨rfl, rfl⟩
  | full hp _ =>
    rw [hp] at hfits
    exact h.move_drop (by rw [hp]; rfl) rfl ⟨hfits, rfl⟩
  | finish outcome hp =>
    rw [hp] at hfits
    obtain ⟨hbody, rfl⟩ := hfits
    rw [List.append_nil] at hbody
    exact h.move_drop (by rw [hp]; rfl) rfl (.inl ⟨hbody, rfl⟩)
  | issue chunk left outcome hp => exact h.issue hp
  | send chunk left outcome hp _ => exact h.send hp
  | fail chunk left outcome failure hp hsend =>
    rw [hp] at hfits
    obtain ⟨hbody, rfl⟩ := hfits
    refine h.move_phase (by rw [hp]; rfl) hb ⟨⟨_, List.cons_ne_nil _ _, hbody⟩, ?_, rfl⟩
      fun t ht => by rw [hp]; exact ht
    cases failure with
    | full => exact absurd hsend (h.not_full hp _)
    | disconnected => rfl
  | void ticket failure outcome hp =>
    rw [hp] at hfits
    have hheld : (s.calls i).holding = true := by rw [hp]; rfl
    obtain ⟨hleft, rfl, rfl⟩ := hfits
    exact h.move (.keep (by rw [hp]; rfl)) hb ⟨hleft, rfl⟩ (fun _ => h.trailing i hheld)
      (nextTicket_locked _ (by simp)).ge (.inl (nextTicket_locked _ (by simp)))
      fun t ht => by cases ht
  | release outcome hp =>
    rw [hp] at hfits
    exact h.move_drop (by rw [hp]; rfl) rfl (.inr hfits)

/-- A control sender changes its phase and, with it, the gate. -/
theorem Inv.move_control {phase : ControlPhase}
    (hreq : ∀ i, gate = some (.request i) ↔ s.gate = some (.request i))
    (hown : gate = some (.control j) ↔ phase = .locked)
    (hother : ∀ k, k ≠ j → (gate = some (.control k) ↔ s.gate = some (.control k))) :
    Inv config traffic { s.gotoControl j phase with gate } :=
  { h with
    request_gate := fun i => (hreq i).trans (h.request_gate i)
    control_gate := by
      intro k
      rcases eq_or_ne k j with rfl | hk
      · simpa [gotoControl] using hown
      · simpa [gotoControl, hk] using (hother k hk).trans (h.control_gate k) }

theorem Inv.control_drop {phase : ControlPhase} (hl : s.controls j = .locked) (hp : phase ≠ .locked)
    :
    Inv config traffic { s.gotoControl j phase with gate := none } := by
  have hgate := (h.control_gate j).mpr hl
  exact h.move_control (fun i => by simp [hgate]) (by simpa using hp)
    fun k hk => by simpa [hgate] using Ne.symm hk

/-- A control message goes in while its sender has the gate. -/
theorem Inv.send_barrier (hl : s.controls j = .locked) (hlen : s.queue.length < config.capacity) :
    Inv config traffic
      { s with queue := s.queue ++ [.flush], sent := s.sent ++ [.barrier j] } := by
  have hgate := (h.control_gate j).mpr hl
  have hfree : ∀ i, (s.calls i).holding ≠ true := fun i hh => by
    have hheld := (h.request_gate i).mpr hh
    rw [hgate] at hheld
    cases hheld
  have hnot : ∀ i, byRequest i (Sent.barrier j : Sent O T) = false := fun i => rfl
  exact
    { request_gate := h.request_gate
      control_gate := h.control_gate
      room := fun i => by
        rw [Phase.reserved_eq_zero (hfree i), List.length_append, List.length_singleton]
        exact hlen
      fits_work := fun i => by
        rw [sentBy_other _ (hnot i)]
        exact h.fits_work i
      consecutive := fun i => (h.consecutive i).concat (hnot i)
      trailing := fun i hi => absurd hi (hfree i)
      increasing := by
        rw [chunksSent_barrier]
        exact h.increasing
      issued := by
        rw [chunksSent_barrier]
        exact h.issued
      fresh := fun i t ht => absurd (Phase.holding_of_issued ht) (hfree i) }

theorem inv_control {deadline : Option Nat} (hs : s.controlStep config deadline j now = some s') :
    s'.Inv config traffic := by
  unfold controlStep at hs
  split at hs
  · rename_i hp
    split_ifs at hs with hfree
    obtain rfl := Option.some.inj hs
    exact h.move_control (fun i => by simp [hfree]) (by simp)
      fun k hk => by simpa [hfree] using Ne.symm hk
  · rename_i hp
    split at hs <;> obtain rfl := Option.some.inj hs
    · rename_i queue hsend
      obtain ⟨-, hlen, rfl⟩ := trySend_ok hsend
      exact (h.send_barrier hp hlen).control_drop hp (by simp)
    · exact h.control_drop hp (by simp)
    · exact h.control_drop hp (by simp)
  · rename_i hp
    have hgate : s.gate ≠ some (.control j) := by
      rw [Ne, h.control_gate, hp]
      simp
    split_ifs at hs <;> obtain rfl := Option.some.inj hs
    all_goals exact h.move_control (fun i => Iff.rfl) (by simpa using hgate) fun k _ => Iff.rfl
  all_goals cases hs

/-- The consumer only makes room. -/
theorem Inv.drain (hlen : queue.length ≤ s.queue.length) (connected : Bool) :
    Inv config traffic { s with queue, connected } :=
  { h with room := fun i => (Nat.add_le_add_right hlen _).trans (h.room i) }

/-- The ledger's other users issue no tickets. -/
theorem Inv.other_call {shared : Shared}
    (hn : shared.ledger.nextTicket = s.shared.ledger.nextTicket) :
    Inv config traffic { s with shared } :=
  { h with
    issued := fun c hc => by rw [hn]; exact h.issued c hc
    fresh := fun i t ht => by rw [hn]; exact h.fresh i t ht }

theorem inv_step {e : Event} (hs : s.step config traffic e = some s') : s'.Inv config traffic := by
  cases e with
  | request i now => exact inv_request h hs
  | control j now => exact inv_control h hs
  | receive =>
    simp only [step] at hs
    split at hs
    · rename_i message queue hc hq
      obtain rfl := Option.some.inj hs
      have hlen : queue.length ≤ s.queue.length := by rw [hq]; exact Nat.le_succ _
      exact h.drain hlen s.connected
    · cases hs
  | disconnect =>
    obtain rfl := Option.some.inj hs
    exact h.drain (Nat.zero_le _) false
  | ledger c =>
    simp only [step] at hs
    split_ifs at hs with hc
    obtain rfl := Option.some.inj hs
    exact h.other_call (nextTicket_locked _ hc)
  | publish k =>
    obtain rfl := Option.some.inj hs
    exact h.other_call rfl

theorem inv_run {events : List Event} (hs : s.run config traffic events = some s') :
    s'.Inv config traffic :=
  Lib.Run.invariant (P := fun s => s.Inv config traffic) (fun h hs => inv_step h hs) h hs

end

end Admission

end OtelSqlite.Ingress
