import OtelSqlite.Ingress.AllOrNothing

/-!
# The accounts of an enqueue call

`EnqueueOutcome` against the history of the queue, and the tickets a call takes from
the ledger against the chunks it sends. A call that stops has one ticket without a
chunk, which it voids.
-/

namespace OtelSqlite.Ingress

open OtelSqlite.Core OtelSqlite.Core.Commit OtelSqlite.Lib

variable {O T : Type} {sent : List (LogChunk O T)} {ledger ledger' : CommitLedger}
  {log : List TicketUse} {i now : Nat} {phase : Phase O T}

/-- What a call does with a ticket at the ledger. -/
inductive TicketUse where
  | issued (ticket : Nat)
  | voided (ticket : Nat)
  deriving DecidableEq, Repr

def TicketUse.call (now : Nat) : TicketUse → Call
  | .issued _ => .issue
  | .voided ticket => .void ticket now

namespace Phase

def returned : Phase O T → Bool
  | .refused | .full _ | .done _ => true
  | .start | .waiting | .checking | .sending _ _ | .stamped _ _ _ | .stopping _ _ _
  | .releasing _ => false

/-- What the call returned with `Ok`. -/
def outcome : Phase O T → Option EnqueueOutcome
  | .full outcome | .done outcome => some outcome
  | _ => none

end Phase

/-- The outcome agrees with the request and with the chunks of it that were sent. -/
structure Accounted (work sent : List (LogChunk O T)) (outcome : EnqueueOutcome) : Prop where
  total : outcome.totalRecords = recordsIn work
  balance : outcome.accepted + outcome.rejected = outcome.totalRecords
  in_order : sent.map body <+: work.map body
  tickets : outcome.tickets = sent.map fun c => (c.commitSeq, c.records.length)
  last_ticket : outcome.lastTicket = (outcome.tickets.map Prod.fst).max?

/-- Every ticket of the log went out with a chunk or is void, and not both. -/
structure TicketsClosed (sent : List (LogChunk O T)) (log : List TicketUse)
    (ledger : CommitLedger) : Prop where
  sent_or_voided : ∀ t, .issued t ∈ log ↔ t ∈ sent.map LogChunk.commitSeq ∨ .voided t ∈ log
  not_both : ∀ t, .voided t ∈ log → t ∉ sent.map LogChunk.commitSeq
  voided_settled : ∀ t, .voided t ∈ log → ledger.inner.IsSettled t
  none_outstanding : (∀ c ∈ sent, ledger.inner.IsSettled c.commitSeq) →
    ∀ t, .issued t ∈ log → ledger.inner.IsSettled t

theorem recordsIn_bodies (chunks : List (LogChunk O T)) :
    recordsIn chunks = ((chunks.map body).map fun b => b.2.length).sum := by
  rw [recordsIn, List.map_map]
  rfl

theorem recordsIn_congr {chunks others : List (LogChunk O T)}
    (h : chunks.map body = others.map body) : recordsIn chunks = recordsIn others := by
  rw [recordsIn_bodies, h, ← recordsIn_bodies]

theorem recordsIn_append (chunks others : List (LogChunk O T)) :
    recordsIn (chunks ++ others) = recordsIn chunks + recordsIn others := by
  simp [recordsIn]

theorem sentBy_sublist (sent : List (Sent O T)) (i : Nat) :
    (sentBy sent i).Sublist (chunksSent sent) :=
  List.Sublist.filterMap _ List.filter_sublist

/-- With increasing tickets the last one is the largest. -/
theorem max?_tickets (h : (sent.map LogChunk.commitSeq).Pairwise (· < ·)) :
    (sent.map LogChunk.commitSeq).max? = sent.getLast?.map LogChunk.commitSeq := by
  rcases List.eq_nil_or_concat' sent with rfl | ⟨front, last, rfl⟩
  · rfl
  · rw [List.map_append, List.pairwise_append] at h
    rw [List.getLast?_concat, Option.map_some, List.map_append, List.max?_eq_some_iff]
    refine ⟨List.mem_append_right _ (List.mem_singleton.mpr rfl), fun t ht => ?_⟩
    rcases List.mem_append.mp ht with ht | ht
    · exact (h.2.2 t ht _ (List.mem_singleton.mpr rfl)).le
    · exact (List.mem_singleton.mp ht).le

namespace Admission

variable {config : QueueConfig} {traffic : Traffic O T} {s s' : Admission O T}

theorem Inv.accounted (h : s.Inv config traffic) {outcome : EnqueueOutcome}
    (ho : (s.calls i).outcome = some outcome) :
    Accounted (traffic.work i) (sentBy s.sent i) outcome := by
  have hfits := h.fits_work i
  have hlast := max?_tickets (h.increasing.sublist ((sentBy_sublist s.sent i).map _))
  have hfirst : (progress (traffic.work i) (sentBy s.sent i)).tickets.map Prod.fst =
      (sentBy s.sent i).map LogChunk.commitSeq := by
    rw [progress, List.map_map]
    rfl
  cases hp : s.calls i with
  | start | refused | waiting | checking | sending | stamped | stopping | releasing =>
    rw [hp] at ho
    cases ho
  | full result =>
    rw [hp] at ho hfits
    obtain rfl := Option.some.inj ho
    obtain ⟨hsent, rfl⟩ := hfits
    rw [hsent]
    exact ⟨rfl, Nat.zero_add _, List.nil_prefix, rfl, rfl⟩
  | done result =>
    rw [hp] at ho hfits
    obtain rfl := Option.some.inj ho
    rcases hfits with ⟨hall, rfl⟩ | ⟨⟨left, -, hleft⟩, rfl⟩
    · exact ⟨rfl, recordsIn_congr hall, hall ▸ List.prefix_rfl, rfl, by rw [hfirst, hlast]; rfl⟩
    · have hle : recordsIn (sentBy s.sent i) ≤ recordsIn (traffic.work i) := by
        rw [← recordsIn_congr hleft, recordsIn_append]
        exact Nat.le_add_right _ _
      refine ⟨rfl, Nat.add_sub_of_le hle, ⟨left.map body, ?_⟩, rfl, hlast.symm.trans ?_⟩
      · rw [← List.map_append, hleft]
      · rw [← hfirst]
        rfl

/-- What request `i` does with tickets in a step. -/
def ticketUse (i : Nat) (s : Admission O T) : Event → List TicketUse
  | .request k _ =>
    if k = i then
      match s.calls i with
      | .sending (_ :: _) _ => [.issued s.shared.ledger.issue.2]
      | .stopping ticket _ _ => [.voided ticket]
      | _ => []
    else []
  | _ => []

/-- What request `i` does with tickets in a run. -/
def ticketLog (config : QueueConfig) (traffic : Traffic O T) (i : Nat) (s : Admission O T)
    (events : List Event) : List TicketUse :=
  Run.gather (step config traffic) (ticketUse i) s events

/-- The log of a step is all that the step does to the ledger. -/
theorem shared_requestStep {work : List (LogChunk O T)}
    (hs : s.requestStep config work i now = some s') :
    s'.shared =
      ((s.ticketUse i (.request i now)).map (TicketUse.call now)).foldl Shared.call s.shared := by
  cases requestStep_inv hs <;> simp [ticketUse, TicketUse.call, goto, *]

theorem isSettled_calls {shared : Shared} {t : Nat} (h : shared.ledger.inner.IsSettled t)
    (calls : List Call) : (calls.foldl Shared.call shared).ledger.inner.IsSettled t := by
  induction calls generalizing shared with
  | nil => exact h
  | cons c calls ih => exact ih (isSettled_locked h c)

/-- The tickets of the chunks a call has sent. -/
def ticketsSent (s : Admission O T) (i : Nat) : List Nat :=
  (sentBy s.sent i).map LogChunk.commitSeq

/-- A step that is not the call's leaves its phase and its chunks alone. -/
theorem step_other {e : Event} (hs : s.step config traffic e = some s')
    (he : ∀ now, e ≠ .request i now) :
    s'.calls i = s.calls i ∧ sentBy s'.sent i = sentBy s.sent i ∧
      ∀ t, s.shared.ledger.inner.IsSettled t → s'.shared.ledger.inner.IsSettled t := by
  cases e with
  | request k now =>
    have hk : i ≠ k := fun hik => he now (hik ▸ rfl)
    refine ⟨(requestStep_cases hs).1 i hk, ?_, fun t ht => ?_⟩
    · cases (requestStep_effect hs).2 with
      | silent _ hsent | issue _ hsent | void _ _ _ _ hsent => rw [hsent]
      | send chunk _ _ _ hsent =>
        rw [hsent, sentBy_other _ (by simpa [byRequest] using hk.symm)]
    · rw [shared_requestStep hs]
      exact isSettled_calls ht _
  | control j now =>
    obtain ⟨-, hsh, hcalls, hcases⟩ := controlStep_effect hs
    refine ⟨congrFun hcalls i, ?_, fun t ht => hsh ▸ ht⟩
    rcases hcases with ⟨-, hsent⟩ | ⟨-, hsent⟩
    · rw [hsent]
    · rw [hsent, sentBy_other _ rfl]
  | receive =>
    simp only [step] at hs
    split at hs
    · obtain rfl := Option.some.inj hs
      exact ⟨rfl, rfl, fun t ht => ht⟩
    · cases hs
  | disconnect | publish k =>
    obtain rfl := Option.some.inj hs
    exact ⟨rfl, rfl, fun t ht => ht⟩
  | ledger c =>
    simp only [step] at hs
    split_ifs at hs
    obtain rfl := Option.some.inj hs
    exact ⟨rfl, rfl, fun t ht => isSettled_locked ht c⟩

end Admission

/-- The log of a call that stopped: behind the tickets it sent, one it voided. -/
def Stopped (sent : List Nat) (ledger : CommitLedger) (log : List TicketUse) : Prop :=
  ∃ t, log = sent.map .issued ++ [.issued t, .voided t] ∧ (∀ u ∈ sent, u < t) ∧
    ledger.inner.IsSettled t

/-- The log of a call fits its phase and the tickets it has sent. -/
def Phase.LogFits (sent : List Nat) (ledger : CommitLedger) (log : List TicketUse) :
    Phase O T → Prop
  | .stamped chunk _ _ => log = sent.map .issued ++ [.issued chunk.commitSeq]
  | .stopping ticket _ _ => log = sent.map .issued ++ [.issued ticket]
  | .releasing _ => Stopped sent ledger log
  | .done outcome =>
    if outcome.disconnected then Stopped sent ledger log else log = sent.map .issued
  | .start | .refused | .waiting | .checking | .full _ | .sending _ _ => log = sent.map .issued

theorem Stopped.mono {sent : List Nat}
    (hle : ∀ t, ledger.inner.IsSettled t → ledger'.inner.IsSettled t) (h : Stopped sent ledger log) :
    Stopped sent ledger' log := by
  obtain ⟨t, hlog, hlt, ht⟩ := h
  exact ⟨t, hlog, hlt, hle t ht⟩

theorem Phase.LogFits.mono {sent : List Nat}
    (hle : ∀ t, ledger.inner.IsSettled t → ledger'.inner.IsSettled t)
    (h : phase.LogFits sent ledger log) : phase.LogFits sent ledger' log := by
  cases phase with
  | start | refused | waiting | checking | full | sending | stamped | stopping => exact h
  | releasing => exact Stopped.mono hle h
  | done outcome =>
    simp only [Phase.LogFits] at h ⊢
    split_ifs at h ⊢
    · exact Stopped.mono hle h
    · exact h

namespace Admission

variable {config : QueueConfig} {traffic : Traffic O T} {s s' : Admission O T}
  {log : List TicketUse}

def LogFits (i : Nat) (s : Admission O T) (log : List TicketUse) : Prop :=
  (s.calls i).LogFits (s.ticketsSent i) s.shared.ledger log

theorem logFits_request (h : s.Inv config traffic) (hl : s.LogFits i log)
    (hs : s.requestStep config (traffic.work i) i now = some s') :
    s'.LogFits i (log ++ s.ticketUse i (.request i now)) := by
  have hfits := h.fits_work i
  unfold LogFits at hl ⊢
  simp only [ticketUse, if_true]
  cases requestStep_inv hs with
  | refuse hp | enter hp | lock hp | reserve hp | full hp | issue chunk left outcome hp
  | fail chunk left outcome failure hp hsend =>
    rw [hp] at hl ⊢
    simpa [goto, ticketsSent, Phase.LogFits] using hl
  | finish outcome hp =>
    rw [hp] at hl hfits ⊢
    obtain ⟨-, rfl⟩ := hfits
    simpa [goto, ticketsSent, Phase.LogFits, progress] using hl
  | send chunk left outcome hp =>
    rw [hp] at hl ⊢
    simpa [goto, ticketsSent, Phase.LogFits, sentBy_own] using hl
  | void ticket failure outcome hp =>
    obtain ⟨-, -, hlt⟩ := h.fresh i ticket (by rw [hp]; rfl)
    rw [hp] at hl ⊢
    have hphase : (s.goto i (.releasing (outcome.stop failure))).calls i =
        .releasing (outcome.stop failure) := Function.update_self ..
    rw [hphase]
    refine ⟨ticket, ?_, fun u hu => ?_, isSettled_void _ ticket now⟩
    · rw [hl, List.append_assoc]
      rfl
    · obtain ⟨c, hc, rfl⟩ := List.mem_map.mp hu
      exact hlt c ((sentBy_sublist s.sent i).subset hc)
  | release outcome hp =>
    rw [hp] at hl hfits ⊢
    obtain ⟨-, rfl⟩ := hfits
    simpa [goto, ticketsSent, Phase.LogFits, EnqueueOutcome.stop] using hl

theorem logFits_step (h : s.Inv config traffic) {e : Event} (hl : s.LogFits i log)
    (hs : s.step config traffic e = some s') : s'.LogFits i (log ++ s.ticketUse i e) := by
  by_cases he : ∃ now, e = .request i now
  · obtain ⟨now, rfl⟩ := he
    exact logFits_request h hl hs
  · have hne : ∀ now, e ≠ .request i now := fun now hnow => he ⟨now, hnow⟩
    have hnone : s.ticketUse i e = [] := by
      cases e with
      | request k now => exact if_neg fun hk : k = i => hne now (hk ▸ rfl)
      | control | receive | disconnect | ledger | publish => rfl
    obtain ⟨hcalls, hsent, hle⟩ := step_other hs hne
    rw [hnone, List.append_nil, LogFits, hcalls, ticketsSent, hsent]
    exact Phase.LogFits.mono hle hl

theorem logFits_run (start : Nat) {events : List Event} (i : Nat)
    (hs : (Admission.new start).run config traffic events = some s) :
    s.LogFits i (ticketLog config traffic i (Admission.new start) events) := by
  have hnew : (Admission.new start : Admission O T).LogFits i [] := rfl
  exact (Run.invariant_gather (P := fun s log => s.Inv config traffic ∧ s.LogFits i log)
    (fun h hs => ⟨inv_step h.1 hs, logFits_step h.1 h.2 hs⟩) ⟨inv_new start, hnew⟩ hs).2

end Admission

theorem ticketsClosed_sent (sent : List (LogChunk O T)) (ledger : CommitLedger) :
    TicketsClosed sent ((sent.map LogChunk.commitSeq).map .issued) ledger where
  sent_or_voided := by simp
  not_both := by simp
  voided_settled := by simp
  none_outstanding := by
    intro hall t ht
    obtain ⟨u, hu, he⟩ := List.mem_map.mp ht
    obtain ⟨c, hc, rfl⟩ := List.mem_map.mp hu
    exact TicketUse.issued.inj he ▸ hall c hc

theorem Stopped.ticketsClosed (h : Stopped (sent.map LogChunk.commitSeq) ledger log) :
    TicketsClosed sent log ledger := by
  obtain ⟨t, rfl, hlt, ht⟩ := h
  have hissued : ∀ u, TicketUse.issued u ∈
      (sent.map LogChunk.commitSeq).map .issued ++ [.issued t, .voided t] ↔
        u ∈ sent.map LogChunk.commitSeq ∨ u = t := by
    simp
  have hvoided : ∀ u, TicketUse.voided u ∈
      (sent.map LogChunk.commitSeq).map .issued ++ [.issued t, .voided t] ↔ u = t := by
    simp
  refine ⟨fun u => ?_, fun u hu hmem => ?_, fun u hu => ?_, fun hall u hu => ?_⟩
  · rw [hissued, hvoided]
  · exact absurd (hlt u hmem) (by rw [(hvoided u).mp hu]; exact lt_irrefl t)
  · exact (hvoided u).mp hu ▸ ht
  · rcases (hissued u).mp hu with hmem | rfl
    · obtain ⟨c, hc, rfl⟩ := List.mem_map.mp hmem
      exact hall c hc
    · exact ht

theorem Phase.LogFits.ticketsClosed (h : phase.LogFits (sent.map LogChunk.commitSeq) ledger log)
    (hr : phase.returned = true) : TicketsClosed sent log ledger := by
  cases phase with
  | start | waiting | checking | sending | stamped | stopping | releasing => cases hr
  | refused | full =>
    obtain rfl := h
    exact ticketsClosed_sent sent ledger
  | done outcome =>
    simp only [Phase.LogFits] at h
    split_ifs at h
    · exact h.ticketsClosed
    · obtain rfl := h
      exact ticketsClosed_sent sent ledger

open Admission in
/-- **Enqueue accounting is exact**, in every interleaving and wherever the consumer
disconnects: an outcome adds up and lists what was sent, and every ticket the call took
went out with its chunk or is void. -/
theorem enqueue_accounting_exact (config : QueueConfig) (traffic : Traffic O T) (start : Nat)
    (events : List Event) (s : Admission O T)
    (hs : (Admission.new start).run config traffic events = some s) (i : Nat) :
    (∀ outcome, (s.calls i).outcome = some outcome →
      Accounted (traffic.work i) (sentBy s.sent i) outcome) ∧
      ((s.calls i).returned = true →
        TicketsClosed (sentBy s.sent i)
          (ticketLog config traffic i (Admission.new start) events) s.shared.ledger) :=
  ⟨fun _ ho => (inv_run (inv_new start) hs).accounted ho,
    fun hr => (logFits_run start i hs).ticketsClosed hr⟩

/-- The consumer goes away after the first chunk of request 0. -/
def disconnectedMidway : List Event :=
  [.request 0 0, .request 0 0, .request 0 0, .request 0 0, .request 0 0, .disconnect,
    .request 0 0, .request 0 0, .request 0 0, .request 0 0]

theorem enqueue_accounting_exact_midway :
    ∃ s : Admission Nat Nat,
      (Admission.new 0).run ⟨2, by decide⟩ threeRequests disconnectedMidway = some s ∧
        (s.calls 0).outcome = some ⟨2, 1, true, some 1, 3, [(1, 2)]⟩ ∧
        Admission.ticketLog ⟨2, by decide⟩ threeRequests 0 (Admission.new 0) disconnectedMidway =
          [.issued 1, .issued 2, .voided 2] ∧
        Accounted (threeRequests.work 0) (sentBy s.sent 0) ⟨2, 1, true, some 1, 3, [(1, 2)]⟩ :=
  ⟨((Admission.new 0).run ⟨2, by decide⟩ threeRequests disconnectedMidway).get (by decide),
    (Option.some_get _).symm, by decide, by decide,
    (enqueue_accounting_exact ⟨2, by decide⟩ threeRequests 0 disconnectedMidway _
      (Option.some_get (by decide)).symm 0).1 _ (by decide)⟩

end OtelSqlite.Ingress
