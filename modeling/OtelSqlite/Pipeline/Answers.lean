import OtelSqlite.Pipeline.Accounts
import OtelSqlite.Pipeline.Quiet

/-!
# Answers are exact

A handler starts to read when the watermark has passed its last ticket or the ledger
is closed. Either way the committed records of the request are `Frozen`: its tickets
are settled, or nothing commits any more. What the handler adds up is then the number
of committed records, at that time and at any later one.
-/

namespace OtelSqlite.Pipeline

open OtelSqlite.Core OtelSqlite.Core.Commit OtelSqlite.Core.Batcher
open OtelSqlite.Storage OtelSqlite.Ingress OtelSqlite.Lib.Publication

variable {O R : Type}

/-- No record of the request can commit any more, and the ledger has counted them all. -/
def Server.Frozen (p : Server O R) (i : Nat) : Prop :=
  p.Quiet ∨ ∀ c ∈ sentBy p.ingress.sent i, IsSettledState (p.ledger.state c.commitSeq)

/-- What an answer says of the committed records of its request. -/
def AckExact (setup : Setup O R) (p : Server O R) (i : Nat) : Answer → Prop
  | .ok ⟨none⟩ => (p.committedOf i).Perm (setup.recordsOf i)
  | .ok ⟨some rejection⟩ =>
    (p.committedOf i).length + rejection.rejectedLogRecords = setup.totalRecords i
  | .error _ => p.committedOf i = []

/-- The enqueue call has returned the outcome. -/
def Ended (p : Server O R) (i : Nat) (outcome : EnqueueOutcome) : Prop :=
  p.ingress.calls i = .full outcome ∨ p.ingress.calls i = .done outcome

def HandlerOk (setup : Setup O R) (p : Server O R) (done : List (Done O (Exported R))) (i : Nat) :
    Handler → Prop
  | .received => p.ingress.calls i = .start
  | .enqueueing => True
  | .waiting outcome => Ended p i outcome
  | .reading left count outcome =>
    Ended p i outcome ∧ p.Frozen i ∧ ∃ read, outcome.tickets = read ++ left ∧
      count.committed = (read.map fun e => (keptOf done e.1).length).sum
  | .answered answer => p.Frozen i ∧ AckExact setup p i answer

section Outcome

variable {setup : Setup O R} {p : Server O R} {i : Nat} {outcome : EnqueueOutcome}
  {xs ys : List (LogChunk O (Exported R))}

/-- What an outcome says of the chunks that were sent. -/
structure OutcomeOf (setup : Setup O R) (sent : List (LogChunk O (Exported R))) (i : Nat)
    (outcome : EnqueueOutcome) : Prop where
  total : outcome.totalRecords = setup.totalRecords i
  accepted : outcome.accepted = recordsIn sent
  tickets : outcome.tickets = sent.map fun c => (c.commitSeq, c.records.length)
  last : outcome.lastTicket = sent.getLast?.map LogChunk.commitSeq
  work : ∃ left, (sent ++ left).map body = (setup.work i).map body ∧
    (outcome.rejected = 0 → outcome.disconnected = false → recordsIn left = 0)

theorem recordsIn_body (h : xs.map body = ys.map body) : recordsIn xs = recordsIn ys := by
  have hlen := congrArg (List.map fun b : O × List (Exported R) => b.2.length) h
  rw [List.map_map, List.map_map] at hlen
  exact congrArg List.sum hlen

theorem Ended.outcomeOf (he : Ended p i outcome) (h : p.ingress.Inv setup.queue setup.traffic) :
    OutcomeOf setup (sentBy p.ingress.sent i) i outcome := by
  have hfits := h.fits_work i
  rcases he with hp | hp
  · rw [hp] at hfits
    obtain ⟨hnil, rfl⟩ := hfits
    rw [hnil]
    exact ⟨rfl, rfl, rfl, rfl, setup.work i, rfl, fun hr _ => hr⟩
  · rw [hp] at hfits
    rcases hfits with ⟨hall, rfl⟩ | ⟨⟨left, hne, hleft⟩, rfl⟩
    · exact ⟨rfl, rfl, rfl, rfl, [], by rw [List.append_nil]; exact hall, fun _ _ => rfl⟩
    · exact ⟨rfl, rfl, rfl, rfl, left, hleft, fun _ hd => by cases hd⟩

theorem length_recordsOf (setup : Setup O R) (i : Nat) :
    (setup.recordsOf i).length = setup.totalRecords i := by
  rw [Setup.recordsOf, List.length_flatMap]
  rfl

theorem sublist_flatMap {cs : List (LogChunk O (Exported R))}
    {f : LogChunk O (Exported R) → List (Exported R)} (h : ∀ c ∈ cs, (f c).Sublist c.records) :
    (cs.flatMap f).Sublist (cs.flatMap LogChunk.records) := by
  induction cs with
  | nil => exact List.Sublist.refl _
  | cons c cs ih =>
    rw [List.flatMap_cons, List.flatMap_cons]
    exact (h c List.mem_cons_self).append (ih fun x hx => h x (List.mem_cons_of_mem _ hx))

theorem flatMap_records_body (h : xs.map body = ys.map body) :
    xs.flatMap LogChunk.records = ys.flatMap LogChunk.records := by
  have hf := congrArg (List.flatMap fun b : O × List (Exported R) => b.2) h
  rwa [List.flatMap_map, List.flatMap_map] at hf

end Outcome

section Counting

variable [BEq O] {setup : Setup O R} {p p' : Server O R} {done : List (Done O (Exported R))} {i : Nat}

variable (hb : p.Booked setup done)
include hb

theorem Server.Booked.admission : p.ingress.Inv setup.queue setup.traffic := by
  obtain ⟨received, ops, emitted, rest, h⟩ := hb
  exact h.admission

theorem Server.Booked.committedOf_nil (hs : sentBy p.ingress.sent i = []) :
    p.committedOf i = [] := by
  have hperm := hb.committedOf_perm i
  rw [hs] at hperm
  exact List.perm_nil.mp hperm

/-- Never more records are committed than were sent. -/
theorem Server.Booked.length_committedOf_le (i : Nat) :
    (p.committedOf i).length ≤ recordsIn (sentBy p.ingress.sent i) := by
  have hsub := sublist_flatMap fun c hc =>
    hb.keptOf_sublist (mem_chunksSent.mpr ⟨i, hc⟩)
  have hlen := hsub.length_le
  rw [← (hb.committedOf_perm i).length_eq, List.length_flatMap (f := LogChunk.records)] at hlen
  exact hlen

/-- If as many records are committed as the request has, they are its records. -/
theorem Server.Booked.committed_all {outcome : EnqueueOutcome}
    (ho : OutcomeOf setup (sentBy p.ingress.sent i) i outcome)
    (hle : setup.totalRecords i ≤ (p.committedOf i).length) :
    (p.committedOf i).Perm (setup.recordsOf i) := by
  obtain ⟨left, hleft, -⟩ := ho.work
  have hsub := sublist_flatMap fun c hc =>
    hb.keptOf_sublist (mem_chunksSent.mpr ⟨i, hc⟩)
  have hall : (sentBy p.ingress.sent i ++ left).flatMap LogChunk.records = setup.recordsOf i :=
    flatMap_records_body hleft
  rw [List.flatMap_append] at hall
  have hpre : ((sentBy p.ingress.sent i).flatMap LogChunk.records).Sublist (setup.recordsOf i) := by
    rw [← hall]
    exact List.sublist_append_left _ _
  have hkept : ((sentBy p.ingress.sent i).flatMap fun c => keptOf done c.commitSeq) =
      setup.recordsOf i := by
    refine (hsub.trans hpre).eq_of_length_le ?_
    rw [← (hb.committedOf_perm i).length_eq, length_recordsOf]
    exact hle
  rw [← hkept]
  exact hb.committedOf_perm i

end Counting

section Handle

variable [BEq O] {setup : Setup O R} {p p' : Server O R} {done : List (Done O (Exported R))}
  {i : Nat} {outcome : EnqueueOutcome}

/-- The last sent chunk of a request has its highest ticket. -/
theorem Server.Booked.le_last_ticket (hb : p.Booked setup done) {c d : LogChunk O (Exported R)}
    (hc : c ∈ sentBy p.ingress.sent i) (hd : (sentBy p.ingress.sent i).getLast? = some d) :
    c.commitSeq ≤ d.commitSeq := by
  have hsub : (sentBy p.ingress.sent i).Sublist (chunksSent p.ingress.sent) :=
    List.filter_sublist.filterMap _
  have hinc := hb.admission.increasing.sublist (hsub.map LogChunk.commitSeq)
  obtain ⟨xs, hxs⟩ := List.getLast?_eq_some_iff.mp hd
  rw [hxs, List.map_append, List.pairwise_append] at hinc
  rw [hxs] at hc
  rcases List.mem_append.mp hc with hc | hc
  · exact Nat.le_of_lt (hinc.2.2 _ (List.mem_map_of_mem hc) _ (by simp))
  · rw [List.mem_singleton.mp hc]

omit [BEq O] in
theorem frozen_of_unsent (hs : sentBy p.ingress.sent i = []) : p.Frozen i := by
  refine Or.inr fun c hc => ?_
  rw [hs] at hc
  cases hc

section

variable (hb : p.Booked setup done)
include hb

/-- `wait_watermark` returns: the watermark covers the request, or the ledger is closed. -/
theorem released_frozen (hq : p.ledger.inner.closed = true → p.Quiet) (he : Ended p i outcome)
    (hr : p.released outcome = true) : p.Frozen i := by
  have ho := he.outcomeOf hb.admission
  obtain ⟨received, ops, emitted, rest, h⟩ := id hb
  have hpub := h.coherent.published_le
  rw [h.locked] at hpub
  cases hl : (sentBy p.ingress.sent i).getLast? with
  | none => exact frozen_of_unsent (List.getLast?_eq_none_iff.mp hl)
  | some d =>
    have hd : d ∈ chunksSent p.ingress.sent := mem_chunksSent.mpr ⟨i, List.mem_of_getLast? hl⟩
    rw [Server.released, ho.last, hl] at hr
    simp only [Option.map_some, decide_eq_true_eq] at hr
    have hpos := (h.admission.issued d hd).1
    rcases hr with h0 | hcov | hcl
    · omega
    · refine Or.inr fun c hc => ?_
      have hsent : c ∈ chunksSent p.ingress.sent := mem_chunksSent.mpr ⟨i, hc⟩
      have hle : c.commitSeq ≤ d.commitSeq := hb.le_last_ticket hc hl
      have hthrough : c.commitSeq ≤ p.ledger.inner.committedThrough :=
        hle.trans (hcov.trans hpub.1)
      have h0 : c.commitSeq ≠ 0 := Nat.ne_of_gt (h.admission.issued c hsent).1
      rw [CommitLedger.state_settled h0 (Or.inl hthrough)]
      split_ifs <;> trivial
    · exact Or.inl (hq (hpub.2 hcl))

/-- A request without accepted records has sent nothing. -/
theorem sent_nil_of_accepted (h0 : recordsIn (sentBy p.ingress.sent i) = 0) :
    sentBy p.ingress.sent i = [] := by
  refine List.eq_nil_iff_forall_not_mem.mpr fun c hc => ?_
  have hne := hb.nonempty (mem_chunksSent.mpr ⟨i, hc⟩)
  have hle : c.records.length ≤ recordsIn (sentBy p.ingress.sent i) := length_le_recordsIn hc
  have hpos := List.length_pos_of_ne_nil hne
  omega

theorem unsent_ok (hs : sentBy p.ingress.sent i = []) (status : Status) :
    p.Frozen i ∧ AckExact setup p i (.error status) :=
  ⟨frozen_of_unsent hs, hb.committedOf_nil hs⟩

theorem answerUnqueued_ok (he : Ended p i outcome) {answer : Answer}
    (ha : answerUnqueued outcome = some answer) : p.Frozen i ∧ AckExact setup p i answer := by
  have ho := he.outcomeOf hb.admission
  unfold answerUnqueued at ha
  split_ifs at ha with hacc hdis hrej
  all_goals
    have hnil := sent_nil_of_accepted hb (ho.accepted.symm.trans hacc)
    obtain rfl := Option.some.inj ha
  · exact unsent_ok hb hnil _
  · exact unsent_ok hb hnil _
  · refine ⟨frozen_of_unsent hnil, hb.committed_all ho ?_⟩
    obtain ⟨left, hleft, hzero⟩ := ho.work
    have hlen := recordsIn_body hleft
    have h0 := hzero (by omega) (by simpa using hdis)
    rw [hnil, List.nil_append, h0] at hlen
    rw [Setup.totalRecords, ← hlen]
    exact Nat.zero_le _

theorem report_ok (he : Ended p i outcome) {count : Count} (hcount : count.committed =
      (outcome.tickets.map fun e => (keptOf done e.1).length).sum) :
    AckExact setup p i (report outcome.totalRecords count) := by
  have ho := he.outcomeOf hb.admission
  have hsum : count.committed = (p.committedOf i).length := by
    rw [hcount, ho.tickets, List.map_map, hb.length_committedOf]
    rfl
  have hle : (p.committedOf i).length ≤ setup.totalRecords i := by
    refine (hb.length_committedOf_le i).trans ?_
    obtain ⟨left, hleft, -⟩ := ho.work
    have hlen := recordsIn_body hleft
    rw [Setup.totalRecords, ← hlen]
    simp [recordsIn]
  have hsmall : setup.totalRecords i ≤ i64Max := by
    obtain ⟨received, ops, emitted, rest, h⟩ := hb
    have hlim := h.limited i (Or.inr (by rcases he with hp | hp <;> rw [hp] <;> simp))
    have hval := setup.validated
    unfold maxRecordsLimit at hval
    unfold i64Max
    omega
  unfold report
  rw [ho.total]
  dsimp only
  split_ifs with hzero hpart
  · exact hb.committed_all ho (by omega)
  · change (p.committedOf i).length + min (setup.totalRecords i - count.committed) i64Max =
      setup.totalRecords i
    omega
  · have h0 : (p.committedOf i).length = 0 := by
      rw [not_or] at hpart
      omega
    exact List.length_eq_zero_iff.mp h0

/-- The handler's own step. -/
theorem handle_ok (hq : p.ledger.inner.closed = true → p.Quiet)
    (hk : HandlerOk setup p done i (p.handlers i)) (hs : p.handleStep setup i = some p') :
    ∃ handler, p' = p.goto i handler ∧ HandlerOk setup p done i handler := by
  have hstart : ∀ outcome, Ended p i outcome → ∃ handler,
      p.startFinish i outcome = p.goto i handler ∧ HandlerOk setup p done i handler := by
    intro outcome he
    unfold Server.startFinish
    split
    · rename_i answer ha
      exact ⟨_, rfl, answerUnqueued_ok hb he ha⟩
    · exact ⟨_, rfl, he⟩
  have hfits := hb.admission.fits_work i
  unfold Server.handleStep at hs
  split at hs
  · rename_i hh
    rw [hh] at hk
    split_ifs at hs <;> obtain rfl := Option.some.inj hs
    · rw [show p.ingress.calls i = .start from hk] at hfits
      exact ⟨_, rfl, unsent_ok hb hfits _⟩
    · exact ⟨_, rfl, trivial⟩
  · split at hs
    · rename_i hp
      rw [hp] at hfits
      obtain rfl := Option.some.inj hs
      exact ⟨_, rfl, unsent_ok hb hfits _⟩
    · rename_i outcome hp
      obtain rfl := Option.some.inj hs
      exact hstart outcome (Or.inl hp)
    · rename_i outcome hp
      obtain rfl := Option.some.inj hs
      exact hstart outcome (Or.inr hp)
    · cases hs
  · rename_i outcome hh
    rw [hh] at hk
    split_ifs at hs with hr
    obtain rfl := Option.some.inj hs
    exact ⟨_, rfl, hk, released_frozen hb hq hk hr, [], rfl, rfl⟩
  · rename_i ticket records left count outcome hh
    rw [hh] at hk
    obtain ⟨he, hfrozen, read, htickets, hcount⟩ := hk
    obtain rfl := Option.some.inj hs
    refine ⟨_, rfl, he, hfrozen, read ++ [(ticket, records)], by rw [htickets]; simp, ?_⟩
    have hm : (ticket, records) ∈ outcome.tickets := by rw [htickets]; simp
    rw [(he.outcomeOf hb.admission).tickets] at hm
    obtain ⟨c, hc, hpair⟩ := List.mem_map.mp hm
    obtain ⟨rfl, rfl⟩ := Prod.mk.inj hpair
    have hx : IsSettledState (p.ledger.state c.commitSeq) ∨ p.writer.due = [] := by
      rcases hfrozen with hquiet | hsettled
      · exact Or.inr hquiet.due
      · exact Or.inl (hsettled c hc)
    rw [hb.read (mem_chunksSent.mpr ⟨i, hc⟩) hx, hcount, List.map_append, List.sum_append]
    simp
  · rename_i count outcome hh
    rw [hh] at hk
    obtain ⟨he, hfrozen, read, htickets, hcount⟩ := hk
    obtain rfl := Option.some.inj hs
    rw [List.append_nil] at htickets
    exact ⟨_, rfl, hfrozen, report_ok hb he (htickets ▸ hcount)⟩
  · cases hs

end

end Handle

end OtelSqlite.Pipeline
