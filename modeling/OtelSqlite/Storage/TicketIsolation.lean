import OtelSqlite.Storage.TicketAccounting

/-!
# Poison stays with its own ticket

One schedule is run twice, with different records of other tickets poisoned. The
two runs take the same steps; they differ in the ledger, the table and the
quarantine, and not in what the ledger says of the ticket.
-/

namespace OtelSqlite.Storage

open OtelSqlite.Core OtelSqlite.Core.Commit OtelSqlite.Core.Batcher

variable {O R : Type}

/-- The same line with other books. -/
def Line.withBooks (s : Line O R) (ledger : CommitLedger) (table quarantined : List (Tagged R)) :
    Line O R := { s with ledger, table, quarantined }

/-- Two ledgers that say the same about ticket `t`. -/
structure Agree (t : Nat) (l l' : CommitLedger) : Prop where
  next : l'.nextTicket = l.nextTicket
  state : l'.state t = l.state t
  wellFormed : l.inner.WellFormed
  wellFormed' : l'.inner.WellFormed

theorem Agree.locked {t : Nat} {l l' : CommitLedger} (h : Agree t l l') (c : Call) :
    Agree t (l.locked c).1 (l'.locked c).1 where
  next := by
    by_cases hc : c = .issue
    · subst hc
      exact congrArg (· + 1) h.next
    · rw [nextTicket_locked _ hc, nextTicket_locked _ hc, h.next]
  state := by rw [state_locked h.wellFormed, state_locked h.wellFormed', h.state]
  wellFormed := wellFormed_locked h.wellFormed c
  wellFormed' := wellFormed_locked h.wellFormed' c

/-- The other run: only the books differ, and not about ticket `t`. -/
def Twin (t : Nat) (s s' : Line O R) : Prop :=
  ∃ ledger table quarantined, s' = s.withBooks ledger table quarantined ∧ Agree t s.ledger ledger

section Step

variable [BEq O] {config : InsertBatcherConfig} {s s' s₁ : Line O R} {t : Nat}
  {poison poison' : Tagged R → Bool}

theorem receive_twin (ht : Twin t s s') {clock : Nat → Nat} {now : Nat}
    (hs : s.receive config clock now = some s₁) :
    ∃ s₁', s'.receive config clock now = some s₁' ∧ Twin t s₁ s₁' := by
  obtain ⟨l, tb, q, rfl, ha⟩ := ht
  unfold Line.receive at hs ⊢
  have hin : (s.withBooks l tb q).inbox = s.inbox := rfl
  have hbuf : (s.withBooks l tb q).buffers = s.buffers := rfl
  rw [hin, hbuf]
  split at hs
  · cases hs
  · split_ifs at hs ⊢ with hne
    · obtain rfl := Option.some.inj hs
      exact ⟨_, rfl, _, tb, q, rfl, ha.locked _⟩
    · obtain ⟨⟨buffers, out⟩, hp, hs⟩ := Option.bind_eq_some_iff.mp hs
      obtain rfl := Option.some.inj hs
      rw [hp]
      exact ⟨_, rfl, l, tb, q, rfl, ha⟩
  · obtain ⟨⟨buffers, out⟩, hp, hs⟩ := Option.bind_eq_some_iff.mp hs
    obtain rfl := Option.some.inj hs
    rw [hp]
    exact ⟨_, rfl, l, tb, q, rfl, ha⟩

/-- Both runs persist the same batch; the ticket's own records fare alike. -/
theorem insert_twin {l : CommitLedger} (hg : s.Good config) (hagree : Agree t s.ledger l)
    (h0 : t ≠ 0) (ha : ∀ r, r.ticket = t → poison r = poison' r) (halive : s.writerAlive = true)
    {batch : LogWriteBatch O (Tagged R)} {queue : List (WriteCommand O (Tagged R))}
    (hq : s.queue = .insertLogs batch :: queue) {p p' : Persisted (Tagged R)}
    (hp : PersistedAs batch p (judge (served poison) 0 (rowsOf batch)))
    (hp' : PersistedAs batch p' (judge (served poison') 0 (rowsOf batch))) (now : Nat) :
    Agree t (s.ledger.run (settleLogBatch batch p.salvage now))
      (l.run (settleLogBatch batch p'.salvage now)) := by
  obtain ⟨received, ops, emitted, done, rest, h⟩ := hg
  have hm := h.head_mem halive hq
  obtain ⟨origin, hl⟩ := h.flow.labelled batch hm
  obtain ⟨records, tail, hf, -⟩ := h.flow.follows_some h.nodup
    (fun c hc => (h.stamped c (h.received_sent c hc)).1) t
  have hterm := hf.terminal h.flow.labelled hm
  have htally : tally t (judge (served poison) 0 (rowsOf batch)) =
      tally t (judge (served poison') 0 (rowsOf batch)) :=
    tally_judge_congr (fun r hr hrt => ha r.2 ((h.row_ticket hm hr).trans hrt)) 0
  refine ⟨?_, ?_, wellFormed_run h.wellFormed _, wellFormed_run hagree.wellFormed' _⟩
  · rw [nextTicket_run _ (notMem_settleLogBatch _ _ _).1,
      nextTicket_run _ (notMem_settleLogBatch _ _ _).1, hagree.next]
  · rw [state_run hagree.wellFormed', state_run h.wellFormed, foldl_settleLogBatch hl hp h0 hterm,
      foldl_settleLogBatch hl hp' h0 hterm, hagree.state, htally]

omit [BEq O] in
theorem execute_other_poison (poison poison' : Tagged R → Bool) (verdict : Verdict) (now : Nat)
    {command : WriteCommand O (Tagged R)} (hc : ∀ batch, command ≠ .insertLogs batch) :
    execute (verdict.weather poison') now command = execute (verdict.weather poison) now command := by
  cases command with
  | insertLogs batch => exact absurd rfl (hc batch)
  | flush => rfl
  | checkpoint | maintenance => cases verdict <;> rfl

theorem executeNext_twin (hg : s.Good config) (ht : Twin t s s') (h0 : t ≠ 0)
    (ha : ∀ r, r.ticket = t → poison r = poison' r) {verdict : Verdict} {now : Nat}
    (hs : s.executeNext poison verdict now = some s₁) :
    ∃ s₁', s'.executeNext poison' verdict now = some s₁' ∧ Twin t s₁ s₁' := by
  obtain ⟨l, tb, q, rfl, hagree⟩ := ht
  unfold Line.executeNext at hs ⊢
  have halive : (s.withBooks l tb q).writerAlive = s.writerAlive := rfl
  have hqueue : (s.withBooks l tb q).queue = s.queue := rfl
  rw [halive, hqueue]
  split at hs
  · rename_i command queue hal hq
    by_cases hc : ∃ batch, command = .insertLogs batch
    · obtain ⟨batch, rfl⟩ := hc
      obtain ⟨received, ops, emitted, done, rest, h⟩ := id hg
      obtain ⟨origin, hl⟩ := h.flow.labelled batch (h.head_mem hal hq)
      rcases execute_verdict hl verdict now with herr | hok
      · obtain ⟨f, hf⟩ := herr poison
        obtain ⟨f', hf'⟩ := herr poison'
        rw [hf] at hs
        rw [hf']
        obtain rfl := Option.some.inj hs
        exact ⟨_, rfl, _, tb, q, rfl, hagree.locked _⟩
      · obtain ⟨p, hp, he⟩ := hok poison
        obtain ⟨p', hp', he'⟩ := hok poison'
        rw [he] at hs
        rw [he']
        obtain rfl := Option.some.inj hs
        exact ⟨_, rfl, _, _, _, rfl, insert_twin hg hagree h0 ha hal hq hp hp' now⟩
    · have hother : ∀ batch, command ≠ .insertLogs batch := fun batch hb => hc ⟨batch, hb⟩
      rw [execute_other_poison poison poison' verdict now hother]
      split at hs
      · obtain rfl := Option.some.inj hs
        exact ⟨_, rfl, _, tb, q, rfl, hagree.locked _⟩
      · rename_i effect he
        obtain rfl := execute_other hother he
        obtain rfl := Option.some.inj hs
        exact ⟨_, rfl, l, tb ++ [], q ++ [], rfl, hagree⟩
  · cases hs

theorem twin_step (hg : s.Good config) (ht : Twin t s s') (h0 : t ≠ 0)
    (ha : ∀ r, r.ticket = t → poison r = poison' r) {e : LineEvent O R}
    (hs : s.step config poison e = some s₁) :
    ∃ s₁', s'.step config poison' e = some s₁' ∧ Twin t s₁ s₁' := by
  obtain ⟨l, tb, q, rfl, hagree⟩ := id ht
  cases e with
  | send origin payloads =>
    simp only [Line.step] at hs ⊢
    split_ifs at hs ⊢ with hb
    obtain rfl := Option.some.inj hs
    refine ⟨_, rfl, l.issue.1, tb, q, ?_, hagree.locked .issue⟩
    simp [Line.withBooks, CommitLedger.issue, hagree.next]
  | reject now =>
    obtain rfl := Option.some.inj hs
    have hticket : (s.withBooks l tb q).ledger.issue.2 = s.ledger.issue.2 :=
      congrArg (· + 1) hagree.next
    refine ⟨_, rfl, _, tb, q, rfl, ?_⟩
    rw [hticket]
    exact (hagree.locked .issue).locked _
  | barrier | upkeep =>
    obtain rfl := Option.some.inj hs
    exact ⟨_, rfl, l, tb, q, rfl, hagree⟩
  | receive clock now => exact receive_twin ht hs
  | timer now =>
    obtain ⟨⟨buffers, out⟩, hp, hs⟩ := Option.bind_eq_some_iff.mp hs
    obtain rfl := Option.some.inj hs
    exact ⟨_, Option.bind_eq_some_iff.mpr ⟨(buffers, out), hp, rfl⟩, l, tb, q, rfl, hagree⟩
  | execute verdict now => exact executeNext_twin hg ht h0 ha hs

theorem twin_run (hg : s.Good config) (ht : Twin t s s') (h0 : t ≠ 0)
    (ha : ∀ r, r.ticket = t → poison r = poison' r) {events : List (LineEvent O R)}
    (hs : s.run config poison events = some s₁) :
    ∃ s₁', s'.run config poison' events = some s₁' ∧ Twin t s₁ s₁' := by
  induction events generalizing s s' with
  | nil =>
    obtain rfl := Option.some.inj hs
    exact ⟨s', rfl, ht⟩
  | cons e events ih =>
    obtain ⟨s₂, h₂, hrest⟩ := Option.bind_eq_some_iff.mp hs
    obtain ⟨s₂', h₂', ht₂⟩ := twin_step hg ht h0 ha h₂
    obtain ⟨s₃', h₃', ht₃⟩ := ih (good_step hg h₂) ht₂ hrest
    exact ⟨s₃', Option.bind_eq_some_iff.mpr ⟨s₂', h₂', h₃'⟩, ht₃⟩

end Step

/-- **Per-ticket accounting is exact** at every command boundary of every run, and
the poison of other tickets does not reach a ticket. -/
theorem ticket_accounting_exact [BEq O] (config : InsertBatcherConfig) (start : Nat)
    (poison : Tagged R → Bool) (events : List (LineEvent O R)) (s : Line O R)
    (hs : (Line.new start).run config poison events = some s) (chunk : LogChunk O (Tagged R))
    (hc : chunk ∈ s.sent) (hne : chunk.records ≠ []) :
    Exact s chunk ∧
      ∀ poison' : Tagged R → Bool, (∀ r, r.ticket = chunk.commitSeq → poison r = poison' r) →
        ∃ s', (Line.new start).run config poison' events = some s' ∧
          s'.ledger.state chunk.commitSeq = s.ledger.state chunk.commitSeq := by
  have hnew := good_new (O := O) (R := R) config start
  obtain ⟨received, ops, emitted, done, rest, h⟩ := good_run hnew hs
  refine ⟨h.exact hc hne, fun poison' ha => ?_⟩
  have h0 : chunk.commitSeq ≠ 0 := Nat.ne_of_gt (h.issued chunk hc).1
  have hself : Twin chunk.commitSeq (Line.new start : Line O R) (Line.new start) :=
    ⟨_, _, _, rfl, rfl, rfl, wellFormed_new start, wellFormed_new start⟩
  obtain ⟨s', hs', ledger, table, quarantined, rfl, hagree⟩ := twin_run hnew hself h0 ha hs
  exact ⟨_, hs', hagree.state⟩

/-- Two origins, three records and two, batches of two. -/
def mixedEvents : List (LineEvent Nat Nat) :=
  [.send 0 [7, 8, 9], .send 1 [5, 6], .receive id 0, .receive id 0, .execute (.serve 0) 1,
    .timer 10, .execute (.serve 1) 2, .execute (.serve 0) 3]

def ninePoisoned (r : Tagged Nat) : Bool := r.payload == 9

def fiveToo (r : Tagged Nat) : Bool := r.payload == 9 || (r.ticket == 2 && r.payload == 5)

theorem ticket_accounting_exact_mixed :
    ∃ s s' : Line Nat Nat, (Line.new 0).run ⟨2, 1, by decide⟩ ninePoisoned mixedEvents = some s ∧
      Exact s ⟨0, tag 1 [7, 8, 9], 1⟩ ∧ s.ledger.state 1 = .failed ⟨2, 1⟩ ∧
      (Line.new 0).run ⟨2, 1, by decide⟩ fiveToo mixedEvents = some s' ∧
      s'.ledger.state 1 = s.ledger.state 1 := by
  obtain ⟨hexact, hother⟩ := ticket_accounting_exact ⟨2, 1, by decide⟩ 0 ninePoisoned mixedEvents
    (((Line.new 0).run ⟨2, 1, by decide⟩ ninePoisoned mixedEvents).get (by decide +kernel))
    (Option.some_get _).symm ⟨0, tag 1 [7, 8, 9], 1⟩ (by decide +kernel) (by decide)
  obtain ⟨s', hs', hstate⟩ := hother fiveToo fun r hr => by simp [ninePoisoned, fiveToo, hr]
  exact ⟨_, s', (Option.some_get _).symm, hexact, by decide +kernel, hs', hstate⟩

end OtelSqlite.Storage
