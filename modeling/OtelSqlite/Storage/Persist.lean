import Mathlib.Data.List.Zip
import OtelSqlite.Core.Commit
import OtelSqlite.Storage.TicketSegments

/-!
# Persisting one batch

The writer's policy for one insert batch: strict transactions with bounded
retries, one tolerant salvage pass after a poison error, exit on anything else.
SQLite is the environment. `Weather` says for each attempt which call fails and
how the failure is classified; a transaction that does not commit leaves nothing
behind. The rows a pass inserted and the records it quarantined are kept beside
the counts the source computes.
-/

namespace OtelSqlite.Storage

open OtelSqlite.Core OtelSqlite.Core.Commit

variable {O T : Type}

inductive FailureClass where
  | retryable
  | poison
  | fatal
  deriving DecidableEq, Repr

/-- How SQLite answers during one transaction; `none` is success. -/
structure Attempt (T : Type) where
  begin : Option FailureClass
  resolve : Option FailureClass
  execute : Nat → T → Option FailureClass
  commit : Option FailureClass

structure SalvageOutcome where
  kept : Nat
  dropped : Nat
  byTicket : Nat → Option (Nat × Nat)

def SalvageOutcome.ofTicket (outcome : SalvageOutcome) (ticket : Nat) : Nat × Nat :=
  (outcome.byTicket ticket).getD (0, 0)

/-- One insert pass so far. -/
structure Pass (T : Type) where
  inserted : List T
  quarantined : List T
  outcome : SalvageOutcome

def Pass.start : Pass T := ⟨[], [], ⟨0, 0, fun _ => none⟩⟩

def Pass.keep (pass : Pass T) (record : T) (tolerant : Bool) (ticket : Nat) : Pass T where
  inserted := pass.inserted ++ [record]
  quarantined := pass.quarantined
  outcome :=
    { pass.outcome with
      kept := pass.outcome.kept + 1
      byTicket :=
        if tolerant = true ∧ ticket ≠ 0 then
          Function.update pass.outcome.byTicket ticket
            (some ((pass.outcome.ofTicket ticket).1 + 1, (pass.outcome.ofTicket ticket).2))
        else pass.outcome.byTicket }

def Pass.drop (pass : Pass T) (record : T) (ticket : Nat) : Pass T where
  inserted := pass.inserted
  quarantined := pass.quarantined ++ [record]
  outcome :=
    { pass.outcome with
      dropped := pass.outcome.dropped + 1
      byTicket :=
        if ticket ≠ 0 then
          Function.update pass.outcome.byTicket ticket
            (some ((pass.outcome.ofTicket ticket).1, (pass.outcome.ofTicket ticket).2 + 1))
        else pass.outcome.byTicket }

/-- The record loop of `insert_logs_inner`, from the `i`-th record on. -/
def insertLoop (attempt : Attempt T) (tolerant : Bool) :
    Nat → List (T × Nat) → Pass T → Except FailureClass (Pass T)
  | _, [], pass => .ok pass
  | i, (record, ticket) :: rest, pass =>
    match attempt.execute i record with
    | none => insertLoop attempt tolerant (i + 1) rest (pass.keep record tolerant ticket)
    | some failure =>
      if tolerant = true ∧ failure = .poison then
        insertLoop attempt tolerant (i + 1) rest (pass.drop record ticket)
      else .error failure

def insertLogsInner (attempt : Attempt T) (batch : LogWriteBatch O T) (tolerant : Bool) :
    Except FailureClass (Pass T) :=
  match attempt.resolve with
  | some failure => .error failure
  | none =>
    let tickets := expand batch.segments ++ List.replicate batch.records.length 0
    insertLoop attempt tolerant 0 (batch.records.zip tickets) Pass.start

/-- One transaction around an insert pass: strict in `run_transaction`, tolerant
in `finish_salvage`. -/
def transaction (attempt : Attempt T) (batch : LogWriteBatch O T) (tolerant : Bool) :
    Except FailureClass (Pass T) :=
  match attempt.begin with
  | some failure => .error failure
  | none =>
    match insertLogsInner attempt batch tolerant with
    | .error failure => .error failure
    | .ok pass =>
      match attempt.commit with
      | some failure => .error failure
      | none => .ok pass

def maxTransientRetries : Nat := 4

/-- The attempts SQLite serves for one command. -/
structure Weather (T : Type) where
  strict : Nat → Attempt T
  salvage : Attempt T
  /-- The answer to a checkpoint or maintenance operation. -/
  upkeep : Option FailureClass

/-- How a batch was persisted: `none` stands for the strict pass. -/
structure Persisted (T : Type) where
  salvage : Option SalvageOutcome
  inserted : List T
  quarantined : List T

/-- One round of the policy loop; `retry` is what a retryable failure leads to. -/
def persistRound (weather : Weather T) (batch : LogWriteBatch O T) (attempt : Attempt T)
    (retry : Except FailureClass (Persisted T)) : Except FailureClass (Persisted T) :=
  match transaction attempt batch false with
  | .ok pass => .ok ⟨none, pass.inserted, pass.quarantined⟩
  | .error .poison =>
    match transaction weather.salvage batch true with
    | .ok pass => .ok ⟨some pass.outcome, pass.inserted, pass.quarantined⟩
    | .error failure => .error failure
  | .error .retryable => retry
  | .error .fatal => .error .fatal

/-- The policy loop with the given number of retries left. -/
def persistLoop (weather : Weather T) (batch : LogWriteBatch O T) :
    Nat → Except FailureClass (Persisted T)
  | 0 => persistRound weather batch (weather.strict maxTransientRetries) (.error .retryable)
  | retries + 1 =>
    persistRound weather batch (weather.strict (maxTransientRetries - (retries + 1)))
      (persistLoop weather batch retries)

def persistWithPolicy (weather : Weather T) (batch : LogWriteBatch O T) :
    Except FailureClass (Persisted T) :=
  persistLoop weather batch maxTransientRetries

/-- The ledger calls of `settle_log_batch`, in order. -/
def settleLogBatch (batch : LogWriteBatch O T) (salvage : Option SalvageOutcome) (now : Nat) :
    List Call :=
  if batch.segments = [] then
    -- Batches without a ticket map: a salvage drop fails every referenced ticket.
    let dropped := (salvage.map SalvageOutcome.dropped).getD 0
    batch.commitSeqs.flatMap fun seq =>
      (if 0 < dropped then [.noteDropped seq dropped] else []) ++ [.complete seq now]
  else
    match salvage with
    | none =>
      batch.segments.flatMap fun g =>
        .noteCommitted g.commitSeq g.records ::
          if g.complete then [.complete g.commitSeq now] else []
    | some outcome =>
      (batch.commitSeqs.flatMap fun seq =>
        (if 0 < (outcome.ofTicket seq).1 then [.noteCommitted seq (outcome.ofTicket seq).1] else []) ++
          if 0 < (outcome.ofTicket seq).2 then [.noteDropped seq (outcome.ofTicket seq).2] else []) ++
      batch.segments.flatMap fun g =>
        if g.complete then [.complete g.commitSeq now] else []

/-- What a command leaves behind when it does not fail: the rows of its
transaction, the quarantined records and the ledger calls that follow. -/
structure Effect (T : Type) where
  inserted : List T
  quarantined : List T
  calls : List Call

def execute (weather : Weather T) (now : Nat) :
    WriteCommand O T → Except FailureClass (Effect T)
  | .insertLogs batch =>
    if batch.records = [] then .ok ⟨[], [], batch.commitSeqs.map fun seq => .void seq now⟩
    else
      match persistWithPolicy weather batch with
      | .error failure => .error failure
      | .ok persisted =>
        .ok ⟨persisted.inserted, persisted.quarantined,
          settleLogBatch batch persisted.salvage now⟩
  | .flush => .ok ⟨[], [], []⟩
  | .checkpoint | .maintenance =>
    match weather.upkeep with
    | some failure => .error failure
    | none => .ok ⟨[], [], []⟩

/-- A row with the verdict of the insert pass: was it kept? -/
abbrev Judged (T : Type) := Row T × Bool

def keptRows (judged : List (Judged T)) : List (Row T) :=
  (judged.filter fun j => j.2).map Prod.fst

def droppedRows (judged : List (Judged T)) : List (Row T) :=
  (judged.filter fun j => !j.2).map Prod.fst

/-- How many rows of the ticket were kept, and how many dropped. -/
def tally (t : Nat) (judged : List (Judged T)) : Nat × Nat :=
  ((keptRows judged).countP fun r => r.1.ticket == t,
    (droppedRows judged).countP fun r => r.1.ticket == t)

variable {pass : Pass T} {tolerant : Bool} {judged : List (Judged T)} {attempt : Attempt T}
  {batch : LogWriteBatch O T} {P : Pass T → List (Judged T) → Prop} {weather : Weather T}

theorem keptRows_append (xs ys : List (Judged T)) :
    keptRows (xs ++ ys) = keptRows xs ++ keptRows ys := by simp [keptRows]

theorem droppedRows_append (xs ys : List (Judged T)) :
    droppedRows (xs ++ ys) = droppedRows xs ++ droppedRows ys := by simp [droppedRows]

theorem tally_append (t : Nat) (xs ys : List (Judged T)) :
    tally t (xs ++ ys) = ((tally t xs).1 + (tally t ys).1, (tally t xs).2 + (tally t ys).2) := by
  simp [tally, keptRows_append, droppedRows_append]

/-- A pass agrees with the verdicts on the rows it has seen. -/
structure Pass.Tracks (pass : Pass T) (tolerant : Bool) (judged : List (Judged T)) : Prop where
  inserted : pass.inserted = (keptRows judged).map Prod.snd
  quarantined : pass.quarantined = (droppedRows judged).map Prod.snd
  byTicket : tolerant = true → ∀ t, t ≠ 0 → pass.outcome.ofTicket t = tally t judged
  strict : tolerant = false → droppedRows judged = []

theorem Pass.tracks_start (tolerant : Bool) : (Pass.start : Pass T).Tracks tolerant [] :=
  ⟨rfl, rfl, fun _ _ _ => rfl, fun _ => rfl⟩

theorem Pass.Tracks.keep (h : pass.Tracks tolerant judged) (label : Label) (record : T) :
    (pass.keep record tolerant label.ticket).Tracks tolerant (judged ++ [((label, record), true)]) where
  inserted := by simp [Pass.keep, h.inserted, keptRows]
  quarantined := by simp [Pass.keep, h.quarantined, droppedRows]
  byTicket := by
    intro ht t h0
    have hold := h.byTicket ht t h0
    rw [tally_append]
    by_cases he : label.ticket = t
    · subst he
      simp [Pass.keep, ht, h0, SalvageOutcome.ofTicket, tally, keptRows, droppedRows] at hold ⊢
      simp [hold]
    · simp only [Pass.keep, ht, SalvageOutcome.ofTicket] at hold ⊢
      split_ifs
      · simp [Function.update_of_ne (Ne.symm he), hold, tally, keptRows, droppedRows, he]
      · simp [hold, tally, keptRows, droppedRows, he]
  strict := by
    intro ht
    rw [droppedRows_append, h.strict ht]
    rfl

theorem Pass.Tracks.drop (h : pass.Tracks true judged) (label : Label) (record : T) :
    (pass.drop record label.ticket).Tracks true (judged ++ [((label, record), false)]) where
  inserted := by simp [Pass.drop, h.inserted, keptRows]
  quarantined := by simp [Pass.drop, h.quarantined, droppedRows]
  byTicket := by
    intro ht t h0
    have hold := h.byTicket ht t h0
    rw [tally_append]
    by_cases he : label.ticket = t
    · subst he
      simp [Pass.drop, h0, SalvageOutcome.ofTicket, tally, keptRows, droppedRows] at hold ⊢
      simp [hold]
    · simp only [Pass.drop, SalvageOutcome.ofTicket] at hold ⊢
      split_ifs
      · simp [Function.update_of_ne (Ne.symm he), hold, tally, keptRows, droppedRows, he]
      · simp [hold, tally, keptRows, droppedRows, he]
  strict := by
    intro ht
    cases ht

/-- The verdicts of an attempt on rows that start at index `i`. -/
def judge (attempt : Attempt T) : Nat → List (Row T) → List (Judged T)
  | _, [] => []
  | i, r :: rs => (r, (attempt.execute i r.2).isNone) :: judge attempt (i + 1) rs

@[simp] theorem judge_map_fst (attempt : Attempt T) (i : Nat) (rows : List (Row T)) :
    (judge attempt i rows).map Prod.fst = rows := by
  induction rows generalizing i with
  | nil => rfl
  | cons r rs ih => simp [judge, ih]

/-- What the loop reads: each record with the ticket of its label. -/
def stream (rows : List (Row T)) : List (T × Nat) := rows.map fun r => (r.2, r.1.ticket)

/-- The tickets the loop zips with the records are those of the labels. -/
theorem zip_expand (h : (labelsOf batch.segments).length = batch.records.length) :
    batch.records.zip (expand batch.segments ++ List.replicate batch.records.length 0) =
      stream (rowsOf batch) := by
  have hlen : batch.records.length = (expand batch.segments).length := by
    rw [expand_eq, List.length_map, h]
  have hzip : (batch.records ++ []).zip
      (expand batch.segments ++ List.replicate batch.records.length 0) =
        batch.records.zip (expand batch.segments) ++ [] := List.zip_append hlen
  rw [List.append_nil, List.append_nil] at hzip
  rw [hzip, expand_eq, rowsOf, stream, List.zip_map_right, ← List.zip_swap, List.map_map]
  rfl

section Induction

variable (hkeep : ∀ {pass judged} (label : Label) (record : T), P pass judged →
    P (pass.keep record tolerant label.ticket) (judged ++ [((label, record), true)]))
  (hdrop : tolerant = true → ∀ {pass judged} (label : Label) (record : T), P pass judged →
    P (pass.drop record label.ticket) (judged ++ [((label, record), false)]))
include hkeep hdrop

/-- The induction over the record loop: what a kept and a dropped row keep up holds of the
verdicts on all rows. -/
theorem insertLoop_invariant {rows : List (Row T)} {i : Nat} {pass' : Pass T} (h : P pass judged)
    (hok : insertLoop attempt tolerant i (stream rows) pass = .ok pass') :
    P pass' (judged ++ judge attempt i rows) := by
  induction rows generalizing i pass judged with
  | nil =>
    obtain rfl : pass = pass' := by simpa [stream, insertLoop] using hok
    simpa [judge] using h
  | cons r rs ih =>
    simp only [stream, List.map_cons, insertLoop] at hok
    cases he : attempt.execute i r.2 with
    | none =>
      rw [he] at hok
      have hnext := ih (hkeep r.1 r.2 h) hok
      simpa [judge, he] using hnext
    | some failure =>
      rw [he] at hok
      dsimp only at hok
      split_ifs at hok with hc
      have hnext := ih (hdrop hc.1 r.1 r.2 h) hok
      simpa [judge, he] using hnext

theorem insertLogsInner_invariant (hl : (labelsOf batch.segments).length = batch.records.length)
    (h : P Pass.start []) (hok : insertLogsInner attempt batch tolerant = .ok pass) :
    P pass (judge attempt 0 (rowsOf batch)) := by
  unfold insertLogsInner at hok
  split at hok
  · cases hok
  · dsimp only at hok
    rw [zip_expand hl] at hok
    exact insertLoop_invariant hkeep hdrop h hok

end Induction

theorem insertLogsInner_tracks (h : (labelsOf batch.segments).length = batch.records.length)
    (hok : insertLogsInner attempt batch tolerant = .ok pass) :
    pass.Tracks tolerant (judge attempt 0 (rowsOf batch)) := by
  refine insertLogsInner_invariant (P := fun pass judged => pass.Tracks tolerant judged)
    (fun label record ht => ht.keep label record) ?_ h (Pass.tracks_start tolerant) hok
  rintro rfl pass judged label record ht
  exact ht.drop label record

theorem transaction_tracks (h : (labelsOf batch.segments).length = batch.records.length)
    (hok : transaction attempt batch tolerant = .ok pass) :
    pass.Tracks tolerant (judge attempt 0 (rowsOf batch)) := by
  unfold transaction at hok
  split at hok
  · cases hok
  · split at hok
    · cases hok
    · rename_i pass' hins
      split at hok
      · cases hok
      · obtain rfl : pass' = pass := by simpa using hok
        exact insertLogsInner_tracks h hins

/-- A persisted batch, row by row. -/
structure PersistedAs (batch : LogWriteBatch O T) (p : Persisted T) (judged : List (Judged T)) :
    Prop where
  rows : judged.map Prod.fst = rowsOf batch
  inserted : p.inserted = (keptRows judged).map Prod.snd
  quarantined : p.quarantined = (droppedRows judged).map Prod.snd
  strict : p.salvage = none → droppedRows judged = []
  salvaged : ∀ outcome, p.salvage = some outcome → ∀ t, t ≠ 0 → outcome.ofTicket t = tally t judged

theorem Pass.Tracks.persistedAs (h : pass.Tracks tolerant (judge attempt 0 (rowsOf batch))) :
    PersistedAs batch
      ⟨if tolerant then some pass.outcome else none, pass.inserted, pass.quarantined⟩
      (judge attempt 0 (rowsOf batch)) where
  rows := judge_map_fst attempt 0 _
  inserted := h.inserted
  quarantined := h.quarantined
  strict := by
    intro hs
    cases tolerant with
    | false => exact h.strict rfl
    | true => cases hs
  salvaged := by
    intro outcome hs t h0
    cases tolerant with
    | false => cases hs
    | true =>
      obtain rfl : pass.outcome = outcome := Option.some.inj hs
      exact h.byTicket rfl t h0

/-- One round ends as it does for a reason: the strict pass committed, the salvage
pass did, or a retry was due. -/
theorem persistRound_cases {retry : Except FailureClass (Persisted T)} {p : Persisted T}
    (h : (labelsOf batch.segments).length = batch.records.length)
    (hok : persistRound weather batch attempt retry = .ok p) :
    (∃ a, PersistedAs batch p (judge a 0 (rowsOf batch))) ∨ retry = .ok p := by
  unfold persistRound at hok
  split at hok
  · rename_i pass hpass
    obtain rfl := Except.ok.inj hok
    exact Or.inl ⟨attempt, (transaction_tracks h hpass).persistedAs⟩
  · split at hok
    · rename_i pass hpass
      obtain rfl := Except.ok.inj hok
      exact Or.inl ⟨weather.salvage, (transaction_tracks h hpass).persistedAs⟩
    · cases hok
  · exact Or.inr hok
  · cases hok

theorem persistLoop_spec {retries : Nat} {p : Persisted T}
    (h : (labelsOf batch.segments).length = batch.records.length)
    (hok : persistLoop weather batch retries = .ok p) :
    ∃ a, PersistedAs batch p (judge a 0 (rowsOf batch)) := by
  induction retries with
  | zero =>
    rcases persistRound_cases h hok with hdone | hretry
    · exact hdone
    · cases hretry
  | succ retries ih =>
    rcases persistRound_cases h hok with hdone | hretry
    · exact hdone
    · exact ih hretry

end OtelSqlite.Storage
