import OtelSqlite.Pipeline.Answers

/-!
# Durable acknowledgements over whole runs

Every step of the pipeline keeps the handlers' accounts, so that an answer once given
stays true for the rest of the run. The one hypothesis on the run is about the drop
guard of an unwinding batcher.
-/

namespace OtelSqlite.Pipeline

open OtelSqlite.Core OtelSqlite.Core.Commit OtelSqlite.Core.Batcher
open OtelSqlite.Storage OtelSqlite.Ingress

variable {O R : Type} [BEq O] {setup : Setup O R} {p p' : Server O R}
  {done done' : List (Done O (Exported R))} {i : Nat} {e : Event R}
  {before after events : List (Event R)}

theorem frozen_step (hb : p.Booked setup done) (hs : p.step setup e = some p')
    (hsent : sentBy p'.ingress.sent i = sentBy p.ingress.sent i) (hf : p.Frozen i) :
    p'.Frozen i := by
  obtain ⟨received, ops, emitted, rest, h⟩ := hb
  rcases hf with hq | hsettled
  · exact Or.inl (quiet_step hq hs)
  · refine Or.inr fun c hc => settled_step h.wellFormed hs (hsettled c ?_)
    rwa [← hsent]

/-- An executed batch holds no row of a frozen request. -/
theorem frozen_kept (hb : p.Booked setup done) {x : Done O (Exported R)}
    (hb' : p'.Booked setup (done ++ [x])) (hw : p.writer = .executing (.insertLogs x.batch))
    (hsent : sentBy p'.ingress.sent i = sentBy p.ingress.sent i) (hf : p.Frozen i)
    {c : LogChunk O (Exported R)} (hc : c ∈ sentBy p.ingress.sent i) :
    keptOf (done ++ [x]) c.commitSeq = keptOf done c.commitSeq := by
  have hsettled : IsSettledState (p.ledger.state c.commitSeq) := by
    rcases hf with hq | hs
    · exact absurd hw (hq.no_insert x.batch)
    · exact hs c hc
  have hexp := hb.state_eq (mem_chunksSent.mpr ⟨i, hc⟩) (Or.inl hsettled)
  rw [hexp] at hsettled
  have hclosed : closedIn c.commitSeq done = true := by
    by_contra hopen
    simp [expectedState, hopen, IsSettledState] at hsettled
  obtain ⟨tail, hfol⟩ := hb'.follows (mem_chunksSent.mpr ⟨i, hsent ▸ hc⟩)
  have hl := hb'.labelled
  rw [batchesOf, List.map_append] at hfol hl
  have hnil := hfol.split.closed (fun b hm => hl b (List.mem_append_left _ hm))
    (closedIn_iff.mp hclosed)
  obtain ⟨htally, -⟩ := untouched (x := x) (t := c.commitSeq)
    (fun b hm => hl b (List.mem_append_right _ hm)) (List.append_eq_nil_iff.mp hnil).1
  have hnone : (keptRows x.judged).filter (fun r => r.1.ticket == c.commitSeq) = [] := by
    rw [← List.length_eq_zero_iff, ← List.countP_eq_length_filter]
    exact congrArg Prod.fst htally
  rw [keptOf, keptRows_concat, List.filter_append, hnone, List.append_nil]
  rfl

/-- A handler's account survives a step of another thread. -/
theorem HandlerOk.transfer (hb : p.Booked setup done) (hb' : p'.Booked setup done')
    (hs : p.step setup e = some p') (hne : p.handlers i ≠ .enqueueing)
    (hkept : p.Frozen i → ∀ c ∈ sentBy p.ingress.sent i,
      keptOf done' c.commitSeq = keptOf done c.commitSeq) {handler : Handler}
    (hk : HandlerOk setup p done i handler) : HandlerOk setup p' done' i handler := by
  obtain ⟨hcalls, hsent⟩ := request_step hs hne
  have hended : ∀ outcome, Ended p i outcome → Ended p' i outcome := by
    intro outcome he
    rw [Ended, hcalls]
    exact he
  cases handler with
  | received => exact hcalls.trans hk
  | enqueueing => trivial
  | waiting outcome => exact hended outcome hk
  | reading left count outcome =>
    obtain ⟨he, hf, read, htickets, hcount⟩ := hk
    refine ⟨hended outcome he, frozen_step hb hs hsent hf, read, htickets, ?_⟩
    rw [hcount]
    refine congrArg List.sum (List.map_congr_left fun t ht => ?_)
    have hm : t ∈ outcome.tickets := by
      rw [htickets]
      exact List.mem_append_left _ ht
    rw [(he.outcomeOf hb.admission).tickets] at hm
    obtain ⟨c, hc, rfl⟩ := List.mem_map.mp hm
    rw [hkept hf c hc]
  | answered answer =>
    obtain ⟨hf, hack⟩ := hk
    refine ⟨frozen_step hb hs hsent hf, ?_⟩
    have hsame : (p'.committedOf i).Perm (p.committedOf i) := by
      refine (hb'.committedOf_perm i).trans (List.Perm.trans ?_ (hb.committedOf_perm i).symm)
      rw [hsent]
      exact List.Perm.of_eq (List.flatMap_congr fun c hc => hkept hf c hc)
    match answer, hack with
    | .ok ⟨none⟩, hack => exact hsame.trans hack
    | .ok ⟨some rejection⟩, hack =>
      change (p'.committedOf i).length + _ = _
      rw [hsame.length_eq]
      exact hack
    | .error status, hack =>
      change p'.committedOf i = []
      rw [show p.committedOf i = [] from hack] at hsame
      exact List.perm_nil.mp hsame

/-- What holds in every state of a run. -/
structure Sound (setup : Setup O R) (p : Server O R) (done : List (Done O (Exported R))) : Prop where
  booked : p.Booked setup done
  quiet : p.ledger.inner.closed = true → p.Quiet
  handlers : ∀ i, HandlerOk setup p done i (p.handlers i)

theorem sound_new (setup : Setup O R) (start : Nat) : Sound setup (Server.new start) [] :=
  ⟨booked_new setup start, fun hc => (by cases hc), fun _ => rfl⟩

theorem sound_step (h : Sound setup p done) (hclean : GuardQuiet p e)
    (hs : p.step setup e = some p') : ∃ done', Sound setup p' done' ∧ p.table <+: p'.table := by
  have hquiet := closed_quiet_step h.booked h.quiet hclean hs
  have hother : ∀ done', p'.Booked setup done' → (∀ i, p.Frozen i →
      ∀ c ∈ sentBy p.ingress.sent i, sentBy p'.ingress.sent i = sentBy p.ingress.sent i →
        keptOf done' c.commitSeq = keptOf done c.commitSeq) →
      ∀ i, e ≠ .handle i → HandlerOk setup p' done' i (p'.handlers i) := by
    intro done' hb' hkept i he
    rw [handler_step hs he]
    by_cases hne : p.handlers i = .enqueueing
    · rw [hne]
      trivial
    · exact HandlerOk.transfer h.booked hb' hs hne
        (fun hf c hc => hkept i hf c hc (request_step hs hne).2) (h.handlers i)
  rcases Classical.em (∃ k, e = .handle k) with ⟨k, rfl⟩ | hnot
  · have hb' := booked_handle h.booked hs
    obtain ⟨handler, rfl, hk⟩ := handle_ok h.booked h.quiet (h.handlers k) hs
    refine ⟨done, ⟨hb', hquiet, fun i => ?_⟩, List.prefix_rfl⟩
    by_cases hik : i = k
    · subst hik
      have hself : (p.goto i handler).handlers i = handler := Function.update_self ..
      rw [hself]
      exact hk
    · exact hother done hb' (fun _ _ _ _ _ => rfl) i fun he => hik (by cases he; rfl)
  · rcases booked_step h.booked hs with hb' | ⟨x, hw, hb'⟩
    · refine ⟨done, ⟨hb', hquiet, fun i => ?_⟩, ?_⟩
      · exact hother done hb' (fun _ _ _ _ _ => rfl) i fun he => hnot ⟨i, he⟩
      · rw [hb'.table_eq, ← h.booked.table_eq]
    · refine ⟨done ++ [x], ⟨hb', hquiet, fun i => ?_⟩, ?_⟩
      · exact hother _ hb' (fun k hf c hc hsent => frozen_kept h.booked hb' hw hsent hf hc) i
          fun he => hnot ⟨i, he⟩
      · rw [hb'.table_eq, keptRows_concat, List.map_append, ← h.booked.table_eq]
        exact List.prefix_append _ _

/-- An answer is given once. -/
theorem answered_step (hs : p.step setup e = some p') {answer : Answer}
    (ha : p.handlers i = .answered answer) : p'.handlers i = .answered answer := by
  by_cases he : e = .handle i
  · subst he
    simp only [Server.step, Server.handleStep, ha] at hs
    cases hs
  · rw [handler_step hs he]
    exact ha

/-- Whenever the drop guard of an unwinding batcher closes the ledger, the pipeline is
quiet: the writer is gone, or no batch is queued, executing or being settled. -/
def ClosesQuietly (setup : Setup O R) : Server O R → List (Event R) → Prop
  | _, [] => True
  | p, e :: events => GuardQuiet p e ∧ ∀ p' ∈ p.step setup e, ClosesQuietly setup p' events

instance decidableClosesQuietly (setup : Setup O R) :
    ∀ (p : Server O R) (events : List (Event R)), Decidable (ClosesQuietly setup p events)
  | _, [] => isTrue trivial
  | p, e :: events =>
    have := fun p' => decidableClosesQuietly setup p' events
    inferInstanceAs
      (Decidable (GuardQuiet p e ∧ ∀ p' ∈ p.step setup e, ClosesQuietly setup p' events))

theorem closesQuietly_append (h : ClosesQuietly setup p (before ++ after)) :
    ClosesQuietly setup p before ∧
      ∀ p', p.run setup before = some p' → ClosesQuietly setup p' after := by
  induction before generalizing p with
  | nil => exact ⟨trivial, fun p' hp => Option.some.inj hp ▸ h⟩
  | cons e before ih =>
    refine ⟨⟨h.1, fun p' hp => (ih (h.2 p' hp)).1⟩, fun p' hp => ?_⟩
    obtain ⟨p₁, h₁, hrest⟩ := Option.bind_eq_some_iff.mp hp
    exact (ih (h.2 p₁ h₁)).2 p' hrest

theorem sound_run (h : Sound setup p done) (hc : ClosesQuietly setup p events)
    (hs : p.run setup events = some p') :
    (∃ done', Sound setup p' done') ∧ p.table <+: p'.table ∧
      ∀ i answer, p.handlers i = .answered answer → p'.handlers i = .answered answer := by
  induction events generalizing p done with
  | nil =>
    obtain rfl := Option.some.inj hs
    exact ⟨⟨done, h⟩, List.prefix_rfl, fun _ _ ha => ha⟩
  | cons e events ih =>
    obtain ⟨p₁, h₁, hrest⟩ := Option.bind_eq_some_iff.mp hs
    obtain ⟨done₁, hsound, htable⟩ := sound_step h hc.1 h₁
    obtain ⟨hfinal, hgrow, hkeep⟩ := ih hsound (hc.2 p₁ h₁) hrest
    exact ⟨hfinal, htable.trans hgrow, fun i answer ha => hkeep i answer (answered_step h₁ ha)⟩

/-- Along a run that closes quietly, the table grows and every answer is exact from
the state in which it is given on. -/
theorem answers_exact {start : Nat} {q : Server O R}
    (hp : (Server.new start).run setup before = some p) (hq : p.run setup after = some q)
    (hc : ClosesQuietly setup (Server.new start) (before ++ after)) :
    p.table <+: q.table ∧ ∀ i answer, p.handlers i = .answered answer →
      q.handlers i = .answered answer ∧ AckExact setup q i answer := by
  obtain ⟨hbefore, hafter⟩ := closesQuietly_append hc
  obtain ⟨⟨done, hsound⟩, -, -⟩ := sound_run (sound_new setup start) hbefore hp
  obtain ⟨⟨done', hsound'⟩, hgrow, hkeep⟩ := sound_run hsound (hafter p hp) hq
  refine ⟨hgrow, fun i answer ha => ⟨hkeep i answer ha, ?_⟩⟩
  have hk := hsound'.handlers i
  rw [hkeep i answer ha] at hk
  exact hk.2

/-- Only a panic makes the batcher unwind. -/
theorem unwinding_step (hs : p.step setup e = some p') (hu : p'.batcher = .unwinding) :
    e = .unwind ∨ p.batcher = .unwinding := by
  cases step_inv hs with
  | unwind => exact Or.inl rfl
  | push | flush | timer | hangUp | refused | submitted | drained | close | leave => cases hu
  | offer ho =>
    obtain rfl := hu
    cases ho.live.2
  | _ => exact Or.inr hu

theorem closesQuietly_of_no_unwind (hp : p.batcher ≠ .unwinding) (h : ∀ e ∈ events, e ≠ .unwind) :
    ClosesQuietly setup p events := by
  induction events generalizing p with
  | nil => trivial
  | cons e events ih =>
    refine ⟨?_, fun p' hs => ?_⟩
    · unfold GuardQuiet
      split
      · rename_i hu
        exact absurd hu hp
      · trivial
    refine ih (fun hu => ?_) fun x hx => h x (List.mem_cons_of_mem _ hx)
    rcases unwinding_step hs hu with he | hold
    · exact h e List.mem_cons_self he
    · exact hp hold

/-- **Durable acknowledgements are exact**: without a panic of the batcher, the table
only grows, and an answer is exact in the state in which it is given and in every
later one. -/
theorem durable_acks_exact (setup : Setup O R) (start : Nat) (before after : List (Event R))
    (p q : Server O R) (hp : (Server.new start).run setup before = some p)
    (hq : p.run setup after = some q) (hbatcher : ∀ e ∈ before ++ after, e ≠ .unwind) :
    p.table <+: q.table ∧ ∀ i answer, p.handlers i = .answered answer →
      q.handlers i = .answered answer ∧ AckExact setup q i answer :=
  answers_exact hp hq (closesQuietly_of_no_unwind (by simp [Server.new]) hbatcher)

/-- One origin, batches of two; a request with three records and one with two. -/
def twoRequests : Setup Nat Nat where
  queue := ⟨4, by decide⟩
  batching := ⟨2, 10, Nat.two_pos⟩
  commandQueueCapacity := 4
  maxRecordsPerRequest := 100
  validated := by decide
  requests := fun
    | 0 => [⟨7, [1, 2, 3], by decide⟩]
    | 1 => [⟨7, [4, 5], by decide⟩]
    | _ => []
  deadline := fun _ => none

/-- SQLite refuses the records with the given payloads. -/
def refusing (payloads : List Nat) : Weather (Exported Nat) :=
  (Verdict.serve 0).weather fun r => r.payload ∈ payloads

/-- Both requests are queued, batched and written; record 5 is poisoned. -/
def bothWritten : List (Event Nat) :=
  [[.handle 0], .replicate 6 (.enqueue 0 0), [.handle 1], .replicate 6 (.enqueue 1 0),
    [.handle 0, .handle 1, .receive id 0, .submit, .submit, .receive id 0, .submit, .submit,
      .timer 20, .submit, .submit],
    [.take, .persist (refusing [5]) 1, .settle, .settle],
    [.take, .persist (refusing [5]) 2, .settle, .settle, .settle, .settle, .publish 0],
    [.take, .persist (refusing [5]) 3, .settle, .settle, .settle, .publish 0],
    [.handle 0, .handle 0, .handle 0, .handle 1, .handle 1, .handle 1]].flatten

theorem durable_acks_exact_two :
    ∃ p : Server Nat Nat, (Server.new 0).run twoRequests bothWritten = some p ∧
      p.handlers 0 = .answered (.ok ⟨none⟩) ∧
      (p.committedOf 0).Perm (twoRequests.recordsOf 0) ∧
      (p.committedOf 1).length + 1 = twoRequests.totalRecords 1 := by
  obtain ⟨-, hacks⟩ := durable_acks_exact twoRequests 0 bothWritten []
    (((Server.new 0).run twoRequests bothWritten).get (by decide +kernel)) _
    (Option.some_get _).symm rfl (by simp [bothWritten])
  exact ⟨_, (Option.some_get _).symm, by decide +kernel,
    (hacks 0 (.ok ⟨none⟩) (by decide +kernel)).2,
    (hacks 1 (.ok (partialSuccess 1
      "storage accepted part of the request; retry only the rejected records"))
      (by decide +kernel)).2⟩

/-- **No retryable answer for data that becomes durable**, in the runs in which an
unwinding batcher closes the ledger quietly. -/
theorem unavailable_never_durable (setup : Setup O R) (start : Nat) (before after : List (Event R))
    (p q : Server O R) (hp : (Server.new start).run setup before = some p)
    (hq : p.run setup after = some q)
    (hclean : ClosesQuietly setup (Server.new start) (before ++ after)) (i : Nat)
    (message : String) (ha : p.handlers i = .answered (.error (.unavailable message))) :
    q.committedOf i = [] :=
  ((answers_exact hp hq hclean).2 i _ ha).2

/-- The batcher queues the two full batches, then it panics and its guard closes the
ledger: both handlers answer from the states at the close. -/
def closedEarly : List (Event Nat) :=
  [[.handle 0], .replicate 6 (.enqueue 0 0), [.handle 1], .replicate 6 (.enqueue 1 0),
    [.handle 0, .handle 1, .receive id 0, .submit, .submit, .receive id 0, .submit, .submit],
    [.unwind, .batcherExit, .publish 0],
    [.handle 0, .handle 0, .handle 0, .handle 1, .handle 1, .handle 1]].flatten

/-- The writer goes on with the commands in its queue. -/
def queuedBatches : List (Event Nat) :=
  [.take, .persist (refusing []) 1, .settle, .settle, .take, .persist (refusing []) 2]

theorem unavailable_for_durable :
    ¬ ∀ (setup : Setup Nat Nat) (start : Nat) (before after : List (Event Nat))
      (p q : Server Nat Nat), (Server.new start).run setup before = some p →
      p.run setup after = some q → ∀ i message,
      p.handlers i = .answered (.error (.unavailable message)) → q.committedOf i = [] := by
  intro h
  have hnil := h twoRequests 0 closedEarly queuedBatches
    (((Server.new 0).run twoRequests closedEarly).get (by decide +kernel))
    ((Server.run twoRequests (((Server.new 0).run twoRequests closedEarly).get (by decide +kernel))
      queuedBatches).get (by decide +kernel))
    (Option.some_get _).symm (Option.some_get _).symm 0
    "storage pipeline shut down before commit" (by decide +kernel)
  revert hnil
  decide +kernel

/-- The batcher panics before it takes the chunk. -/
def closedQuietly : List (Event Nat) :=
  [[.handle 1], .replicate 6 (.enqueue 1 0), [.handle 1, .unwind, .batcherExit, .publish 0],
    [.handle 1, .handle 1, .handle 1]].flatten

theorem unavailable_never_durable_unread :
    ∃ p q : Server Nat Nat, (Server.new 0).run twoRequests closedQuietly = some p ∧
      p.run twoRequests [.upkeep true, .take, .persist (refusing []) 1] = some q ∧
      p.handlers 1 = .answered (.error (.unavailable "storage pipeline shut down before commit")) ∧
      q.committedOf 1 = [] :=
  ⟨((Server.new 0).run twoRequests closedQuietly).get (by decide +kernel),
    (Server.run twoRequests
      (((Server.new 0).run twoRequests closedQuietly).get (by decide +kernel))
      [.upkeep true, .take, .persist (refusing []) 1]).get (by decide +kernel),
    (Option.some_get _).symm, (Option.some_get _).symm, by decide +kernel,
    unavailable_never_durable twoRequests 0 closedQuietly
      [.upkeep true, .take, .persist (refusing []) 1] _ _ (Option.some_get _).symm
      (Option.some_get _).symm (by decide +kernel) 1 "storage pipeline shut down before commit"
      (by decide +kernel)⟩

end OtelSqlite.Pipeline
