import OtelSqlite.Runtime.Threads

/-!
# The stall rule

The rule looks at the age of the progress marks, not at the age of the work. A
mark is only made when a thread gets something done, so after an idle period the
first piece of work becomes visible beside a mark as old as the idle period.
`Recent` is what the rule needs when a thread takes something up: the marks must
not expire before the step it starts is over, nor before a chunk it buffers is due.
-/

namespace OtelSqlite.Runtime

open OtelSqlite.Core OtelSqlite.Core.Batcher OtelSqlite.Core.Commit OtelSqlite.Storage
open OtelSqlite.Lib.Run

variable {O R : Type} {t : Nat}

namespace Threads

section Defs

variable (limit : Nat) (s : Threads O R)

/-- At `t` neither mark, as it stands, is `limit` old. -/
def Fresh (t : Nat) : Prop :=
  t < s.writerStats.lastProgressMs + limit ∧ t < s.batcherStats.lastProgressMs + limit

instance (t : Nat) : Decidable (s.Fresh limit t) := inferInstanceAs (Decidable (_ ∧ _))

/-- A command that will mark the writer's progress is queued or in execution. -/
def Owes : Prop :=
  (∃ c ∈ s.queue, executionMarks false c = true) ∨
    ∃ c ends, s.writer = .executing c ends ∧ executionMarks false c = true

/-- The evidence shows work. -/
def Visible : Prop :=
  0 < s.writerStats.queueDepth ∨ 0 < s.writerStats.inFlight ∨ 0 < s.batcherStats.bufferedRecords

/-- The invariant of the runs whose steps are all taken up in time. -/
structure Inv (config : InsertBatcherConfig) : Prop where
  active : s.buffers.Active config
  marked : s.writerStats.lastProgressMs ≤ s.now ∧ s.batcherStats.lastProgressMs ≤ s.now
  observed : s.batcher = .waiting → s.batcherStats.bufferedRecords = s.buffers.buffered
  armed : ∀ e ∈ s.buffers, ∀ d ∈ e.2.batcher.deadline, s.now ≤ d ∧ s.Fresh limit d
  handling : ∀ current rest ends, s.batcher = .busy current rest ends →
    s.now ≤ ends ∧ (0 < s.batcherStats.bufferedRecords →
      ends < s.batcherStats.lastProgressMs + limit ∧
        (ends < s.writerStats.lastProgressMs + limit ∨ s.Owes))
  marking : ∀ current rest ends, s.batcher = .busy current rest ends →
    ∀ c, c ∈ current ∨ c ∈ rest → submissionMarks c = true → executionMarks false c = true
  executing : ∀ c ends, s.writer = .executing c ends → s.now ≤ ends ∧ s.Fresh limit ends
  resting : s.writer = .waiting →
    s.writerStats.inFlight = 0 ∧ (0 < s.writerStats.queueDepth → s.queue ≠ [])
  visible : s.Visible → s.Fresh limit s.now

end Defs

variable {limit : Nat} {config : InsertBatcherConfig} {s s' : Threads O R}
  {buffers : OriginBuffers O R} {ends : Nat} {inbox : List (IngestMessage O R)}
  {current : Option (WriteCommand O R)} {rest : List (WriteCommand O R)}

theorem Fresh.mono {t' : Nat} (h : s.Fresh limit t') (ht : t ≤ t') : s.Fresh limit t :=
  ⟨ht.trans_lt h.1, ht.trans_lt h.2⟩

theorem exists_deadline (h : buffers.Active config) (hb : 0 < buffers.buffered) :
    ∃ e ∈ buffers, ∃ d, d ∈ e.2.batcher.deadline := by
  cases buffers with
  | nil => simp [OriginBuffers.buffered] at hb
  | cons e rest =>
    have hne := h.buffer_ne_nil List.mem_cons_self
    have hsome := (h e List.mem_cons_self).1.valid.armed.mpr hne
    exact ⟨e, List.mem_cons_self, Option.isSome_iff_exists.mp hsome⟩

/-- While a state lasts, the marks stay fresh as long as work is visible. -/
theorem Inv.pass (h : s.Inv limit config) (ht : s.Passes t) :
    { s with now := t }.Inv limit config := by
  rcases ht with rfl | ⟨hlt, hbatcher, hwriter, hdue⟩
  · exact h
  have hexec : ∀ c ends, s.writer = .executing c ends → t ≤ ends := by
    intro c ends hw
    simpa only [writerAllows, hw] using hwriter
  have hidle : s.writer = .waiting → s.queue = [] := by
    intro hw
    simpa only [writerAllows, hw] using hwriter
  have hbusy : ∀ current rest ends, s.batcher = .busy current rest ends → t ≤ ends := by
    intro current rest ends hb
    simpa only [batcherAllows, hb] using hbatcher
  refine ⟨h.active, ⟨h.marked.1.trans hlt.le, h.marked.2.trans hlt.le⟩, h.observed, ?_, ?_,
    h.marking, ?_, h.resting, ?_⟩
  · intro e he d hd
    exact ⟨hdue e he d hd, (h.armed e he d hd).2⟩
  · intro current rest ends hb
    exact ⟨hbusy current rest ends hb, (h.handling current rest ends hb).2⟩
  · intro c ends hw
    exact ⟨hexec c ends hw, (h.executing c ends hw).2⟩
  · intro hvisible
    cases hw : s.writer with
    | executing c ends => exact (h.executing c ends hw).2.mono (hexec c ends hw)
    | waiting =>
      obtain ⟨hflight, hdepth⟩ := h.resting hw
      have hgauge : 0 < s.batcherStats.bufferedRecords := by
        rcases hvisible with hv | hv | hv
        · exact absurd (hidle hw) (hdepth hv)
        · exact absurd hflight hv.ne'
        · exact hv
      cases hb : s.batcher with
      | waiting =>
        obtain ⟨e, he, d, hd⟩ := exists_deadline h.active (h.observed hb ▸ hgauge)
        exact (h.armed e he d hd).2.mono (hdue e he d hd)
      | busy current rest ends =>
        have hle := hbusy current rest ends hb
        obtain ⟨hB, hW⟩ := (h.handling current rest ends hb).2 hgauge
        refine ⟨lt_of_le_of_lt hle (hW.resolve_right ?_), hle.trans_lt hB⟩
        -- an idle writer with an empty queue owes nothing
        rintro (⟨c, hc, -⟩ | ⟨c, e, hc, -⟩)
        · rw [hidle hw] at hc
          exact absurd hc List.not_mem_nil
        · rw [hw] at hc
          cases hc

/-- Later marks keep what was fresh. -/
theorem Fresh.later (h : s.Fresh limit t)
    (hw : s.writerStats.lastProgressMs ≤ s'.writerStats.lastProgressMs)
    (hb : s.batcherStats.lastProgressMs ≤ s'.batcherStats.lastProgressMs) : s'.Fresh limit t := by
  unfold Fresh at h ⊢
  omega

section

variable (h : s.Inv limit config)
include h

/-- Marks may move up to now. -/
theorem Inv.remark {w b : Nat} (hw : s.writerStats.lastProgressMs ≤ w)
    (hb : s.batcherStats.lastProgressMs ≤ b) (hnow : w ≤ s.now ∧ b ≤ s.now) :
    { s with
      writerStats := { s.writerStats with lastProgressMs := w }
      batcherStats := { s.batcherStats with lastProgressMs := b } }.Inv limit config := by
  refine ⟨h.active, hnow, h.observed,
    fun e he d hd => ⟨(h.armed e he d hd).1, (h.armed e he d hd).2.later hw hb⟩, ?_, h.marking,
    fun c ends hc => ⟨(h.executing c ends hc).1, (h.executing c ends hc).2.later hw hb⟩,
    h.resting, fun hv => (h.visible hv).later hw hb⟩
  intro current rest ends hbusy
  obtain ⟨hends, hfresh⟩ := h.handling current rest ends hbusy
  refine ⟨hends, fun hg => ⟨(hfresh hg).1.trans_le ?_, (hfresh hg).2.imp_left fun hlt => ?_⟩⟩
  · exact Nat.add_le_add_right hb limit
  · exact hlt.trans_le (Nat.add_le_add_right hw limit)

theorem Inv.markBatcher :
    { s with batcherStats := s.batcherStats.markProgress s.now }.Inv limit config :=
  h.remark le_rfl h.marked.2 ⟨h.marked.1, le_rfl⟩

theorem Inv.markWriter :
    { s with writerStats := s.writerStats.markProgress s.now }.Inv limit config :=
  h.remark h.marked.1 le_rfl ⟨le_rfl, h.marked.2⟩

/-- The writer is done with a command. If the command marks, the mark is made. -/
theorem Inv.release {command : WriteCommand O R} {due : Nat}
    (hwriter : s.writer = .executing command due) (hnow : s.now = due)
    (hmark : executionMarks false command = true → s.writerStats.lastProgressMs = s.now) :
    { s with
      writer := .waiting
      writerStats := s.writerStats.endCommand s.queue.length }.Inv limit config := by
  refine ⟨h.active, h.marked, h.observed, h.armed, ?_, h.marking, fun _ _ hw => (by cases hw), ?_,
    fun _ => hnow ▸ (h.executing command due hwriter).2⟩
  · intro current rest ends hb
    obtain ⟨hends, hfresh⟩ := h.handling current rest ends hb
    refine ⟨hends, fun hg => ⟨(hfresh hg).1, ?_⟩⟩
    rcases (hfresh hg).2 with hW | hqueued | ⟨c, e, hc, hm⟩
    · exact Or.inl hW
    · exact Or.inr (Or.inl hqueued)
    · rw [hwriter] at hc
      cases hc
      refine Or.inl ((hfresh hg).1.trans_le (Nat.add_le_add_right ?_ limit))
      exact h.marked.2.trans (hmark hm).ge
  · intro _
    exact ⟨rfl, fun hdepth => List.ne_nil_of_length_pos hdepth⟩

theorem Inv.enqueue (command : WriteCommand O R) :
    { s with queue := s.queue ++ [command] }.Inv limit config := by
  refine ⟨h.active, h.marked, h.observed, h.armed, ?_, h.marking, h.executing, ?_, h.visible⟩
  · intro current rest ends hb
    obtain ⟨hends, hfresh⟩ := h.handling current rest ends hb
    refine ⟨hends, fun hg => ⟨(hfresh hg).1, (hfresh hg).2.imp_right (Or.imp_left ?_)⟩⟩
    rintro ⟨c, hc, hm⟩
    exact ⟨c, List.mem_append_left _ hc, hm⟩
  · intro hw
    exact ⟨(h.resting hw).1, fun _ => by simp⟩

theorem Inv.submit (current : Option (WriteCommand O R)) :
    (s.submit s.now current).Inv limit config := by
  cases current with
  | none => exact h
  | some command =>
    simp only [Threads.submit]
    split_ifs
    · exact h.markBatcher.enqueue command
    · exact h.enqueue command

/-- The batcher starts a step, with the buffers as it leaves them. -/
theorem Inv.busy (hactive : buffers.Active config)
    (harmed : ∀ e ∈ buffers, ∀ d ∈ e.2.batcher.deadline, s.now ≤ d ∧ s.Fresh limit d)
    (hends : s.now ≤ ends) (hfresh : 0 < s.batcherStats.bufferedRecords →
      ends < s.batcherStats.lastProgressMs + limit ∧
        (ends < s.writerStats.lastProgressMs + limit ∨ s.Owes))
    (hmarks : ∀ c, c ∈ current ∨ c ∈ rest → submissionMarks c = true →
      executionMarks false c = true) :
    { s with inbox, buffers, batcher := .busy current rest ends }.Inv limit config := by
  refine ⟨hactive, h.marked, ?_, harmed, ?_, ?_, h.executing, h.resting, h.visible⟩
  · intro hb
    cases hb
  · intro current' rest' ends' hb
    cases hb
    exact ⟨hends, hfresh⟩
  · intro current' rest' ends' hb
    cases hb
    exact hmarks

/-- A flush starts a step without a submission. -/
theorem Inv.flush (hsub : ∀ e ∈ buffers, e ∈ s.buffers) (hends : s.now ≤ ends)
    (hmarks : ∀ c ∈ rest, submissionMarks c = true → executionMarks false c = true)
    (hfresh : 0 < s.batcherStats.bufferedRecords → s.Fresh limit ends) :
    { s with inbox, buffers, batcher := .busy none rest ends }.Inv limit config := by
  refine h.busy (fun e he => h.active e (hsub e he)) (fun e he => h.armed e (hsub e he)) hends
    (fun hg => ⟨(hfresh hg).2, Or.inl (hfresh hg).1⟩) fun c hc => hmarks c ?_
  exact hc.resolve_left (by simp)

/-- Back at the top of its loop, the batcher shows what is still buffered. -/
theorem Inv.observe :
    { s with
      batcher := .waiting
      batcherStats := s.batcherStats.observeBuffered s.buffers.buffered }.Inv limit config := by
  refine ⟨h.active, h.marked, fun _ => rfl, h.armed, fun _ _ _ hb => (by cases hb),
    fun _ _ _ hb => (by cases hb), h.executing, h.resting, ?_⟩
  rintro (hv | hv | hv)
  · exact h.visible (Or.inl hv)
  · exact h.visible (Or.inr (Or.inl hv))
  · obtain ⟨e, he, d, hd⟩ := exists_deadline h.active hv
    exact (h.armed e he d hd).2.mono (h.armed e he d hd).1

end

theorem marks_map_insertLogs {out : List (Submission O R)} (h : ∀ b ∈ out, b.records ≠ []) :
    ∀ c ∈ out.map WriteCommand.insertLogs, submissionMarks c = true →
      executionMarks false c = true := by
  intro c hc _
  obtain ⟨b, hb, rfl⟩ := List.mem_map.mp hc
  simpa [executionMarks] using h b hb

@[simp] theorem submit_writerStats (t : Nat) (current : Option (WriteCommand O R)) :
    (s.submit t current).writerStats = s.writerStats := by cases current <;> rfl

@[simp] theorem submit_now (t : Nat) (current : Option (WriteCommand O R)) :
    (s.submit t current).now = s.now := by cases current <;> rfl

@[simp] theorem submit_bufferedRecords (t : Nat) (current : Option (WriteCommand O R)) :
    (s.submit t current).batcherStats.bufferedRecords = s.batcherStats.bufferedRecords := by
  cases current with
  | none => rfl
  | some c =>
    simp only [submit]
    split_ifs <;> rfl

/-- A submitted batch marks the batcher's progress, and will mark the writer's. -/
theorem submit_marks {c : WriteCommand O R} (hc : submissionMarks c = true)
    (hmarks : executionMarks false c = true) :
    (s.submit s.now (some c)).batcherStats.lastProgressMs = s.now ∧
      (s.submit s.now (some c)).Owes := by
  refine ⟨by simp [submit, hc, BatcherStats.markProgress], Or.inl ⟨c, ?_, hmarks⟩⟩
  simp [submit]

theorem submit_unmarked (hc : current.any submissionMarks = false) :
    (s.submit s.now current).batcherStats = s.batcherStats := by
  cases current with
  | none => rfl
  | some c =>
    simp only [Option.any_some] at hc
    simp [submit, hc]

section Step

variable [BEq O]

/-- The chunk starts an age clock: it leaves records in a buffer that was empty,
before the chunk or once a batch was full. -/
def StartsClock (config : InsertBatcherConfig) (s : Threads O R) (chunk : LogChunk O R) : Prop :=
  let held := s.buffers.held chunk.origin
  (held.length + chunk.records.length) % config.maxBatchRecords ≠ 0 ∧
    (held = [] ∨ config.maxBatchRecords ≤ held.length + chunk.records.length)

/-- What an event needs, so that no mark expires while the work it starts is visible. -/
def Recent (limit : Nat) (config : InsertBatcherConfig) (s : Threads O R) :
    ThreadEvent O R → Prop
  | .receive t ends =>
    match s.inbox with
    | [] => True
    | .logs chunk :: _ =>
      chunk.records ≠ [] →
        (0 < s.batcherStats.bufferedRecords → ends < s.writerStats.lastProgressMs + limit) ∧
          (s.StartsClock config chunk →
            t + config.maxBatchAge < s.writerStats.lastProgressMs + limit)
    | .flush :: _ => 0 < s.batcherStats.bufferedRecords → s.Fresh limit ends
  | .timer _ ends => 0 < s.batcherStats.bufferedRecords → s.Fresh limit ends
  | .proceed _ ends =>
    match s.batcher with
    | .busy current (_ :: _) _ =>
      current.any submissionMarks = false → 0 < s.batcherStats.bufferedRecords →
        s.Fresh limit ends
    | _ => True
  | .begin _ ends => s.Fresh limit ends
  | .arrive _ _ | .finish _ => True

instance (chunk : LogChunk O R) : Decidable (s.StartsClock config chunk) :=
  inferInstanceAs (Decidable (_ ∧ _))

instance (e : ThreadEvent O R) : Decidable (s.Recent limit config e) := by
  cases e with
  | receive _ _ =>
    dsimp only [Recent]
    rcases s.inbox with _ | ⟨_ | _, _⟩ <;> dsimp only <;> infer_instance
  | proceed _ _ =>
    dsimp only [Recent]
    rcases s.batcher with _ | ⟨_, _ | _, _⟩ <;> dsimp only <;> infer_instance
  | _ => dsimp only [Recent]; infer_instance

theorem inv_receive (hage : config.maxBatchAge < limit) (h : s.Inv limit config)
    (hr : s.Recent limit config (.receive s.now ends))
    (hs : receive limit config s.now ends s = some s') : s'.Inv limit config := by
  unfold receive at hs
  unfold Recent at hr
  split at hs
  · rename_i chunk rest hbatcher hinbox
    simp only [hinbox] at hr
    split_ifs at hs with hempty hlasts
    · obtain rfl := Option.some.inj hs
      have hgauge : s.batcherStats.observeBuffered s.buffers.buffered = s.batcherStats := by
        rw [← h.observed hbatcher]
        rfl
      rw [hgauge]
      exact { h with }
    · obtain ⟨⟨buffers, out⟩, hp, hs⟩ := Option.bind_eq_some_iff.mp hs
      obtain rfl := Option.some.inj hs
      obtain ⟨hvisible, hclock⟩ := hr hempty
      obtain ⟨hactive, hout⟩ := h.active.push hp
      have hdeadline := deadline_push h.active hp
      refine h.markBatcher.busy hactive ?_ hlasts.1 (fun hg => ⟨hlasts.2, Or.inl (hvisible hg)⟩)
        fun c hc => marks_map_insertLogs hout c (hc.resolve_left (by simp))
      intro e he d hd
      rcases hdeadline e he d hd with ⟨e', he', hd'⟩ | ⟨⟨-, hnew⟩, hmod, hstart⟩
      · exact h.markBatcher.armed e' he' d hd'
      · have hlow := le_saturatingDeadline s.now config.maxBatchAge
        have hhigh := saturatingDeadline_le s.now config.maxBatchAge
        have hW := hclock ⟨hmod, hstart⟩
        rw [← hnew] at hlow hhigh
        refine ⟨hlow, lt_of_le_of_lt hhigh hW, ?_⟩
        show d < s.now + limit
        omega
  · rename_i rest hbatcher hinbox
    simp only [hinbox] at hr
    split_ifs at hs with hlasts
    obtain ⟨⟨buffers, out⟩, hp, hs⟩ := Option.bind_eq_some_iff.mp hs
    obtain rfl := Option.some.inj hs
    obtain ⟨hsub, hout⟩ := flushWith_subset InsertBatcher.flush_cases h.active hp
    refine h.flush hsub hlasts.1 (fun c hc => ?_) hr
    rcases List.mem_append.mp hc with hc | hc
    · exact marks_map_insertLogs hout c hc
    · rw [List.mem_singleton.mp hc]
      exact fun hm => absurd hm (by simp [submissionMarks])
  · cases hs

omit [BEq O] in
theorem inv_timer (h : s.Inv limit config)
    (hr : 0 < s.batcherStats.bufferedRecords → s.Fresh limit ends)
    (hs : timer limit s.now ends s = some s') : s'.Inv limit config := by
  unfold timer at hs
  split at hs
  · rename_i hbatcher hinbox
    split_ifs at hs with hc
    obtain ⟨⟨buffers, out⟩, hp, hs⟩ := Option.bind_eq_some_iff.mp hs
    obtain rfl := Option.some.inj hs
    obtain ⟨hsub, hout⟩ := flushWith_subset (InsertBatcher.flushIfExpired_cases s.now) h.active hp
    exact h.flush hsub hc.1.1 (marks_map_insertLogs hout) hr
  · cases hs

theorem inv_proceed (h : s.Inv limit config) (hr : s.Recent limit config (.proceed s.now ends))
    (hs : proceed limit s.now ends s = some s') : s'.Inv limit config := by
  cases hbatcher : s.batcher with
  | waiting => simp [proceed, hbatcher] at hs
  | busy current rest due =>
    have hmarks := h.marking current rest due hbatcher
    have hsubmit := h.submit current
    cases rest with
    | nil =>
      simp only [proceed, hbatcher] at hs
      split_ifs at hs with hdue
      obtain rfl := Option.some.inj hs
      exact hsubmit.observe
    | cons command rest =>
      simp only [proceed, hbatcher] at hs
      split_ifs at hs with hdue hlasts
      obtain rfl := Option.some.inj hs
      simp only [Recent, hbatcher] at hr
      refine hsubmit.busy hsubmit.active hsubmit.armed ?_ (fun hg => ?_) fun c hc => ?_
      · rw [submit_now]
        exact hlasts.1
      · rw [submit_bufferedRecords] at hg
        cases hm : current.any submissionMarks with
        | true =>
          cases current with
          | none => cases hm
          | some c =>
            obtain ⟨hmark, howes⟩ := submit_marks (s := s) hm (hmarks c (Or.inl rfl) hm)
            exact ⟨by rw [hmark]; exact hlasts.2, Or.inr howes⟩
        | false =>
          have hfresh := hr hm hg
          rw [submit_unmarked hm, submit_writerStats]
          exact ⟨hfresh.2, Or.inl hfresh.1⟩
      · refine hmarks c (Or.inr (List.mem_cons.mpr (hc.imp_left fun hc => ?_)))
        exact (Option.some.inj hc).symm

omit [BEq O] in
theorem inv_begin (h : s.Inv limit config) (hr : s.Fresh limit ends)
    (hs : begin limit s.now ends s = some s') : s'.Inv limit config := by
  unfold Threads.begin at hs
  split at hs
  · rename_i command rest hwriter hqueue
    split_ifs at hs with hlasts
    obtain rfl := Option.some.inj hs
    refine ⟨h.active, h.marked, h.observed, h.armed, ?_, h.marking, ?_, fun hw => (by cases hw),
      fun _ => hr.mono hlasts.1⟩
    · intro current rest' due hb
      obtain ⟨hends, hfresh⟩ := h.handling current rest' due hb
      refine ⟨hends, fun hg => ⟨(hfresh hg).1, (hfresh hg).2.imp_right ?_⟩⟩
      rintro (⟨c, hc, hm⟩ | ⟨c, e, hc, -⟩)
      · rw [hqueue] at hc
        rcases List.mem_cons.mp hc with rfl | hc
        · exact Or.inr ⟨c, ends, rfl, hm⟩
        · exact Or.inl ⟨c, hc, hm⟩
      · rw [hwriter] at hc
        cases hc
    · intro c e hw
      cases hw
      exact ⟨hlasts.1, hr⟩
  · cases hs

omit [BEq O] in
theorem inv_finish (h : s.Inv limit config) (hs : finish s.now s = some s') :
    s'.Inv limit config := by
  cases hwriter : s.writer with
  | waiting => simp [finish, hwriter] at hs
  | executing command due =>
    simp only [finish, hwriter] at hs
    split_ifs at hs with hdue hmarks
    · obtain rfl := Option.some.inj hs
      exact h.markWriter.release hwriter hdue fun _ => rfl
    · obtain rfl := Option.some.inj hs
      exact h.release hwriter hdue fun hm => absurd hm hmarks

theorem inv_step (hage : config.maxBatchAge < limit) {e : ThreadEvent O R} (h : s.Inv limit config)
    (hr : s.Recent limit config e) (hs : step limit config s e = some s') :
    s'.Inv limit config := by
  cases e <;> obtain ⟨ht, hs⟩ := Option.ite_none_right_eq_some.mp hs
  case arrive t message =>
    obtain rfl := Option.some.inj hs
    exact { h.pass ht with }
  case receive t ends => exact inv_receive hage (h.pass ht) hr hs
  case timer t ends => exact inv_timer (h.pass ht) hr hs
  case proceed t ends => exact inv_proceed (h.pass ht) hr hs
  case begin t ends => exact inv_begin (h.pass ht) hr hs
  case finish t => exact inv_finish (h.pass ht) hs

omit [BEq O] in
theorem inv_new (hlimit : 0 < limit) (start : Nat) :
    (new start : Threads O R).Inv limit config where
  active := fun _ he => absurd he List.not_mem_nil
  marked := ⟨Nat.le_refl _, Nat.le_refl _⟩
  observed := fun _ => rfl
  armed := fun _ he => absurd he List.not_mem_nil
  handling := fun _ _ _ hb => by cases hb
  marking := fun _ _ _ hb => by cases hb
  executing := fun _ _ hw => by cases hw
  resting := fun _ => ⟨rfl, fun hd => absurd hd (Nat.lt_irrefl 0)⟩
  visible := fun _ => ⟨Nat.lt_add_of_pos_right hlimit, Nat.lt_add_of_pos_right hlimit⟩

end Step

end Threads

/-- Where the invariant holds, no sample makes the stall rule fire. -/
theorem not_stalled_of_inv {product : Nat → ℚ → Nat} {watch : WatchdogConfig}
    {config : InsertBatcherConfig} {s : Threads O R} (h : s.Inv watch.unhealthyAfter config)
    (ht : s.Passes t) (ledger : CommitLedger) (capacity : Nat) :
    ¬∃ pending writerIdle batcherIdle,
      evaluate product watch ((s.health ledger capacity).sample t) =
        ⟨.unhealthy, .stalled pending writerIdle batcherIdle⟩ := by
  rw [evaluate_stalled_iff, StorageHealth.pendingWork_pos]
  rintro ⟨-, -, -, hvisible, hstale⟩
  obtain ⟨hW, hB⟩ := (h.pass ht).visible hvisible
  obtain ⟨hW', hB'⟩ := (h.pass ht).marked
  change watch.unhealthyAfter ≤ t - s.writerStats.lastProgressMs ∨
    watch.unhealthyAfter ≤ t - s.batcherStats.lastProgressMs at hstale
  change t < s.writerStats.lastProgressMs + watch.unhealthyAfter at hW
  change t < s.batcherStats.lastProgressMs + watch.unhealthyAfter at hB
  change s.writerStats.lastProgressMs ≤ t at hW'
  change s.batcherStats.lastProgressMs ≤ t at hB'
  omega

/-- A pipeline that keeps up is never halted by the stall rule, if every step is
taken up while the marks are recent enough. -/
theorem stall_rule_sound [BEq O] (product : Nat → ℚ → Nat) (watch : WatchdogConfig)
    (hvalid : watch.validate = .ok ()) (config : InsertBatcherConfig)
    (hage : config.maxBatchAge < watch.degradedAfter) (start : Nat)
    (events : List (ThreadEvent O R)) (s : Threads O R)
    (hrun : (Threads.new start).run watch.unhealthyAfter config events = some s)
    (hrecent : Along (Threads.step watch.unhealthyAfter config)
      (Threads.Recent watch.unhealthyAfter config) (.new start) events)
    (t : Nat) (ht : s.Passes t) (ledger : CommitLedger) (capacity : Nat) :
    ¬∃ pending writerIdle batcherIdle,
      evaluate product watch ((s.health ledger capacity).sample t) =
        ⟨.unhealthy, .stalled pending writerIdle batcherIdle⟩ := by
  have hlt := watch.degraded_lt_unhealthy hvalid
  have hinv : s.Inv watch.unhealthyAfter config :=
    invariant_along (P := fun s => s.Inv watch.unhealthyAfter config)
      (fun h hr hs => Threads.inv_step (by omega) h hr hs) (Threads.inv_new (by omega) start)
      hrecent hrun
  exact not_stalled_of_inv hinv ht ledger capacity

section Runs

/-- The thresholds of the default configuration. -/
def defaultWatch : WatchdogConfig where
  degradedAfter := 30000
  unhealthyAfter := 120000
  ackStallAfter := 60000
  maintenanceStallAfter := 1800000
  queuePressureRatio := some (3 / 4)

def exactProduct (capacity : Nat) (ratio : ℚ) : Nat := (capacity * ratio).floor.toNat

/-- Batches of two records, at most one second old. -/
def pairs : InsertBatcherConfig := ⟨2, 1000, by decide⟩

/-- A record is buffered for a second, submitted by the timer and being written. -/
def steadyRun : List (ThreadEvent Nat Nat) :=
  [.arrive 5000 (.logs ⟨1, [7], 1⟩), .receive 5000 5001, .proceed 5001 5001, .timer 6000 6000,
    .proceed 6000 6001, .proceed 6001 6001, .begin 6001 6021]

def steadyEnd : Threads Nat Nat :=
  ((Threads.new 0).run defaultWatch.unhealthyAfter pairs steadyRun).get (by decide +kernel)

theorem stall_rule_sound_steady :
    0 < ((steadyEnd.health (.new 0) 16).sample 6015).pendingWork ∧
      ¬∃ pending writerIdle batcherIdle,
        evaluate exactProduct defaultWatch ((steadyEnd.health (.new 0) 16).sample 6015) =
          ⟨.unhealthy, .stalled pending writerIdle batcherIdle⟩ :=
  ⟨by decide +kernel,
    stall_rule_sound exactProduct defaultWatch (by decide +kernel) pairs (by decide) 0 steadyRun
      steadyEnd (Option.some_get _).symm (by decide +kernel) 6015 (by decide +kernel) (.new 0) 16⟩

/-- The first chunk after more than two minutes without work. -/
def idleRun : List (ThreadEvent Nat Nat) :=
  [.arrive 200000 (.logs ⟨1, [7], 1⟩), .receive 200000 200001, .proceed 200001 200001]

/-- Three batches, written in 50 s each, and nothing else to do for the batcher. -/
def drainRun : List (ThreadEvent Nat Nat) :=
  [.arrive 0 (.logs ⟨1, [1, 2, 3, 4, 5, 6], 1⟩), .receive 0 0, .proceed 0 0, .proceed 0 0,
    .proceed 0 0, .proceed 0 0, .begin 0 50000, .finish 50000, .begin 50000 100000,
    .finish 100000, .begin 100000 150000]

/-- The verdict on a sample of the state a run ends in, if the state may last until then. -/
def verdict (events : List (ThreadEvent Nat Nat)) (t : Nat) : Option Evaluation := do
  let s ← (Threads.new 0).run defaultWatch.unhealthyAfter pairs events
  if s.Passes t then some (evaluate exactProduct defaultWatch ((s.health (.new 0) 16).sample t))
  else none

/-- One millisecond after the chunk is buffered the writer's mark is 200 s old, and
30 s into the third batch the batcher's mark is 130 s old. -/
theorem keeping_up_stalled :
    defaultWatch.validate = .ok () ∧ pairs.maxBatchAge < defaultWatch.degradedAfter ∧
      verdict idleRun 200002 = some ⟨.unhealthy, .stalled 1 200002 2⟩ ∧
      verdict drainRun 130000 = some ⟨.unhealthy, .stalled 1 30000 130000⟩ := by
  decide +kernel

end Runs

end OtelSqlite.Runtime
