import Mathlib.Data.List.Induction
import OtelSqlite.Storage.BatchRows

/-!
# Runs of the origin buffers

Any sequence of pushes, timer flushes and full flushes, with any clock readings.
`exec_induction` is the one induction over such runs: no run reaches the panic of
`consume`, and what every step keeps holds at the end. From it follow the
conservation of records per origin and of each ticket's rows.
-/

namespace OtelSqlite.Storage

open OtelSqlite.Core OtelSqlite.Core.Batcher

variable {O T : Type}

inductive Op (O T : Type) where
  | push (clock : Nat → Nat) (origin : O) (records : List T) (commitSeq : Nat)
  | flushExpired (now : Nat)
  | flushAll

/-- The selected rows an operation adds. -/
def Op.rows (q : O → Label → Bool) : Op O T → List (Row T)
  | .push _ origin records commitSeq =>
    (chunkRows commitSeq records).filter fun r => q origin r.1
  | _ => []

theorem map_snd_chunkRows (commitSeq : Nat) (records : List T) :
    (chunkRows commitSeq records).map Prod.snd = records :=
  List.map_snd_zip (by simp)

section Exec

variable [BEq O] {config : InsertBatcherConfig} {buffers buffers' : OriginBuffers O T}
  {out : List (Submission O T)}

def Op.apply (config : InsertBatcherConfig) (buffers : OriginBuffers O T) :
    Op O T → Option (OriginBuffers O T × List (Submission O T))
  | .push clock origin records commitSeq => buffers.push config clock origin records commitSeq
  | .flushExpired now => buffers.flushExpired now
  | .flushAll => buffers.flushAll

/-- The buffers after the operations and everything emitted on the way; `none` is a panic. -/
def exec (config : InsertBatcherConfig) (ops : List (Op O T)) :
    Option (OriginBuffers O T × List (Submission O T)) :=
  ops.foldlM (fun s op => do
    let (buffers, out) ← op.apply config s.1
    some (buffers, s.2 ++ out)) ([], [])

theorem exec_concat (config : InsertBatcherConfig) (ops : List (Op O T)) (op : Op O T) :
    exec config (ops ++ [op]) = (exec config ops).bind fun s =>
      (op.apply config s.1).bind fun r => some (r.1, s.2 ++ r.2) := by
  simp only [exec, List.foldlM_append, List.foldlM_cons, List.foldlM_nil, Option.bind_eq_bind,
    Option.pure_def, Option.bind_fun_some]

/-- One operation, in the terms of `Slot`, `Emits` and `Flushed`. -/
inductive Applied (config : InsertBatcherConfig) (buffers : OriginBuffers O T) :
    Op O T → OriginBuffers O T → List (Submission O T) → Prop
  | push {clock : Nat → Nat} {origin known : O} {records : List T} {commitSeq : Nat}
      {before after : OriginBuffers O T} {b b' : OriginBuffer T} {out : List (Submission O T)} :
      Slot origin before known b after buffers → (∀ e ∈ before, (e.1 == origin) = false) →
      Emits config origin b b' (chunkRows commitSeq records) out →
      Applied config buffers (.push clock origin records commitSeq)
        (before ++ OriginBuffers.retain known b' after) out
  | expired {now : Nat} {buffers' : OriginBuffers O T} {out : List (Submission O T)} :
      Flushed config buffers buffers' out → Applied config buffers (.flushExpired now) buffers' out
  | all {buffers' : OriginBuffers O T} {out : List (Submission O T)} :
      Flushed config buffers buffers' out → Applied config buffers .flushAll buffers' out

theorem apply_applied (h : buffers.Active config) (op : Op O T) :
    ∃ buffers' out, op.apply config buffers = some (buffers', out) ∧
      Applied config buffers op buffers' out := by
  cases op with
  | push clock origin records commitSeq =>
    obtain ⟨before, known, b, after, b', out, hs, hb, he, hp, -⟩ :=
      push_split clock origin records commitSeq h
    exact ⟨_, out, hp, .push hs hb he⟩
  | flushExpired now =>
    obtain ⟨buffers', out, hp, hf⟩ :=
      flushWith_flushed (InsertBatcher.flushIfExpired_cases now) h
    exact ⟨buffers', out, hp, .expired hf⟩
  | flushAll =>
    obtain ⟨buffers', out, hp, hf⟩ := flushWith_flushed InsertBatcher.flush_cases h
    exact ⟨buffers', out, hp, .all hf⟩

theorem Slot.active {origin known : O} {before after : OriginBuffers O T} {b : OriginBuffer T}
    (h : Slot origin before known b after buffers) (ha : buffers.Active config) :
    before.Active config ∧ after.Active config := by
  cases h with
  | found =>
    exact ⟨fun e he => ha e (by simp [he]), fun e he => ha e (by simp [he])⟩
  | fresh hk hb hn =>
    subst hn
    exact ⟨ha, fun e he => absurd he List.not_mem_nil⟩

theorem Applied.active {op : Op O T} (h : Applied config buffers op buffers' out)
    (ha : buffers.Active config) : buffers'.Active config := by
  cases h with
  | push hs hb he =>
    obtain ⟨hbefore, hafter⟩ := hs.active ha
    intro e hm
    rcases List.mem_append.mp hm with hm | hm
    · exact hbefore e hm
    · exact active_retain he.aligned hafter e hm
  | expired hf | all hf => exact hf.active

theorem Applied.labelled {op : Op O T} (h : Applied config buffers op buffers' out) :
    ∀ s ∈ out, ∃ origin, Labelled config origin s := by
  cases h with
  | push hs hb he => exact fun s hm => ⟨_, he.labelled s hm⟩
  | expired hf | all hf => exact hf.labelled

/-- The induction over runs. -/
theorem exec_induction (config : InsertBatcherConfig)
    (P : List (Op O T) → OriginBuffers O T → List (Submission O T) → Prop) (h0 : P [] [] [])
    (hstep : ∀ ops buffers emitted op buffers' out, P ops buffers emitted →
      buffers.Active config → Applied config buffers op buffers' out →
      P (ops ++ [op]) buffers' (emitted ++ out)) (ops : List (Op O T)) :
    ∃ buffers emitted, exec config ops = some (buffers, emitted) ∧ buffers.Active config ∧
      P ops buffers emitted := by
  induction ops using List.reverseRecOn with
  | nil => exact ⟨[], [], rfl, fun e he => absurd he List.not_mem_nil, h0⟩
  | append_singleton ops op ih =>
    obtain ⟨buffers, emitted, he, ha, hp⟩ := ih
    obtain ⟨buffers', out, hop, happ⟩ := apply_applied ha op
    refine ⟨buffers', emitted ++ out, ?_, happ.active ha, hstep _ _ _ _ _ _ hp ha happ⟩
    rw [exec_concat, he, Option.bind_some, hop, Option.bind_some]

theorem exec_labelled {ops : List (Op O T)} {emitted : List (Submission O T)}
    (h : exec config ops = some (buffers, emitted)) :
    buffers.Active config ∧ ∀ s ∈ emitted, ∃ origin, Labelled config origin s := by
  obtain ⟨buffers', emitted', he, ha, hl⟩ := exec_induction config
    (fun _ _ emitted => ∀ s ∈ emitted, ∃ origin, Labelled config origin s)
    (fun s hs => absurd hs List.not_mem_nil)
    (fun ops buffers emitted op buffers' out hp _ happ s hs => by
      rcases List.mem_append.mp hs with hs | hs
      · exact hp s hs
      · exact happ.labelled s hs) ops
  rw [h, Option.some.injEq, Prod.mk.injEq] at he
  rw [he.1, he.2]
  exact ⟨ha, hl⟩

end Exec

end OtelSqlite.Storage
