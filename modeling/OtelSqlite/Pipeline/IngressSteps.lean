import OtelSqlite.Pipeline.Invariant

/-!
# Steps of the ingest side keep the pipeline's invariant
-/

namespace OtelSqlite.Pipeline

open OtelSqlite.Core OtelSqlite.Core.Commit OtelSqlite.Core.Batcher
open OtelSqlite.Storage OtelSqlite.Ingress OtelSqlite.Lib.Publication

variable {O R : Type} [BEq O] {setup : Setup O R} {p p' : Server O R}
  {received : List (LogChunk O (Exported R))} {ops : List (Op O (Exported R))}
  {emitted : List (LogWriteBatch O (Exported R))} {done : List (Done O (Exported R))}
  {rest : List (LogWriteBatch O (Exported R))} {s' : Admission O (Exported R)}

omit [BEq O] in
/-- A voided ticket is neither pending nor sent nor still to be issued. -/
theorem void_untracked {s : Admission O (Exported R)} (h : s.Inv setup.queue setup.traffic)
    {i ticket t : Nat} (hissued : (s.calls i).issued = some ticket)
    (hrel : (s'.calls i).pending = none) (hp : Admission.NoneNew s s')
    (ht : s.shared.ledger.nextTicket < t ∨ (∃ k, (s'.calls k).pending = some t) ∨
      ∃ c ∈ chunksSent s.sent, c.commitSeq = t) : ticket ≠ t := by
  obtain ⟨-, hnew, hlt⟩ := h.fresh i ticket hissued
  rintro rfl
  rcases ht with hn | ⟨k, hk⟩ | ⟨c, hc, he⟩
  · exact absurd hnew (Nat.ne_of_gt hn)
  · have hheld := Phase.holding_of_pending (hp k ticket hk)
    rw [h.holder_unique hheld (Phase.holding_of_issued hissued), hrel] at hk
    cases hk
  · exact absurd he (Nat.ne_of_lt (hlt c hc))

section

variable (h : Inv setup p received ops emitted done rest)
include h

theorem inv_enqueue {i now : Nat} (hh : p.handlers i = .enqueueing)
    (hs : p.ingress.step setup.queue setup.traffic (.request i now) = some s') :
    Inv setup { p with ingress := s' } received ops emitted done rest := by
  have hadm := Admission.inv_step h.admission hs
  have hlim : ∀ k, p.handlers k = .enqueueing ∨ s'.calls k ≠ .start →
      setup.totalRecords k ≤ setup.maxRecordsPerRequest := by
    intro k hk
    rcases eq_or_ne k i with rfl | hne
    · exact h.limited k (Or.inl hh)
    · rw [(Admission.requestStep_cases hs).1 k hne] at hk
      exact h.limited k hk
  obtain ⟨hconn, heff⟩ := Admission.requestStep_effect hs
  obtain ⟨gate, queue, connected, sent, shared, calls, controls⟩ := s'
  obtain rfl : connected = p.ingress.connected := hconn
  cases heff with
  | silent hq hsent hsh hp =>
    obtain rfl : queue = p.ingress.queue := hq
    obtain rfl : sent = p.ingress.sent := hsent
    obtain rfl : shared = p.ingress.shared := hsh
    exact
      { h with
        admission := hadm
        limited := hlim
        balanced := fun t ht =>
          h.balanced t (ht.imp_right (Or.imp_left fun ⟨k, hk⟩ => ⟨k, hp k t hk⟩)) }
  | issue hq hsent hsh hp =>
    obtain rfl : queue = p.ingress.queue := hq
    obtain rfl : sent = p.ingress.sent := hsent
    obtain rfl : shared = p.ingress.shared.call .issue := hsh
    exact
      { h with
        admission := hadm
        limited := hlim
        locked := rfl
        coherent := coherent_call h.locked h.coherent .issue
        balanced := by
          intro t ht
          refine Balanced.ignore (c := .issue) (h.balanced t ?_) h.wellFormed (ignores_issue t)
          rcases ht with hlt | ⟨k, hk⟩ | hc
          · exact Or.inl (Nat.lt_of_succ_lt hlt)
          · rcases hp k t hk with rfl | hold
            · exact Or.inl (Nat.lt_succ_self _)
            · exact Or.inr (Or.inl ⟨k, hold⟩)
          · exact Or.inr (Or.inr hc) }
  | send chunk hc hpend hq hsent hsh hp =>
    obtain rfl : queue = p.ingress.queue ++ [.logs chunk] := hq
    obtain rfl : sent = p.ingress.sent ++ [.chunk i chunk] := hsent
    obtain rfl : shared = p.ingress.shared := hsh
    exact
      { h with
        admission := hadm
        limited := hlim
        sent_eq := by
          obtain ⟨unread, hold, hunread⟩ := h.sent_eq
          refine ⟨unread ++ [chunk], ?_, fun hcon => ?_⟩
          · rw [Admission.chunksSent_chunk, hold, List.append_assoc]
          · rw [hunread hcon, chunksOf_append]
            rfl
        balanced := by
          intro t ht
          refine h.balanced t ?_
          rcases ht with hlt | ⟨k, hk⟩ | ⟨c, hcm, he⟩
          · exact Or.inl hlt
          · exact Or.inr (Or.inl ⟨k, hp k t hk⟩)
          · rw [Admission.chunksSent_chunk] at hcm
            rcases List.mem_append.mp hcm with hcm | hcm
            · exact Or.inr (Or.inr ⟨c, hcm, he⟩)
            · rw [List.mem_singleton.mp hcm] at he
              exact Or.inr (Or.inl ⟨i, he ▸ hpend⟩) }
  | void ticket hissued hrel hq hsent hsh hp =>
    obtain rfl : queue = p.ingress.queue := hq
    obtain rfl : sent = p.ingress.sent := hsent
    obtain rfl : shared = p.ingress.shared.call (.void ticket now) := hsh
    exact
      { h with
        admission := hadm
        limited := hlim
        wellFormed := wellFormed_locked h.wellFormed _
        locked := rfl
        coherent := coherent_call h.locked h.coherent _
        balanced := by
          intro t ht
          have hne := void_untracked h.admission hissued hrel hp ht
          exact (h.balanced t (ht.imp_right (Or.imp_left fun ⟨k, hk⟩ => ⟨k, hp k t hk⟩))).ignore
            h.wellFormed (ignores_void hne now) }

theorem inv_control {j now : Nat}
    (hs : p.ingress.step setup.queue setup.traffic (.control j now) = some s') :
    Inv setup { p with ingress := s' } received ops emitted done rest := by
  have hadm := Admission.inv_step h.admission hs
  obtain ⟨hconn, hsh, hcalls, hcases⟩ := Admission.controlStep_effect hs
  obtain ⟨gate, queue, connected, sent, shared, calls, controls⟩ := s'
  obtain rfl : connected = p.ingress.connected := hconn
  obtain rfl : shared = p.ingress.shared := hsh
  obtain rfl : calls = p.ingress.calls := hcalls
  rcases hcases with ⟨hq, hsent⟩ | ⟨hq, hsent⟩
  · obtain rfl : queue = p.ingress.queue := hq
    obtain rfl : sent = p.ingress.sent := hsent
    exact { h with admission := hadm }
  · obtain rfl : queue = p.ingress.queue ++ [.flush] := hq
    obtain rfl : sent = p.ingress.sent ++ [.barrier j] := hsent
    exact
      { h with
        admission := hadm
        sent_eq := by
          obtain ⟨unread, hold, hunread⟩ := h.sent_eq
          refine ⟨unread, by rw [Admission.chunksSent_barrier, hold], fun hcon => ?_⟩
          rw [hunread hcon, chunksOf_append]
          exact (List.append_nil _).symm
        balanced := by
          intro t ht
          rw [Server.Tracked, Admission.chunksSent_barrier] at ht
          exact h.balanced t ht }

theorem inv_publish (k : Nat) :
    Inv setup
      { p with ingress := { p.ingress with shared := p.ingress.shared.step (.publish k) } }
      received ops emitted done rest :=
  { h with
    admission := h.admission.other_call rfl
    locked := (congrArg Stamped.value (publish_current _ k)).trans h.locked
    coherent := coherent_publish h.coherent k }

end

end OtelSqlite.Pipeline
