import OtelSqlite.Ingress.Effects

/-!
# Queue admission is all-or-nothing

A request that passes `reserve` puts its chunks into consecutive positions, with
increasing tickets, unless the storage side goes away; a request that does not pass
leaves no trace.
-/

namespace OtelSqlite.Ingress

open OtelSqlite.Core OtelSqlite.Core.Commit OtelSqlite.Lib.History

variable {O T : Type}

namespace Phase

/-- The call passed `reserve`. -/
def admitted : Phase O T → Bool
  | .sending _ _ | .stamped _ _ _ | .stopping _ _ _ | .releasing _ | .done _ => true
  | .start | .refused | .waiting | .checking | .full _ => false

/-- The call returned the mapping error or with `QueueFull`. -/
def rejected : Phase O T → Bool
  | .refused | .full _ => true
  | _ => false

theorem not_admitted_of_rejected {phase : Phase O T} (h : phase.rejected = true) :
    phase.admitted = false := by
  cases phase <;> first | rfl | cases h

end Phase

/-- What admission guarantees about a state. -/
structure AllOrNothing (config : QueueConfig) (traffic : Traffic O T) (s : Admission O T) :
    Prop where
  never_full : ∀ i chunk left outcome, s.calls i = .stamped chunk left outcome →
    s.trySend config (.logs chunk) ≠ .error .full
  bounded : s.queue.length ≤ config.capacity
  consecutive : ∀ i, ∃ before after, s.sent = before ++ (sentBy s.sent i).map (.chunk i) ++ after ∧
    ∀ x ∈ before ++ after, byRequest i x = false
  in_order : ∀ i, ∃ left, (sentBy s.sent i ++ left).map body = (traffic.work i).map body
  whole : ∀ i outcome, s.calls i = .done outcome → outcome.disconnected = false →
    (sentBy s.sent i).map body = (traffic.work i).map body
  increasing : ((chunksSent s.sent).map LogChunk.commitSeq).Pairwise (· < ·)

theorem filter_byRequest (sent : List (Sent O T)) (i : Nat) :
    sent.filter (byRequest i) = (sentBy sent i).map (.chunk i) := by
  induction sent with
  | nil => rfl
  | cons x sent ih =>
    cases x with
    | chunk k c =>
      by_cases hk : k = i
      · have hcons : sentBy (.chunk k c :: sent) i = c :: sentBy sent i := by
          rw [sentBy, List.filter_cons_of_pos (by simp [byRequest, hk])]
          rfl
        rw [hcons, List.filter_cons_of_pos (by simp [byRequest, hk]), ih, hk]
        rfl
      · rw [sentBy, List.filter_cons_of_neg (by simp [byRequest, hk])]
        exact ih
    | barrier j =>
      rw [sentBy, List.filter_cons_of_neg (by simp [byRequest])]
      exact ih

namespace Admission

variable {config : QueueConfig} {traffic : Traffic O T} {s s' : Admission O T}

theorem Inv.allOrNothing (h : s.Inv config traffic) : AllOrNothing config traffic s where
  never_full := fun i chunk left outcome hp => h.not_full hp _
  bounded := h.bounded
  consecutive := by
    intro i
    obtain ⟨before, after, hsent, hb, ha⟩ := h.consecutive i
    rw [filter_byRequest] at hsent
    refine ⟨before, after, hsent, fun x hx => ?_⟩
    rcases List.mem_append.mp hx with hx | hx
    · exact hb x hx
    · exact ha x hx
  in_order := by
    intro i
    have hfits := h.fits_work i
    cases hp : s.calls i with
    | start | refused | waiting | checking =>
      rw [hp] at hfits
      exact ⟨traffic.work i, by rw [hfits]; rfl⟩
    | full outcome =>
      rw [hp] at hfits
      exact ⟨traffic.work i, by rw [hfits.1]; rfl⟩
    | sending left outcome =>
      rw [hp] at hfits
      exact ⟨left, hfits.1⟩
    | stamped chunk left outcome =>
      rw [hp] at hfits
      exact ⟨chunk :: left, hfits.1⟩
    | stopping ticket failure outcome | releasing outcome =>
      rw [hp] at hfits
      obtain ⟨⟨left, -, hleft⟩, -⟩ := hfits
      exact ⟨left, hleft⟩
    | done outcome =>
      rw [hp] at hfits
      rcases hfits with ⟨hall, -⟩ | ⟨⟨left, -, hleft⟩, -⟩
      · exact ⟨[], by rw [List.append_nil]; exact hall⟩
      · exact ⟨left, hleft⟩
  whole := by
    intro i outcome hp hd
    have hfits := h.fits_work i
    rw [hp] at hfits
    rcases hfits with ⟨hall, -⟩ | ⟨-, rfl⟩
    · exact hall
    · cases hd
  increasing := h.increasing

/-- Before it is admitted a call touches neither the queue nor the ledger; after,
it stays admitted. -/
theorem requestStep_cases {work : List (LogChunk O T)} {i now : Nat}
    (hs : s.requestStep config work i now = some s') :
    (∀ k, k ≠ i → s'.calls k = s.calls k) ∧
      ((s.calls i).admitted = true → (s'.calls i).admitted = true) ∧
      ((s.calls i).admitted = false →
        s'.queue = s.queue ∧ s'.sent = s.sent ∧ s'.shared = s.shared) := by
  cases requestStep_inv hs <;> simp_all [goto, Phase.admitted]

theorem admitted_step {e : Event} (hs : s.step config traffic e = some s') {i : Nat}
    (ha : (s.calls i).admitted = true) : (s'.calls i).admitted = true := by
  cases e with
  | request k now =>
    obtain ⟨hother, hown, -⟩ := requestStep_cases hs
    rcases eq_or_ne i k with rfl | hk
    · exact hown ha
    · rw [hother i hk]
      exact ha
  | control j now =>
    rw [(controlStep_effect hs).2.2.1]
    exact ha
  | receive =>
    simp only [step] at hs
    split at hs
    · obtain rfl := Option.some.inj hs
      exact ha
    · cases hs
  | disconnect | publish k =>
    obtain rfl := Option.some.inj hs
    exact ha
  | ledger c =>
    simp only [step] at hs
    split_ifs at hs
    obtain rfl := Option.some.inj hs
    exact ha

theorem admitted_run {events : List Event} (hs : s.run config traffic events = some s') {i : Nat}
    (ha : (s.calls i).admitted = true) : (s'.calls i).admitted = true :=
  Lib.Run.invariant (P := fun s => (s.calls i).admitted = true) (fun ha hs => admitted_step hs ha) ha hs

end Admission

open Admission in
/-- **Admission is all-or-nothing**, in every state of every interleaving; the steps of
a call that ends rejected change neither the queue nor the ledger. -/
theorem admission_all_or_nothing (config : QueueConfig) (traffic : Traffic O T) (start : Nat)
    (events : List Event) (s : Admission O T)
    (hs : (Admission.new start).run config traffic events = some s) :
    AllOrNothing config traffic s ∧
      ∀ before after i now (s₁ s₂ : Admission O T), events = before ++ .request i now :: after →
        (Admission.new start).run config traffic before = some s₁ →
        s₁.step config traffic (.request i now) = some s₂ → (s.calls i).rejected = true →
        s₂.queue = s₁.queue ∧ s₂.sent = s₁.sent ∧ s₂.shared = s₁.shared := by
  refine ⟨(inv_run (inv_new start) hs).allOrNothing, ?_⟩
  rintro before after i now s₁ s₂ rfl h₁ h₂ hr
  have hrest : s₁.run config traffic (.request i now :: after) = some s := by
    rw [run, List.foldlM_append] at hs
    obtain ⟨s₁', h₁', hrest⟩ := Option.bind_eq_some_iff.mp hs
    rw [run, h₁'] at h₁
    exact Option.some.inj h₁ ▸ hrest
  refine (requestStep_cases h₂).2.2 (Bool.eq_false_iff.mpr fun ha => ?_)
  have hadm := admitted_run hrest ha
  rw [Phase.not_admitted_of_rejected hr] at hadm
  cases hadm

/-- Two chunks, one chunk and three chunks. -/
def threeRequests : Traffic Nat Nat where
  work := fun
    | 0 => [⟨7, [1, 2], 0⟩, ⟨8, [3], 0⟩]
    | 1 => [⟨7, [4], 0⟩]
    | _ => [⟨7, [5], 0⟩, ⟨8, [6], 0⟩, ⟨9, [7], 0⟩]
  deadline := fun _ => none

def admittedFullRefused : List Event :=
  [.request 0 0, .request 1 0, .request 0 0, .request 0 0, .request 2 0, .request 0 0,
    .request 0 0, .request 0 0, .request 0 0, .request 0 0, .request 1 0, .request 1 0, .receive,
    .control 0 0, .control 0 0]

theorem admission_all_or_nothing_three :
    ∃ s : Admission Nat Nat,
      (Admission.new 0).run ⟨2, by decide⟩ threeRequests admittedFullRefused = some s ∧
        s.sent = [.chunk 0 ⟨7, [1, 2], 1⟩, .chunk 0 ⟨8, [3], 2⟩, .barrier 0] ∧
        (s.calls 1).rejected = true ∧ (s.calls 2).rejected = true ∧
        AllOrNothing ⟨2, by decide⟩ threeRequests s :=
  ⟨((Admission.new 0).run ⟨2, by decide⟩ threeRequests admittedFullRefused).get (by decide),
    (Option.some_get _).symm, by decide, by decide, by decide,
    (admission_all_or_nothing ⟨2, by decide⟩ threeRequests 0 admittedFullRefused _
      (Option.some_get (by decide)).symm).1⟩

end OtelSqlite.Ingress
