import Mathlib.Order.Basic
import Mathlib.Order.Nat
import Mathlib.Data.List.Basic

/-!
# Values computed under a lock and published after it is released

A register keeps a locked value that only grows. An update computes the value
to announce while it holds the lock; the announcement reaches the published
slot in a later step of its own, so two announcements can overtake each other.
Each value carries a version, the number of changes of the locked value before
it. Versions order the announcements by the lock, which is what decides
whether the published slot stays faithful.
-/

namespace OtelSqlite.Lib.Publication

structure Stamped (α : Type) where
  version : Nat
  value : α
  deriving DecidableEq

structure Register (α : Type) where
  current : Stamped α
  published : Stamped α
  inFlight : List (Stamped α)

variable {α : Type} {r : Register α} {p : Stamped α} {a : α} {announced : Option α} {i : Nat}

def Register.new (a : α) : Register α := ⟨⟨0, a⟩, ⟨0, a⟩, []⟩

/-- The version of the locked value once it is `a`. -/
def Register.versionOf [DecidableEq α] (r : Register α) (a : α) : Nat :=
  if a = r.current.value then r.current.version else r.current.version + 1

/-- The locked step: store `a`, and hold back the value to announce if there is one. -/
def Register.update [DecidableEq α] (r : Register α) (a : α) (announced : Option α) : Register α :=
  { r with
    current := ⟨r.versionOf a, a⟩
    inFlight := r.inFlight ++ (announced.map (Stamped.mk (r.versionOf a))).toList }

/-- The later step: the `i`-th announcement in flight replaces the published value. -/
def Register.publish (r : Register α) (i : Nat) : Register α :=
  match r.inFlight[i]? with
  | none => r
  | some p => { r with published := p, inFlight := r.inFlight.eraseIdx i }

/-- The `i`-th announcement is not older than what has been published. -/
def Register.InOrder (r : Register α) (i : Nat) : Prop :=
  ∀ p ∈ r.inFlight[i]?, r.published.version ≤ p.version

instance (r : Register α) (i : Nat) : Decidable (r.InOrder i) :=
  inferInstanceAs (Decidable (∀ p ∈ r.inFlight[i]?, r.published.version ≤ p.version))

def Register.stamps (r : Register α) : List (Stamped α) :=
  r.current :: r.published :: r.inFlight

section Update

variable [DecidableEq α]

theorem versionOf_same (r : Register α) : r.versionOf r.current.value = r.current.version :=
  if_pos rfl

theorem versionOf_changed (h : a ≠ r.current.value) :
    r.versionOf a = r.current.version + 1 := if_neg h

theorem mem_stamps_update (ha : ∀ b ∈ announced, b = a) (hp : p ∈ (r.update a announced).stamps) :
    p ∈ r.stamps ∨ p = ⟨r.versionOf a, a⟩ := by
  simp only [Register.stamps, Register.update, List.mem_cons, List.mem_append, Option.mem_toList,
    Option.map_eq_some_iff] at hp ⊢
  rcases hp with hp | hp | hp | ⟨b, hb, rfl⟩
  · exact Or.inr hp
  · exact Or.inl (Or.inr (Or.inl hp))
  · exact Or.inl (Or.inr (Or.inr hp))
  · rw [ha b hb]
    exact Or.inr rfl

end Update

theorem publish_current (r : Register α) (i : Nat) : (r.publish i).current = r.current := by
  unfold Register.publish
  split <;> rfl

theorem publish_of_getElem (h : r.inFlight[i]? = some p) :
    r.publish i = { r with published := p, inFlight := r.inFlight.eraseIdx i } := by
  simp only [Register.publish, h]

theorem mem_stamps_publish (hp : p ∈ (r.publish i).stamps) : p ∈ r.stamps := by
  cases hi : r.inFlight[i]? with
  | none => simpa only [Register.publish, hi] using hp
  | some q =>
    have hq := List.mem_of_getElem? hi
    rw [publish_of_getElem hi] at hp
    simp only [Register.stamps, List.mem_cons] at hp ⊢
    rcases hp with rfl | rfl | hp
    · exact Or.inl rfl
    · exact Or.inr (Or.inr hq)
    · exact Or.inr (Or.inr (List.mem_of_mem_eraseIdx hp))

/-- The newest value of the lock is published or still on its way. -/
def Latest (r : Register α) : Prop :=
  ∃ p ∈ r.published :: r.inFlight, p.version = r.current.version

theorem latest_new (a : α) : Latest (Register.new a) := ⟨⟨0, a⟩, by simp [Register.new], rfl⟩

theorem latest_update [DecidableEq α] (h : Latest r) (a : α) (announced : Option α)
    (ha : a = r.current.value ∨ announced.isSome) : Latest (r.update a announced) := by
  rcases ha with rfl | hs
  · obtain ⟨p, hp, hv⟩ := h
    refine ⟨p, ?_, hv.trans (versionOf_same r).symm⟩
    rcases List.mem_cons.mp hp with rfl | hp
    · exact List.mem_cons_self
    · exact List.mem_cons_of_mem _ (List.mem_append_left _ hp)
  · obtain ⟨b, rfl⟩ := Option.isSome_iff_exists.mp hs
    exact ⟨⟨r.versionOf a, b⟩, by simp [Register.update], rfl⟩

section Order

variable [PartialOrder α]

/-- Versions and values are ordered alike, and the lock holds the newest. -/
structure Coherent (r : Register α) : Prop where
  aligned : ∀ p ∈ r.stamps, ∀ q ∈ r.stamps, p.version ≤ q.version ↔ p.value ≤ q.value
  newest : ∀ p ∈ r.stamps, p.version ≤ r.current.version

theorem coherent_new (a : α) : Coherent (Register.new a) := by
  have hs : ∀ p ∈ (Register.new a).stamps, p = ⟨0, a⟩ := by
    intro p hp
    simpa [Register.stamps, Register.new] using hp
  constructor
  · intro p hp q hq
    rw [hs p hp, hs q hq]
    simp
  · intro p hp
    rw [hs p hp]
    exact le_rfl

section

variable (h : Coherent r)
include h

theorem Coherent.value_le (hp : p ∈ r.stamps) : p.value ≤ r.current.value :=
  (h.aligned p hp r.current (by simp [Register.stamps])).mp (h.newest p hp)

theorem Coherent.published_le : r.published.value ≤ r.current.value :=
  h.value_le (by simp [Register.stamps])

/-- A strictly larger value gets a version of its own above every older one. -/
theorem aligned_fresh (ha : r.current.value ≤ a) (hne : a ≠ r.current.value) (hp : p ∈ r.stamps) :
    p.version < r.current.version + 1 ∧ p.value ≤ a ∧ ¬ a ≤ p.value := by
  refine ⟨Nat.lt_succ_of_le (h.newest p hp), (h.value_le hp).trans ha, fun hle => hne ?_⟩
  exact le_antisymm (hle.trans (h.value_le hp)) ha

theorem coherent_update [DecidableEq α] (ha : r.current.value ≤ a) (hb : ∀ b ∈ announced, b = a) :
    Coherent (r.update a announced) := by
  by_cases he : a = r.current.value
  · subst he
    have hold : ∀ p ∈ (r.update r.current.value announced).stamps, p ∈ r.stamps := by
      intro p hp
      rcases mem_stamps_update hb hp with hp | rfl
      · exact hp
      · rw [versionOf_same]
        exact List.mem_cons_self
    refine ⟨fun p hp q hq => h.aligned p (hold p hp) q (hold q hq), fun p hp => ?_⟩
    exact (h.newest p (hold p hp)).trans (versionOf_same r).ge
  · have hv := versionOf_changed he
    constructor
    · intro p hp q hq
      rcases mem_stamps_update hb hp with hpo | rfl <;>
        rcases mem_stamps_update hb hq with hqo | rfl
      · exact h.aligned p hpo q hqo
      · obtain ⟨hlt, hle, -⟩ := aligned_fresh h ha he hpo
        exact ⟨fun _ => hle, fun _ => by simp only [hv]; omega⟩
      · obtain ⟨hlt, -, hnot⟩ := aligned_fresh h ha he hqo
        refine ⟨fun hle => ?_, fun hle => absurd hle hnot⟩
        simp only [hv] at hle
        omega
      · exact ⟨fun _ => le_rfl, fun _ => le_rfl⟩
    · intro p hp
      change p.version ≤ r.versionOf a
      rcases mem_stamps_update hb hp with hpo | rfl
      · have := h.newest p hpo
        omega
      · exact le_rfl

theorem coherent_publish (i : Nat) : Coherent (r.publish i) := by
  constructor
  · intro p hp q hq
    exact h.aligned p (mem_stamps_publish hp) q (mem_stamps_publish hq)
  · intro p hp
    rw [publish_current]
    exact h.newest p (mem_stamps_publish hp)

/-- Publishing keeps the published value from going back exactly when the
announcement is not older than the one it replaces. -/
theorem publish_le_iff (i : Nat) :
    r.published.value ≤ (r.publish i).published.value ↔ r.InOrder i := by
  cases hi : r.inFlight[i]? with
  | none =>
    simp only [Register.publish, Register.InOrder, hi, Option.mem_def, reduceCtorEq,
      false_implies, implies_true, le_refl]
  | some p =>
    have hp := List.mem_of_getElem? hi
    rw [publish_of_getElem hi]
    simp only [Register.InOrder, hi, Option.mem_def, Option.some.injEq, forall_eq']
    exact (h.aligned r.published (by simp [Register.stamps]) p (by simp [Register.stamps, hp])).symm

end

theorem latest_publish (hc : Coherent r) (h : Latest r) (ho : r.InOrder i) :
    Latest (r.publish i) := by
  cases hi : r.inFlight[i]? with
  | none => simpa only [Register.publish, hi] using h
  | some q =>
    have hq := List.mem_of_getElem? hi
    have hle := ho q hi
    have hnew := hc.newest q (by simp [Register.stamps, hq])
    obtain ⟨p, hp, hv⟩ := h
    rw [publish_of_getElem hi]
    rcases List.mem_cons.mp hp with rfl | hp
    · exact ⟨q, by simp, by simp only; omega⟩
    · obtain ⟨j, hj⟩ := List.mem_iff_getElem?.mp hp
      by_cases hij : j = i
      · have he : q = p := by
          rw [hij, hi] at hj
          exact Option.some.inj hj
        exact ⟨q, by simp, by rw [he]; exact hv⟩
      · refine ⟨p, List.mem_cons_of_mem _ ?_, hv⟩
        exact List.mem_eraseIdx_iff_getElem?.mpr ⟨j, hij, hj⟩

/-- With nothing in flight, the published value is the locked one. -/
theorem published_eq_current (hc : Coherent r) (h : Latest r) (hq : r.inFlight = []) :
    r.published.value = r.current.value := by
  obtain ⟨p, hp, hv⟩ := h
  rw [hq, List.mem_singleton] at hp
  subst hp
  apply le_antisymm hc.published_le
  exact (hc.aligned r.current (by simp [Register.stamps]) r.published
    (by simp [Register.stamps])).mp hv.ge

end Order

end OtelSqlite.Lib.Publication
