import Mathlib.Algebra.Order.Ring.Nat
import Mathlib.Data.List.Basic

/-!
# Walks over an explicit stack

A loop that pops an item, looks at it and pushes the items below it. Looking at an
item may fail, which ends the loop. The items pushed weigh less in total than the
item popped, so the loop ends. The last item pushed is the next one popped.

`loop_eq_run` bounds the rounds of the loop by the weight of its stack. `run_ok_iff` is
the rule for a walk that checks: it ends well exactly when every item of the stack has the
property that says "this item passes, and so does everything below it". `run_eq_sum` is the
rule for a walk that adds up sizes: its state stands for a count (`hold`), and the count
grows by the sizes of the stack's items.
-/

namespace OtelSqlite.Lib

structure StackWalk (α σ ε : Type) where
  visit : σ → α → Except ε (σ × List α)
  weight : α → Nat
  lighter : ∀ {s a s' pushed}, visit s a = .ok (s', pushed) → (pushed.map weight).sum < weight a

namespace StackWalk

variable {α σ ε : Type} (w : StackWalk α σ ε)

/-- The top of the stack is the head of the list. -/
def run (s : σ) : List α → Except ε σ
  | [] => .ok s
  | a :: rest =>
    match _h : w.visit s a with
    | .error e => .error e
    | .ok (s', pushed) => run s' (pushed.reverseAux rest)
termination_by stack => (stack.map w.weight).sum
decreasing_by
  have hlighter := w.lighter _h
  simp only [List.reverseAux_eq, List.map_append, List.map_reverse, List.sum_append,
    List.sum_reverse, List.map_cons, List.sum_cons]
  omega

variable {w} {s : σ} {a : α} {rest : List α}

theorem run_cons_of_error {e : ε} (h : w.visit s a = .error e) :
    w.run s (a :: rest) = .error e := by
  rw [run]
  split
  · next e' h' => rw [h] at h'; cases h'; rfl
  · next h' => rw [h] at h'; cases h'

theorem run_cons_of_ok {s' : σ} {pushed : List α} (h : w.visit s a = .ok (s', pushed)) :
    w.run s (a :: rest) = w.run s' (pushed.reverseAux rest) := by
  rw [run]
  split
  · next h' => rw [h] at h'; cases h'
  · next h' => rw [h] at h'; cases h'; rfl

/-- The loop with a limit on the number of its rounds; `none` if the limit is reached. -/
def loop (w : StackWalk α σ ε) : Nat → σ → List α → Option (Except ε σ)
  | _, s, [] => some (.ok s)
  | 0, _, _ :: _ => none
  | rounds + 1, s, a :: rest =>
    match w.visit s a with
    | .error e => some (.error e)
    | .ok (s', pushed) => loop w rounds s' (pushed.reverseAux rest)

/-- The loop ends within as many rounds as the stack weighs, and one more for an error. -/
theorem loop_eq_run {rounds : Nat} {stack : List α} (h : (stack.map w.weight).sum < rounds) :
    w.loop rounds s stack = some (w.run s stack) := by
  induction s, stack using run.induct w generalizing rounds with
  | case1 s => simp [loop, run]
  | case2 s a rest e hvisit =>
    cases rounds with
    | zero => omega
    | succ rounds => rw [loop, hvisit, run_cons_of_error hvisit]
  | case3 s a rest s' pushed hvisit ih =>
    cases rounds with
    | zero => omega
    | succ rounds =>
      have hlighter := w.lighter hvisit
      rw [loop, hvisit, run_cons_of_ok hvisit]
      refine ih ?_
      simp only [List.reverseAux_eq, List.map_append, List.map_reverse, List.sum_append,
        List.sum_reverse, List.map_cons, List.sum_cons] at h ⊢
      omega

theorem run_ok_iff {P : α → Prop}
    (hP : ∀ s a, P a ↔ ∃ s' pushed, w.visit s a = .ok (s', pushed) ∧ ∀ b ∈ pushed, P b)
    (s : σ) (stack : List α) : (∃ s', w.run s stack = .ok s') ↔ ∀ a ∈ stack, P a := by
  induction s, stack using run.induct w with
  | case1 s => simp [run]
  | case2 s a rest e h =>
    rw [run_cons_of_error h]
    refine iff_of_false (fun ⟨_, h'⟩ => by cases h') fun hall => ?_
    obtain ⟨_, _, hvisit, -⟩ := (hP s a).mp (hall a List.mem_cons_self)
    rw [h] at hvisit
    cases hvisit
  | case3 s a rest s' pushed h ih =>
    have hpasses : P a ↔ ∀ b ∈ pushed, P b := by
      rw [hP s a, h]
      simp
    rw [run_cons_of_ok h, ih, List.reverseAux_eq, List.forall_mem_append, List.forall_mem_cons,
      hpasses]
    simp

theorem run_eq_sum {hold : Nat → σ} {size : α → Nat}
    (hvisit : ∀ n a, ∃ own pushed, w.visit (hold n) a = .ok (hold (n + own), pushed) ∧
      size a = own + (pushed.map size).sum)
    (n : Nat) (stack : List α) : w.run (hold n) stack = .ok (hold (n + (stack.map size).sum)) := by
  induction hs : hold n, stack using run.induct w generalizing n with
  | case1 s => rw [run, List.map_nil, List.sum_nil, Nat.add_zero, hs]
  | case2 s a rest e h =>
    obtain ⟨own, pushed, hok, -⟩ := hvisit n a
    rw [hs, h] at hok
    cases hok
  | case3 s a rest s' pushed h ih =>
    obtain ⟨own, pushed', hok, hsize⟩ := hvisit n a
    rw [hs, h] at hok
    cases hok
    rw [run_cons_of_ok h, ih (n + own) rfl]
    simp only [List.reverseAux_eq, List.map_append, List.map_reverse, List.sum_append,
      List.sum_reverse, List.map_cons, List.sum_cons, hsize, Nat.add_assoc]

end StackWalk

end OtelSqlite.Lib
