import Mathlib.Logic.Basic
import Mathlib.Data.List.Basic

/-!
# Loops that keep what they did before they failed

A sweep performs a fallible step for each element of a list. When a step fails
the loop stops there and reports the failure, and the changes of the elements
before it stay made: this is what a loop over a mutable object does when its
body throws.
-/
namespace Sweep

variable {σ α ε : Type*}

def sweep (step : σ → α → Except ε σ) : σ → List α → σ × Option ε
  | s, [] => (s, none)
  | s, a :: rest =>
    match step s a with
    | .ok next => sweep step next rest
    | .error e => (s, some e)

variable {step : σ → α → Except ε σ}

@[simp] theorem sweep_nil (s : σ) : sweep step s [] = (s, none) := rfl

theorem sweep_cons_ok {s next : σ} {a : α} (rest : List α) (taken : step s a = .ok next) :
    sweep step s (a :: rest) = sweep step next rest := by
  simp [sweep, taken]

theorem sweep_cons_error {s : σ} {a : α} {e : ε} (rest : List α) (failed : step s a = .error e) :
    sweep step s (a :: rest) = (s, some e) := by
  simp [sweep, failed]

/-- What every step keeps, the loop keeps, failed or not. -/
theorem sweep_invariant {p : σ → Prop} {as : List α}
    (kept : ∀ s a next, a ∈ as → p s → step s a = .ok next → p next) {s : σ} (start : p s) :
    p (sweep step s as).1 := by
  induction as generalizing s with
  | nil => exact start
  | cons a rest ih =>
    cases taken : step s a with
    | error e =>
      rw [sweep_cons_error rest taken]
      exact start
    | ok next =>
      rw [sweep_cons_ok rest taken]
      exact ih (fun s b next belongs => kept s b next (List.mem_cons_of_mem a belongs))
        (kept s a next List.mem_cons_self start taken)

/-- The same when the invariant also speaks of the elements still to come. -/
theorem sweep_invariant_rest {p : σ → List α → Prop}
    (kept : ∀ s a rest next, p s (a :: rest) → step s a = .ok next → p next rest) {as : List α}
    {s : σ} (start : p s as) : ∃ rest, p (sweep step s as).1 rest := by
  induction as generalizing s with
  | nil => exact ⟨[], start⟩
  | cons a rest ih =>
    cases taken : step s a with
    | error e =>
      rw [sweep_cons_error rest taken]
      exact ⟨a :: rest, start⟩
    | ok next =>
      rw [sweep_cons_ok rest taken]
      exact ih (kept s a rest next start taken)

/-- A loop whose steps cannot fail as long as the invariant holds reports no failure. -/
theorem sweep_no_error {p : σ → Prop} {as : List α}
    (total : ∀ s a, a ∈ as → p s → ∃ next, step s a = .ok next ∧ p next) {s : σ} (start : p s) :
    (sweep step s as).2 = none := by
  induction as generalizing s with
  | nil => rfl
  | cons a rest ih =>
    obtain ⟨next, taken, holds⟩ := total s a List.mem_cons_self start
    rw [sweep_cons_ok rest taken]
    exact ih (fun s b belongs => total s b (List.mem_cons_of_mem a belongs)) holds

/-- A loop whose step fails exactly on the elements that are not `fine` performs those before the
first such element; `p` relates the elements performed so far to the state. -/
theorem sweep_progress (step : σ → α → Except ε σ) (fine : α → Bool)
    {p : List α → σ → Prop} (taken : ∀ past s a, p past s → fine a = true →
      ∃ next, step s a = .ok next ∧ p (past ++ [a]) next)
    (failed : ∀ past s a, p past s → fine a = false → ∃ e, step s a = .error e)
    (past : List α) {s : σ} (start : p past s) (as : List α) :
    p (past ++ as.takeWhile fine) (sweep step s as).1 ∧
      ((sweep step s as).2 = none ↔ as.takeWhile fine = as) := by
  induction as generalizing past s with
  | nil => simpa using start
  | cons a rest ih =>
    cases allowed : fine a with
    | true =>
      obtain ⟨next, stepped, holds⟩ := taken past s a start allowed
      have later := ih _ holds
      rw [sweep_cons_ok rest stepped, List.takeWhile_cons_of_pos allowed]
      simpa using later
    | false =>
      obtain ⟨e, refused⟩ := failed past s a start allowed
      rw [sweep_cons_error rest refused, List.takeWhile_cons_of_neg (by simp [allowed])]
      simpa using start

end Sweep
