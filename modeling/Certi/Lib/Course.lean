import Mathlib.Control.Basic

/-!
# Programs that may not come to an end

A loop whose end is in question is given a number of rounds: it throws, returns,
or is `unfinished` when the rounds are used up. `Returns` says that it returns a
value whenever it is given enough of them; the rules follow the way such loops
are put together.
-/
namespace Course

variable {ε α β : Type}

/-- The rounds are used up. -/
def unfinished : ExceptT ε Option α := ExceptT.mk none

/-- A program without loops. -/
def atOnce (r : Except ε α) : ExceptT ε Option α := ExceptT.mk (some r)

theorem atOnce_ok (a : α) : (atOnce (.ok a) : ExceptT ε Option α) = pure a := rfl

/-- From some number of rounds on the program returns the value. -/
def Returns (m : Nat → ExceptT ε Option α) (a : α) : Prop := ∃ n, ∀ fuel, n ≤ fuel → m fuel = pure a

variable {m : Nat → ExceptT ε Option α} {a : α}

theorem Returns.pure (a : α) : Returns (fun _ => (Pure.pure a : ExceptT ε Option α)) a :=
  ⟨0, fun _ _ => rfl⟩

/-- Two programs in sequence share the rounds. -/
theorem Returns.bind {f : α → Nat → ExceptT ε Option β} {b : β} (first : Returns m a)
    (next : Returns (f a) b) : Returns (fun fuel => m fuel >>= fun a => f a fuel) b := by
  obtain ⟨n, first⟩ := first
  obtain ⟨k, next⟩ := next
  refine ⟨max n k, fun fuel enough => ?_⟩
  have here : n ≤ fuel := by omega
  have later : k ≤ fuel := by omega
  simp only [first fuel here, pure_bind, next fuel later]

/-- A loop that needs a round for its body. -/
theorem Returns.round {body : Nat → ExceptT ε Option α} (unfolds : ∀ fuel, m (fuel + 1) = body fuel)
    (returns : Returns body a) : Returns m a := by
  obtain ⟨n, returns⟩ := returns
  refine ⟨n + 1, fun fuel enough => ?_⟩
  obtain ⟨less, rfl⟩ : ∃ less, fuel = less + 1 := ⟨fuel - 1, by omega⟩
  rw [unfolds less]
  exact returns less (by omega)

theorem Returns.congr {m' : Nat → ExceptT ε Option α} (same : ∀ fuel, m fuel = m' fuel)
    (returns : Returns m' a) : Returns m a := by
  obtain ⟨n, returns⟩ := returns
  exact ⟨n, fun fuel enough => (same fuel).trans (returns fuel enough)⟩

/-- A program returns one value only. -/
theorem Returns.unique {b : α} (first : Returns m a) (second : Returns m b) : a = b := by
  obtain ⟨n, first⟩ := first
  obtain ⟨k, second⟩ := second
  have one := first (max n k) (by omega)
  rw [second (max n k) (by omega)] at one
  have same : (some (Except.ok b) : Option (Except ε α)) = some (.ok a) := one
  cases same
  rfl

end Course
