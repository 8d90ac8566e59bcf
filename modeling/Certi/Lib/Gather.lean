import Certi.Lib.Ascending
import Certi.Lib.Keyed
import Certi.Lib.Regroup

/-!
# Gathering values in a map

Keyed values are gone through once and each is put at the end of the vector that
a `std::map` has for its key, which is made when there is none. The map ends
with one vector for each key met, of all the values of that key in their order.
-/
namespace Gather

open Ascending Keyed

variable {κ α : Type*} [LinearOrder κ]

/-- `push_back` on the vector of a key. -/
def push (p : κ × α) (gathered : List (κ × List α)) : List (κ × List α) :=
  store Prod.fst (p.1, ((lookup Prod.fst p.1 gathered).elim [] Prod.snd) ++ [p.2]) gathered

/-- The map holds the values of the pairs, key by key. -/
structure Holds (pairs : List (κ × α)) (gathered : List (κ × List α)) : Prop where
  ascends : Ascends Prod.fst gathered
  vectors : ∀ k as, (k, as) ∈ gathered ↔ as = Regroup.values k pairs ∧ as ≠ []

theorem holds_nil : Holds ([] : List (κ × α)) [] where
  ascends := List.Pairwise.nil
  vectors k as := by simp

variable {pairs : List (κ × α)} {gathered : List (κ × List α)}

theorem values_append (k : κ) (pairs more : List (κ × α)) :
    Regroup.values k (pairs ++ more) = Regroup.values k pairs ++ Regroup.values k more := by
  simp [Regroup.values]

/-- The vector of a key, or no vector when none of its values has come. -/
theorem Holds.vector (holds : Holds pairs gathered) (k : κ) :
    (lookup Prod.fst k gathered).elim [] Prod.snd = Regroup.values k pairs := by
  cases found : lookup Prod.fst k gathered with
  | some entry =>
    obtain rfl : entry.1 = k := lookup_key found
    exact ((holds.vectors entry.1 entry.2).mp (lookup_mem found)).1
  | none =>
    by_contra some
    have listed := (holds.vectors k (Regroup.values k pairs)).mpr ⟨rfl, fun none => some none.symm⟩
    exact lookup_eq_none.mp found _ listed rfl

theorem Holds.push (holds : Holds pairs gathered) (p : κ × α) :
    Holds (pairs ++ [p]) (push p gathered) := by
  refine ⟨ascends_store holds.ascends, fun k as => ?_⟩
  unfold Gather.push
  rw [mem_store holds.ascends, holds.vector, values_append, Regroup.values_cons]
  by_cases here : p.1 = k
  · subst here
    simp only [if_true, Regroup.values_nil, List.append_nil, true_and, not_true, and_false, or_false,
      Prod.mk.injEq, ne_eq]
    refine (and_iff_left_of_imp ?_).symm
    rintro rfl
    simp
  · have other : k ≠ p.1 := fun same => here same.symm
    simp [here, other, holds.vectors]

end Gather
