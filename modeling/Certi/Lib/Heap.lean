import Certi.Lib.Keyed

/-!
# Cells in memory

The cells that have been allocated and not yet deleted, by address. An address
that has no cell is dangling. Where a new cell is placed is up to the allocator,
which only promises that nothing is there.
-/
namespace Heap

open Keyed

abbrev Address := Nat

abbrev Cells (α : Type*) := List (Address × α)

structure Allocator where
  place : List Address → Address
  free : ∀ taken, place taken ∉ taken

variable {α : Type*} {cells : Cells α} {a b : Address} {x : α}

def cell (cells : Cells α) (a : Address) : Option α := (lookup Prod.fst a cells).map Prod.snd

/-- An assignment to a cell that is there. -/
def assign (cells : Cells α) (a : Address) (x : α) : Cells α :=
  replace Prod.fst (a, x) cells

def delete (cells : Cells α) (a : Address) : Cells α := drop Prod.fst a cells

def place (allocator : Allocator) (cells : Cells α) : Address :=
  allocator.place (cells.map Prod.fst)

def allocate (allocator : Allocator) (cells : Cells α) (x : α) : Cells α :=
  (place allocator cells, x) :: cells

theorem cell_isSome : (cell cells a).isSome = true ↔ a ∈ cells.map Prod.fst := by
  rw [cell, Option.isSome_map, lookup, List.find?_isSome]
  simp

/-- Nothing is at the place of a new cell. -/
theorem cell_place (allocator : Allocator) (cells : Cells α) :
    cell cells (place allocator cells) = none := by
  rw [← Option.not_isSome_iff_eq_none, cell_isSome]
  exact allocator.free _

theorem cell_allocate (allocator : Allocator) (cells : Cells α) (x : α) (a : Address) :
    cell (allocate allocator cells x) a =
      if a = place allocator cells then some x else cell cells a := by
  rw [cell, allocate, lookup, List.find?_cons]
  by_cases here : a = place allocator cells
  · simp [here]
  · simp [here, Ne.symm here, cell, lookup]

theorem cell_delete (cells : Cells α) (a b : Address) :
    cell (delete cells a) b = if b = a then none else cell cells b := by
  by_cases here : b = a
  · rw [if_pos here, ← Option.not_isSome_iff_eq_none, cell_isSome, delete, map_key_drop]
    simp [here]
  · rw [if_neg here, cell, cell, lookup, delete, drop, List.find?_filter, lookup]
    congr 2
    funext c
    by_cases there : c.1 = b
    · simp [there, here]
    · simp [there]

theorem cell_filter (cells : Cells α) (keep : Address → Bool) (b : Address) :
    cell (cells.filter fun c => keep c.1) b = if keep b then cell cells b else none := by
  rw [cell, cell, lookup, lookup, List.find?_filter]
  cases here : keep b with
  | true =>
    rw [if_pos rfl]
    congr 2
    funext c
    by_cases there : c.1 = b
    · simp [there, here]
    · simp [there]
  | false =>
    have absent : cells.find? (fun c => keep c.1 && decide (c.1 = b)) = none := by
      rw [List.find?_eq_none]
      rintro c - found
      simp only [Bool.and_eq_true, decide_eq_true_eq] at found
      rw [found.2, here] at found
      cases found.1
    simp [absent]

theorem cell_assign (there : (cell cells a).isSome = true) (x : α) (b : Address) :
    cell (assign cells a x) b = if b = a then some x else cell cells b := by
  rw [cell, assign, lookup_replace_eq, cell]
  by_cases here : b = a
  · rw [if_pos here, if_pos here, Option.map_map, here]
    obtain ⟨c, found⟩ := Option.isSome_iff_exists.mp there
    obtain ⟨d, looked, rfl⟩ := Option.map_eq_some_iff.mp found
    rw [looked]
    rfl
  · rw [if_neg here, if_neg here]

end Heap
