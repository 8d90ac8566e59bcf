import Mathlib.Data.List.Basic
import Mathlib.Data.List.Nodup

/-!
# Grouping pairs by key in place

A list of keyed values is gone through once. At each pair whose key is not blank
all values of that key from there on are collected, and the keys of the pairs
they came from are blanked, so that the loop passes over them later. Every key
is thus met once, with its values in their order.
-/
namespace Regroup

variable {κ α : Type*} [DecidableEq κ]

/-- The values of one key. -/
def values (key : κ) (pairs : List (κ × α)) : List α :=
  (pairs.filter fun p => p.1 = key).map Prod.snd

/-- The pairs of a key that has been dealt with. -/
def blankOut (blank key : κ) (pairs : List (κ × α)) : List (κ × α) :=
  pairs.map fun p => if p.1 = key then (blank, p.2) else p

/-- The loop over the positions still to come, `fuel` of them. -/
def regroupFrom (blank : κ) : Nat → List (κ × α) → List (κ × List α)
  | 0, _ => []
  | _ + 1, [] => []
  | fuel + 1, p :: rest =>
    if p.1 = blank then regroupFrom blank fuel rest
    else (p.1, values p.1 (p :: rest)) :: regroupFrom blank fuel (blankOut blank p.1 rest)

def regroup (blank : κ) (pairs : List (κ × α)) : List (κ × List α) :=
  regroupFrom blank pairs.length pairs

@[simp] theorem values_nil (key : κ) : values key ([] : List (κ × α)) = [] := rfl

theorem values_cons (key : κ) (p : κ × α) (rest : List (κ × α)) :
    values key (p :: rest) = (if p.1 = key then [p.2] else []) ++ values key rest := by
  unfold values
  by_cases same : p.1 = key
  · simp [same]
  · simp [same]

theorem values_cons_ne {key : κ} {p : κ × α} (rest : List (κ × α)) (other : p.1 ≠ key) :
    values key (p :: rest) = values key rest := by
  rw [values_cons, if_neg other]
  rfl

@[simp] theorem length_blankOut (blank key : κ) (pairs : List (κ × α)) :
    (blankOut blank key pairs).length = pairs.length := List.length_map _

/-- Blanking out a key leaves nothing of it and everything of the others. -/
theorem values_blankOut {blank key other : κ} (named : other ≠ blank) (pairs : List (κ × α)) :
    values other (blankOut blank key pairs) = if other = key then [] else values other pairs := by
  induction pairs with
  | nil => simp [blankOut]
  | cons p rest ih =>
    have tail : blankOut blank key (p :: rest) =
        (if p.1 = key then (blank, p.2) else p) :: blankOut blank key rest := rfl
    rw [tail, values_cons, values_cons, ih]
    by_cases here : p.1 = key
    · rw [if_pos here, if_neg (Ne.symm named), here]
      by_cases same : other = key
      · simp [same]
      · rw [if_neg same, if_neg same, if_neg (Ne.symm same)]
    · rw [if_neg here]
      by_cases same : other = key
      · rw [if_pos same, if_pos same, if_neg (fun is => here (is.trans same))]
        rfl
      · rw [if_neg same, if_neg same]

theorem regroupFrom_values {blank key : κ} (named : key ≠ blank) (fuel : Nat)
    (pairs : List (κ × α)) (enough : pairs.length ≤ fuel) :
    (regroupFrom blank fuel pairs).filter (fun group => group.1 = key) =
      if values key pairs = [] then [] else [(key, values key pairs)] := by
  induction fuel generalizing pairs with
  | zero =>
    cases pairs with
    | nil => rfl
    | cons p rest => cases enough
  | succ fuel ih =>
    cases pairs with
    | nil => rfl
    | cons p rest =>
      have shorter : rest.length ≤ fuel := Nat.le_of_succ_le_succ enough
      unfold regroupFrom
      by_cases empty : p.1 = blank
      · have other : p.1 ≠ key := fun same => named (same.symm.trans empty)
        rw [if_pos empty, ih rest shorter, values_cons_ne rest other]
      · rw [if_neg empty]
        have later := ih (blankOut blank p.1 rest) (by rw [length_blankOut]; exact shorter)
        rw [values_blankOut named] at later
        by_cases same : p.1 = key
        · rw [if_pos same.symm] at later
          have first : values key (p :: rest) ≠ [] := by simp [values_cons, same]
          rw [List.filter_cons_of_pos (by simpa using same), later, if_neg first, same]
          rfl
        · rw [if_neg (Ne.symm same)] at later
          rw [List.filter_cons_of_neg (by simpa using same), later, values_cons_ne rest same]

/-- A group is no longer than the list. -/
theorem regroupFrom_length {blank : κ} (fuel : Nat) (pairs : List (κ × α)) :
    ∀ group ∈ regroupFrom blank fuel pairs, group.2.length ≤ pairs.length := by
  induction fuel generalizing pairs with
  | zero => exact fun group found => absurd found List.not_mem_nil
  | succ fuel ih =>
    cases pairs with
    | nil => exact fun group found => absurd found List.not_mem_nil
    | cons p rest =>
      intro group found
      unfold regroupFrom at found
      split at found
      · have bound := ih rest group found
        rw [List.length_cons]
        omega
      · rcases List.mem_cons.mp found with rfl | later
        · unfold values
          rw [List.length_map]
          exact List.length_filter_le _ _
        · have bound := ih _ group later
          rw [length_blankOut] at bound
          rw [List.length_cons]
          omega

/-- Each key that is not blank has one group, of all its values in order, or none. -/
theorem regroup_values {blank key : κ} (named : key ≠ blank) (pairs : List (κ × α)) :
    (regroup blank pairs).filter (fun group => group.1 = key) =
      if values key pairs = [] then [] else [(key, values key pairs)] :=
  regroupFrom_values named pairs.length pairs (Nat.le_refl _)

theorem regroup_length {blank : κ} {pairs : List (κ × α)} {group : κ × List α}
    (found : group ∈ regroup blank pairs) : group.2.length ≤ pairs.length :=
  regroupFrom_length pairs.length pairs group found

end Regroup
