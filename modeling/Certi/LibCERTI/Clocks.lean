import Certi.Lib.Keyed
import Certi.LibCERTI.LBTS

/-!
# One clock

The RTIG and every RTIA hold a table of clocks. What a change of a table or a
message about time does is said for the clock of one regulator at a time, which
is `none` where the regulator is not in the table.
-/
namespace Certi

open Keyed

/-- The clock of a regulator in a table. -/
def clockOf (clocks : List (FederateHandle × Date)) (g : FederateHandle) : Option Date :=
  (lookup Prod.fst g clocks).map Prod.snd

/-- The later of two dates, as `LBTS::update` keeps it. -/
def later (date clock : Date) : Date := if date < clock then clock else date

/-- What a message makes of the clock of one regulator in the table of its receiver. -/
def NetworkMessage.moves (g : FederateHandle) (clock : Option Date) : NetworkMessage → Option Date
  | .messageNull h date => if h = 0 ∨ h = g then clock.map (later date) else clock
  | .setTimeRegulating h true date => if h = g then some (clock.getD date) else clock
  | .setTimeRegulating h false _ => if h = g then none else clock
  | _ => clock

section Tables

variable {clocks : List (FederateHandle × Date)} {g h : FederateHandle} {date : Date}

theorem clockOf_eq_none : clockOf clocks g = none ↔ g ∉ clocks.map Prod.fst := by
  rw [clockOf, Option.map_eq_none_iff, lookup_eq_none]
  simp only [List.mem_map, not_exists, not_and, ne_eq]

theorem clockOf_isSome : (clockOf clocks g).isSome = (lookup Prod.fst g clocks).isSome := by
  simp [clockOf]

@[simp] theorem clockOf_nil : clockOf [] g = none := rfl

theorem clockOf_append_new :
    clockOf (clocks ++ [(h, date)]) g =
      (clockOf clocks g).or (if h = g then some date else none) := by
  unfold clockOf lookup
  rw [List.find?_append]
  cases clocks.find? fun clock => decide (clock.1 = g) with
  | some clock => rfl
  | none =>
    by_cases same : h = g
    · simp [same]
    · simp [same]

theorem clockOf_drop :
    clockOf (drop Prod.fst h clocks) g = if h = g then none else clockOf clocks g := by
  by_cases same : h = g
  · subst same
    rw [if_pos rfl, clockOf_eq_none, map_key_drop]
    simp
  · rw [if_neg same]
    unfold clockOf lookup drop
    rw [List.find?_filter]
    congr 2
    funext clock
    by_cases here : clock.1 = g
    · simp [here, Ne.symm same]
    · simp [here]

/-- Rewriting the date of every clock that `p` picks. -/
theorem clockOf_map (date : Date) {p : FederateHandle → Bool} {f : FederateHandle × Date → FederateHandle × Date}
    (moved : ∀ clock, f clock = if p clock.1 then (clock.1, later date clock.2) else clock) :
    clockOf (clocks.map f) g =
      if p g then (clockOf clocks g).map (later date) else clockOf clocks g := by
  unfold clockOf
  rw [lookup_map]
  · cases found : lookup Prod.fst g clocks with
    | none => simp
    | some clock =>
      have same : clock.1 = g := lookup_key found
      simp only [Option.map_some, moved, same]
      split <;> rfl
  · intro clock _
    rw [moved]
    split <;> rfl

end Tables

/-! ## The changes of `LBTS` -/

namespace LBTS

/-- A change that throws has changed nothing. -/
def settle (l : LBTS) : Except RTIException LBTS → LBTS
  | .ok l' => l'
  | .error _ => l

variable {l : LBTS} {g h : FederateHandle} {date : Date}

theorem existsClock_iff : l.existsClock h = true ↔ clockOf l.clocks h ≠ none := by
  rw [ne_eq, clockOf_eq_none, not_not]
  unfold existsClock
  rw [List.any_eq_true]
  simp only [decide_eq_true_eq, List.mem_map]

theorem insert_clock : clockOf (l.settle (l.insert h date)).clocks g =
    (NetworkMessage.setTimeRegulating h true date).moves g (clockOf l.clocks g) := by
  unfold LBTS.insert NetworkMessage.moves
  by_cases known : l.existsClock h = true
  · rw [if_pos known]
    by_cases same : h = g
    · obtain ⟨clock, found⟩ := Option.ne_none_iff_exists'.mp (existsClock_iff.mp known)
      subst same
      simp [settle, found]
    · simp [settle, same]
  · rw [if_neg known]
    simp only [settle, compute]
    rw [clockOf_append_new]
    by_cases same : h = g
    · subst same
      have absent := not_not.mp (fun found => known (existsClock_iff.mpr found))
      simp [absent]
    · simp [same]

theorem raise_eq (c : FederateHandle × Date) : raise date c = (c.1, later date c.2) := by
  unfold raise later
  split <;> rfl

theorem update_clock : clockOf (l.settle (l.update h date)).clocks g =
    (NetworkMessage.messageNull h date).moves g (clockOf l.clocks g) := by
  unfold LBTS.update NetworkMessage.moves
  by_cases everyone : h = 0
  · simp only [everyone, settle, compute, true_or, if_true]
    rw [clockOf_map date (p := fun _ => true) (fun c => raise_eq c)]
    rfl
  · simp only [everyone, false_or, if_false]
    by_cases known : l.existsClock h = true
    · rw [if_pos known]
      simp only [settle, compute]
      rw [clockOf_map date (p := fun k => k = h)]
      · simp only [decide_eq_true_eq, @eq_comm _ g h]
      · intro c
        by_cases same : c.1 = h
        · simp [same, raise_eq]
        · simp [same]
    · rw [if_neg known]
      simp only [settle]
      split
      · rename_i same
        have absent := not_not.mp (fun found => known (existsClock_iff.mpr found))
        rw [← same, absent]
        rfl
      · rfl

theorem remove_clock (old : Date) : clockOf (l.settle (l.remove h)).clocks g =
    (NetworkMessage.setTimeRegulating h false old).moves g (clockOf l.clocks g) := by
  unfold LBTS.remove NetworkMessage.moves
  by_cases known : l.existsClock h = true
  · rw [if_pos known]
    exact clockOf_drop
  · rw [if_neg known]
    simp only [settle]
    split
    · rename_i same
      have absent := not_not.mp (fun found => known (existsClock_iff.mpr found))
      rw [← same, absent]
    · rfl

end LBTS

end Certi
