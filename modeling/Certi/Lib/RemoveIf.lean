import Mathlib.Data.List.Basic
import Mathlib.Logic.Function.Iterate

/-!
# A removal that does not shorten the list

`std::remove_if` moves the elements to keep to the front of the list, in their
order, and returns where they end; whoever does not erase from there on keeps
the old elements that stood in the last places. `staying` counts the elements
that were to be removed and are still in the list after some rounds.
-/
namespace RemoveIf

variable {α : Type*} (p : α → Bool)

def removeIf (l : List α) : List α :=
  let kept := l.filter (fun a => !p a)
  kept ++ l.drop kept.length

/-- The elements satisfying `p` in the list after `rounds` removals: those among the last
places, as many as there were before the last round. -/
def staying (l : List α) : Nat → Nat
  | 0 => l.countP p
  | rounds + 1 => (l.drop (l.length - staying l rounds)).countP p

variable {p}

theorem mem_removeIf {l : List α} {a : α} (member : a ∈ removeIf p l) : a ∈ l := by
  rcases List.mem_append.mp member with kept | left
  · exact List.mem_of_mem_filter kept
  · exact List.mem_of_mem_drop left

/-- Nothing to remove. -/
theorem removeIf_eq_self {l : List α} (none : ∀ a ∈ l, p a = false) : removeIf p l = l := by
  have kept : l.filter (fun a => !p a) = l := List.filter_eq_self.mpr fun a member => by
    simp [none a member]
  simp [removeIf, kept]

theorem mem_removeIf_of_keep {l : List α} {a : α} (member : a ∈ l) (keep : p a = false) :
    a ∈ removeIf p l :=
  List.mem_append_left _ (List.mem_filter.mpr ⟨member, by simp [keep]⟩)

theorem kept_length (l : List α) :
    (l.filter (fun a => !p a)).length = l.length - l.countP p := by
  have split := l.length_eq_countP_add_countP p
  rw [← List.countP_eq_length_filter]
  have same : l.countP (fun a => !p a) = l.countP (fun a => decide ¬p a = true) :=
    List.countP_congr fun a _ => by simp
  omega

theorem removeIf_length (l : List α) : (removeIf p l).length = l.length := by
  have bound := List.countP_le_length (p := p) (l := l)
  simp only [removeIf, List.length_append, List.length_drop, kept_length]
  omega

/-- What a removal leaves in the last places, one for each element to be removed. -/
theorem removeIf_drop {l : List α} {i : Nat} (within : i ≤ l.countP p) :
    (removeIf p l).drop (l.length - i) = l.drop (l.length - i) := by
  have bound := List.countP_le_length (p := p) (l := l)
  have kept := kept_length (p := p) l
  rw [removeIf, List.drop_append, kept, List.drop_eq_nil_of_le (by omega), List.nil_append,
    List.drop_drop]
  congr 1
  omega

theorem removeIf_countP (l : List α) :
    (removeIf p l).countP p = (l.drop (l.length - l.countP p)).countP p := by
  have none : (l.filter (fun a => !p a)).countP p = 0 := by
    rw [List.countP_eq_zero]
    intro a member
    simpa using (List.mem_filter.mp member).2
  rw [removeIf, List.countP_append, none, kept_length, Nat.zero_add]

theorem staying_le (l : List α) (rounds : Nat) : staying p l rounds ≤ l.countP p := by
  cases rounds with
  | zero => exact Nat.le_refl _
  | succ rounds => exact (List.drop_sublist _ l).countP_le

theorem staying_antitone (l : List α) (rounds : Nat) :
    staying p l (rounds + 1) ≤ staying p l rounds := by
  have bound := List.countP_le_length (p := p) (l := l)
  have within := staying_le (p := p) l rounds
  have last := List.countP_le_length (p := p) (l := l.drop (l.length - staying p l rounds))
  rw [List.length_drop] at last
  change (l.drop (l.length - staying p l rounds)).countP p ≤ _
  omega

/-- The rounds never touch the places still in question, and `staying` counts what is left. -/
theorem rounds_countP (l : List α) (rounds : Nat) :
    (((removeIf p)^[rounds]) l).countP p = staying p l rounds := by
  have invariant : ((removeIf p)^[rounds] l).length = l.length ∧
      ((removeIf p)^[rounds] l).countP p = staying p l rounds ∧
      ∀ i ≤ staying p l rounds,
        ((removeIf p)^[rounds] l).drop (l.length - i) = l.drop (l.length - i) := by
    induction rounds with
    | zero => exact ⟨rfl, rfl, fun _ _ => rfl⟩
    | succ rounds ih =>
      obtain ⟨length, count, last⟩ := ih
      rw [Function.iterate_succ_apply']
      refine ⟨(removeIf_length _).trans length, ?_, fun i within => ?_⟩
      · rw [removeIf_countP, length, count, last _ (Nat.le_refl _)]
        rfl
      · have earlier := Nat.le_trans within (staying_antitone l rounds)
        have kept := removeIf_drop (p := p) (l := (removeIf p)^[rounds] l) (i := i)
          (by rw [count]; exact earlier)
        rw [length] at kept
        rw [kept, last i earlier]
  exact invariant.2.1

end RemoveIf
