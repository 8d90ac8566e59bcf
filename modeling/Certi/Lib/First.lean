import Mathlib.Data.List.Basic

/-!
# Changing the first match of a list

A loop that searches a list and changes the first element it finds. The list
is split around that element, so that what is said of all elements, or of all
pairs, is said of the changed one and the others.
-/
namespace First

variable {α : Type*} (p : α → Bool) (f : α → α)

/-- Applies a change to the first element that satisfies `p`. -/
def adjust : List α → List α
  | [] => []
  | a :: rest => if p a then f a :: rest else a :: adjust rest

variable {p f} {l : List α} {a b : α}

theorem adjust_split (found : l.find? p = some a) :
    ∃ before after, l = before ++ a :: after ∧ adjust p f l = before ++ f a :: after := by
  induction l with
  | nil => cases found
  | cons first rest ih =>
    by_cases here : p first = true
    · rw [List.find?_cons_of_pos here] at found
      cases found
      exact ⟨[], rest, rfl, by simp [adjust, here]⟩
    · rw [List.find?_cons_of_neg here] at found
      obtain ⟨before, after, split, changed⟩ := ih found
      refine ⟨first :: before, after, by rw [split]; rfl, ?_⟩
      simp [adjust, here, changed]

/-- Where no two elements match, changing the first match is changing every match. -/
theorem adjust_eq_map (single : l.Pairwise fun a b => ¬(p a = true ∧ p b = true)) :
    adjust p f l = l.map fun a => if p a then f a else a := by
  induction l with
  | nil => rfl
  | cons a rest ih =>
    obtain ⟨alone, later⟩ := List.pairwise_cons.mp single
    by_cases here : p a = true
    · have kept : rest.map (fun b => if p b then f b else b) = rest := by
        refine (List.map_congr_left fun b member => ?_).trans (List.map_id' rest)
        have other : ¬p b = true := fun matches_ => alone b member ⟨here, matches_⟩
        rw [if_neg other]
      rw [adjust, if_pos here, List.map_cons, if_pos here, kept]
    · rw [adjust, if_neg here, List.map_cons, if_neg here, ih later]

/-- Where no two elements match, what is found is whatever matches. -/
theorem find?_iff_mem (single : l.Pairwise fun a b => ¬(p a = true ∧ p b = true)) :
    l.find? p = some a ↔ a ∈ l ∧ p a = true := by
  constructor
  · exact fun found => ⟨List.mem_of_find?_eq_some found, List.find?_some found⟩
  · rintro ⟨member, here⟩
    induction l with
    | nil => cases member
    | cons b rest ih =>
      obtain ⟨alone, later⟩ := List.pairwise_cons.mp single
      rcases List.mem_cons.mp member with rfl | listed
      · exact List.find?_cons_of_pos here
      · have other : ¬p b = true := fun matches_ => alone a listed ⟨matches_, here⟩
        rw [List.find?_cons_of_neg other]
        exact ih later listed

/-- A projection that the change keeps reads the same in the whole list. -/
theorem map_adjust {β : Type*} {g : α → β} (keeps : ∀ a, g (f a) = g a) (l : List α) :
    (adjust p f l).map g = l.map g := by
  induction l with
  | nil => rfl
  | cons a rest ih =>
    by_cases here : p a = true <;> simp [adjust, here, keeps, ih]

/-- The changed element and the others: what belongs to the list, and a symmetric relation
between all pairs, before and after the change. -/
theorem adjust_others {r : α → α → Prop} (symm : ∀ {x y}, r x y → r y x)
    (found : l.find? p = some a) : ∃ others : List α,
      (∀ b, b ∈ l ↔ b = a ∨ b ∈ others) ∧
      (∀ b, b ∈ adjust p f l ↔ b = f a ∨ b ∈ others) ∧
      (l.Pairwise r ↔ (∀ b ∈ others, r a b) ∧ others.Pairwise r) ∧
      ((adjust p f l).Pairwise r ↔ (∀ b ∈ others, r (f a) b) ∧ others.Pairwise r) := by
  obtain ⟨before, after, split, changed⟩ := adjust_split (f := f) found
  refine ⟨before ++ after, fun b => ?_, fun b => ?_, ?_, ?_⟩
  · rw [split, List.mem_append, List.mem_cons, List.mem_append]
    tauto
  · rw [changed, List.mem_append, List.mem_cons, List.mem_append]
    tauto
  · rw [split, List.pairwise_middle symm, List.pairwise_cons]
  · rw [changed, List.pairwise_middle symm, List.pairwise_cons]

end First
