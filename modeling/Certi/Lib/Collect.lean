import Mathlib.Data.List.Forall2

/-!
# Loops that collect a result for every element

`mapM` over `Except` stops at the first failure: it succeeds exactly if every
element does, and then gives the results in order. `foldlM` likewise: when it
succeeds, every step did.
-/
namespace Collect

variable {ε α β : Type} {f : α → Except ε β}

theorem mapM_ok {g : α → β} {l : List α} (each : ∀ a ∈ l, f a = .ok (g a)) :
    l.mapM f = .ok (l.map g) := by
  induction l with
  | nil => rfl
  | cons a rest ih =>
    rw [List.mapM_cons, each a List.mem_cons_self,
      ih fun b member => each b (List.mem_cons_of_mem a member)]
    rfl

/-- When the elements fail in one way only, so does the loop as soon as one of them fails. -/
theorem mapM_error {e : ε} {l : List α} (each : ∀ a ∈ l, (∃ b, f a = .ok b) ∨ f a = .error e)
    {a : α} (member : a ∈ l) (failed : f a = .error e) : l.mapM f = .error e := by
  induction l with
  | nil => cases member
  | cons first rest ih =>
    rw [List.mapM_cons]
    rcases each first List.mem_cons_self with ⟨b, done⟩ | stopped
    · have later : a ∈ rest := by
        rcases List.mem_cons.mp member with rfl | inside
        · rw [done] at failed
          cases failed
        · exact inside
      rw [done, ih (fun c inside => each c (List.mem_cons_of_mem first inside)) later]
      rfl
    · rw [stopped]
      rfl

/-- What a loop that succeeded has collected. -/
theorem mapM_success {l : List α} {bs : List β} (success : l.mapM f = .ok bs) :
    List.Forall₂ (fun a b => f a = .ok b) l bs := by
  induction l generalizing bs with
  | nil =>
    cases success
    exact .nil
  | cons a rest ih =>
    rw [List.mapM_cons] at success
    cases first : f a with
    | error e =>
      rw [first] at success
      cases success
    | ok b =>
      rw [first] at success
      cases later : rest.mapM f with
      | error e =>
        simp only [later, bind, Except.bind] at success
        cases success
      | ok bs' =>
        simp only [later, bind, Except.bind, pure, Except.pure, Except.ok.injEq] at success
        rw [← success]
        exact .cons first (ih later)

/-- Every element succeeds, with a result that was collected. -/
theorem mapM_each {l : List α} {bs : List β} (success : l.mapM f = .ok bs) :
    ∀ a ∈ l, ∃ b ∈ bs, f a = .ok b := by
  have collected := mapM_success success
  clear success
  induction collected with
  | nil => simp
  | cons head tail ih =>
    intro a member
    rcases List.mem_cons.mp member with rfl | later
    · exact ⟨_, List.mem_cons_self, head⟩
    · obtain ⟨b, listed, found⟩ := ih a later
      exact ⟨b, List.mem_cons_of_mem _ listed, found⟩

theorem ok_bind {γ : Type} (a : α) (g : α → Except ε γ) : (Except.ok a >>= g) = g a := rfl

/-- A sequence that succeeds went through both its programs. -/
theorem bind_success {γ : Type} {x : Except ε α} {g : α → Except ε γ} {c : γ}
    (success : (x >>= g) = .ok c) : ∃ a, x = .ok a ∧ g a = .ok c := by
  cases first : x with
  | error e =>
    rw [first] at success
    cases success
  | ok a =>
    rw [first] at success
    exact ⟨a, rfl, success⟩

/-- What every step for an element of the list keeps, the loop keeps. -/
theorem foldlM_keeps_mem {γ : Type} {step : γ → α → Except ε γ} {p : γ → Prop} {l : List α} :
    (∀ s, ∀ a ∈ l, ∀ s', p s → step s a = .ok s' → p s') →
      ∀ {s s' : γ}, p s → l.foldlM step s = .ok s' → p s' := by
  induction l with
  | nil =>
    intro keeps s s' holds success
    cases success
    exact holds
  | cons a rest ih =>
    intro keeps s s' holds success
    rw [List.foldlM_cons] at success
    obtain ⟨t, first, later⟩ := bind_success success
    exact ih (fun s b member => keeps s b (List.mem_cons_of_mem a member))
      (keeps s a List.mem_cons_self t holds first) later

/-- What every step of a loop keeps, the loop keeps. -/
theorem foldlM_keeps {γ : Type} {step : γ → α → Except ε γ} {p : γ → Prop}
    (keeps : ∀ s a s', p s → step s a = .ok s' → p s') {l : List α} {s s' : γ} (holds : p s)
    (success : l.foldlM step s = .ok s') : p s' :=
  foldlM_keeps_mem (fun s a _ => keeps s a) holds success

end Collect
