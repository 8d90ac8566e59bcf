import Mathlib.Data.List.Basic

/-!
# Loops that stop at the first refusal

A loop asks its elements one after the other and ends with the first that
refuses or throws. What lies behind that element is never asked, so what makes
the loop right has to hold up to there only.
-/
namespace Verdicts

variable {ε α : Type}

def all (ask : α → Except ε Bool) : List α → Except ε Bool
  | [] => .ok true
  | a :: rest =>
    match ask a with
    | .ok true => all ask rest
    | other => other

/-- `q` holds of every element up to the first that is not `p`. -/
def UpTo (p q : α → Prop) : List α → Prop
  | [] => True
  | a :: rest => q a ∧ (p a → UpTo p q rest)

/-- An answer that is true exactly if `p` holds. -/
def Answers (answer : Except ε Bool) (p : Prop) : Prop := ∃ b, answer = .ok b ∧ (b = true ↔ p)

variable {ask : α → Except ε Bool} {p q : α → Prop} {l : List α}

theorem Answers.congr {answer : Except ε Bool} {p q : Prop} (answers : Answers answer p)
    (same : p ↔ q) : Answers answer q := by
  obtain ⟨b, asked, meaning⟩ := answers
  exact ⟨b, asked, meaning.trans same⟩

theorem upTo_of_forall (each : ∀ a ∈ l, q a) : UpTo p q l := by
  induction l with
  | nil => trivial
  | cons a rest ih =>
    exact ⟨each a List.mem_cons_self, fun _ => ih fun b member =>
      each b (List.mem_cons_of_mem a member)⟩

theorem upTo_mono {r : α → Prop} (implies : ∀ a ∈ l, q a → r a) (holds : UpTo p q l) :
    UpTo p r l := by
  induction l with
  | nil => trivial
  | cons a rest ih =>
    exact ⟨implies a List.mem_cons_self holds.1, fun passes =>
      ih (fun b member => implies b (List.mem_cons_of_mem a member)) (holds.2 passes)⟩

theorem forall_iff_of_upTo (same : UpTo p (fun a => p a ↔ q a) l) :
    (∀ a ∈ l, p a) ↔ ∀ a ∈ l, q a := by
  induction l with
  | nil => simp
  | cons a rest ih =>
    obtain ⟨here, later⟩ := same
    rw [List.forall_mem_cons, List.forall_mem_cons, ← here]
    exact and_congr_right fun passes => ih (later passes)

theorem all_answers (each : UpTo p (fun a => Answers (ask a) (p a)) l) :
    Answers (all ask l) (∀ a ∈ l, p a) := by
  induction l with
  | nil => exact ⟨true, rfl, by simp⟩
  | cons a rest ih =>
    obtain ⟨⟨b, asked, meaning⟩, later⟩ := each
    cases b with
    | false =>
      have refused : ¬ p a := fun passes => Bool.false_ne_true (meaning.mpr passes)
      refine ⟨false, by rw [all, asked], ?_⟩
      exact iff_of_false Bool.false_ne_true fun whole => refused (whole a List.mem_cons_self)
    | true =>
      have passes := meaning.mp rfl
      obtain ⟨b, rest', meaning'⟩ := ih (later passes)
      refine ⟨b, by rw [all, asked]; exact rest', ?_⟩
      rw [meaning', List.forall_mem_cons]
      exact (and_iff_right passes).symm

theorem all_true : all ask l = .ok true ↔ ∀ a ∈ l, ask a = .ok true := by
  induction l with
  | nil => simp [all]
  | cons a rest ih =>
    rw [all, List.forall_mem_cons, ← ih]
    split
    · rename_i asked
      simp [asked]
    · rename_i refuses
      exact iff_of_false refuses fun whole => refuses whole.1

/-- A loop throws what one of its elements throws. -/
theorem all_error {e : ε} (thrown : all ask l = .error e) : ∃ a ∈ l, ask a = .error e := by
  induction l with
  | nil => cases thrown
  | cons a rest ih =>
    rw [all] at thrown
    split at thrown
    · obtain ⟨b, member, asked⟩ := ih thrown
      exact ⟨b, List.mem_cons_of_mem a member, asked⟩
    · exact ⟨a, List.mem_cons_self, thrown⟩

end Verdicts
