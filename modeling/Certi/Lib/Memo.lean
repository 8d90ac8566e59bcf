import Certi.Lib.Keyed
import Certi.Lib.Throwing

/-!
# Answers remembered under a key

`ask` answers a question from a table of earlier answers. Where the table has
nothing under the question's key it looks the value up and remembers it; a
failing lookup is not remembered. The key need not determine the value: the
rules say exactly when the table gives a wrong answer away.
-/
namespace Memo

open Keyed

variable {κ ι ν ε : Type} [DecidableEq κ] (key : ι → κ) (value : ι → Except ε ν)

def ask (q : ι) : EStateM ε (List (κ × ν)) ν := fun table =>
  match lookup Prod.fst (key q) table with
  | some entry => .ok entry.2 table
  | none =>
    match value q with
    | .ok v => .ok v ((key q, v) :: table)
    | .error e => .error e table

/-- The answers to a sequence of questions, those that fail included. -/
def answers (table : List (κ × ν)) : List ι → List (Except ε ν)
  | [] => []
  | q :: qs =>
    match ask key value q table with
    | .ok v after => .ok v :: answers after qs
    | .error e after => .error e :: answers after qs

/-- What is remembered of the first question answers the second one as well. -/
def Agree (q q' : ι) : Prop := key q = key q' → ∀ v, value q = .ok v → value q' = .ok v

/-- The table has the value of the question, if it has anything under its key. -/
def Faithful (table : List (κ × ν)) (q : ι) : Prop :=
  ∀ entry, lookup Prod.fst (key q) table = some entry → value q = .ok entry.2

variable {key value}

theorem faithful_nil (q : ι) : Faithful key value [] q := by
  intro entry found
  cases found

theorem faithful_cons {q q' : ι} {v : ν} {table : List (κ × ν)} :
    Faithful key value ((key q, v) :: table) q' ↔
      (key q = key q' → value q' = .ok v) ∧ (key q ≠ key q' → Faithful key value table q') := by
  unfold Faithful lookup
  by_cases same : key q = key q' <;> simp [same]

/-- A remembered answer serves every question that the table serves. -/
theorem faithful_remembered {q q' : ι} {v : ν} {table : List (κ × ν)}
    (absent : lookup Prod.fst (key q) table = none) (known : value q = .ok v) :
    Faithful key value ((key q, v) :: table) q' ↔
      Faithful key value table q' ∧ Agree key value q q' := by
  rw [faithful_cons]
  by_cases same : key q = key q'
  · have nothing : Faithful key value table q' := by
      intro entry found
      rw [← same, absent] at found
      cases found
    simp [Agree, same, known, nothing]
  · simp [Agree, same]

theorem answers_faithful (table : List (κ × ν)) (qs : List ι) :
    answers key value table qs = qs.map value ↔
      (∀ q ∈ qs, Faithful key value table q) ∧ qs.Pairwise (Agree key value) := by
  induction qs generalizing table with
  | nil => simp [answers]
  | cons q qs ih =>
    simp only [answers, ask, List.map_cons, List.forall_mem_cons, List.pairwise_cons]
    cases found : lookup Prod.fst (key q) table with
    | some entry =>
      have here : Faithful key value table q ↔ value q = .ok entry.2 := by
        simp [Faithful, found]
      rw [List.cons.injEq, ih, here, eq_comm]
      constructor
      · rintro ⟨known, others, agree⟩
        refine ⟨⟨known, others⟩, ?_, agree⟩
        intro q' member same v is
        rw [known] at is
        rw [others q' member entry (same ▸ found), is]
      · rintro ⟨⟨known, others⟩, -, agree⟩
        exact ⟨known, others, agree⟩
    | none =>
      have here : Faithful key value table q := by
        intro entry there
        rw [found] at there
        cases there
      cases known : value q with
      | ok v =>
        simp only [List.cons.injEq, true_and, here, ih, faithful_remembered found known]
        constructor
        · rintro ⟨each, agree⟩
          exact ⟨fun q' member => (each q' member).1, fun q' member => (each q' member).2, agree⟩
        · rintro ⟨others, first, agree⟩
          exact ⟨fun q' member => ⟨others q' member, first q' member⟩, agree⟩
      | error e =>
        simp [ih, here, Agree, known]

/-- Asked in sequence from an empty table, all answers are right exactly when no two
questions of one key have different values. -/
theorem answers_right_iff (qs : List ι) :
    answers key value [] qs = qs.map value ↔ qs.Pairwise (Agree key value) := by
  simp [answers_faithful, faithful_nil]

/-- Everything in the table is the answer to one of the questions `past`. -/
def Recalls (key : ι → κ) (value : ι → Except ε ν) (past : List ι) (table : List (κ × ν)) : Prop :=
  ∀ entry ∈ table, ∃ q ∈ past, key q = entry.1 ∧ value q = .ok entry.2

omit [DecidableEq κ] in
theorem recalls_nil : Recalls key value [] [] := by
  intro entry member
  cases member

omit [DecidableEq κ] in
theorem Recalls.mono {past past' : List ι} {table : List (κ × ν)}
    (recalls : Recalls key value past table) (more : past ⊆ past') :
    Recalls key value past' table := by
  intro entry member
  obtain ⟨q, asked, answered⟩ := recalls entry member
  exact ⟨q, more asked, answered⟩

theorem Recalls.faithful {past : List ι} {table : List (κ × ν)} {q : ι}
    (recalls : Recalls key value past table) (agree : ∀ p ∈ past, Agree key value p q) :
    Faithful key value table q := by
  intro entry found
  obtain ⟨p, asked, same, known⟩ := recalls entry (lookup_mem found)
  have of_key : entry.1 = key q := lookup_key found
  exact agree p asked (same.trans of_key) _ known

/-- A question that agrees with those already asked gets its own value. -/
theorem ask_right {past : List ι} {table : List (κ × ν)} {q : ι} {v : ν}
    (recalls : Recalls key value past table) (agree : ∀ p ∈ past, Agree key value p q)
    (known : value q = .ok v) :
    ∃ table', ask key value q table = .ok v table' ∧ Recalls key value (past ++ [q]) table' := by
  have faithful := recalls.faithful agree
  unfold ask
  cases found : lookup Prod.fst (key q) table with
  | some entry =>
    have same := faithful entry found
    rw [known] at same
    cases same
    exact ⟨table, rfl, recalls.mono (List.subset_append_left past [q])⟩
  | none =>
    simp only [known]
    refine ⟨_, rfl, ?_⟩
    intro entry member
    rcases List.mem_cons.mp member with rfl | before
    · exact ⟨q, List.mem_append_right past (List.mem_singleton_self q), rfl, known⟩
    · exact recalls.mono (List.subset_append_left past [q]) entry before

theorem ask_recalls {past : List ι} {table : List (κ × ν)} (q : ι)
    (recalls : Recalls key value past table) :
    Recalls key value (past ++ [q]) (Throwing.final (ask key value q table)) := by
  have kept := recalls.mono (List.subset_append_left past [q])
  unfold ask
  cases found : lookup Prod.fst (key q) table with
  | some entry => exact kept
  | none =>
    cases known : value q with
    | ok v =>
      intro entry member
      rcases List.mem_cons.mp member with rfl | before
      · exact ⟨q, List.mem_append_right past (List.mem_singleton_self q), rfl, known⟩
      · exact kept entry before
    | error e => exact kept

end Memo
