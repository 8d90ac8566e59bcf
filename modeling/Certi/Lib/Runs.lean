import Mathlib.Logic.Basic

/-!
# Runs of a machine that answers every event

A machine takes an event in its current state, moves to the next state and
gives an answer. A run performs a list of events one after another; its trace
pairs every event with the answer it got. `Meets` says that every event of a
run satisfies a condition in the state it is performed in, so that invariants
can be proved of exactly those runs.
-/
namespace Runs

/-- One event leads to one next state and one answer. -/
abbrev Machine (σ ε ω : Type*) := σ → ε → σ × ω

variable {σ ε ω : Type*}

namespace Machine

/-- The state a list of events ends in. -/
def exec (m : Machine σ ε ω) (s : σ) : List ε → σ
  | [] => s
  | e :: es => exec m (m s e).1 es

/-- Every event of the run with the answer it got, oldest first. -/
def trace (m : Machine σ ε ω) (s : σ) : List ε → List (ε × ω)
  | [] => []
  | e :: es => (e, (m s e).2) :: trace m (m s e).1 es

/-- Every event meets `ok` in the state in which it is performed. -/
def Meets (m : Machine σ ε ω) (ok : σ → ε → Prop) (s : σ) : List ε → Prop
  | [] => True
  | e :: es => ok s e ∧ Meets m ok (m s e).1 es

instance decidableMeets (m : Machine σ ε ω) (ok : σ → ε → Prop) [∀ s e, Decidable (ok s e)] :
    ∀ (s : σ) (es : List ε), Decidable (m.Meets ok s es)
  | _, [] => inferInstanceAs (Decidable True)
  | s, e :: es =>
    haveI := decidableMeets m ok (m s e).1 es
    inferInstanceAs (Decidable (ok s e ∧ m.Meets ok (m s e).1 es))

variable (m : Machine σ ε ω) {ok : σ → ε → Prop}

@[simp] theorem exec_nil (s : σ) : m.exec s [] = s := rfl

@[simp] theorem exec_cons (s : σ) (e : ε) (es : List ε) :
    m.exec s (e :: es) = m.exec (m s e).1 es := rfl

@[simp] theorem trace_nil (s : σ) : m.trace s [] = [] := rfl

@[simp] theorem trace_cons (s : σ) (e : ε) (es : List ε) :
    m.trace s (e :: es) = (e, (m s e).2) :: m.trace (m s e).1 es := rfl

@[simp] theorem meets_nil (s : σ) : m.Meets ok s [] := trivial

@[simp] theorem meets_cons (s : σ) (e : ε) (es : List ε) :
    m.Meets ok s (e :: es) ↔ ok s e ∧ m.Meets ok (m s e).1 es := Iff.rfl

/-- A run meets a condition that every event meets. -/
theorem meets_of_forall (every : ∀ s e, ok s e) (s : σ) (es : List ε) : m.Meets ok s es := by
  induction es generalizing s with
  | nil => trivial
  | cons e es ih => exact ⟨every s e, ih (m s e).1⟩

/-- An invariant kept by every event holds after every run. -/
theorem exec_always {p : σ → Prop} (step : ∀ s e, p s → p (m s e).1) {s : σ} (start : p s)
    (es : List ε) : p (m.exec s es) := by
  induction es generalizing s with
  | nil => exact start
  | cons e es ih => exact ih (step s e start)

/-- An invariant kept by every admitted event holds after every admitted run. -/
theorem exec_invariant {p : σ → Prop}
    (step : ∀ s e, p s → ok s e → p (m s e).1) {s : σ} (start : p s) {es : List ε}
    (meets : m.Meets ok s es) : p (m.exec s es) := by
  induction es generalizing s with
  | nil => exact start
  | cons e es ih => exact ih (step s e start meets.1) meets.2

/-- The same for an invariant that also speaks of everything answered so far. -/
theorem trace_invariant {p : List (ε × ω) → σ → Prop}
    (step : ∀ past s e, p past s → ok s e → p (past ++ [(e, (m s e).2)]) (m s e).1)
    {s : σ} (start : p [] s) {es : List ε} (meets : m.Meets ok s es) :
    p (m.trace s es) (m.exec s es) := by
  have carried : ∀ (es : List ε) (past : List (ε × ω)) (s : σ), p past s → m.Meets ok s es →
      p (past ++ m.trace s es) (m.exec s es) := by
    intro es
    induction es with
    | nil =>
      intro past s holds _
      simpa using holds
    | cons e es ih =>
      intro past s holds meets
      have next := ih _ _ (step past s e holds meets.1) meets.2
      simpa using next
  simpa using carried es [] s start meets

/-- The same for an invariant that every event keeps. -/
theorem trace_always {p : List (ε × ω) → σ → Prop}
    (step : ∀ past s e, p past s → p (past ++ [(e, (m s e).2)]) (m s e).1) {s : σ}
    (start : p [] s) (es : List ε) : p (m.trace s es) (m.exec s es) := by
  have every : m.Meets (fun _ _ => True) s es := m.meets_of_forall (fun _ _ => trivial) s es
  exact m.trace_invariant (fun past s e holds _ => step past s e holds) start every

@[simp] theorem exec_append (s : σ) (es es' : List ε) :
    m.exec s (es ++ es') = m.exec (m.exec s es) es' := by
  induction es generalizing s with
  | nil => rfl
  | cons e es ih => exact ih _

@[simp] theorem trace_append (s : σ) (es es' : List ε) :
    m.trace s (es ++ es') = m.trace s es ++ m.trace (m.exec s es) es' := by
  induction es generalizing s with
  | nil => rfl
  | cons e es ih => simp [ih]

theorem meets_append {s : σ} {es es' : List ε} :
    m.Meets ok s (es ++ es') ↔ m.Meets ok s es ∧ m.Meets ok (m.exec s es) es' := by
  induction es generalizing s with
  | nil => simp
  | cons e es ih => simp [ih, and_assoc]

/-- A run meets a condition exactly if each of its events does, in the state it is performed in. -/
theorem meets_iff_each {s : σ} {es : List ε} :
    m.Meets ok s es ↔ ∀ before e after, es = before ++ e :: after → ok (m.exec s before) e := by
  constructor
  · intro meets before e after split
    rw [split] at meets
    exact (m.meets_append.mp meets).2.1
  · intro every
    induction es generalizing s with
    | nil => trivial
    | cons e es ih =>
      refine ⟨every [] e es rfl, ih fun before e' after split => ?_⟩
      exact every (e :: before) e' after (by rw [split]; rfl)

/-- What an invariant gives of every admitted event, every event of a run has. -/
theorem trace_steps {p : List (ε × ω) → σ → Prop} {q : List (ε × ω) → σ → ε → Prop}
    (step : ∀ past s e, p past s → ok s e → p (past ++ [(e, (m s e).2)]) (m s e).1)
    (each : ∀ past s e, p past s → ok s e → q past s e) {s : σ} (start : p [] s)
    {before after : List ε} {e : ε} (meets : m.Meets ok s (before ++ e :: after)) :
    q (m.trace s before) (m.exec s before) e := by
  obtain ⟨earlier, here, _⟩ := m.meets_append.mp meets
  exact each _ _ _ (m.trace_invariant step start earlier) here

/-- The machine that keeps the trace in its state, for conditions on what came before. -/
def recorded (m : Machine σ ε ω) : Machine (List (ε × ω) × σ) ε ω := fun run e =>
  ((run.1 ++ [(e, (m run.2 e).2)], (m run.2 e).1), (m run.2 e).2)

theorem exec_recorded (past : List (ε × ω)) (s : σ) (es : List ε) :
    m.recorded.exec (past, s) es = (past ++ m.trace s es, m.exec s es) := by
  induction es generalizing past s with
  | nil => simp
  | cons e es ih =>
    have next := ih (past ++ [(e, (m s e).2)]) (m s e).1
    simpa [recorded] using next

/-- Two conditions that agree in every state of the runs they admit admit the same runs. -/
theorem meets_congr {ok' : σ → ε → Prop} {p : σ → Prop} (same : ∀ s e, p s → (ok s e ↔ ok' s e))
    (step : ∀ s e, p s → ok s e → p (m s e).1) {s : σ} (start : p s) (es : List ε) :
    m.Meets ok s es ↔ m.Meets ok' s es := by
  induction es generalizing s with
  | nil => rfl
  | cons e es ih =>
    rw [meets_cons, meets_cons, ← same s e start]
    exact and_congr_right fun admitted => ih (step s e start admitted)

/-- Where, under an invariant, an event brings a property about exactly if it meets the
condition, and the condition keeps the invariant, a run has the property all along exactly if
each of its events meets the condition. -/
theorem throughout_iff_meets_under {p q : σ → Prop}
    (step : ∀ s e, p s → (q (m s e).1 ↔ ok s e)) (keep : ∀ s e, p s → ok s e → p (m s e).1)
    {s : σ} (start : p s) (here : q s) (es : List ε) :
    (∀ before, before <+: es → q (m.exec s before)) ↔ m.Meets ok s es := by
  induction es generalizing s with
  | nil =>
    refine ⟨fun _ => trivial, fun _ before short => ?_⟩
    rw [List.prefix_nil.mp short]
    exact here
  | cons e es ih =>
    constructor
    · intro holds
      have next : q (m s e).1 := holds [e] (by simp)
      have met := (step s e start).mp next
      refine ⟨met, (ih (keep s e start met) next).mp fun before short => ?_⟩
      exact holds (e :: before) (List.cons_prefix_cons.mpr ⟨rfl, short⟩)
    · rintro ⟨met, later⟩ before short
      cases before with
      | nil => exact here
      | cons e' before =>
        obtain ⟨rfl, rest⟩ := List.cons_prefix_cons.mp short
        exact (ih (keep s e' start met) ((step s e' start).mpr met)).mpr later before rest

/-- Where an event keeps a property exactly if it meets the condition, a run has the property
all along exactly if each of its events meets the condition. -/
theorem throughout_iff_meets {p : σ → Prop} (step : ∀ s e, p s → (p (m s e).1 ↔ ok s e)) {s : σ}
    (start : p s) (es : List ε) :
    (∀ before, before <+: es → p (m.exec s before)) ↔ m.Meets ok s es :=
  m.throughout_iff_meets_under step (fun s e here => (step s e here).mpr) start start es

/-- Weaker conditions admit more runs. -/
theorem Meets.mono {ok' : σ → ε → Prop} (weaker : ∀ s e, ok s e → ok' s e) {s : σ}
    {es : List ε} (meets : m.Meets ok s es) : m.Meets ok' s es := by
  induction es generalizing s with
  | nil => trivial
  | cons e es ih => exact ⟨weaker s e meets.1, ih meets.2⟩

end Machine

end Runs
