/-!
# Programs that keep their state when they throw

`EStateM` is the monad of code that mutates an object in place and may throw:
what was done before the exception stays done. `Spec P m Q E` says where `m`
may end when it starts in `P`: in `Q a` when it returns `a`, in `E` when it
throws. The rules follow the way programs are put together.
-/
namespace Throwing

variable {ε σ α β : Type}

/-- The state a program leaves behind, whichever way it ends. -/
def final : EStateM.Result ε σ α → σ
  | .ok _ s => s
  | .error _ s => s

/-- Programs that go on in ways that leave the same state leave the same state. -/
theorem final_bind_congr {γ : Type} {m : EStateM ε σ α} {f : α → EStateM ε σ β}
    {g : α → EStateM ε σ γ} (same : ∀ a s, final (f a s) = final (g a s)) (s : σ) :
    final ((m >>= f) s) = final ((m >>= g) s) := by
  simp only [bind, EStateM.bind]
  cases m s with
  | ok a s' => exact same a s'
  | error e s' => rfl

theorem final_bind_silent {m : EStateM ε σ α} {f : α → EStateM ε σ β}
    (silent : ∀ a s, final (f a s) = s) (s : σ) : final ((m >>= f) s) = final (m s) := by
  simp only [bind, EStateM.bind]
  cases m s with
  | ok a s' => exact silent a s'
  | error e s' => rfl

def Spec (P : σ → Prop) (m : EStateM ε σ α) (Q : α → σ → Prop) (E : σ → Prop) : Prop :=
  ∀ s, P s → match m s with
    | .ok a s' => Q a s'
    | .error _ s' => E s'

variable {P : σ → Prop} {Q : α → σ → Prop} {R : β → σ → Prop} {E : σ → Prop}

/-! What a sequence does, from what its first program did. -/

theorem bind_ok {m : EStateM ε σ α} {f : α → EStateM ε σ β} {a : α} {s s' : σ}
    (first : m s = .ok a s') : (m >>= f) s = f a s' := by
  simp only [bind, EStateM.bind, first]

theorem bind_error {m : EStateM ε σ α} {f : α → EStateM ε σ β} {e : ε} {s s' : σ}
    (first : m s = .error e s') : (m >>= f) s = .error e s' := by
  simp only [bind, EStateM.bind, first]

/-- A sequence that returns went through both its programs. -/
theorem bind_returns {m : EStateM ε σ α} {f : α → EStateM ε σ β} {b : β} {s s' : σ}
    (whole : (m >>= f) s = .ok b s') : ∃ a t, m s = .ok a t ∧ f a t = .ok b s' := by
  simp only [bind, EStateM.bind] at whole
  cases first : m s with
  | ok a t =>
    rw [first] at whole
    exact ⟨a, t, rfl, whole⟩
  | error e t =>
    rw [first] at whole
    cases whole

@[simp] theorem get_bind (f : σ → EStateM ε σ β) (s : σ) : (get >>= f) s = f s s := rfl

@[simp] theorem set_bind (t : σ) (f : PUnit → EStateM ε σ β) (s : σ) :
    (set t >>= f) s = f ⟨⟩ t := rfl

@[simp] theorem modify_bind (g : σ → σ) (f : PUnit → EStateM ε σ β) (s : σ) :
    (modify g >>= f) s = f ⟨⟩ (g s) := rfl

@[simp] theorem modify_apply (g : σ → σ) (s : σ) :
    (modify g : EStateM ε σ PUnit) s = .ok ⟨⟩ (g s) := rfl

@[simp] theorem pure_apply (a : α) (s : σ) : (pure a : EStateM ε σ α) s = .ok a s := rfl

@[simp] theorem throw_apply (e : ε) (s : σ) : (throw e : EStateM ε σ α) s = .error e s := rfl

theorem Spec.final {m : EStateM ε σ α} {I : σ → Prop} (spec : Spec P m (fun _ => I) I) {s : σ}
    (start : P s) : I (final (m s)) := by
  have ends := spec s start
  cases reached : m s with
  | ok a s' =>
    rw [reached] at ends
    exact ends
  | error e s' =>
    rw [reached] at ends
    exact ends

theorem spec_pure {a : α} (here : ∀ s, P s → Q a s) : Spec (ε := ε) P (pure a) Q E := here

theorem spec_bind {m : EStateM ε σ α} {f : α → EStateM ε σ β} (first : Spec P m Q E)
    (later : ∀ a, Spec (Q a) (f a) R E) : Spec P (m >>= f) R E := by
  intro s start
  have middle := first s start
  simp only [bind, EStateM.bind]
  cases reached : m s with
  | ok a s' =>
    rw [reached] at middle
    exact later a s' middle
  | error e s' =>
    rw [reached] at middle
    exact middle

theorem spec_conseq {P' : σ → Prop} {Q' : α → σ → Prop} {m : EStateM ε σ α}
    (spec : Spec P m Q E) (before : ∀ s, P' s → P s) (after : ∀ a s, Q a s → Q' a s) :
    Spec P' m Q' E := by
  intro s start
  have ends := spec s (before s start)
  cases reached : m s with
  | ok a s' =>
    rw [reached] at ends
    exact after a s' ends
  | error e s' =>
    rw [reached] at ends
    exact ends

theorem spec_forM {f : α → EStateM ε σ Unit} {I : σ → Prop} {l : List α}
    (each : ∀ a ∈ l, Spec I (f a) (fun _ => I) I) : Spec I (l.forM f) (fun _ => I) I := by
  induction l with
  | nil =>
    intro s start
    exact start
  | cons a rest ih =>
    exact spec_bind (each a List.mem_cons_self) fun _ =>
      ih fun b member => each b (List.mem_cons_of_mem a member)

theorem spec_mapM {f : α → EStateM ε σ β} {I : σ → Prop} {l : List α}
    (each : ∀ a ∈ l, Spec I (f a) (fun _ => I) I) : Spec I (l.mapM f) (fun _ => I) I := by
  induction l with
  | nil =>
    rw [List.mapM_nil]
    exact spec_pure fun _ start => start
  | cons a rest ih =>
    rw [List.mapM_cons]
    exact spec_bind (each a List.mem_cons_self) fun _ =>
      spec_bind (ih fun b member => each b (List.mem_cons_of_mem a member)) fun _ =>
        spec_pure fun _ start => start

theorem forM_cons_ok {f : α → EStateM ε σ Unit} {a : α} {rest : List α} {s s' : σ} :
    (a :: rest).forM f s = .ok () s' ↔ ∃ t, f a s = .ok () t ∧ rest.forM f t = .ok () s' := by
  change (f a >>= fun _ => rest.forM f) s = .ok () s' ↔ _
  simp only [bind, EStateM.bind]
  cases f a s with
  | ok u t => simp
  | error e t => simp

theorem map_forM {γ : Type} {f : β → EStateM ε σ Unit} {g : γ → β} {l : List γ} {s : σ} :
    (l.map g).forM f s = l.forM (fun a => f (g a)) s := by
  induction l generalizing s with
  | nil => rfl
  | cons a rest ih =>
    change (f (g a) >>= fun _ => (rest.map g).forM f) s =
      (f (g a) >>= fun _ => rest.forM fun a => f (g a)) s
    simp only [bind, EStateM.bind]
    cases f (g a) s with
    | ok u t => exact ih
    | error e t => rfl

theorem forM_append_ok {f : α → EStateM ε σ Unit} {front rest : List α} {s s' : σ} :
    (front ++ rest).forM f s = .ok () s' ↔
      ∃ t, front.forM f s = .ok () t ∧ rest.forM f t = .ok () s' := by
  induction front generalizing s with
  | nil =>
    constructor
    · intro run
      exact ⟨s, rfl, run⟩
    · rintro ⟨t, start, run⟩
      cases start
      exact run
  | cons a front ih =>
    rw [List.cons_append, forM_cons_ok]
    constructor
    · rintro ⟨t, first, run⟩
      obtain ⟨t', middle, last⟩ := ih.mp run
      exact ⟨t', forM_cons_ok.mpr ⟨t, first, middle⟩, last⟩
    · rintro ⟨t', start, last⟩
      obtain ⟨t, first, middle⟩ := forM_cons_ok.mp start
      exact ⟨t, first, ih.mpr ⟨t', middle, last⟩⟩

/-- A loop of which no step can fail, along an invariant over what has been done. -/
theorem forM_along {f : α → EStateM ε σ Unit} (I : List α → σ → Prop) {l : List α} {s : σ}
    (start : I [] s)
    (step : ∀ front a rest t, l = front ++ a :: rest → I front t →
      ∃ t', f a t = .ok () t' ∧ I (front ++ [a]) t') :
    ∃ s', l.forM f s = .ok () s' ∧ I l s' := by
  suffices run : ∀ front rest t, l = front ++ rest → I front t →
      ∃ s', rest.forM f t = .ok () s' ∧ I l s' from run [] l s rfl start
  intro front rest
  induction rest generalizing front with
  | nil =>
    intro t split reached
    refine ⟨t, rfl, ?_⟩
    rw [split, List.append_nil]
    exact reached
  | cons a rest ih =>
    intro t split reached
    obtain ⟨t', stepped, reached'⟩ := step front a rest t split reached
    obtain ⟨s', run, ends⟩ := ih (front ++ [a]) t' (by rw [split]; simp) reached'
    exact ⟨s', forM_cons_ok.mpr ⟨t', stepped, run⟩, ends⟩

/-- Running a program on the part of a larger state that `view` shows and `put` replaces. -/
def zoom {τ : Type} (view : τ → σ) (put : σ → τ → τ) (m : EStateM ε σ α) : EStateM ε τ α :=
  fun t =>
    match m (view t) with
    | .ok a s => .ok a (put s t)
    | .error e s => .error e (put s t)

theorem spec_zoom {τ : Type} {view : τ → σ} {put : σ → τ → τ} {m : EStateM ε σ α}
    {P : τ → Prop} {Q : α → τ → Prop} {E : τ → Prop}
    (inside : ∀ t, P t →
      Spec (fun s => s = view t) m (fun a s => Q a (put s t)) (fun s => E (put s t))) :
    Spec P (zoom view put m) Q E := by
  intro t start
  have ends := inside t start (view t) rfl
  simp only [zoom]
  cases reached : m (view t) with
  | ok a s =>
    rw [reached] at ends
    exact ends
  | error e s =>
    rw [reached] at ends
    exact ends

end Throwing
