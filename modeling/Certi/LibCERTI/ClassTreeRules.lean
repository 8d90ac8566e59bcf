import Certi.LibCERTI.ClassTree

/-!
# What adding classes and members does to a class tree

`views` is what the tables of a tree say about its classes; it leaves out the
sets of subclass names, which only serve to refuse a name. Every operation is
described by what becomes of the views.
-/
namespace Certi.Modules

open Keyed Ascending Throwing

variable {σ μ : Type}

def view (c : ClassEntry σ μ) : ClassEntry σ μ := { c with subClasses := [] }

abbrev views (t : ClassSet σ μ) : ClassSet σ μ := t.map view

@[simp] theorem view_name (c : ClassEntry σ μ) : (view c).name = c.name := rfl
@[simp] theorem view_handle (c : ClassEntry σ μ) : (view c).handle = c.handle := rfl
@[simp] theorem view_superClass (c : ClassEntry σ μ) : (view c).superClass = c.superClass := rfl
@[simp] theorem view_members (c : ClassEntry σ μ) : (view c).members = c.members := rfl

@[simp] theorem names_views (t : ClassSet σ μ) :
    (views t).map ClassEntry.name = t.map ClassEntry.name := by
  simp [views, Function.comp_def]

@[simp] theorem handles_views (t : ClassSet σ μ) :
    (views t).map ClassEntry.handle = t.map ClassEntry.handle := by
  simp [views, Function.comp_def]

theorem named_views (t : ClassSet σ μ) (n : String) : named (views t) n = (named t n).map view := by
  apply lookup_map
  intro c _
  rfl

theorem atHandle_views (t : ClassSet σ μ) (h : Nat) :
    atHandle (views t) h = (atHandle t h).map view := by
  apply lookup_map
  intro c _
  rfl

theorem named_eq_none {t : ClassSet σ μ} {n : String} :
    named t n = none ↔ n ∉ t.map ClassEntry.name := by
  unfold named
  rw [lookup_eq_none]
  simp

/-! ## One class more -/

/-- The class that `addClass` makes under `parent`. -/
def childOf (parent : Option (ClassEntry σ μ)) (name : String) (h : Nat) (props : σ) :
    ClassEntry σ μ :=
  match parent with
  | none => { handle := h, name := name, props := props }
  | some p =>
    { handle := h, name := hierarchicalName p.name name, superClass := p.handle, props := props,
      members := p.members }

theorem childOf_handle (parent : Option (ClassEntry σ μ)) (name : String) (h : Nat) (props : σ) :
    (childOf parent name h props).handle = h := by
  cases parent <;> rfl

theorem view_childOf (parent : Option (ClassEntry σ μ)) (name : String) (h : Nat) (props : σ) :
    view (childOf parent name h props) = childOf parent name h props := by
  cases parent <;> rfl

theorem views_registering (p : ClassEntry σ μ) (n : String) (t : ClassSet σ μ) :
    views (adjust ClassEntry.name p.name (withSubClass n) t) = views t := by
  apply map_adjust
  intro c
  rfl

section AddClass

variable {name : String} {h : Nat} {props : σ} {parent : Option String} {t t' : ClassSet σ μ}

/-- The tree that `addClass` leaves, given the parent object it found. -/
def registering (found : Option (ClassEntry σ μ)) (child : ClassEntry σ μ) (t : ClassSet σ μ) :
    ClassSet σ μ :=
  match found with
  | none => t
  | some p => adjust ClassEntry.name p.name (withSubClass child.name) t

theorem views_registering' (found : Option (ClassEntry σ μ)) (child : ClassEntry σ μ)
    (t : ClassSet σ μ) : views (registering found child t) = views t := by
  cases found with
  | none => rfl
  | some p => exact views_registering p child.name t

theorem addClass_eq (name : String) (h : Nat) (props : σ) (parent : Option String)
    (t : ClassSet σ μ) :
    addClass name h props parent t =
      (let found := parent.bind (named t)
       let child := childOf found name h props
       if ∃ p, found = some p ∧ child.name ∈ p.subClasses then .error .rtiInternalError t
       else enter child (registering found child t)) := by
  unfold addClass
  cases found : parent.bind (named t) with
  | none => simp [childOf, registering]
  | some p => simp [childOf, registering, addSubClass]

theorem enter_ok {c : ClassEntry σ μ} {n : String} (entered : enter c t = .ok n t') :
    n = c.name ∧ c.name ∉ t.map ClassEntry.name ∧ t' = c :: t := by
  unfold enter at entered
  split at entered
  · cases entered
  · rename_i absent
    cases entered
    refine ⟨rfl, ?_, rfl⟩
    apply named_eq_none.mp
    simpa using absent

theorem enter_error {c : ClassEntry σ μ} {e : RTIException} (refused : enter c t = .error e t') :
    t' = t := by
  unfold enter at refused
  split at refused
  · cases refused
    rfl
  · cases refused

theorem enter_new {c : ClassEntry σ μ} (absent : c.name ∉ t.map ClassEntry.name) :
    enter c t = .ok c.name (c :: t) := by
  unfold enter
  rw [named_eq_none.mpr absent]
  rfl

theorem addClass_ok {c : String} (added : addClass name h props parent t = .ok c t') :
    let child := childOf (parent.bind (named t)) name h props
    c = child.name ∧ c ∉ t.map ClassEntry.name ∧ views t' = child :: views t ∧
      t' = child :: registering (parent.bind (named t)) child t := by
  rw [addClass_eq] at added
  simp only at added ⊢
  split at added
  · cases added
  · obtain ⟨rfl, absent, rfl⟩ := enter_ok added
    have same := names_views (registering (parent.bind (named t))
      (childOf (parent.bind (named t)) name h props) t)
    rw [views_registering', names_views] at same
    rw [← same] at absent
    refine ⟨rfl, absent, ?_, rfl⟩
    rw [views, List.map_cons, view_childOf]
    exact congrArg _ (views_registering' _ _ t)

theorem addClass_error {e : RTIException} (refused : addClass name h props parent t = .error e t') :
    views t' = views t := by
  rw [addClass_eq] at refused
  simp only at refused
  split at refused
  · cases refused
    rfl
  · rw [enter_error refused]
    exact views_registering' _ _ t

/-- A class with a name nobody has is added. -/
theorem addClass_new
    (absent : (childOf (parent.bind (named t)) name h props).name ∉ t.map ClassEntry.name)
    (unregistered : ∀ p ∈ t, ∀ n ∈ p.subClasses, n ∈ t.map ClassEntry.name) :
    let child := childOf (parent.bind (named t)) name h props
    addClass name h props parent t =
      .ok child.name (child :: registering (parent.bind (named t)) child t) := by
  rw [addClass_eq]
  simp only
  rw [if_neg]
  · apply enter_new
    rw [← names_views, views_registering', names_views]
    exact absent
  · rintro ⟨p, found, inside⟩
    obtain ⟨_, _, member⟩ := Option.bind_eq_some_iff.mp found
    exact absent (unregistered p (lookup_mem member) _ inside)

end AddClass

/-! ## One member more -/

theorem addMember_ok {c : String} {h : Nat} {m : μ} {t t' : ClassSet σ μ}
    (added : addMember c h m t = .ok () t') : t' = adjust ClassEntry.name c (withMember h m) t := by
  unfold addMember at added
  split at added
  · rename_i absent
    cases added
    refine (adjust_of_absent ?_).symm
    exact lookup_eq_none.mp absent
  · split at added
    · cases added
    · cases added
      rfl

theorem addMember_error {c : String} {h : Nat} {m : μ} {t t' : ClassSet σ μ} {e : RTIException}
    (refused : addMember c h m t = .error e t') : t' = t := by
  unfold addMember at refused
  split at refused
  · cases refused
  · split at refused
    · cases refused
      rfl
    · cases refused

theorem views_withMember (c : String) (h : Nat) (m : μ) (t : ClassSet σ μ) :
    views (adjust ClassEntry.name c (withMember h m) t) =
      adjust ClassEntry.name c (withMember h m) (views t) := by
  apply map_adjust_comm
  · intro c
    rfl
  · intro c
    rfl

theorem names_withMember (c : String) (h : Nat) (m : μ) (t : ClassSet σ μ) :
    (adjust ClassEntry.name c (withMember h m) t).map ClassEntry.name =
      t.map ClassEntry.name := by
  apply map_adjust
  intro d
  rfl

/-! ## The order of handles -/

theorem ascends_handled (t : ClassSet σ μ) : Ascends ClassEntry.handle (handled t) := by
  induction t with
  | nil => exact List.Pairwise.nil
  | cons d rest ih => exact ascends_store ih

theorem mem_handled {t : ClassSet σ μ} {c : ClassEntry σ μ} :
    c ∈ handled t ↔ atHandle t c.handle = some c := by
  induction t with
  | nil => simp [handled, atHandle, lookup]
  | cons d rest ih =>
    have stored : c ∈ handled (d :: rest) ↔ c = d ∨ (c ∈ handled rest ∧ c.handle ≠ d.handle) :=
      mem_store (ascends_handled rest)
    rw [stored, ih]
    unfold atHandle lookup
    rw [List.find?_cons]
    by_cases same : d.handle = c.handle
    · simp [same, eq_comm]
    · have apart : c ≠ d := by
        rintro rfl
        exact same rfl
      simp [same, apart, Ne.symm same]

theorem handled_mem {t : ClassSet σ μ} {c : ClassEntry σ μ} (member : c ∈ handled t) : c ∈ t :=
  lookup_mem (mem_handled.mp member)

/-- No class has been stored over another under its handle. -/
def Unshared (t : ClassSet σ μ) : Prop := (t.map ClassEntry.handle).Nodup

theorem mem_handled_of_unshared {t : ClassSet σ μ} (unshared : Unshared t) {c : ClassEntry σ μ} :
    c ∈ handled t ↔ c ∈ t := by
  constructor
  · exact handled_mem
  · intro member
    exact mem_handled.mpr (lookup_of_nodup unshared member)

end Certi.Modules
