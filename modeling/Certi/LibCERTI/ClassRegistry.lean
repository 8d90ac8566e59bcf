import Mathlib.Data.List.TakeWhile
import Certi.Lib.Runs
import Certi.LibCERTI.FomCompatibility

/-!
# The registry of class names over whole runs

`TreeNamedAndHandledSet` under any sequence of `add`. The name is checked last,
after the child has been renamed and linked into its parent, and the handle is
not checked at all, so a run keeps the two maps and every lookup in agreement
as long as handles are new and a name that is taken is met before anything has
been changed.
-/
namespace Certi.Modules

open Keyed Ascending Runs

section Model

variable {σ μ : Type}

/-- The end of `add`: the child is stored in both maps unless its name is taken. -/
def storeChild (child : ClassEntry σ μ) (t : ClassSet σ μ) :
    ClassSet σ μ × ClassEntry σ μ × Option RTIException :=
  if (named t child.name).isSome then (t, child, some .rtiInternalError)
  else (child :: t, child, none)

/-- `TreeNamedAndHandledSet::add`, with the child as the call leaves it. -/
def add (child : ClassEntry σ μ) (parent : Option String) (t : ClassSet σ μ) :
    ClassSet σ μ × ClassEntry σ μ × Option RTIException :=
  match parent.bind (named t) with
  | none => storeChild child t
  | some p =>
    let child := { child with name := hierarchicalName p.name child.name }
    if child.name ∈ p.subClasses then (t, child, some .rtiInternalError)
    else
      let (t, child) := addSubClass p child t
      storeChild child t

/-- A class that joins the tree, under its leaf name. -/
structure AddCall (σ : Type) where
  name : String
  handle : Nat
  props : σ
  parent : Option String

variable (σ μ) in
def registry : Machine (ClassSet σ μ) (AddCall σ) (ClassEntry σ μ × Option RTIException) :=
  fun t call => add { handle := call.handle, name := call.name, props := call.props } call.parent t

/-! ## The statement -/

/-- The name starts with one of the optional root prefixes. -/
def RootPrefixed (name : String) : Prop :=
  isQualifiedClassName name = true ∧ isRootName (getNextClassName name).1 = true

structure RegistrySound (t : ClassSet σ μ) : Prop where
  same : ∀ c, c ∈ handled t ↔ c ∈ byName t
  handles : ((byName t).map ClassEntry.handle).Nodup
  names : ((handled t).map ClassEntry.name).Nodup
  back : ∀ h c, atHandle t h = some c → getHandleFromName t c.name = .ok h
  prefixes : ∀ root name, isRootName root = true → ¬ RootPrefixed name →
    getHandleFromName t (root ++ "." ++ name) = getHandleFromName t name
  short : ∀ name h, isQualifiedClassName name = false → getHandleFromName t name = .ok h →
    ∃ c, atHandle t h = some c ∧ getLeafClassName c.name = name

/-- A call that throws leaves the set as it is, and the child its name. -/
def FailsCleanly (t : ClassSet σ μ) (call : AddCall σ) : Prop :=
  ∀ e, (registry σ μ t call).2.2 = some e →
    (registry σ μ t call).1 = t ∧ (registry σ μ t call).2.1.name = call.name

namespace AddCall

/-- The parent object, where there is one. -/
def parentIn (call : AddCall σ) (t : ClassSet σ μ) : Option (ClassEntry σ μ) :=
  call.parent.bind (named t)

/-- The name that the child gets. -/
def fullName (call : AddCall σ) (t : ClassSet σ μ) : String :=
  match call.parentIn t with
  | none => call.name
  | some p => hierarchicalName p.name call.name

/-- A name that is taken is met before anything has been changed: there is no parent, or it is a
root that has the subclass already. -/
def MetEarly (t : ClassSet σ μ) (call : AddCall σ) : Prop :=
  call.fullName t ∈ t.map ClassEntry.name → ∀ p, call.parentIn t = some p →
    isRootName p.name = true ∧ call.fullName t ∈ p.subClasses

/-- A class that is stored brings a new handle and a name without a root prefix. -/
structure Orderly (t : ClassSet σ μ) (call : AddCall σ) : Prop where
  accepted : call.fullName t ∉ t.map ClassEntry.name →
    call.handle ∉ t.map ClassEntry.handle ∧ ¬ RootPrefixed (call.fullName t)
  refused : call.MetEarly t

end AddCall

end Model

/-! ## Lookups -/

section Lookups

variable {σ μ : Type} {t : ClassSet σ μ}

/-- What is left of a lookup when the prefix is off. -/
def search (t : ClassSet σ μ) (sname : String) : Except RTIException Nat :=
  match named t sname with
  | some c => .ok c.handle
  | none =>
    match (byName t).find? fun c =>
      !isQualifiedClassName sname && getLeafClassName c.name = sname with
    | some c => .ok c.handle
    | none => .error .nameNotFound

theorem getHandleFromName_search (t : ClassSet σ μ) (name : String) :
    getHandleFromName t name = search t
      (if isRootName (getNextClassName name).1 then (getNextClassName name).2 else name) := rfl

/-- A name without a prefix is looked up as it is. -/
theorem getHandleFromName_eq {name : String} (bare : ¬ RootPrefixed name) :
    getHandleFromName t name = search t name := by
  rw [getHandleFromName_search]
  split
  · rename_i root
    by_cases qualified : isQualifiedClassName name = true
    · exact absurd ⟨qualified, root⟩ bare
    · rw [getNextClassName, if_neg qualified]
  · rfl

theorem takeWhile_dot {front rest : List Char} (plain : '.' ∉ front) :
    (front ++ '.' :: rest).takeWhile (· ≠ '.') = front := by
  rw [List.takeWhile_append_of_pos]
  · simp
  · intro c member
    have other : c ≠ '.' := by
      rintro rfl
      exact plain member
    simpa using other

theorem isRootName_plain {root : String} (isRoot : isRootName root = true) :
    '.' ∉ root.toList := by
  simp only [isRootName, Bool.or_eq_true, decide_eq_true_eq] at isRoot
  rcases isRoot with ((rfl | rfl) | rfl) | rfl <;> decide

theorem getNextClassName_prefixed {root : String} (isRoot : isRootName root = true)
    (name : String) : getNextClassName (root ++ "." ++ name) = (root, name) := by
  have plain := isRootName_plain isRoot
  have whole : (root ++ "." ++ name).toList = root.toList ++ '.' :: name.toList := by
    rw [String.toList_append, String.toList_append, List.append_assoc]
    rfl
  have qualified : isQualifiedClassName (root ++ "." ++ name) = true := by
    rw [isQualifiedClassName, whole]
    simp
  rw [getNextClassName, if_pos qualified, whole, takeWhile_dot plain, String.ofList_toList]
  have rest : (root.toList ++ '.' :: name.toList).drop (root.toList.length + 1) =
      name.toList := by
    rw [List.drop_append]
    simp
  rw [rest, String.ofList_toList]

theorem getHandleFromName_prefixed (t : ClassSet σ μ) {root name : String}
    (isRoot : isRootName root = true) (bare : ¬ RootPrefixed name) :
    getHandleFromName t (root ++ "." ++ name) = getHandleFromName t name := by
  rw [getHandleFromName_search, getNextClassName_prefixed isRoot, if_pos isRoot,
    getHandleFromName_eq bare]

theorem getLeafClassName_plain {name : String} (plain : isQualifiedClassName name = false) :
    getLeafClassName name = name := by
  have dotless : ∀ c ∈ name.toList.reverse, c ≠ '.' := by
    rintro c member rfl
    rw [isQualifiedClassName, decide_eq_false_iff_not] at plain
    exact plain (List.mem_reverse.mp member)
  have whole : name.toList.reverse.takeWhile (· ≠ '.') = name.toList.reverse :=
    List.takeWhile_eq_self_iff.mpr fun c member => by simpa using dotless c member
  rw [getLeafClassName, whole, List.reverse_reverse, String.ofList_toList]

/-- The shortcut only finds classes that end in the name. -/
theorem search_plain {name : String} {h : Nat} (plain : isQualifiedClassName name = false)
    (found : search t name = .ok h) :
    ∃ c ∈ t, c.handle = h ∧ getLeafClassName c.name = name := by
  unfold search at found
  split at found
  · rename_i c located
    cases found
    have key : c.name = name := lookup_key located
    exact ⟨c, lookup_mem located, rfl, by rw [key, getLeafClassName_plain plain]⟩
  · split at found
    · rename_i c located
      cases found
      have ends := List.find?_some located
      simp only [Bool.and_eq_true, decide_eq_true_eq] at ends
      exact ⟨c, mem_byName_of (List.mem_of_find?_eq_some located), rfl, ends.2⟩
    · cases found

theorem getHandleFromName_plain {name : String} {h : Nat}
    (plain : isQualifiedClassName name = false) (found : getHandleFromName t name = .ok h) :
    ∃ c ∈ t, c.handle = h ∧ getLeafClassName c.name = name := by
  have bare : ¬ RootPrefixed name := fun rooted =>
    Bool.false_ne_true (plain.symm.trans rooted.1)
  rw [getHandleFromName_eq bare] at found
  exact search_plain plain found

end Lookups

/-! ## The invariant -/

section Invariant

variable {σ μ : Type} {t : ClassSet σ μ} {call : AddCall σ}

structure Registered (t : ClassSet σ μ) : Prop where
  names : (t.map ClassEntry.name).Nodup
  handles : (t.map ClassEntry.handle).Nodup
  bare : ∀ c ∈ t, ¬ RootPrefixed c.name
  subClasses : ∀ c ∈ t, ∀ n ∈ c.subClasses, n ∈ t.map ClassEntry.name

theorem registered_nil : Registered ([] : ClassSet σ μ) :=
  ⟨List.nodup_nil, List.nodup_nil, fun _ none => absurd none List.not_mem_nil,
    fun _ none => absurd none List.not_mem_nil⟩

theorem Registered.sound (registered : Registered t) : RegistrySound t := by
  have inBoth : ∀ c, c ∈ handled t ↔ c ∈ byName t := fun c =>
    (mem_handled_of_unshared registered.handles).trans (mem_byName registered.names).symm
  refine ⟨inBoth, ?_, ?_, ?_, ?_, ?_⟩
  · refine List.Nodup.map_on ?_ (ascends_byName t).nodup_keys.of_map
    intro c member d member' same
    exact List.inj_on_of_nodup_map registered.handles (mem_byName_of member)
      (mem_byName_of member') same
  · refine List.Nodup.map_on ?_ (ascends_handled t).nodup_keys.of_map
    intro c member d member' same
    exact List.inj_on_of_nodup_map registered.names (handled_mem member)
      (handled_mem member') same
  · intro h c found
    have member : c ∈ t := lookup_mem found
    have key : c.handle = h := lookup_key found
    have located : named t c.name = some c := lookup_of_nodup registered.names member
    rw [getHandleFromName_eq (registered.bare c member), search, located, ← key]
  · exact fun root name isRoot bare => getHandleFromName_prefixed t isRoot bare
  · intro name h plain found
    obtain ⟨c, member, key, ends⟩ := getHandleFromName_plain plain found
    refine ⟨c, ?_, ends⟩
    rw [← key]
    exact lookup_of_nodup registered.handles member

/-- The tree of `addClass` is the tree of `add`. -/
theorem addClass_add (call : AddCall σ) (t : ClassSet σ μ) :
    addClass call.name call.handle call.props call.parent t =
      match registry σ μ t call with
      | (t', _, some e) => .error e t'
      | (t', child, none) => .ok child.name t' := by
  unfold addClass registry add storeChild enter
  cases call.parent.bind (named t) with
  | none =>
    dsimp only
    split <;> rfl
  | some p =>
    dsimp only
    split
    · rfl
    · split <;> rfl

theorem registry_name (call : AddCall σ) (t : ClassSet σ μ) :
    (registry σ μ t call).2.1.name = call.fullName t := by
  unfold registry add storeChild AddCall.fullName AddCall.parentIn
  cases call.parent.bind (named t) with
  | none =>
    dsimp only
    split <;> rfl
  | some p =>
    dsimp only
    split
    · rfl
    · split <;> rfl

theorem childOf_name (call : AddCall σ) (t : ClassSet σ μ) :
    (childOf (call.parentIn t) call.name call.handle call.props).name = call.fullName t := by
  unfold AddCall.fullName
  cases call.parentIn t <;> rfl

/-- A class with a new name is stored. -/
theorem registry_new (registered : Registered t) (new : call.fullName t ∉ t.map ClassEntry.name) :
    let child := childOf (call.parentIn t) call.name call.handle call.props
    (registry σ μ t call).1 = child :: registering (call.parentIn t) child t ∧
      (registry σ μ t call).2.2 = none := by
  rw [← childOf_name] at new
  have stored := addClass_new new registered.subClasses
  rw [addClass_add] at stored
  intro child
  split at stored
  · cases stored
  · rename_i t' c answered
    rw [answered]
    injection stored with _ tree
    exact ⟨tree, rfl⟩

theorem names_withSubClass (parent n : String) (t : ClassSet σ μ) :
    (adjust ClassEntry.name parent (withSubClass n) t).map ClassEntry.name =
      t.map ClassEntry.name := by
  apply map_adjust
  intro c
  rfl

theorem handles_withSubClass (parent n : String) (t : ClassSet σ μ) :
    (adjust ClassEntry.name parent (withSubClass n) t).map ClassEntry.handle =
      t.map ClassEntry.handle := by
  apply map_adjust
  intro c
  rfl

/-- A class whose name is taken is refused, after its parent has taken it in unless the parent
knows the name. -/
theorem registry_taken (taken : call.fullName t ∈ t.map ClassEntry.name) :
    (registry σ μ t call).2.2 = some .rtiInternalError ∧
      (registry σ μ t call).1 =
        match call.parentIn t with
        | none => t
        | some p =>
          if call.fullName t ∈ p.subClasses then t
          else adjust ClassEntry.name p.name (withSubClass (call.fullName t)) t := by
  have known : ∀ t' : ClassSet σ μ, t'.map ClassEntry.name = t.map ClassEntry.name →
      (named t' (call.fullName t)).isSome = true := by
    intro t' same
    cases absent : named t' (call.fullName t) with
    | some c => rfl
    | none =>
      rw [named_eq_none, same] at absent
      exact absurd taken absent
  have here := known t rfl
  have there := fun p : ClassEntry σ μ =>
    known (adjust ClassEntry.name p.name (withSubClass (call.fullName t)) t)
      (names_withSubClass p.name _ t)
  unfold registry add storeChild
  unfold AddCall.fullName AddCall.parentIn at here there ⊢
  cases found : call.parent.bind (named t) with
  | none =>
    rw [found] at here
    dsimp only at here ⊢
    rw [if_pos here]
    exact ⟨rfl, rfl⟩
  | some p =>
    rw [found] at there
    have taken' := there p
    dsimp only [addSubClass] at taken' ⊢
    by_cases inside : hierarchicalName p.name call.name ∈ p.subClasses
    · rw [if_pos inside, if_pos inside]
      exact ⟨rfl, rfl⟩
    · rw [if_neg inside, if_neg inside, if_pos taken']
      exact ⟨rfl, rfl⟩

theorem hierarchicalName_eq_self {parent child : String} :
    hierarchicalName parent child = child ↔ isRootName parent = true := by
  unfold hierarchicalName
  split
  · rename_i root
    exact iff_of_true rfl root
  · rename_i other
    refine iff_of_false (fun same => ?_) other
    have lengths := congrArg String.length same
    rw [String.length_append, String.length_append] at lengths
    have dot : ".".length = 1 := rfl
    omega

/-- A parent that is linked to one class more is not what it was. -/
theorem adjust_withSubClass_ne (registered : Registered t) {p : ClassEntry σ μ} (member : p ∈ t)
    (n : String) : adjust ClassEntry.name p.name (withSubClass n) t ≠ t := by
  intro same
  have inside : withSubClass n p ∈ adjust ClassEntry.name p.name (withSubClass n) t :=
    mem_adjust.mpr (.inr ⟨p, member, rfl, rfl⟩)
  rw [same] at inside
  have equal : withSubClass n p = p :=
    List.inj_on_of_nodup_map registered.names inside member rfl
  have longer := congrArg (fun c => c.subClasses.length) equal
  simp [withSubClass] at longer

theorem failsCleanly_iff (registered : Registered t) :
    FailsCleanly t call ↔ call.MetEarly t := by
  by_cases taken : call.fullName t ∈ t.map ClassEntry.name
  · obtain ⟨refused, left⟩ := registry_taken taken
    have clean : FailsCleanly t call ↔
        (registry σ μ t call).1 = t ∧ call.fullName t = call.name := by
      rw [FailsCleanly, refused, registry_name]
      exact ⟨fun fails => fails _ rfl, fun same e _ => same⟩
    rw [clean, AddCall.MetEarly, imp_iff_right taken, left]
    cases found : call.parentIn t with
    | none => simp [AddCall.fullName, found]
    | some p =>
      have member : p ∈ t := by
        obtain ⟨_, _, located⟩ := Option.bind_eq_some_iff.mp found
        exact lookup_mem located
      have named : call.fullName t = hierarchicalName p.name call.name := by
        rw [AddCall.fullName, found]
      have renamed : call.fullName t = call.name ↔ isRootName p.name = true := by
        rw [named, hierarchicalName_eq_self]
      rw [renamed]
      simp only [Option.some.injEq, forall_eq']
      by_cases inside : call.fullName t ∈ p.subClasses
      · simp [inside]
      · simp [inside, adjust_withSubClass_ne registered member]
  · refine iff_of_true (fun e thrown => ?_) (fun known => absurd known taken)
    rw [(registry_new registered taken).2] at thrown
    cases thrown

theorem Registered.stored (registered : Registered t)
    (new : call.fullName t ∉ t.map ClassEntry.name)
    (fresh : call.handle ∉ t.map ClassEntry.handle) (bare : ¬ RootPrefixed (call.fullName t)) :
    Registered (registry σ μ t call).1 := by
  have outcome := (registry_new registered new).1
  have named := childOf_name call t
  have handle := childOf_handle (call.parentIn t) call.name call.handle call.props
  have leaf : (childOf (call.parentIn t) call.name call.handle call.props).subClasses = [] := by
    cases call.parentIn t <;> rfl
  rw [outcome]
  generalize childOf (call.parentIn t) call.name call.handle call.props = child
    at named handle leaf
  -- linking the child into its parent changes the parent's subclasses only
  have linked : ∃ others : ClassSet σ μ, registering (call.parentIn t) child t = others ∧
      others.map ClassEntry.name = t.map ClassEntry.name ∧
      others.map ClassEntry.handle = t.map ClassEntry.handle ∧
      ∀ c ∈ others, (∃ d ∈ t, d.name = c.name) ∧
        ∀ n ∈ c.subClasses, n = child.name ∨ n ∈ t.map ClassEntry.name := by
    have same : ∀ c ∈ t, (∃ d ∈ t, d.name = c.name) ∧
        ∀ n ∈ c.subClasses, n = child.name ∨ n ∈ t.map ClassEntry.name :=
      fun c member => ⟨⟨c, member, rfl⟩,
        fun n inside => .inr (registered.subClasses c member n inside)⟩
    refine ⟨_, rfl, ?_⟩
    cases call.parentIn t with
    | none => exact ⟨rfl, rfl, same⟩
    | some p =>
      refine ⟨names_withSubClass p.name _ t, handles_withSubClass p.name _ t, ?_⟩
      refine forall_adjust same fun c _ _ before => ⟨before.1, fun n inside => ?_⟩
      rcases List.mem_cons.mp inside with rfl | earlier
      · exact .inl rfl
      · exact before.2 n earlier
  obtain ⟨others, result, names, handles, each⟩ := linked
  rw [result]
  refine ⟨?_, ?_, ?_, ?_⟩
  · rw [List.map_cons, names, named]
    exact List.nodup_cons.mpr ⟨new, registered.names⟩
  · rw [List.map_cons, handles, handle]
    exact List.nodup_cons.mpr ⟨fresh, registered.handles⟩
  · intro c member
    rcases List.mem_cons.mp member with rfl | earlier
    · rwa [named]
    · obtain ⟨⟨d, known, same⟩, _⟩ := each c earlier
      rw [← same]
      exact registered.bare d known
  · intro c member n inside
    rw [List.map_cons, names]
    rcases List.mem_cons.mp member with rfl | earlier
    · rw [leaf] at inside
      cases inside
    · rcases (each c earlier).2 n inside with rfl | known
      · exact List.mem_cons_self
      · exact List.mem_cons_of_mem _ known

theorem Registered.step (registered : Registered t) (orderly : call.Orderly t) :
    Registered (registry σ μ t call).1 := by
  by_cases taken : call.fullName t ∈ t.map ClassEntry.name
  · have clean := (failsCleanly_iff registered).mpr orderly.refused
    rw [(clean _ (registry_taken taken).1).1]
    exact registered
  · obtain ⟨fresh, bare⟩ := orderly.accepted taken
    exact registered.stored taken fresh bare

end Invariant

/-! ## Whole runs -/

/-- Every prefix of an orderly run leaves both maps and all lookups in agreement, and a call that
throws there leaves everything unchanged exactly if it meets the taken name early. Optional
prefixes never matter. -/
theorem classRegistry_sound {σ μ : Type} (calls : List (AddCall σ)) :
    ((registry σ μ).Meets (fun t call => call.Orderly t) [] calls →
      ∀ before after, calls = before ++ after →
        RegistrySound ((registry σ μ).exec [] before) ∧
        ∀ call : AddCall σ, FailsCleanly ((registry σ μ).exec [] before) call ↔
          call.MetEarly ((registry σ μ).exec [] before)) ∧
    ∀ root name, isRootName root = true → ¬ RootPrefixed name →
      getHandleFromName ((registry σ μ).exec [] calls) (root ++ "." ++ name) =
        getHandleFromName ((registry σ μ).exec [] calls) name := by
  refine ⟨fun meets before after split => ?_,
    fun root name isRoot bare => getHandleFromName_prefixed _ isRoot bare⟩
  rw [split] at meets
  have registered := (registry σ μ).exec_invariant (p := Registered)
    (fun t call registered orderly => registered.step orderly)
    registered_nil ((registry σ μ).meets_append.mp meets).1
  exact ⟨registered.sound, fun call => failsCleanly_iff registered⟩

/-- Two leaf names under a root, below it a class and its subclass, with a name met early. -/
def orderlyCalls : List (AddCall Unit) :=
  [⟨"HLAobjectRoot", 1, (), none⟩, ⟨"A", 2, (), some "HLAobjectRoot"⟩, ⟨"B", 3, (), some "A"⟩,
    ⟨"A", 4, (), some "HLAobjectRoot"⟩]

theorem classRegistry_sound_small :
    RegistrySound ((registry Unit Unit).exec [] orderlyCalls) := by
  have meets : (registry Unit Unit).Meets (fun t call => call.Orderly t) [] orderlyCalls := by
    refine ⟨⟨fun _ => ⟨by decide +kernel, fun rooted => ?_⟩, fun taken => ?_⟩,
      ⟨fun _ => ⟨by decide +kernel, fun rooted => ?_⟩, fun taken => ?_⟩,
      ⟨fun _ => ⟨by decide +kernel, fun rooted => ?_⟩, fun taken => ?_⟩,
      ⟨fun new => absurd (by decide +kernel) new, fun _ p found => ?_⟩, trivial⟩
    · exact absurd rooted.1 (by decide +kernel)
    · exact absurd taken (by decide +kernel)
    · exact absurd rooted.1 (by decide +kernel)
    · exact absurd taken (by decide +kernel)
    · exact absurd rooted.2 (by decide +kernel)
    · exact absurd taken (by decide +kernel)
    · revert p found
      decide +kernel
  exact ((classRegistry_sound orderlyCalls).1 meets orderlyCalls [] (by simp)).1

/-- The class `A.B` comes twice: the second object is renamed and linked into `A` before it is
refused. -/
theorem refused_child_renamed :
    let t := (registry Unit Unit).exec [] (orderlyCalls.take 3)
    let call : AddCall Unit := ⟨"B", 5, (), some "A"⟩
    (registry Unit Unit t call).2.1.name = "A.B" ∧ ¬ FailsCleanly t call := by
  intro t call
  have renamed : (registry Unit Unit t call).2.1.name = "A.B" := by decide +kernel
  refine ⟨renamed, fun clean => ?_⟩
  have kept := (clean .rtiInternalError (by decide +kernel)).2
  rw [renamed] at kept
  exact absurd kept (by decide)

end Certi.Modules
