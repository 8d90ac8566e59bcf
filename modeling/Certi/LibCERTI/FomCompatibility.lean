import Certi.Lib.Verdicts
import Certi.LibCERTI.FomGrowth

/-!
# Whether a FOM module fits

`RootObject::canBeAddedTo`: a module, read into a root object of its own, is
compared with the main root object before it is read into that. Handles are
local to each root object, so classes, attributes and routing spaces are
compared by name; the routing space of an attribute is looked up in the root
object that the other attribute belongs to.
-/
namespace Certi.Modules

open Keyed Ascending Throwing Verdicts

section Classes

variable {σ μ : Type}

def getNameFromHandle (t : ClassSet σ μ) (h : Nat) : Except RTIException String :=
  (getObjectFromHandle t h).map ClassEntry.name

/-- No parent on either side, or parents of the same name; the name of no class is asked for when
one side only has a parent. -/
def parentsAlike (main new : ClassSet σ μ) (existing c : ClassEntry σ μ) :
    Except RTIException Bool :=
  if existing.superClass = 0 && c.superClass = 0 then .ok true
  else do
    let theirs ← getNameFromHandle main existing.superClass
    let ours ← getNameFromHandle new c.superClass
    return theirs = ours

/-- The names of the new members are found, and crossed out, among those of the existing ones. -/
def membersAlike (name : μ → String) (existing c : ClassEntry σ μ) : Bool :=
  existing.members.length = c.members.length &&
    (c.members.map fun m => name m.2).isPerm (existing.members.map fun m => name m.2)

/-- What is compared of a class; the two kinds of class differ in the delivery of members. -/
def classAlike (name : μ → String)
    (delivery : ClassEntry σ μ → ClassEntry σ μ → Except RTIException Bool)
    (main new : ClassSet σ μ) (existing c : ClassEntry σ μ) : Except RTIException Bool := do
  let parents ← parentsAlike main new existing c
  if !parents then return false
  else if !membersAlike name existing c then return false
  else delivery existing c

/-- The body of the loops: `NameNotFound` counts as a class that does not exist yet. -/
def askClass (main : ClassSet σ μ)
    (alike : ClassEntry σ μ → ClassEntry σ μ → Except RTIException Bool)
    (c : ClassEntry σ μ) : Except RTIException Bool :=
  match (do
      let h ← getHandleFromName main c.name
      let existing ← getObjectFromHandle main h
      alike existing c) with
  | .error .nameNotFound => .ok true
  | verdict => verdict

end Classes

namespace RootObject

variable (main new : RootObject)

/-- `getAttributeHandle` and `at`. -/
def attributeNamed (c : ClassEntry Unit Attribute) (name : String) :
    Except RTIException Attribute :=
  match c.members.find? (fun m => m.2.name = name) with
  | some m => .ok m.2
  | none => .error .nameNotFound

/-- The space of the existing attribute is looked up in the new root object, and that of the new
attribute in the main one. -/
def spacesAlike (existing attribute' : Attribute) : Except RTIException Bool :=
  if existing.space = 0 && attribute'.space = 0 then .ok true
  else do
    let theirs ← new.getRoutingSpaceName existing.space
    let ours ← main.getRoutingSpaceName attribute'.space
    return theirs = ours

def attributeAlike (c : ClassEntry Unit Attribute) (existing : Nat × Attribute) :
    Except RTIException Bool := do
  let attribute' ← attributeNamed c existing.2.name
  let spaces ← main.spacesAlike new existing.2 attribute'
  return spaces && existing.2.transport = attribute'.transport &&
    existing.2.order = attribute'.order

def objectClassAlike :
    ClassEntry Unit Attribute → ClassEntry Unit Attribute → Except RTIException Bool :=
  classAlike Attribute.name
    (fun existing c => Verdicts.all (main.attributeAlike new c) existing.members)
    main.objectClasses new.objectClasses

/-- The comparison of the delivery of interactions is compiled out. -/
def interactionAlike :
    ClassEntry Delivery Parameter → ClassEntry Delivery Parameter → Except RTIException Bool :=
  classAlike Parameter.name (fun _ _ => .ok true) main.interactions new.interactions

def canBeAddedTo (new main : RootObject) : Except RTIException Bool :=
  match Verdicts.all (askClass main.objectClasses (main.objectClassAlike new))
      (byName new.objectClasses) with
  | .ok true =>
    Verdicts.all (askClass main.interactions (main.interactionAlike new))
      (byName new.interactions)
  | other => other

end RootObject

/-! ## What the check is for -/

section Purpose

variable {σ μ : Type}

def parentName (t : ClassSet σ μ) (c : ClassEntry σ μ) : Option String :=
  if c.superClass = 0 then none else (atHandle t c.superClass).map ClassEntry.name

/-- Of the same parent and with members of the same names, whose delivery is the same too. -/
structure SameClass (name : μ → String) (delivery : μ → μ → Prop) (main new : ClassSet σ μ)
    (existing c : ClassEntry σ μ) : Prop where
  parent : parentName main existing = parentName new c
  names : ∀ n, n ∈ existing.members.map (fun m => name m.2) ↔ n ∈ c.members.map (fun m => name m.2)
  delivery : ∀ a ∈ existing.members, ∀ b ∈ c.members, name a.2 = name b.2 → delivery a.2 b.2

/-- A new class agrees with the class of its name, if there is one. -/
def Agrees (same : ClassEntry σ μ → ClassEntry σ μ → Prop) (main : ClassSet σ μ)
    (c : ClassEntry σ μ) : Prop := ∀ existing ∈ main, existing.name = c.name → same existing c

end Purpose

namespace RootObject

variable (main new : RootObject)

def spaceName (root : RootObject) (h : SpaceHandle) : Option String :=
  (root.getRoutingSpaceName h).toOption

structure SameDelivery (existing attribute' : Attribute) : Prop where
  space : main.spaceName existing.space = new.spaceName attribute'.space
  transport : existing.transport = attribute'.transport
  order : existing.order = attribute'.order

def SameObjectClass : ClassEntry Unit Attribute → ClassEntry Unit Attribute → Prop :=
  SameClass Attribute.name (main.SameDelivery new) main.objectClasses new.objectClasses

def SameInteraction : ClassEntry Delivery Parameter → ClassEntry Delivery Parameter → Prop :=
  SameClass Parameter.name (fun _ _ => True) main.interactions new.interactions

structure Compatible (new main : RootObject) : Prop where
  objectClasses : ∀ c ∈ new.objectClasses,
    Agrees (main.SameObjectClass new) main.objectClasses c
  interactions : ∀ c ∈ new.interactions,
    Agrees (main.SameInteraction new) main.interactions c

end RootObject

/-! ## What the check reads -/

section Reading

variable {σ μ : Type}

/-- The class that the check compares a new class with. -/
def located (main : ClassSet σ μ) (name : String) : Except RTIException (ClassEntry σ μ) := do
  let h ← getHandleFromName main name
  getObjectFromHandle main h

/-- What makes the check find two classes alike. -/
structure ReadsAlike (name : μ → String) (alike : ClassEntry σ μ → ClassEntry σ μ → Prop)
    (main new : ClassSet σ μ) (existing c : ClassEntry σ μ) : Prop where
  parent : parentName main existing = parentName new c
  names : (c.members.map fun m => name m.2).Perm (existing.members.map fun m => name m.2)
  delivery : alike existing c

/-- What makes it reach an answer: both have a parent or neither, and as far as the delivery of
members is compared that is defined. -/
structure ReadsDefined (name : μ → String) (defined : ClassEntry σ μ → ClassEntry σ μ → Prop)
    (main new : ClassSet σ μ) (existing c : ClassEntry σ μ) : Prop where
  parents : existing.superClass = 0 ↔ c.superClass = 0
  delivery : parentName main existing = parentName new c →
    (c.members.map fun m => name m.2).Perm (existing.members.map fun m => name m.2) →
      defined existing c

variable {main new : ClassSet σ μ} {existing c : ClassEntry σ μ}

theorem ascends_byName (t : ClassSet σ μ) : Ascends ClassEntry.name (byName t) := by
  induction t with
  | nil => exact List.Pairwise.nil
  | cons d rest ih => exact ascends_store ih

theorem mem_byName_of {t : ClassSet σ μ} (member : c ∈ byName t) : c ∈ t := by
  induction t with
  | nil => cases member
  | cons d rest ih =>
    rcases (mem_store (ascends_byName rest)).mp member with rfl | ⟨later, _⟩
    · exact List.mem_cons_self
    · exact List.mem_cons_of_mem d (ih later)

/-- The map by name has every class, where no two have one name. -/
theorem mem_byName {t : ClassSet σ μ} (names : (t.map ClassEntry.name).Nodup) :
    c ∈ byName t ↔ c ∈ t := by
  refine ⟨mem_byName_of, ?_⟩
  induction t with
  | nil => exact fun member => member
  | cons d rest ih =>
    intro member
    obtain ⟨fresh, others⟩ := List.nodup_cons.mp names
    refine (mem_store (ascends_byName rest)).mpr ?_
    rcases List.mem_cons.mp member with rfl | later
    · exact .inl rfl
    · exact .inr ⟨ih others later, fun same => fresh (same ▸ List.mem_map_of_mem later)⟩

theorem getNameFromHandle_zero {t : ClassSet σ μ} (sound : Sound (views t)) :
    getNameFromHandle t 0 = .error .objectClassNotDefined := by
  have absent : atHandle t 0 = none := by
    refine lookup_eq_none.mpr fun c member => ?_
    exact sound.positive (view c) (List.mem_map_of_mem member)
  simp [getNameFromHandle, getObjectFromHandle, absent, Except.map]

/-- The name of a parent is found. -/
theorem getNameFromHandle_parent {t : ClassSet σ μ} (sound : Sound (views t)) (member : c ∈ t)
    (under : c.superClass ≠ 0) :
    ∃ n, getNameFromHandle t c.superClass = .ok n ∧ parentName t c = some n := by
  obtain ⟨v, listed, handle, _⟩ :=
    sound.parents (view c) (List.mem_map_of_mem member) under
  obtain ⟨p, belongs, rfl⟩ := List.mem_map.mp listed
  obtain ⟨q, found⟩ : ∃ q, atHandle t c.superClass = some q := lookup_of_mem belongs handle
  refine ⟨q.name, ?_, ?_⟩
  · simp [getNameFromHandle, getObjectFromHandle, found, Except.map]
  · simp [parentName, under, found]

theorem parentsAlike_answers (soundMain : Sound (views main)) (soundNew : Sound (views new))
    (inMain : existing ∈ main) (inNew : c ∈ new)
    (parents : existing.superClass = 0 ↔ c.superClass = 0) :
    Answers (parentsAlike main new existing c) (parentName main existing = parentName new c) := by
  unfold parentsAlike
  by_cases top : existing.superClass = 0
  · have top' := parents.mp top
    rw [if_pos (by simp [top, top'])]
    exact ⟨true, rfl, by simp [parentName, top, top']⟩
  · have under := fun top' => top (parents.mpr top')
    rw [if_neg (by simp [top])]
    obtain ⟨theirs, named, parent⟩ := getNameFromHandle_parent soundMain inMain top
    obtain ⟨ours, named', parent'⟩ := getNameFromHandle_parent soundNew inNew under
    refine ⟨decide (theirs = ours), ?_, ?_⟩
    · simp only [named, named', bind, Except.bind, pure, Except.pure]
    · rw [parent, parent', decide_eq_true_iff, Option.some.injEq]

/-- With a parent on one side only the check throws. -/
theorem parentsAlike_oneSided (soundMain : Sound (views main)) (soundNew : Sound (views new))
    (inMain : existing ∈ main) (oneSided : ¬(existing.superClass = 0 ↔ c.superClass = 0)) :
    parentsAlike main new existing c = .error .objectClassNotDefined := by
  unfold parentsAlike
  by_cases top : existing.superClass = 0
  · have under : c.superClass ≠ 0 := fun top' => oneSided (iff_of_true top top')
    rw [if_neg (by simp [under]), top, getNameFromHandle_zero soundMain]
    rfl
  · have top' : c.superClass = 0 := by
      by_contra under
      exact oneSided (iff_of_false top under)
    obtain ⟨theirs, named, _⟩ := getNameFromHandle_parent soundMain inMain top
    rw [if_neg (by simp [top]), top', getNameFromHandle_zero soundNew, named]
    rfl

theorem membersAlike_iff {name : μ → String} : membersAlike name existing c = true ↔
    (c.members.map fun m => name m.2).Perm (existing.members.map fun m => name m.2) := by
  unfold membersAlike
  rw [Bool.and_eq_true, decide_eq_true_iff, List.isPerm_iff]
  constructor
  · exact fun both => both.2
  · intro perm
    have length := perm.length_eq
    rw [List.length_map, List.length_map] at length
    exact ⟨length.symm, perm⟩

/-- What the comparison of the delivery of members has to give for classes with members of the
same names: an answer where it is defined, and no exception that would count as a new class. -/
structure Compares (name : μ → String)
    (delivery : ClassEntry σ μ → ClassEntry σ μ → Except RTIException Bool)
    (alike defined : ClassEntry σ μ → ClassEntry σ μ → Prop) : Prop where
  answers : ∀ {existing c},
    (c.members.map fun m => name m.2).Perm (existing.members.map fun m => name m.2) →
      defined existing c → Answers (delivery existing c) (alike existing c)
  accepted : ∀ {existing c},
    (c.members.map fun m => name m.2).Perm (existing.members.map fun m => name m.2) →
      delivery existing c = .ok true → alike existing c ∧ defined existing c
  caught : ∀ {existing c},
    (c.members.map fun m => name m.2).Perm (existing.members.map fun m => name m.2) →
      delivery existing c ≠ .error .nameNotFound

section Comparing

variable {name : μ → String}
  {delivery : ClassEntry σ μ → ClassEntry σ μ → Except RTIException Bool}
  {alike defined : ClassEntry σ μ → ClassEntry σ μ → Prop}

theorem classAlike_answers (compares : Compares name delivery alike defined)
    (soundMain : Sound (views main)) (soundNew : Sound (views new)) (inMain : existing ∈ main)
    (inNew : c ∈ new) (reads : ReadsDefined name defined main new existing c) :
    Answers (classAlike name delivery main new existing c)
      (ReadsAlike name alike main new existing c) := by
  obtain ⟨b, asked, parents⟩ :=
    parentsAlike_answers soundMain soundNew inMain inNew reads.parents
  unfold classAlike
  simp only [asked, bind, Except.bind]
  cases b with
  | false =>
    refine ⟨false, rfl, iff_of_false Bool.false_ne_true fun same => ?_⟩
    exact Bool.false_ne_true (parents.mpr same.parent)
  | true =>
    have parent := parents.mp rfl
    by_cases names : membersAlike name existing c = true
    · have perm := membersAlike_iff.mp names
      simp only [names, Bool.not_true, Bool.false_eq_true, if_false]
      refine (compares.answers perm (reads.delivery parent perm)).congr ?_
      exact ⟨fun same => ⟨parent, perm, same⟩, fun same => same.delivery⟩
    · simp only [Bool.not_true, Bool.false_eq_true, if_false, Bool.not_eq_true', names,
        Bool.eq_false_of_not_eq_true names, if_true]
      refine ⟨false, rfl, iff_of_false Bool.false_ne_true fun same => ?_⟩
      exact names (membersAlike_iff.mpr same.names)

theorem classAlike_accepted (compares : Compares name delivery alike defined)
    (soundMain : Sound (views main)) (soundNew : Sound (views new)) (inMain : existing ∈ main)
    (inNew : c ∈ new) (accepted : classAlike name delivery main new existing c = .ok true) :
    ReadsAlike name alike main new existing c ∧ ReadsDefined name defined main new existing c := by
  unfold classAlike at accepted
  by_cases parents : existing.superClass = 0 ↔ c.superClass = 0
  · obtain ⟨b, asked, meaning⟩ := parentsAlike_answers soundMain soundNew inMain inNew parents
    simp only [asked, bind, Except.bind] at accepted
    cases b with
    | false => cases accepted
    | true =>
      by_cases names : membersAlike name existing c = true
      · simp only [names, Bool.not_true, Bool.false_eq_true, if_false] at accepted
        obtain ⟨same, able⟩ := compares.accepted (membersAlike_iff.mp names) accepted
        exact ⟨⟨meaning.mp rfl, membersAlike_iff.mp names, same⟩, parents, fun _ _ => able⟩
      · simp only [Bool.not_true, Bool.false_eq_true, if_false,
          Bool.eq_false_of_not_eq_true names, Bool.not_false, if_true] at accepted
        cases accepted
  · rw [parentsAlike_oneSided soundMain soundNew inMain parents] at accepted
    cases accepted

theorem classAlike_caught (compares : Compares name delivery alike defined)
    (soundMain : Sound (views main)) (soundNew : Sound (views new)) (inMain : existing ∈ main)
    (inNew : c ∈ new) :
    classAlike name delivery main new existing c ≠ .error .nameNotFound := by
  unfold classAlike
  by_cases parents : existing.superClass = 0 ↔ c.superClass = 0
  · obtain ⟨b, asked, _⟩ := parentsAlike_answers soundMain soundNew inMain inNew parents
    simp only [asked, bind, Except.bind]
    cases b with
    | false =>
      intro thrown
      cases thrown
    | true =>
      by_cases names : membersAlike name existing c = true
      · simp only [names, Bool.not_true, Bool.false_eq_true, if_false]
        exact compares.caught (membersAlike_iff.mp names)
      · simp only [Bool.not_true, Bool.false_eq_true, if_false,
          Bool.eq_false_of_not_eq_true names, Bool.not_false, if_true]
        intro thrown
        cases thrown
  · rw [parentsAlike_oneSided soundMain soundNew inMain parents]
    intro thrown
    cases thrown

/-! ### Class by class -/

/-- The class it is compared with is found alike. -/
def Passes (name : μ → String) (alike : ClassEntry σ μ → ClassEntry σ μ → Prop)
    (main new : ClassSet σ μ) (c : ClassEntry σ μ) : Prop :=
  ∀ existing, located main c.name = .ok existing → ReadsAlike name alike main new existing c

/-- The comparison is defined, and what is compared agrees exactly if the classes of one name do. -/
structure ReadRight (name : μ → String)
    (alike defined same : ClassEntry σ μ → ClassEntry σ μ → Prop) (main new : ClassSet σ μ)
    (c : ClassEntry σ μ) : Prop where
  reads : ∀ existing, located main c.name = .ok existing →
    ReadsDefined name defined main new existing c
  right : Passes name alike main new c ↔ Agrees same main c

theorem located_cases (main : ClassSet σ μ) (n : String) :
    (∃ existing ∈ main, located main n = .ok existing) ∨
      located main n = .error .nameNotFound := by
  have known : ∀ e ∈ main, ∃ existing ∈ main,
      getObjectFromHandle main e.handle = .ok existing := by
    intro e member
    obtain ⟨existing, found⟩ : ∃ existing, atHandle main e.handle = some existing :=
      lookup_of_mem member rfl
    exact ⟨existing, lookup_mem found, by rw [getObjectFromHandle, found]⟩
  unfold located getHandleFromName
  dsimp only
  split
  · rename_i e found
    obtain ⟨existing, member, asked⟩ := known e (lookup_mem found)
    exact .inl ⟨existing, member, asked⟩
  · split
    · rename_i e found
      have listed := mem_byName_of (List.mem_of_find?_eq_some found)
      obtain ⟨existing, member, asked⟩ := known e listed
      exact .inl ⟨existing, member, asked⟩
    · exact .inr rfl

theorem askClass_located (c : ClassEntry σ μ)
    {compare : ClassEntry σ μ → ClassEntry σ μ → Except RTIException Bool}
    (found : located main c.name = .ok existing)
    (caught : compare existing c ≠ .error .nameNotFound) :
    askClass main compare c = compare existing c := by
  have whole : (do
      let h ← getHandleFromName main c.name
      let existing ← getObjectFromHandle main h
      compare existing c) = located main c.name >>= fun existing => compare existing c := by
    rw [located, bind_assoc]
  rw [askClass, whole, found]
  dsimp only [bind, Except.bind]
  split
  · rename_i thrown
    exact absurd thrown caught
  · rfl

theorem askClass_new (c : ClassEntry σ μ)
    {compare : ClassEntry σ μ → ClassEntry σ μ → Except RTIException Bool}
    (absent : located main c.name = .error .nameNotFound) :
    askClass main compare c = .ok true := by
  have whole : (do
      let h ← getHandleFromName main c.name
      let existing ← getObjectFromHandle main h
      compare existing c) = located main c.name >>= fun existing => compare existing c := by
    rw [located, bind_assoc]
  rw [askClass, whole, absent]
  rfl

theorem askClass_answers (compares : Compares name delivery alike defined)
    (soundMain : Sound (views main)) (soundNew : Sound (views new)) (inNew : c ∈ new)
    (reads : ∀ existing, located main c.name = .ok existing →
      ReadsDefined name defined main new existing c) :
    Answers (askClass main (classAlike name delivery main new) c)
      (Passes name alike main new c) := by
  rcases located_cases main c.name with ⟨existing, inMain, found⟩ | absent
  · rw [askClass_located c found (classAlike_caught compares soundMain soundNew inMain inNew)]
    refine (classAlike_answers compares soundMain soundNew inMain inNew
      (reads existing found)).congr ?_
    constructor
    · intro same other located'
      rw [← Except.ok.inj (found.symm.trans located')]
      exact same
    · exact fun passes => passes existing found
  · rw [askClass_new c absent]
    refine ⟨true, rfl, iff_of_true rfl fun existing found => ?_⟩
    rw [absent] at found
    cases found

theorem askClass_accepted (compares : Compares name delivery alike defined)
    (soundMain : Sound (views main)) (soundNew : Sound (views new)) (inNew : c ∈ new)
    (accepted : askClass main (classAlike name delivery main new) c = .ok true) :
    Passes name alike main new c ∧ ∀ existing, located main c.name = .ok existing →
      ReadsDefined name defined main new existing c := by
  rcases located_cases main c.name with ⟨existing, inMain, found⟩ | absent
  · rw [askClass_located c found (classAlike_caught compares soundMain soundNew inMain inNew)]
      at accepted
    obtain ⟨same, reads⟩ := classAlike_accepted compares soundMain soundNew inMain inNew accepted
    have only : ∀ other, located main c.name = .ok other → other = existing := by
      intro other located'
      exact Except.ok.inj (located'.symm.trans found)
    exact ⟨fun other located' => by rw [only other located']; exact same,
      fun other located' => by rw [only other located']; exact reads⟩
  · constructor
    · intro existing found
      rw [absent] at found
      cases found
    · intro existing found
      rw [absent] at found
      cases found

/-- Every class up to the first that does not pass is read right. -/
def ReadsRight (name : μ → String) (alike defined same : ClassEntry σ μ → ClassEntry σ μ → Prop)
    (main new : ClassSet σ μ) : Prop :=
  UpTo (Passes name alike main new) (ReadRight name alike defined same main new) (byName new)

theorem askClasses_answers (compares : Compares name delivery alike defined)
    (soundMain : Sound (views main)) (soundNew : Sound (views new))
    {same : ClassEntry σ μ → ClassEntry σ μ → Prop}
    (reads : ReadsRight name alike defined same main new) :
    Answers (Verdicts.all (askClass main (classAlike name delivery main new)) (byName new))
        (∀ c ∈ byName new, Passes name alike main new c) ∧
      ((∀ c ∈ byName new, Passes name alike main new c) ↔ ∀ c ∈ new, Agrees same main c) := by
  constructor
  · refine all_answers (upTo_mono (fun c member read => ?_) reads)
    exact askClass_answers compares soundMain soundNew (mem_byName_of member) read.reads
  · have names : (new.map ClassEntry.name).Nodup := names_views new ▸ soundNew.names
    rw [forall_iff_of_upTo (upTo_mono (fun c _ read => read.right) reads)]
    exact forall_congr' fun c => imp_congr_left (mem_byName names)

theorem askClasses_accepted (compares : Compares name delivery alike defined)
    (soundMain : Sound (views main)) (soundNew : Sound (views new))
    {same : ClassEntry σ μ → ClassEntry σ μ → Prop} (agrees : ∀ c ∈ new, Agrees same main c)
    (accepted : Verdicts.all (askClass main (classAlike name delivery main new)) (byName new) =
      .ok true) : ReadsRight name alike defined same main new := by
  refine upTo_of_forall fun c member => ?_
  have belongs := mem_byName_of member
  obtain ⟨passes, reads⟩ :=
    askClass_accepted compares soundMain soundNew belongs (all_true.mp accepted c member)
  exact ⟨reads, iff_of_true passes (agrees c belongs)⟩

end Comparing

end Reading

/-! ### The delivery of attributes -/

namespace RootObject

variable (main new : RootObject)

/-- What the check compares of an attribute, the spaces crosswise. -/
def AttributeAlike (c : ClassEntry Unit Attribute) (existing : Nat × Attribute) : Prop :=
  ∀ b, attributeNamed c existing.2.name = .ok b →
    new.spaceName existing.2.space = main.spaceName b.space ∧
      existing.2.transport = b.transport ∧ existing.2.order = b.order

/-- Neither attribute has a routing space, or each has one that the other's root object knows. -/
def AttributeDefined (c : ClassEntry Unit Attribute) (existing : Nat × Attribute) : Prop :=
  ∀ b, attributeNamed c existing.2.name = .ok b →
    existing.2.space = 0 ∧ b.space = 0 ∨
      (new.spaceName existing.2.space).isSome = true ∧ (main.spaceName b.space).isSome = true

def AttributesAlike (existing c : ClassEntry Unit Attribute) : Prop :=
  ∀ a ∈ existing.members, main.AttributeAlike new c a

/-- Up to the first attribute that is not alike. -/
def AttributesDefined (existing c : ClassEntry Unit Attribute) : Prop :=
  UpTo (main.AttributeAlike new c) (main.AttributeDefined new c) existing.members

variable {main new} {c : ClassEntry Unit Attribute} {a : Nat × Attribute}

theorem getRoutingSpaceName_zero (root : RootObject) :
    root.getRoutingSpaceName 0 = .error .spaceNotDefined := rfl

theorem spaceName_zero (root : RootObject) : root.spaceName 0 = none := rfl

theorem getRoutingSpaceName_some {root : RootObject} {h : SpaceHandle} {n : String}
    (found : root.spaceName h = some n) : root.getRoutingSpaceName h = .ok n := by
  unfold spaceName at found
  cases asked : root.getRoutingSpaceName h with
  | error e =>
    rw [asked] at found
    cases found
  | ok n' =>
    rw [asked] at found
    cases found
    rfl

theorem getRoutingSpaceName_none {root : RootObject} {h : SpaceHandle}
    (unknown : root.spaceName h = none) : root.getRoutingSpaceName h = .error .spaceNotDefined := by
  unfold spaceName at unknown
  unfold getRoutingSpaceName at unknown ⊢
  split
  · rfl
  · split
    · rename_i found
      simp [found] at unknown
      cases unknown
    · rfl

theorem spacesAlike_answers {a b : Attribute}
    (defined : a.space = 0 ∧ b.space = 0 ∨
      (new.spaceName a.space).isSome = true ∧ (main.spaceName b.space).isSome = true) :
    Answers (main.spacesAlike new a b) (new.spaceName a.space = main.spaceName b.space) := by
  unfold spacesAlike
  rcases defined with ⟨none, none'⟩ | ⟨known, known'⟩
  · rw [if_pos (by simp [none, none']), none, none', spaceName_zero, spaceName_zero]
    exact ⟨true, rfl, by simp⟩
  · obtain ⟨theirs, found⟩ := Option.isSome_iff_exists.mp known
    obtain ⟨ours, found'⟩ := Option.isSome_iff_exists.mp known'
    have spaced : a.space ≠ 0 := by
      intro none
      rw [none, spaceName_zero] at found
      cases found
    rw [if_neg (by simp [spaced]), getRoutingSpaceName_some found, getRoutingSpaceName_some found',
      found, found', Option.some.injEq]
    exact ⟨decide (theirs = ours), rfl, decide_eq_true_iff⟩

theorem spacesAlike_throws {a b : Attribute}
    (undefined : ¬(a.space = 0 ∧ b.space = 0 ∨
      (new.spaceName a.space).isSome = true ∧ (main.spaceName b.space).isSome = true)) :
    main.spacesAlike new a b = .error .spaceNotDefined := by
  unfold spacesAlike
  obtain ⟨spaced, unknown⟩ := not_or.mp undefined
  rw [if_neg (by simpa using spaced)]
  cases found : new.spaceName a.space with
  | none =>
    rw [getRoutingSpaceName_none found]
    rfl
  | some theirs =>
    have missing : main.spaceName b.space = none := by
      cases found' : main.spaceName b.space with
      | none => rfl
      | some ours => exact absurd ⟨by rw [found]; rfl, by rw [found']; rfl⟩ unknown
    rw [getRoutingSpaceName_some found, getRoutingSpaceName_none missing]
    rfl

theorem attributeAlike_answers {b : Attribute} (named : attributeNamed c a.2.name = .ok b)
    (defined : main.AttributeDefined new c a) :
    Answers (main.attributeAlike new c a) (main.AttributeAlike new c a) := by
  obtain ⟨spaces, asked, meaning⟩ := spacesAlike_answers (defined b named)
  refine ⟨spaces && a.2.transport = b.transport && a.2.order = b.order, ?_, ?_⟩
  · simp only [attributeAlike, named, asked, bind, Except.bind, pure, Except.pure]
  · rw [Bool.and_eq_true, Bool.and_eq_true, meaning, decide_eq_true_iff, decide_eq_true_iff,
      and_assoc]
    constructor
    · intro same other named'
      rw [← Except.ok.inj (named.symm.trans named')]
      exact same
    · exact fun alike => alike b named

theorem attributeAlike_throws {b : Attribute} (named : attributeNamed c a.2.name = .ok b)
    (undefined : ¬ main.AttributeDefined new c a) :
    main.attributeAlike new c a = .error .spaceNotDefined := by
  have thrown : main.spacesAlike new a.2 b = .error .spaceNotDefined := by
    refine spacesAlike_throws fun defined => undefined fun other named' => ?_
    rw [← Except.ok.inj (named.symm.trans named')]
    exact defined
  simp only [attributeAlike, named, thrown, bind, Except.bind]

/-- An attribute name that the class has is found. -/
theorem attributeNamed_of_mem {n : String} (member : n ∈ c.members.map fun m => m.2.name) :
    ∃ b, attributeNamed c n = .ok b := by
  obtain ⟨m, listed, rfl⟩ := List.mem_map.mp member
  unfold attributeNamed
  cases found : c.members.find? (fun other => other.2.name = m.2.name) with
  | some other => exact ⟨_, rfl⟩
  | none =>
    have missing := List.find?_eq_none.mp found m listed
    exact absurd (decide_eq_true rfl) missing

theorem attributes_compare : Compares Attribute.name
    (fun existing c => Verdicts.all (main.attributeAlike new c) existing.members)
    (main.AttributesAlike new) (main.AttributesDefined new) := by
  have named : ∀ {existing c : ClassEntry Unit Attribute},
      (c.members.map fun m => m.2.name).Perm (existing.members.map fun m => m.2.name) →
        ∀ a ∈ existing.members, ∃ b, attributeNamed c a.2.name = .ok b :=
    fun perm a member => attributeNamed_of_mem (perm.symm.subset (List.mem_map_of_mem member))
  refine ⟨fun perm defined => ?_, @fun existing c perm accepted => ?_,
    @fun existing c perm thrown => ?_⟩
  · refine all_answers (upTo_mono (fun a member reads => ?_) defined)
    obtain ⟨b, found⟩ := named perm a member
    exact attributeAlike_answers found reads
  · have each := all_true.mp accepted
    have reads : ∀ a ∈ existing.members, main.AttributeDefined new c a := by
      intro a member
      obtain ⟨b, found⟩ := named perm a member
      by_contra undefined
      have asked := each a member
      rw [attributeAlike_throws found undefined] at asked
      cases asked
    refine ⟨fun a member => ?_, upTo_of_forall reads⟩
    obtain ⟨b, found⟩ := named perm a member
    obtain ⟨verdict, asked, meaning⟩ := attributeAlike_answers found (reads a member)
    exact meaning.mp (Except.ok.inj (asked.symm.trans (each a member)))
  · obtain ⟨a, member, asked⟩ := all_error thrown
    obtain ⟨b, found⟩ := named perm a member
    by_cases reads : main.AttributeDefined new c a
    · obtain ⟨verdict, answered, _⟩ := attributeAlike_answers found reads
      rw [answered] at asked
      cases asked
    · rw [attributeAlike_throws found reads] at asked
      cases asked

theorem parameters_compare : Compares (σ := Delivery) Parameter.name (fun _ _ => .ok true)
    (fun _ _ => True) (fun _ _ => True) := by
  refine ⟨fun _ _ => ⟨true, rfl, by simp⟩, fun _ _ => ⟨trivial, trivial⟩, fun _ thrown => ?_⟩
  cases thrown

/-! ## The check -/

/-- Up to the first class that is not found alike, the object classes before the interactions,
every class is read right. -/
structure ReadRightly (new main : RootObject) : Prop where
  objectClasses : ReadsRight Attribute.name (main.AttributesAlike new)
    (main.AttributesDefined new) (main.SameObjectClass new) main.objectClasses new.objectClasses
  interactions :
    (∀ c ∈ byName new.objectClasses, Passes Attribute.name (main.AttributesAlike new)
      main.objectClasses new.objectClasses c) →
    ReadsRight Parameter.name (fun _ _ => True) (fun _ _ => True) (main.SameInteraction new)
      main.interactions new.interactions

theorem canBeAddedTo_answers (soundMain : main.Sound) (soundNew : new.Sound)
    (reads : new.ReadRightly main) : Answers (new.canBeAddedTo main) (new.Compatible main) := by
  obtain ⟨⟨b, asked, passes⟩, agrees⟩ := askClasses_answers attributes_compare
    soundMain.objectClasses soundNew.objectClasses reads.objectClasses
  unfold canBeAddedTo objectClassAlike
  rw [asked]
  cases b with
  | false =>
    refine ⟨false, rfl, iff_of_false Bool.false_ne_true fun compatible => ?_⟩
    exact Bool.false_ne_true (passes.mpr (agrees.mpr compatible.objectClasses))
  | true =>
    have alike := passes.mp rfl
    obtain ⟨answers, agrees'⟩ := askClasses_answers parameters_compare soundMain.interactions
      soundNew.interactions (reads.interactions alike)
    refine answers.congr (agrees'.trans ?_)
    exact ⟨fun interactions => ⟨agrees.mp alike, interactions⟩, fun both => both.interactions⟩

theorem readRightly_of_accepted (soundMain : main.Sound) (soundNew : new.Sound)
    (compatible : new.Compatible main) (accepted : new.canBeAddedTo main = .ok true) :
    new.ReadRightly main := by
  unfold canBeAddedTo at accepted
  split at accepted
  · rename_i classes
    exact ⟨askClasses_accepted attributes_compare soundMain.objectClasses soundNew.objectClasses
      compatible.objectClasses classes,
      fun _ => askClasses_accepted parameters_compare soundMain.interactions
        soundNew.interactions compatible.interactions accepted⟩
  · rename_i refuses
    exact absurd accepted refuses

end RootObject

/-! ## Modules -/

/-- The root object of its own that a module is read into first. -/
def moduleRoot (doc : Document) : RootObject := final (parseModuleInto false doc {})

/-- The check returns, with the right verdict, and a module that passes changes nothing of what is
there when it is read. -/
structure ModuleChecked (docs : List Document) (doc : Document) : Prop where
  verdict : Answers ((moduleRoot doc).canBeAddedTo (built docs))
    ((moduleRoot doc).Compatible (built docs))
  kept : (moduleRoot doc).canBeAddedTo (built docs) = .ok true →
    (built docs).Extends (readInto (built docs) doc)

theorem moduleRoot_sound (doc : Document) : (moduleRoot doc).Sound := by
  have empty : RootObject.Sound {} := ⟨sound_nil, sound_nil, by simp⟩
  exact ((parseModuleInto_grown false doc).final empty.grownFrom).1

/-- A module that declares a class at the top, and one that declares it under the root class. -/
def topClass : Document := .xml [] [.objects (.subclass "Aircraft" () .done .done)]

def rootedClass : Document :=
  .xml [] [.objects (.subclass "HLAobjectRoot" () (.subclass "Aircraft" () .done .done) .done)]

end Certi.Modules
