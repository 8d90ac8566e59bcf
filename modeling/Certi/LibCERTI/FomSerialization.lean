import Certi.LibCERTI.FomGrowth

/-!
# Sending the FOM to a federate

`RootObject::convertToSerializedFOM` and `rebuildFromSerializedFOM`. RTIG sends
its whole FOM in the answer to a join and, in an `Additional_Fom_Module`
message, to the federates that are there already; the two messages have the
same content. A class is sent with its short name and with the members its
superclass does not have, and the receiver derives the rest again.
-/
namespace Certi.Modules

open Keyed Ascending Throwing

/-- `NM_FOM_Object_Class`, `NM_FOM_Interaction_Class`; a record nobody fills in is all zero. -/
structure ClassRecord (σ μ : Type) where
  handle : Nat := 0
  name : String := ""
  superClass : Nat := 0
  props : σ
  members : List (Nat × μ) := []
  deriving DecidableEq, Repr

/-- What `name.find(parent + ".") == 0` asks. -/
def startsWithClass (parent name : String) : Bool :=
  (parent ++ ".").toList.isPrefixOf name.toList

/-- The part of a name after the name of its parent and a dot. -/
def stripParent (parent name : String) : String :=
  if startsWithClass parent name then String.ofList (name.toList.drop (parent.toList.length + 1))
  else name

section Sets

variable {σ μ : Type}

def recordUnder (parent : Option (ClassEntry σ μ)) (c : ClassEntry σ μ) : ClassRecord σ μ where
  handle := c.handle
  name := parent.elim c.name fun p => stripParent p.name c.name
  superClass := c.superClass
  props := c.props
  members := parent.elim c.members fun p =>
    c.members.filter fun m => m.1 ∉ p.members.map Prod.fst

def toRecord (t : ClassSet σ μ) (c : ClassEntry σ μ) : Except RTIException (ClassRecord σ μ) :=
  if c.superClass = 0 then .ok (recordUnder none c)
  else (getObjectFromHandle t c.superClass).map fun p => recordUnder (some p) c

/-- As many records as there are names; those of the classes found under a handle are filled in,
in the order of the handles. -/
def toRecords (zero : σ) (t : ClassSet σ μ) : Except RTIException (List (ClassRecord σ μ)) := do
  let records ← (handled t).mapM (toRecord t)
  .ok (records ++ List.replicate (t.length - records.length) { props := zero })

/-- The superclass a record names: none, or the full name of the class under that handle. -/
def superClassOf (r : ClassRecord σ μ) : EStateM RTIException (ClassSet σ μ) (Option String) :=
  fun t =>
    if r.superClass = 0 then .ok none t
    else
      match getObjectFromHandle t r.superClass with
      | .ok p => .ok (some p.name) t
      | .error e => .error e t

def addRecord (r : ClassRecord σ μ) : EStateM RTIException (ClassSet σ μ) Unit := do
  let parent ← superClassOf r
  let c ← addClass r.name r.handle r.props parent
  r.members.forM fun m => addMember c m.1 m.2

/-- How an additional module is taken: a class that is there already is left alone. -/
def addRecordIfNew (r : ClassRecord σ μ) : EStateM RTIException (ClassSet σ μ) Unit := fun t =>
  match getObjectFromHandle t r.handle with
  | .ok _ => .ok () t
  | .error _ => addRecord r t

end Sets

structure SerializedFom where
  spaces : List RoutingSpace
  objectClasses : List (ClassRecord Unit Attribute)
  interactionClasses : List (ClassRecord Delivery Parameter)
  deriving DecidableEq, Repr

namespace RootObject

def convertToSerializedFOM (root : RootObject) : Except RTIException SerializedFom := do
  let objectClasses ← toRecords () root.objectClasses
  let interactionClasses ← toRecords {} root.interactions
  .ok ⟨root.spaces, objectClasses, interactionClasses⟩

def onObjectClasses : EStateM RTIException (ClassSet Unit Attribute) Unit →
    EStateM RTIException RootObject Unit :=
  zoom objectClasses fun t root => { root with objectClasses := t }

def onInteractions : EStateM RTIException (ClassSet Delivery Parameter) Unit →
    EStateM RTIException RootObject Unit :=
  zoom interactions fun t root => { root with interactions := t }

/-- `rebuildFromSerializedFOM(NM_Join_Federation_Execution)` -/
def rebuildFromSerializedFOM (m : SerializedFom) : EStateM RTIException RootObject Unit := do
  modify fun root => m.spaces.foldl (fun root rs => root.addRoutingSpace rs) root
  onObjectClasses (m.objectClasses.forM addRecord)
  onInteractions (m.interactionClasses.forM addRecord)

def addRoutingSpaceIfNew (root : RootObject) (rs : RoutingSpace) : RootObject :=
  match root.getRoutingSpaceHandle rs.name with
  | .ok _ => root
  | .error _ => root.addRoutingSpace rs

/-- `rebuildFromSerializedFOM(NM_Additional_Fom_Module)` -/
def addSerializedFOM (m : SerializedFom) : EStateM RTIException RootObject Unit := do
  modify fun root => m.spaces.foldl addRoutingSpaceIfNew root
  onObjectClasses (m.objectClasses.forM addRecordIfNew)
  onInteractions (m.interactionClasses.forM addRecordIfNew)

end RootObject

/-! ## Names that come back -/

theorem startsWithClass_iff {parent name : String} :
    startsWithClass parent name = true ↔ (parent ++ ".").toList <+: name.toList :=
  List.isPrefixOf_iff_prefix

theorem stripParent_append (parent short : String) :
    stripParent parent (parent ++ "." ++ short) = short := by
  have starts : startsWithClass parent (parent ++ "." ++ short) = true := by
    rw [startsWithClass_iff, String.toList_append (s := parent ++ ".")]
    exact List.prefix_append _ _
  have dropped : (parent ++ "." ++ short).toList.drop (parent.toList.length + 1) = short.toList := by
    have length : parent.toList.length + 1 = (parent ++ ".").toList.length := by
      rw [String.toList_append, List.length_append]
      rfl
    rw [length, String.toList_append (s := parent ++ "."), List.drop_left]
  unfold stripParent
  rw [if_pos starts, dropped, String.ofList_toList]

/-- A name survives being sent short unless its own short name looks like a full one. -/
theorem restored_iff {parent short name : String} (full : name = hierarchicalName parent short) :
    hierarchicalName parent (stripParent parent name) = name ↔
      ¬(isRootName parent = true ∧ startsWithClass parent name = true) := by
  by_cases root : isRootName parent
  · have same : ∀ n, hierarchicalName parent n = n := by
      intro n
      simp [hierarchicalName, root]
    rw [same]
    unfold stripParent
    by_cases starts : startsWithClass parent name
    · simp only [starts, root, and_self, not_true, iff_false, if_true]
      -- something is cut off, so what is left is shorter
      intro equal
      have long := (startsWithClass_iff.mp starts).length_le
      have short' := congrArg (fun n => n.toList.length) equal
      simp only [String.toList_ofList, List.length_drop] at short'
      rw [String.toList_append, List.length_append] at long
      have dot : (".".toList).length = 1 := rfl
      omega
    · simp [starts]
  · have joined : ∀ n, hierarchicalName parent n = parent ++ "." ++ n := by
      intro n
      simp [hierarchicalName, root]
    rw [joined] at full ⊢
    rw [full, stripParent_append]
    simp [root]

/-! ## What adding a record does -/

section Sets

variable {σ μ : Type}

/-- What a receiver's tree always satisfies: names are distinct, and a class registers subclasses
only under names the tree has. -/
structure Tidy (t : ClassSet σ μ) : Prop where
  names : (t.map ClassEntry.name).Nodup
  registered : ∀ p ∈ t, ∀ n ∈ p.subClasses, n ∈ t.map ClassEntry.name

theorem tidy_nil : Tidy ([] : ClassSet σ μ) :=
  ⟨List.nodup_nil, fun _ member => absurd member List.not_mem_nil⟩

theorem tidy_registering {t : ClassSet σ μ} (tidy : Tidy t) (found : Option (ClassEntry σ μ))
    {child : ClassEntry σ μ} (absent : child.name ∉ t.map ClassEntry.name)
    (fresh : child.subClasses = []) : Tidy (child :: registering found child t) := by
  have names : (registering found child t).map ClassEntry.name = t.map ClassEntry.name := by
    rw [← names_views, views_registering', names_views]
  refine ⟨?_, ?_⟩
  · rw [List.map_cons, names]
    exact List.nodup_cons.mpr ⟨absent, tidy.names⟩
  · intro p member n inside
    rw [List.map_cons, names]
    rcases List.mem_cons.mp member with rfl | before
    · rw [fresh] at inside
      exact absurd inside List.not_mem_nil
    · cases found with
      | none => exact List.mem_cons_of_mem _ (tidy.registered p before n inside)
      | some q =>
        rcases mem_adjust.mp before with ⟨kept, _⟩ | ⟨p', kept, _, rfl⟩
        · exact List.mem_cons_of_mem _ (tidy.registered p kept n inside)
        · rcases List.mem_cons.mp inside with rfl | older
          · exact List.mem_cons_self
          · exact List.mem_cons_of_mem _ (tidy.registered p' kept n older)

def withMembers (ms : List (Nat × μ)) (c : ClassEntry σ μ) : ClassEntry σ μ :=
  ms.foldl (fun c m => withMember m.1 m.2 c) c

theorem withMembers_frame (ms : List (Nat × μ)) (c : ClassEntry σ μ) :
    (withMembers ms c).name = c.name ∧ (withMembers ms c).handle = c.handle ∧
      (withMembers ms c).superClass = c.superClass ∧
      (withMembers ms c).subClasses = c.subClasses ∧ (withMembers ms c).props = c.props := by
  induction ms generalizing c with
  | nil => exact ⟨rfl, rfl, rfl, rfl, rfl⟩
  | cons m rest ih => exact ih (withMember m.1 m.2 c)

theorem view_withMembers (ms : List (Nat × μ)) (c : ClassEntry σ μ) :
    view (withMembers ms c) = withMembers ms (view c) := by
  induction ms generalizing c with
  | nil => rfl
  | cons m rest ih => exact ih (withMember m.1 m.2 c)

/-- The handles of the members are new to the class and to each other. -/
def FreshMembers (ms : List (Nat × μ)) (c : ClassEntry σ μ) : Prop :=
  (ms.map Prod.fst).Nodup ∧ ∀ m ∈ ms, m.1 ∉ c.members.map Prod.fst

theorem mem_withMember {h : Nat} {m : μ} {c : ClassEntry σ μ}
    (ascends : Ascends Prod.fst c.members) (fresh : h ∉ c.members.map Prod.fst) (x : Nat × μ) :
    x ∈ (withMember h m c).members ↔ x = (h, m) ∨ x ∈ c.members := by
  unfold withMember
  rw [mem_store ascends]
  constructor
  · rintro (rfl | ⟨inside, _⟩)
    · exact .inl rfl
    · exact .inr inside
  · rintro (rfl | inside)
    · exact .inl rfl
    · refine .inr ⟨inside, ?_⟩
      intro same
      exact fresh (List.mem_map.mpr ⟨x, inside, same⟩)

theorem FreshMembers.tail {m : Nat × μ} {rest : List (Nat × μ)} {c : ClassEntry σ μ}
    (ascends : Ascends Prod.fst c.members) (fresh : FreshMembers (m :: rest) c) :
    FreshMembers rest (withMember m.1 m.2 c) := by
  obtain ⟨distinct, apart⟩ := fresh
  rw [List.map_cons, List.nodup_cons] at distinct
  refine ⟨distinct.2, ?_⟩
  intro x later inside
  obtain ⟨y, member, same⟩ := List.mem_map.mp inside
  rcases (mem_withMember ascends (apart m List.mem_cons_self) y).mp member with rfl | before
  · exact distinct.1 (List.mem_map.mpr ⟨x, later, same.symm⟩)
  · exact apart x (List.mem_cons_of_mem _ later) (List.mem_map.mpr ⟨y, before, same⟩)

theorem withMembers_spec {ms : List (Nat × μ)} {c : ClassEntry σ μ}
    (ascends : Ascends Prod.fst c.members) (fresh : FreshMembers ms c) :
    Ascends Prod.fst (withMembers ms c).members ∧
      ∀ x, x ∈ (withMembers ms c).members ↔ x ∈ ms ∨ x ∈ c.members := by
  induction ms generalizing c with
  | nil => exact ⟨ascends, fun x => by simp [withMembers]⟩
  | cons m rest ih =>
    obtain ⟨sorted, members⟩ := ih (c := withMember m.1 m.2 c) (ascends_store ascends)
      (fresh.tail ascends)
    refine ⟨sorted, ?_⟩
    intro x
    have here := mem_withMember (m := m.2) ascends (fresh.2 m List.mem_cons_self) x
    rw [show withMembers (m :: rest) c = withMembers rest (withMember m.1 m.2 c) from rfl,
      members x, here, List.mem_cons]
    tauto

/-- Adding members to the newest class of a tree succeeds exactly when they are fresh. -/
theorem addMembers_iff {ms : List (Nat × μ)} {c : ClassEntry σ μ} {rest t' : ClassSet σ μ}
    (ascends : Ascends Prod.fst c.members) (absent : c.name ∉ rest.map ClassEntry.name) :
    (ms.forM fun m => addMember c.name m.1 m.2) (c :: rest) = .ok () t' ↔
      FreshMembers ms c ∧ t' = withMembers ms c :: rest := by
  induction ms generalizing c with
  | nil =>
    constructor
    · intro run
      cases run
      exact ⟨⟨List.nodup_nil, by simp⟩, rfl⟩
    · rintro ⟨_, rfl⟩
      rfl
  | cons m ms ih =>
    have later : ∀ d ∈ rest, d.name ≠ c.name := by
      rintro d member same
      exact absent (List.mem_map.mpr ⟨d, member, same⟩)
    have one : addMember c.name m.1 m.2 (c :: rest) =
        if m.1 ∈ c.members.map Prod.fst then .error .rtiInternalError (c :: rest)
        else .ok () (withMember m.1 m.2 c :: rest) := by
      have first : named (c :: rest) c.name = some c := by simp [named, lookup]
      have head : adjust ClassEntry.name c.name (withMember m.1 m.2) (c :: rest) =
          withMember m.1 m.2 c :: rest := by
        have tail := adjust_of_absent (f := withMember (σ := σ) m.1 m.2) later
        unfold adjust at tail ⊢
        rw [List.map_cons, tail, if_pos rfl]
      unfold addMember
      rw [first, head]
    rw [forM_cons_ok, one]
    by_cases known : m.1 ∈ c.members.map Prod.fst
    · rw [if_pos known]
      constructor
      · rintro ⟨t, refused, _⟩
        cases refused
      · rintro ⟨fresh, _⟩
        exact absurd known (fresh.2 m List.mem_cons_self)
    · rw [if_neg known]
      have next := ih (c := withMember m.1 m.2 c) (ascends_store ascends) absent
      constructor
      · rintro ⟨t, added, run⟩
        cases added
        obtain ⟨⟨distinct, apart⟩, rfl⟩ := next.mp run
        refine ⟨⟨?_, ?_⟩, rfl⟩
        · rw [List.map_cons, List.nodup_cons]
          refine ⟨?_, distinct⟩
          intro inside
          obtain ⟨x, member, same⟩ := List.mem_map.mp inside
          apply apart x member
          refine List.mem_map.mpr ⟨(m.1, m.2), ?_, same.symm⟩
          exact (mem_withMember ascends known _).mpr (.inl rfl)
        · intro x member inside
          rcases List.mem_cons.mp member with rfl | after
          · exact known inside
          · obtain ⟨y, before, same⟩ := List.mem_map.mp inside
            apply apart x after
            exact List.mem_map.mpr ⟨y, (mem_withMember ascends known y).mpr (.inr before), same⟩
      · rintro ⟨fresh, rfl⟩
        exact ⟨_, rfl, next.mpr ⟨fresh.tail ascends, rfl⟩⟩

/-- The class under which the record's class comes to stand in `t`. -/
inductive Adopts (t : ClassSet σ μ) (r : ClassRecord σ μ) : Option (ClassEntry σ μ) → Prop
  | top (noSuper : r.superClass = 0) : Adopts t r none
  | under (p : ClassEntry σ μ) (hasSuper : r.superClass ≠ 0)
      (found : atHandle t r.superClass = some p) : Adopts t r (some p)

/-- The class a record makes under its superclass. -/
def recordEntry (parent : Option (ClassEntry σ μ)) (r : ClassRecord σ μ) : ClassEntry σ μ :=
  withMembers r.members (childOf parent r.name r.handle r.props)

theorem recordEntry_handle (parent : Option (ClassEntry σ μ)) (r : ClassRecord σ μ) :
    (recordEntry parent r).handle = r.handle :=
  (withMembers_frame _ _).2.1.trans (childOf_handle _ _ _ _)

theorem recordEntry_name (parent : Option (ClassEntry σ μ)) (r : ClassRecord σ μ) :
    (recordEntry parent r).name = (childOf parent r.name r.handle r.props).name :=
  (withMembers_frame _ _).1

theorem view_recordEntry (parent : Option (ClassEntry σ μ)) (r : ClassRecord σ μ) :
    view (recordEntry parent r) = recordEntry parent r := by
  unfold recordEntry
  rw [view_withMembers, view_childOf]

structure AddedUnder (t t' : ClassSet σ μ) (r : ClassRecord σ μ)
    (parent : Option (ClassEntry σ μ)) : Prop where
  adopts : Adopts t r parent
  absent : (recordEntry parent r).name ∉ t.map ClassEntry.name
  fresh : FreshMembers r.members (childOf parent r.name r.handle r.props)
  tree : t' = recordEntry parent r ::
    registering parent (childOf parent r.name r.handle r.props) t

theorem superClassOf_adopts {t : ClassSet σ μ} (tidy : Tidy t) {r : ClassRecord σ μ}
    {parent : Option (ClassEntry σ μ)} (adopts : Adopts t r parent) :
    ∃ n, superClassOf r t = .ok n t ∧ n.bind (named t) = parent := by
  unfold superClassOf
  cases adopts with
  | top noSuper => exact ⟨none, by rw [if_pos noSuper], rfl⟩
  | under p hasSuper found =>
    refine ⟨some p.name, ?_, ?_⟩
    · rw [if_neg hasSuper]
      unfold getObjectFromHandle
      rw [found]
    · exact lookup_of_nodup tidy.names (lookup_mem found)

theorem superClassOf_ok {t t' : ClassSet σ μ} {r : ClassRecord σ μ} {n : Option String}
    (tidy : Tidy t) (found : superClassOf r t = .ok n t') :
    t' = t ∧ ∃ parent, Adopts t r parent ∧ n.bind (named t) = parent := by
  unfold superClassOf at found
  split at found
  · rename_i noSuper
    cases found
    exact ⟨rfl, none, .top noSuper, rfl⟩
  · rename_i hasSuper
    unfold getObjectFromHandle at found
    cases looked : atHandle t r.superClass with
    | none =>
      rw [looked] at found
      cases found
    | some p =>
      rw [looked] at found
      cases found
      exact ⟨rfl, some p, .under p hasSuper looked, lookup_of_nodup tidy.names (lookup_mem looked)⟩

/-- Members of every class in the order of their handles. -/
def Ordered (t : ClassSet σ μ) : Prop := ∀ c ∈ t, Ascends Prod.fst c.members

theorem Adopts.ascends {t : ClassSet σ μ} (ordered : Ordered t) {r : ClassRecord σ μ}
    {parent : Option (ClassEntry σ μ)} (adopts : Adopts t r parent) :
    Ascends Prod.fst (childOf parent r.name r.handle r.props).members := by
  cases adopts with
  | top _ => exact List.Pairwise.nil
  | under p _ found => exact ordered p (lookup_mem found)

theorem childOf_subClasses (parent : Option (ClassEntry σ μ)) (name : String) (h : Nat)
    (props : σ) : (childOf parent name h props).subClasses = [] := by
  cases parent <;> rfl

theorem addRecord_ok {t t' : ClassSet σ μ} {r : ClassRecord σ μ} (tidy : Tidy t)
    (ordered : Ordered t) (added : addRecord r t = .ok () t') :
    ∃ parent, AddedUnder t t' r parent := by
  simp only [addRecord, bind, EStateM.bind] at added
  cases looked : superClassOf r t with
  | error e t1 =>
    rw [looked] at added
    cases added
  | ok n t1 =>
    rw [looked] at added
    obtain ⟨rfl, parent, adopts, found⟩ := superClassOf_ok tidy looked
    simp only at added
    cases entered : addClass r.name r.handle r.props n t1 with
    | error e t2 =>
      rw [entered] at added
      cases added
    | ok c t2 =>
      rw [entered] at added
      obtain ⟨rfl, absent, _, rfl⟩ := addClass_ok entered
      rw [found] at absent added
      have below : (childOf parent r.name r.handle r.props).name ∉
          (registering parent (childOf parent r.name r.handle r.props) t1).map
            ClassEntry.name := by
        rw [← names_views, views_registering', names_views]
        exact absent
      obtain ⟨fresh, rfl⟩ := (addMembers_iff (adopts.ascends ordered) below).mp added
      exact ⟨parent, adopts, by rwa [recordEntry_name], fresh, rfl⟩

theorem addRecord_new {t : ClassSet σ μ} {r : ClassRecord σ μ} (tidy : Tidy t)
    (ordered : Ordered t) {parent : Option (ClassEntry σ μ)} (adopts : Adopts t r parent)
    (absent : (recordEntry parent r).name ∉ t.map ClassEntry.name)
    (fresh : FreshMembers r.members (childOf parent r.name r.handle r.props)) :
    ∃ t', addRecord r t = .ok () t' := by
  obtain ⟨n, looked, rfl⟩ := superClassOf_adopts tidy adopts
  rw [recordEntry_name] at absent
  have entered := addClass_new absent tidy.registered
  have below : (childOf (n.bind (named t)) r.name r.handle r.props).name ∉
      (registering (n.bind (named t)) (childOf (n.bind (named t)) r.name r.handle r.props) t).map
        ClassEntry.name := by
    rw [← names_views, views_registering', names_views]
    exact absent
  have members := (addMembers_iff (adopts.ascends ordered) below).mpr ⟨fresh, rfl⟩
  refine ⟨_, Eq.trans ?_ members⟩
  simp only [addRecord, bind, EStateM.bind, looked]
  rw [entered]

variable {t t' : ClassSet σ μ} {r : ClassRecord σ μ} {parent : Option (ClassEntry σ μ)}

theorem AddedUnder.views_eq (added : AddedUnder t t' r parent) :
    views t' = recordEntry parent r :: views t := by
  rw [added.tree, views, List.map_cons, view_recordEntry]
  exact congrArg _ (views_registering' _ _ t)

theorem AddedUnder.tidy (added : AddedUnder t t' r parent) (tidy : Tidy t) : Tidy t' := by
  have absent : (childOf parent r.name r.handle r.props).name ∉ t.map ClassEntry.name := by
    rw [← recordEntry_name]
    exact added.absent
  have base := tidy_registering tidy parent absent (childOf_subClasses _ _ _ _)
  obtain ⟨name, _, _, subClasses, _⟩ := withMembers_frame r.members
    (childOf parent r.name r.handle r.props)
  rw [added.tree]
  refine ⟨?_, ?_⟩
  · rw [List.map_cons, recordEntry_name, ← List.map_cons]
    exact base.names
  · intro p member n inside
    rw [List.map_cons, recordEntry_name, ← List.map_cons]
    rcases List.mem_cons.mp member with rfl | before
    · unfold recordEntry at inside
      rw [subClasses] at inside
      exact base.registered _ List.mem_cons_self n inside
    · exact base.registered p (List.mem_cons_of_mem _ before) n inside

theorem AddedUnder.ordered (added : AddedUnder t t' r parent) (ordered : Ordered t) :
    Ordered t' := by
  have inViews : ∀ v ∈ views t', Ascends Prod.fst v.members := by
    rw [added.views_eq]
    intro v member
    rcases List.mem_cons.mp member with rfl | before
    · exact (withMembers_spec (added.adopts.ascends ordered) added.fresh).1
    · obtain ⟨c, inside, rfl⟩ := List.mem_map.mp before
      exact ordered c inside
  intro c member
  exact inViews (view c) (List.mem_map_of_mem member)

end Sets

end Certi.Modules
