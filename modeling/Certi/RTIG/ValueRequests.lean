import Certi.Lib.Collect
import Certi.Lib.Gather
import Certi.LibCERTI.ClassBroadcast
import Certi.RTIG.OwnershipRuns

/-!
# Requests for attribute values

`Federation::requestObjectOwner` and `requestClassAttributeValueUpdate`. The
attributes of a request are gathered by owner, and every owner is sent a
Provide_Attribute_Value_Update; the MOM is asked directly, and what it does then
is an update of its own, which is not followed here.
-/
namespace Certi

open Keyed Gather

/-- What a request leads to: a message on the link of an owner, or a call of the MOM. -/
inductive OwnerRequest where
  | provideAttributeValueUpdate (owner sender : FederateHandle) (object : ObjectHandle)
      (attributes : List AttributeHandle)
  | askMom (object : ObjectHandle) (attributes : List AttributeHandle)
  deriving DecidableEq

/-- `setAttributes`: the element of an array that was sized before. -/
def setAttributes (listed : List AttributeHandle) (h : AttributeHandle) (rank : Nat) :
    Except Stop (List AttributeHandle) :=
  if rank < listed.length then .ok (listed.set rank h) else .error .outOfBounds

/-- The loop that copies the attributes: the index is incremented before it is used. -/
def copyAttributes (i : Nat) (listed : List AttributeHandle) :
    List AttributeHandle → Except Stop (List AttributeHandle)
  | [] => .ok listed
  | h :: rest => do copyAttributes (i + 1) (← setAttributes listed h (i + 1)) rest

namespace Object

/-- The owner of an attribute that the instance has. -/
def holderOf (o : Object) (h : AttributeHandle) : Option FederateHandle :=
  (o.attribute? h).map ObjectAttribute.owner

/-- A round of the first loop: only attributes owned by someone are asked for. -/
def noteOwner (o : Object) (owners : List (FederateHandle × List AttributeHandle))
    (h : AttributeHandle) : Except RTIException (List (FederateHandle × List AttributeHandle)) := do
  let oa ← o.getAttribute h
  return if oa.owner ≠ 0 then push (oa.owner, h) owners else owners

end Object

namespace RootObject

variable (root : RootObject) (sender : FederateHandle)

/-- What one owner is sent. -/
def requestFrom (object : ObjectHandle) (p : FederateHandle × List AttributeHandle) :
    Except Stop OwnerRequest :=
  if root.server.momHandle = some p.1 then return .askMom object p.2
  else do
    let listed ← copyAttributes 0 (List.replicate p.2.length 0) p.2
    if !root.server.hasReferences p.1 then throw (.thrown .federateNotExecutionMember)
    return .provideAttributeValueUpdate p.1 sender object listed

/-- `requestObjectOwner` answers with the owner of the instance. -/
def requestObjectOwner (object : ObjectHandle) (attributes : List AttributeHandle) :
    Except Stop (FederateHandle × List OwnerRequest) := do
  let o ← Stop.lift (root.getObject object)
  let owners ← Stop.lift (attributes.foldlM o.noteOwner [])
  let requests ← owners.mapM (root.requestFrom sender object)
  return (o.owner, requests)

/-- The handles of the instances of a class. -/
def instancesOf (classHandle : ObjectClassHandle) : List ObjectHandle :=
  (root.objects.filter fun o => o.classHandle = classHandle).map Object.handle

def requestClassAttributeValueUpdate (classHandle : ObjectClassHandle)
    (attributes : List AttributeHandle) : Except Stop (List OwnerRequest) := do
  let _ ← Stop.lift (root.getObjectFromHandle classHandle)
  let parts ← (root.instancesOf classHandle).mapM fun h =>
    root.requestObjectOwner sender h attributes
  return (parts.map Prod.snd).flatten

end RootObject

/-! ## The message arrays -/

/-- The last attribute is written behind the array. -/
theorem copyAttributes_outside (attributes : List AttributeHandle) :
    ∀ (i : Nat) (listed : List AttributeHandle), attributes ≠ [] →
      listed.length = i + attributes.length →
        copyAttributes i listed attributes = .error .outOfBounds := by
  induction attributes with
  | nil => exact fun _ _ filled _ => absurd rfl filled
  | cons h rest ih =>
    intro i listed _ sized
    rw [List.length_cons] at sized
    cases rest with
    | nil =>
      have outside : ¬i + 1 < listed.length := by simp at sized; omega
      simp [copyAttributes, setAttributes, outside, bind, Except.bind]
    | cons second others =>
      have inside : i + 1 < listed.length := by simp at sized; omega
      have later := ih (i + 1) (listed.set (i + 1) h) (by simp)
        (by rw [List.length_set, sized]; omega)
      simpa [copyAttributes, setAttributes, inside, bind, Except.bind] using later

namespace Object

variable {o : Object}

/-- The attributes of the list that somebody owns, with their owners. -/
def owned (o : Object) (attributes : List AttributeHandle) :
    List (FederateHandle × AttributeHandle) :=
  attributes.filterMap fun h =>
    (o.holderOf h).bind fun owner => if owner ≠ 0 then some (owner, h) else none

/-- Every attribute of the list is one of the instance's. -/
def defines (o : Object) (attributes : List AttributeHandle) : Bool :=
  attributes.all fun h => (o.attribute? h).isSome

/-- The first loop gathers the attributes by owner, unless one is not defined. -/
theorem noteOwner_holds (attributes : List AttributeHandle)
    (defined : o.defines attributes = true) :
    ∀ {pairs : List (FederateHandle × AttributeHandle)}
      {owners : List (FederateHandle × List AttributeHandle)}, Holds pairs owners →
        ∃ gathered, attributes.foldlM o.noteOwner owners = .ok gathered ∧
          Holds (pairs ++ o.owned attributes) gathered := by
  induction attributes with
  | nil =>
    intro pairs owners holds
    exact ⟨owners, rfl, by simpa [owned] using holds⟩
  | cons h rest ih =>
    intro pairs owners holds
    obtain ⟨here, others⟩ := Bool.and_eq_true_iff.mp defined
    obtain ⟨oa, found⟩ := Option.isSome_iff_exists.mp here
    have later := @ih others
    by_cases nobody : oa.owner = 0
    · have noted : o.noteOwner owners h = .ok owners := by
        simp [noteOwner, getAttribute, found, nobody, bind, Except.bind, pure, Except.pure]
      obtain ⟨gathered, all, held⟩ := later holds
      refine ⟨gathered, ?_, ?_⟩
      · rw [List.foldlM_cons, noted]
        exact all
      · simpa [owned, holderOf, found, nobody] using held
    · have noted : o.noteOwner owners h = .ok (push (oa.owner, h) owners) := by
        simp [noteOwner, getAttribute, found, nobody, bind, Except.bind, pure, Except.pure]
      obtain ⟨gathered, all, held⟩ := later (holds.push (oa.owner, h))
      refine ⟨gathered, ?_, ?_⟩
      · rw [List.foldlM_cons, noted]
        exact all
      · simpa [owned, holderOf, found, nobody] using held

theorem noteOwner_undefined (attributes : List AttributeHandle)
    (lacks : o.defines attributes = false) :
    ∀ owners, attributes.foldlM o.noteOwner owners = .error .attributeNotDefined := by
  induction attributes with
  | nil => cases lacks
  | cons h rest ih =>
    intro owners
    rw [List.foldlM_cons]
    cases found : o.attribute? h with
    | none => simp [noteOwner, getAttribute, found, bind, Except.bind]
    | some oa =>
      have later := ih (by simpa [defines, found] using lacks)
      obtain ⟨next, noted⟩ : ∃ next, o.noteOwner owners h = .ok next := by
        simp [noteOwner, getAttribute, found, bind, Except.bind, pure, Except.pure]
      rw [noted]
      exact later next

/-- The attributes of one owner are those of the list that it owns. -/
theorem values_owned {owner : FederateHandle} (somebody : owner ≠ 0)
    (attributes : List AttributeHandle) : Regroup.values owner (o.owned attributes) =
      attributes.filter fun h => o.holderOf h = some owner := by
  induction attributes with
  | nil => rfl
  | cons h rest ih =>
    cases located : o.holderOf h with
    | none => simpa [owned, located] using ih
    | some other =>
      by_cases nobody : other = 0
      · have different : other ≠ owner := fun same => somebody (same ▸ nobody)
        simpa [owned, located, nobody, different, Ne.symm somebody] using ih
      · have first : o.owned (h :: rest) = (other, h) :: o.owned rest := by
          simp [owned, located, nobody]
        rw [first, Regroup.values_cons, ih]
        by_cases same : other = owner <;> simp [located, same]

/-! ## What is promised -/

/-- The attributes of an owner in a request. -/
structure AttributesOf (o : Object) (attributes : List AttributeHandle) (owner : FederateHandle)
    (listed : List AttributeHandle) : Prop where
  once : listed.Nodup
  ordered : listed.Sublist attributes
  exactly : ∀ h, h ∈ listed ↔ h ∈ attributes ∧ o.holderOf h = some owner

/-- One list for each owner of a listed attribute. -/
structure Parts (o : Object) (attributes : List AttributeHandle)
    (parts : List (FederateHandle × List AttributeHandle)) : Prop where
  distinct : (parts.map Prod.fst).Nodup
  owners : ∀ owner, owner ∈ parts.map Prod.fst ↔
    owner ≠ 0 ∧ ∃ h ∈ attributes, o.holderOf h = some owner
  each : ∀ p ∈ parts, o.AttributesOf attributes p.1 p.2

/-- Every listed attribute that has an owner is the MOM's. -/
def noneForeign (o : Object) (momHandle : Option FederateHandle)
    (attributes : List AttributeHandle) : Bool :=
  attributes.all fun h => (o.holderOf h).all fun owner => owner = 0 || momHandle = some owner

/-- The listed attributes that have an owner are listed once. -/
def ownedOnce (o : Object) (attributes : List AttributeHandle) : Bool :=
  (attributes.filter fun h => (o.holderOf h).any fun owner => owner ≠ 0).Nodup

/-- An attribute has one owner, so that what is listed twice is listed twice for its owner. -/
theorem ownedOnce_iff {attributes : List AttributeHandle} : o.ownedOnce attributes = true ↔
    ∀ owner, owner ≠ 0 → (attributes.filter fun h => o.holderOf h = some owner).Nodup := by
  unfold ownedOnce
  rw [decide_eq_true_eq]
  constructor
  · intro once owner somebody
    refine once.sublist (List.monotone_filter_right attributes fun h => ?_)
    intro mine
    rw [decide_eq_true_eq] at mine
    simpa [mine] using somebody
  · intro each
    rw [List.nodup_iff_count_le_one]
    intro h
    by_cases owned : (o.holderOf h).any (fun owner => owner ≠ 0) = true
    · obtain ⟨owner, located, somebody⟩ : ∃ owner, o.holderOf h = some owner ∧ owner ≠ 0 := by
        cases located : o.holderOf h with
        | none => simp [located] at owned
        | some owner => exact ⟨owner, rfl, by simpa [located] using owned⟩
      have single := List.nodup_iff_count_le_one.mp (each owner somebody) h
      rw [List.count_filter (by simpa using located)] at single
      exact le_trans (List.filter_sublist.count_le h) single
    · have absent : h ∉ attributes.filter fun h => (o.holderOf h).any fun owner => owner ≠ 0 :=
        fun member => owned (List.mem_filter.mp member).2
      rw [List.count_eq_zero.mpr absent]
      exact Nat.zero_le 1

/-- Nobody who owns nothing is gathered. -/
theorem gathered_somebody {attributes : List AttributeHandle}
    {gathered : List (FederateHandle × List AttributeHandle)}
    (holds : Holds (o.owned attributes) gathered) : ∀ p ∈ gathered, p.1 ≠ 0 := by
  rintro ⟨owner, listed⟩ member rfl
  obtain ⟨values, filled⟩ := (holds.vectors 0 listed).mp member
  refine filled (values.trans ?_)
  simp only [Regroup.values, owned, List.map_eq_nil_iff, List.filter_eq_nil_iff]
  rintro ⟨owner, h⟩ pair
  obtain ⟨k, _, found⟩ := List.mem_filterMap.mp pair
  obtain ⟨owner', _, kept⟩ := Option.bind_eq_some_iff.mp found
  split at kept
  · cases kept
    simpa
  · cases kept

theorem gathered_list {attributes : List AttributeHandle}
    {gathered : List (FederateHandle × List AttributeHandle)}
    (holds : Holds (o.owned attributes) gathered) :
    ∀ p ∈ gathered, p.2 = attributes.filter fun h => o.holderOf h = some p.1 := by
  intro p member
  rw [← values_owned (gathered_somebody holds p member)]
  exact ((holds.vectors p.1 p.2).mp member).1

theorem gathered_entry {attributes : List AttributeHandle}
    {gathered : List (FederateHandle × List AttributeHandle)}
    (holds : Holds (o.owned attributes) gathered) {owner : FederateHandle} (nonzero : owner ≠ 0)
    (filled : (attributes.filter fun h => o.holderOf h = some owner) ≠ []) :
    (owner, attributes.filter fun h => o.holderOf h = some owner) ∈ gathered :=
  (holds.vectors owner _).mpr ⟨(values_owned nonzero attributes).symm, filled⟩

theorem gathered_owners {attributes : List AttributeHandle}
    {gathered : List (FederateHandle × List AttributeHandle)}
    (holds : Holds (o.owned attributes) gathered) (owner : FederateHandle) :
    owner ∈ gathered.map Prod.fst ↔ owner ≠ 0 ∧ ∃ h ∈ attributes, o.holderOf h = some owner := by
  constructor
  · intro member
    obtain ⟨p, belongs, rfl⟩ := List.mem_map.mp member
    refine ⟨gathered_somebody holds p belongs, ?_⟩
    obtain ⟨h, listed⟩ := List.exists_mem_of_ne_nil _ ((holds.vectors p.1 p.2).mp belongs).2
    rw [gathered_list holds p belongs] at listed
    obtain ⟨requested, mine⟩ := List.mem_filter.mp listed
    exact ⟨h, requested, by simpa using mine⟩
  · rintro ⟨nonzero, h, requested, mine⟩
    have member : h ∈ attributes.filter fun h => o.holderOf h = some owner :=
      List.mem_filter.mpr ⟨requested, by simpa using mine⟩
    exact List.mem_map_of_mem (f := Prod.fst)
      (gathered_entry holds nonzero (List.ne_nil_of_mem member))

/-- What the first loop gathers is right when nothing is listed twice. -/
theorem parts_of_holds {attributes : List AttributeHandle}
    {gathered : List (FederateHandle × List AttributeHandle)}
    (holds : Holds (o.owned attributes) gathered) (once : o.ownedOnce attributes = true) :
    o.Parts attributes gathered := by
  refine ⟨holds.ascends.nodup_keys, gathered_owners holds, fun p member => ?_⟩
  rw [gathered_list holds p member]
  refine ⟨ownedOnce_iff.mp once p.1 (gathered_somebody holds p member), List.filter_sublist,
    fun h => ?_⟩
  simp [List.mem_filter]

end Object

namespace RootObject

variable {root : RootObject} {sender : FederateHandle} {object : ObjectHandle} {o : Object}
  {attributes : List AttributeHandle}

/-- What an owner is to be sent: the MOM is asked directly. -/
def requestTo (root : RootObject) (sender : FederateHandle) (object : ObjectHandle)
    (p : FederateHandle × List AttributeHandle) : OwnerRequest :=
  if root.server.momHandle = some p.1 then .askMom object p.2
  else .provideAttributeValueUpdate p.1 sender object p.2

/-- Every owner of a listed attribute is asked, once, for what it owns. -/
def ReachesOwners (root : RootObject) (sender : FederateHandle) (object : ObjectHandle)
    (o : Object) (attributes : List AttributeHandle) (requests : List OwnerRequest) : Prop :=
  ∃ parts, o.Parts attributes parts ∧ requests = parts.map (root.requestTo sender object)

/-! ## One instance -/

theorem requestFrom_foreign {p : FederateHandle × List AttributeHandle}
    (foreign : root.server.momHandle ≠ some p.1) (filled : p.2 ≠ []) :
    root.requestFrom sender object p = .error .outOfBounds := by
  have outside : copyAttributes 0 (List.replicate p.2.length 0) p.2 = .error .outOfBounds :=
    copyAttributes_outside p.2 0 _ filled (by simp)
  unfold requestFrom
  rw [if_neg foreign, outside]
  rfl

theorem requestFrom_mom {p : FederateHandle × List AttributeHandle}
    (mom : root.server.momHandle = some p.1) :
    root.requestFrom sender object p = .ok (root.requestTo sender object p) := by
  unfold requestFrom requestTo
  rw [if_pos mom, if_pos mom]
  rfl

theorem requestTo_attributes {p q : FederateHandle × List AttributeHandle}
    (same : root.requestTo sender object p = root.requestTo sender object q) : p.2 = q.2 := by
  unfold requestTo at same
  split at same <;> split at same <;> simp_all

/-- What a request to one instance leads to: an attribute that is not defined, an owner that is not
the MOM, or the MOM being asked for what it owns. -/
inductive RequestOutcome (root : RootObject) (sender : FederateHandle) (object : ObjectHandle)
    (o : Object) (attributes : List AttributeHandle) :
    Except Stop (FederateHandle × List OwnerRequest) → Prop where
  | undefined (lacks : o.defines attributes = false) :
    RequestOutcome root sender object o attributes (.error (.thrown .attributeNotDefined))
  | foreign (defined : o.defines attributes = true)
      (foreign : o.noneForeign root.server.momHandle attributes = false) :
    RequestOutcome root sender object o attributes (.error .outOfBounds)
  | answered (requests : List OwnerRequest) (defined : o.defines attributes = true)
      (own : o.noneForeign root.server.momHandle attributes = true)
      (reaches : root.ReachesOwners sender object o attributes requests ↔
        o.ownedOnce attributes = true)
      (count : ∀ others, root.ReachesOwners sender object o attributes others →
        others.length = requests.length) :
    RequestOutcome root sender object o attributes (.ok (o.owner, requests))

/-- An owner who is not the MOM is among those gathered. -/
theorem foreign_gathered {momHandle : Option FederateHandle}
    {gathered : List (FederateHandle × List AttributeHandle)}
    (holds : Holds (o.owned attributes) gathered)
    (foreign : o.noneForeign momHandle attributes = false) :
    ∃ owner listed, (owner, listed) ∈ gathered ∧ momHandle ≠ some owner := by
  obtain ⟨h, requested, other⟩ := List.all_eq_false.mp foreign
  cases located : o.holderOf h with
  | none => simp [located] at other
  | some owner =>
    simp only [located, Option.all_some, Bool.or_eq_true, decide_eq_true_eq, not_or] at other
    have member : h ∈ attributes.filter fun h => o.holderOf h = some owner :=
      List.mem_filter.mpr ⟨requested, by simpa using located⟩
    exact ⟨owner, _, Object.gathered_entry holds other.1 (List.ne_nil_of_mem member), other.2⟩

/-- Otherwise the MOM is the only owner gathered. -/
theorem gathered_mom {momHandle : Option FederateHandle}
    {gathered : List (FederateHandle × List AttributeHandle)}
    (holds : Holds (o.owned attributes) gathered)
    (own : o.noneForeign momHandle attributes = true) :
    ∀ p ∈ gathered, momHandle = some p.1 := by
  intro p member
  obtain ⟨somebody, h, requested, mine⟩ := (Object.gathered_owners holds p.1).mp
    (List.mem_map_of_mem member)
  have allowed := List.all_eq_true.mp own h requested
  simpa [mine, somebody] using allowed

theorem requestObjectOwner_outcome (sender : FederateHandle)
    (attributes : List AttributeHandle) (found : root.object? object = some o) :
    root.RequestOutcome sender object o attributes
      (root.requestObjectOwner sender object attributes) := by
  have known : root.getObject object = .ok o := by simp [getObject, found]
  unfold requestObjectOwner
  rw [known]
  cases defined : o.defines attributes with
  | false =>
    rw [show Stop.lift (Except.ok o : Except RTIException Object) = .ok o from rfl]
    simp only [bind, Except.bind, Object.noteOwner_undefined attributes defined []]
    exact .undefined defined
  | true =>
    obtain ⟨gathered, noted, holds⟩ := Object.noteOwner_holds attributes defined holds_nil
    rw [List.nil_append] at holds
    simp only [bind, Except.bind, Stop.lift, noted]
    have filled : ∀ p ∈ gathered, p.2 ≠ [] :=
      fun p member => ((holds.vectors p.1 p.2).mp member).2
    cases own : o.noneForeign root.server.momHandle attributes with
    | false =>
      obtain ⟨owner, listed, member, foreign⟩ := foreign_gathered holds own
      have each : ∀ p ∈ gathered, (∃ request, root.requestFrom sender object p = .ok request) ∨
          root.requestFrom sender object p = .error .outOfBounds := by
        intro p belongs
        by_cases mom : root.server.momHandle = some p.1
        · exact .inl ⟨_, requestFrom_mom mom⟩
        · exact .inr (requestFrom_foreign mom (filled p belongs))
      rw [Collect.mapM_error each member (requestFrom_foreign foreign (filled _ member))]
      exact .foreign defined own
    | true =>
      have moms := gathered_mom holds own
      rw [Collect.mapM_ok fun p member => requestFrom_mom (moms p member)]
      refine .answered _ defined own ⟨?_, fun once => ⟨gathered, Object.parts_of_holds holds once,
        rfl⟩⟩ ?_
      swap
      · rintro _ ⟨parts, promised, rfl⟩
        have perm := (List.perm_ext_iff_of_nodup promised.distinct holds.ascends.nodup_keys).mpr
          fun owner => (promised.owners owner).trans (Object.gathered_owners holds owner).symm
        simpa using perm.length_eq
      rintro ⟨parts, promised, same⟩
      rw [Object.ownedOnce_iff]
      intro owner somebody
      by_cases none : (attributes.filter fun h => o.holderOf h = some owner) = []
      · rw [none]
        exact List.nodup_nil
      · have entry := Object.gathered_entry holds somebody none
        have asked := List.mem_map_of_mem (f := root.requestTo sender object) entry
        rw [same] at asked
        obtain ⟨p, listed, request⟩ := List.mem_map.mp asked
        have attributes' : p.2 = attributes.filter fun h => o.holderOf h = some owner :=
          requestTo_attributes request
        rw [← attributes']
        exact (promised.each p listed).once

/-! ## The two services -/

/-- A request to an instance either throws for an undefined attribute, or reaches the owners. -/
def AnswersObject (root : RootObject) (sender : FederateHandle) (object : ObjectHandle)
    (attributes : List AttributeHandle)
    (result : Except Stop (FederateHandle × List OwnerRequest)) : Prop :=
  ∀ o, root.object? object = some o →
    (o.defines attributes = false → ∃ e, result = .error (.thrown e)) ∧
      (o.defines attributes = true → ∃ requests, result = .ok (o.owner, requests) ∧
        root.ReachesOwners sender object o attributes requests)

/-- A request to a class is one to every instance of it. -/
def AnswersClass (root : RootObject) (sender : FederateHandle) (classHandle : ObjectClassHandle)
    (attributes : List AttributeHandle) (result : Except Stop (List OwnerRequest)) : Prop :=
  (root.class? classHandle = none → ∃ e, result = .error (.thrown e)) ∧
    ((root.class? classHandle).isSome = true →
      ((∃ h ∈ root.instancesOf classHandle, ∃ o, root.object? h = some o ∧
          o.defines attributes = false) → ∃ e, result = .error (.thrown e)) ∧
      ((∀ h ∈ root.instancesOf classHandle, ∀ o, root.object? h = some o →
          o.defines attributes = true) → ∃ parts : List (List OwnerRequest),
        result = .ok parts.flatten ∧ List.Forall₂ (fun h requests => ∃ o, root.object? h = some o ∧
          root.ReachesOwners sender h o attributes requests)
          (root.instancesOf classHandle) parts))

/-- Whether an instance satisfies what a condition says of its attributes. -/
def instanceMeets (root : RootObject) (condition : Object → Bool) (h : ObjectHandle) : Bool :=
  (root.object? h).all condition

/-- The listed attributes that have an owner are the MOM's, and are listed once. -/
def Answerable (root : RootObject) (attributes : List AttributeHandle) (o : Object) : Prop :=
  o.defines attributes = true → o.noneForeign root.server.momHandle attributes = true ∧
    o.ownedOnce attributes = true

theorem answersObject_iff (root : RootObject) (sender : FederateHandle) (object : ObjectHandle)
    (attributes : List AttributeHandle) :
    root.AnswersObject sender object attributes
        (root.requestObjectOwner sender object attributes) ↔
      ∀ o, root.object? object = some o → root.Answerable attributes o := by
  refine forall_congr' fun o => forall_congr' fun found => ?_
  unfold Answerable
  generalize reached : root.requestObjectOwner sender object attributes = result
  have outcome := requestObjectOwner_outcome sender attributes found
  rw [reached] at outcome
  cases outcome with
  | undefined lacks => simp [lacks]
  | foreign defined foreign => simp [defined, foreign]
  | answered requests defined own reaches _ => simp [defined, own, reaches]

/-- What requests to one instance after the other lead to: the first that lacks an attribute stops
them, unless one before it has a foreign owner. -/
inductive ClassOutcome (root : RootObject) (sender : FederateHandle)
    (attributes : List AttributeHandle) (hs : List ObjectHandle) :
    Except Stop (List (FederateHandle × List OwnerRequest)) → Prop where
  | undefined (lacks : hs.all (root.instanceMeets (·.defines attributes)) = false)
      (own : ∀ h ∈ hs.takeWhile (root.instanceMeets (·.defines attributes)),
        root.instanceMeets (·.noneForeign root.server.momHandle attributes) h = true) :
    ClassOutcome root sender attributes hs (.error (.thrown .attributeNotDefined))
  | foreign (h : ObjectHandle)
      (before : h ∈ hs.takeWhile (root.instanceMeets (·.defines attributes)))
      (foreign : root.instanceMeets (·.noneForeign root.server.momHandle attributes) h = false) :
    ClassOutcome root sender attributes hs (.error .outOfBounds)
  | answered (parts : List (FederateHandle × List OwnerRequest))
      (defined : hs.all (root.instanceMeets (·.defines attributes)) = true)
      (own : ∀ h ∈ hs, root.instanceMeets (·.noneForeign root.server.momHandle attributes) h = true)
      (each : List.Forall₂ (fun h part => ∃ o, root.object? h = some o ∧
        (root.ReachesOwners sender h o attributes part.2 ↔ o.ownedOnce attributes = true) ∧
        ∀ others, root.ReachesOwners sender h o attributes others →
          others.length = part.2.length) hs parts) :
    ClassOutcome root sender attributes hs (.ok parts)

theorem requestInstances_outcome (sender : FederateHandle) (attributes : List AttributeHandle)
    (hs : List ObjectHandle)
    (present : ∀ h ∈ hs, (root.object? h).isSome = true) :
    root.ClassOutcome sender attributes hs
      (hs.mapM fun h => root.requestObjectOwner sender h attributes) := by
  induction hs with
  | nil => exact .answered [] rfl (fun h member => absurd member List.not_mem_nil) .nil
  | cons h rest ih =>
    obtain ⟨o, found⟩ := Option.isSome_iff_exists.mp (present h List.mem_cons_self)
    have outcome := requestObjectOwner_outcome sender attributes found
    have later := ih fun k member => present k (List.mem_cons_of_mem h member)
    rw [List.mapM_cons]
    generalize root.requestObjectOwner sender h attributes = result at outcome ⊢
    generalize rest.mapM (fun h => root.requestObjectOwner sender h attributes) = results
      at later ⊢
    have meets : ∀ condition : Object → Bool,
        root.instanceMeets condition h = condition o := by simp [instanceMeets, found]
    cases outcome with
    | undefined lacks =>
      refine .undefined (by simp [meets, lacks]) ?_
      rw [List.takeWhile_cons_of_neg (by simp [meets, lacks])]
      exact fun k member => absurd member List.not_mem_nil
    | foreign defined foreign =>
      refine .foreign h ?_ (by rw [meets, foreign])
      rw [List.takeWhile_cons_of_pos (by simp [meets, defined])]
      exact List.mem_cons_self
    | answered requests defined own reaches count =>
      have passes : (h :: rest).takeWhile (root.instanceMeets (·.defines attributes)) =
          h :: rest.takeWhile (root.instanceMeets (·.defines attributes)) :=
        List.takeWhile_cons_of_pos (by simp [meets, defined])
      cases later with
      | undefined lacks others =>
        refine .undefined (by simp [meets, defined, lacks]) ?_
        rw [passes]
        intro k member
        rcases List.mem_cons.mp member with rfl | inside
        · rw [meets, own]
        · exact others k inside
      | foreign k before foreign =>
        refine .foreign k ?_ foreign
        rw [passes]
        exact List.mem_cons_of_mem h before
      | answered parts all others each =>
        refine .answered _ (by simp [meets, defined, all]) (fun k member => ?_)
          (.cons ⟨o, found, reaches, count⟩ each)
        rcases List.mem_cons.mp member with rfl | inside
        · rw [meets, own]
        · exact others k inside

/-- The instances of the class up to the first that lacks an attribute have no foreign owner, and
when none lacks one, nothing that is owned is listed twice. -/
def ClassAnswerable (root : RootObject) (classHandle : ObjectClassHandle)
    (attributes : List AttributeHandle) : Prop :=
  (root.class? classHandle).isSome = true →
    (∀ h ∈ (root.instancesOf classHandle).takeWhile (root.instanceMeets (·.defines attributes)),
      root.instanceMeets (·.noneForeign root.server.momHandle attributes) h = true) ∧
    ((root.instancesOf classHandle).all (root.instanceMeets (·.defines attributes)) = true →
      ∀ h ∈ root.instancesOf classHandle,
        root.instanceMeets (·.ownedOnce attributes) h = true)

/-- The answers of the instances are those of the owners exactly when nothing owned is listed
twice: what one instance leads to has the length that its owners give it. -/
theorem reachesAll_iff {hs : List ObjectHandle} {parts : List (FederateHandle × List OwnerRequest)}
    (each : List.Forall₂ (fun h part => ∃ o, root.object? h = some o ∧
      (root.ReachesOwners sender h o attributes part.2 ↔ o.ownedOnce attributes = true) ∧
      ∀ others, root.ReachesOwners sender h o attributes others →
        others.length = part.2.length) hs parts) :
    (∃ answers : List (List OwnerRequest), (parts.map Prod.snd).flatten = answers.flatten ∧
      List.Forall₂ (fun h requests => ∃ o, root.object? h = some o ∧
        root.ReachesOwners sender h o attributes requests) hs answers) ↔
      ∀ h ∈ hs, root.instanceMeets (·.ownedOnce attributes) h = true := by
  induction each with
  | nil => simp
  | @cons h part hs parts here rest ih =>
    obtain ⟨o, found, reaches, count⟩ := here
    rw [List.forall_mem_cons, ← ih, instanceMeets, found, Option.all_some, ← reaches]
    constructor
    · rintro ⟨_, same, given⟩
      cases given with
      | @cons _ answer _ answers first others =>
        obtain ⟨o', found', reached⟩ := first
        obtain rfl : o = o' := by simpa [found] using found'
        rw [List.map_cons, List.flatten_cons, List.flatten_cons] at same
        obtain ⟨first, later⟩ := List.append_inj same (count answer reached).symm
        rw [first]
        exact ⟨reached, answers, later, others⟩
    · rintro ⟨reached, answers, same, others⟩
      refine ⟨part.2 :: answers, ?_, .cons ⟨o, found, reached⟩ others⟩
      rw [List.map_cons, List.flatten_cons, List.flatten_cons, same]

theorem answersClass_iff (root : RootObject) (sender : FederateHandle)
    (classHandle : ObjectClassHandle) (attributes : List AttributeHandle) :
    root.AnswersClass sender classHandle attributes
        (root.requestClassAttributeValueUpdate sender classHandle attributes) ↔
      root.ClassAnswerable classHandle attributes := by
  cases known : root.class? classHandle with
  | none =>
    have thrown : root.requestClassAttributeValueUpdate sender classHandle attributes =
        .error (.thrown .objectClassNotDefined) := by
      simp [requestClassAttributeValueUpdate, getObjectFromHandle, known, Stop.lift, bind,
        Except.bind]
    rw [thrown]
    simp [AnswersClass, ClassAnswerable, known]
  | some c =>
    have present : ∀ h ∈ root.instancesOf classHandle, (root.object? h).isSome = true := by
      intro h member
      obtain ⟨o, belongs, rfl⟩ := List.mem_map.mp member
      rw [object?, lookup, List.find?_isSome]
      exact ⟨o, (List.mem_filter.mp belongs).1, by simp⟩
    have outcome := requestInstances_outcome sender attributes _ present
    have served : root.requestClassAttributeValueUpdate sender classHandle attributes =
        ((root.instancesOf classHandle).mapM fun h => root.requestObjectOwner sender h attributes).map
          fun parts => (parts.map Prod.snd).flatten := by
      simp only [requestClassAttributeValueUpdate, getObjectFromHandle, known, Stop.lift, bind,
        Except.bind, Except.map]
      split <;> simp_all [pure, Except.pure]
    have whole : (∀ h ∈ root.instancesOf classHandle, ∀ o, root.object? h = some o →
        o.defines attributes = true) ↔
          (root.instancesOf classHandle).all (root.instanceMeets (·.defines attributes)) = true := by
      simp [List.all_eq_true, instanceMeets, Option.all_eq_true]
    have lacking : (∃ h ∈ root.instancesOf classHandle, ∃ o, root.object? h = some o ∧
        o.defines attributes = false) ↔
          (root.instancesOf classHandle).all (root.instanceMeets (·.defines attributes)) = false := by
      rw [← Bool.not_eq_true, ← whole]
      simp
    rw [served]
    generalize (root.instancesOf classHandle).mapM
      (fun h => root.requestObjectOwner sender h attributes) = result at outcome
    unfold AnswersClass ClassAnswerable
    rw [whole, lacking, known]
    simp only [Option.isSome_some, forall_const, reduceCtorEq, IsEmpty.forall_iff, true_and]
    cases outcome with
    | undefined lacks own =>
      rw [lacks]
      exact iff_of_true ⟨fun _ => ⟨_, rfl⟩, fun all => absurd all Bool.false_ne_true⟩
        ⟨own, fun all => absurd all Bool.false_ne_true⟩
    | foreign h before foreign =>
      refine iff_of_false ?_ fun conditions => ?_
      · rintro ⟨thrown, answered⟩
        cases all : (root.instancesOf classHandle).all
            (root.instanceMeets (·.defines attributes)) with
        | false =>
          obtain ⟨e, raised⟩ := thrown all
          cases raised
        | true =>
          obtain ⟨parts, given, _⟩ := answered all
          cases given
      · have allowed := conditions.1 h before
        rw [foreign] at allowed
        cases allowed
    | answered parts defined own each =>
      have before : ∀ h ∈ (root.instancesOf classHandle).takeWhile
          (root.instanceMeets (·.defines attributes)),
          root.instanceMeets (·.noneForeign root.server.momHandle attributes) h = true :=
        fun h member => own h ((List.takeWhile_prefix _).mem member)
      rw [defined]
      constructor
      · rintro ⟨-, answered⟩
        obtain ⟨answers, given, all⟩ := answered rfl
        exact ⟨before, fun _ => (reachesAll_iff each).mp ⟨answers, Except.ok.inj given, all⟩⟩
      · rintro ⟨-, once⟩
        obtain ⟨answers, same, all⟩ := (reachesAll_iff each).mpr (once rfl)
        exact ⟨fun lacks => absurd lacks.symm Bool.false_ne_true,
          fun _ => ⟨answers, congrArg Except.ok same, all⟩⟩

/-- Requests reach the owners exactly when there is no owner but the MOM: the last attribute of
every list sent is written behind the message's array. -/
theorem requests_reach_owners_iff (root : RootObject) (sender : FederateHandle)
    (object : ObjectHandle) (classHandle : ObjectClassHandle) (attributes : List AttributeHandle) :
    (root.AnswersObject sender object attributes
        (root.requestObjectOwner sender object attributes) ↔
      ∀ o, root.object? object = some o → root.Answerable attributes o) ∧
    (root.AnswersClass sender classHandle attributes
        (root.requestClassAttributeValueUpdate sender classHandle attributes) ↔
      root.ClassAnswerable classHandle attributes) :=
  ⟨answersObject_iff root sender object attributes,
    answersClass_iff root sender classHandle attributes⟩

/-- A federate asks for an attribute that another federate owns. -/
theorem owner_never_asked :
    ¬∀ (es : List Event) (sender : FederateHandle) (object : ObjectHandle)
      (attributes : List AttributeHandle),
      (rtig.exec (Federation.create smallFom false true) es).root.AnswersObject sender object
        attributes ((rtig.exec (Federation.create smallFom false true) es).root.requestObjectOwner
          sender object attributes) := by
  intro always
  have outside : (rtig.exec (Federation.create smallFom false true)
      twoPublishers).root.requestObjectOwner 2 1 [2] = .error .outOfBounds := by decide +kernel
  have owned : ((rtig.exec (Federation.create smallFom false true) twoPublishers).root.object?
      1).any (·.defines [2]) = true := by decide +kernel
  obtain ⟨o, found, defined⟩ := (Option.any_eq_true _ _).mp owned
  obtain ⟨requests, served, _⟩ := (always twoPublishers 2 1 [2] o found).2 defined
  rw [outside] at served
  cases served

end RootObject

end Certi
