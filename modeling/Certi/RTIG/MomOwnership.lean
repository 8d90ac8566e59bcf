import Certi.RTIG.HandleHygiene
import Certi.RTIG.Removal

/-!
# Ownership changed through the MOM

`Mom::processFederateModifyAttributeState`: an unconditional divestiture of the
owner, then an acquisition for the federate named in the interaction. The
divestiture hands the attribute to its first candidate, whoever that is, and
throws after it has freed an attribute without candidates, so that the
acquisition is never reached with a free attribute.
-/
namespace Certi

open Keyed Sweep Ownership Runs

namespace Federation

/-- `unsent` is thrown where the messages of the divestiture cannot be sent; the changes have been
made by then. -/
def processFederateModifyAttributeState (f : Federation) (fed : FederateHandle)
    (object : ObjectHandle) (h : AttributeHandle) (attributeState : Bool)
    (unsent : Option RTIException) : Outcome Federation :=
  match f.root.getObject object with
  | .error e => .refused f e
  | .ok o =>
    if attributeState then
      match o.getAttribute h with
      | .error e => .refused f e
      | .ok oa =>
        let divested := f.ownership .divest oa.owner object [h]
        match divested.error.or unsent with
        | some e => ⟨divested.state, divested.sent, some e⟩
        | none => divested.state.ownership .acquire fed object [h]
    else
      match o.isAttributeOwnedByFederate fed h with
      | .error e => .refused f e
      | .ok true => f.ownership .divest fed object [h]
      | .ok false => .done f []

end Federation

inductive MomEvent where
  | event (e : Event)
  | modifyAttributeState (fed : FederateHandle) (object : ObjectHandle) (h : AttributeHandle)
      (attributeState : Bool) (unsent : Option RTIException)

def Federation.performMom (f : Federation) : MomEvent → Outcome Federation
  | .event e => f.perform e
  | .modifyAttributeState fed object h attributeState unsent =>
    f.processFederateModifyAttributeState fed object h attributeState unsent

/-- The RTIG with the interactions of the MOM that change ownership. -/
def managed : Machine Federation MomEvent Answer := fun f e =>
  if f.crashed then (f, ([], some .networkError))
  else
    let outcome := f.performMom e
    (outcome.state, (outcome.sent, outcome.error))

/-! ## The statement -/

namespace RootObject

variable (root : RootObject) (fed : FederateHandle) (object : ObjectHandle) (h : AttributeHandle)

def instanceAttribute? : Option ObjectAttribute := (root.object? object).bind (·.attribute? h)

def classAttribute? : Option ObjectClassAttribute :=
  (root.object? object).bind fun o => (root.class? o.classHandle).bind (·.attribute? h)

/-- The federate owns the attribute, which is not being divested, and is no candidate any more. -/
def Obtained : Prop :=
  ∃ oa, root.instanceAttribute? object h = some oa ∧ oa.owner = fed ∧ oa.divesting = false ∧
    oa.isCandidate fed = false

def PublishesAttribute : Prop :=
  ∃ oca, root.classAttribute? object h = some oca ∧ oca.isPublishing fed = true

/-- The instance is unknown, the federate does not publish, or the RTI owns the attribute. -/
def Excused : Prop :=
  root.object? object = none ∨ ¬ root.PublishesAttribute fed object h ∨
    ∃ oa, root.instanceAttribute? object h = some oa ∧ root.server.momHandle = some oa.owner

end RootObject

namespace Federation

variable (f : Federation) (fed : FederateHandle) (object : ObjectHandle) (h : AttributeHandle)

/-- The attribute goes to the federate, or the call is excused and has had no effect. -/
def AllOrNothing (unsent : Option RTIException) : Prop :=
  let after := (f.processFederateModifyAttributeState fed object h true unsent).state.root
  after.Obtained fed object h ∨ (f.root.Excused fed object h ∧ after = f.root)

/-- Only what the federate owned is changed. -/
def ReleasesOwn (unsent : Option RTIException) : Prop :=
  (f.processFederateModifyAttributeState fed object h false unsent).state.root ≠ f.root →
    ∃ oa, f.root.instanceAttribute? object h = some oa ∧ oa.owner = fed

/-- The owner is a member and the class knows the attribute, so that a divestiture changes it. -/
def Divestible : Prop :=
  ∃ oa, f.root.instanceAttribute? object h = some oa ∧ f.check oa.owner = true ∧
    (f.root.classAttribute? object h).isSome = true

/-- The federate is the candidate that a divestiture serves. -/
def FirstInLine : Prop :=
  ∃ oa, f.root.instanceAttribute? object h = some oa ∧ oa.firstCandidate = some fed

end Federation

/-! ## One attribute -/

section Attribute

variable {c : ObjectClass} {o : Object} {h : AttributeHandle} {oa : ObjectAttribute}
  {fed : FederateHandle}

theorem Object.attribute?_set (o : Object) (oa : ObjectAttribute) (k : AttributeHandle) :
    (o.setAttribute oa).attribute? k =
      if k = oa.handle then (o.attribute? k).map (fun _ => oa) else o.attribute? k :=
  lookup_replace_eq oa k o.attributes

/-- What is stored under the handle of a known attribute is found there. -/
theorem Object.attribute?_set_self (found : o.attribute? h = some oa) {oa' : ObjectAttribute}
    (same : oa'.handle = oa.handle) : (o.setAttribute oa').attribute? h = some oa' := by
  have key : h = oa'.handle := (Object.attribute?_handle found).symm.trans same.symm
  rw [Object.attribute?_set, if_pos key, found]
  rfl

theorem attribute?_grant_self (found : o.attribute? h = some oa) {oa' : ObjectAttribute}
    (same : oa'.handle = oa.handle) (newOwner : FederateHandle) :
    (grant c o oa' newOwner).attribute? h = some oa' := by
  have stored := Object.attribute?_set_self found same
  unfold grant
  split
  · exact stored
  · exact stored

theorem handOver_handle (oa : ObjectAttribute) (newOwner : FederateHandle) :
    (handOver oa newOwner).handle = oa.handle := rfl

theorem getAttribute_of (found : o.attribute? h = some oa) : o.getAttribute h = .ok oa :=
  Object.getAttribute_ok.mpr found

theorem divest_unknown (unknown : c.hasAttribute h = false) :
    OwnershipService.divest.perform fed [h] c o = ((o, []), some .attributeNotDefined) := by
  simp [OwnershipService.perform, unconditionalAttributeOwnershipDivestiture, serve,
    unconditionalPreconditions, ObjectClass.checkAttributes, unknown, bind, Except.bind]

theorem divest_accepted (known : c.hasAttribute h = true) (found : o.attribute? h = some oa)
    (owner : oa.owner = fed) : unconditionalPreconditions c fed o [h] = .ok () := by
  simp [unconditionalPreconditions, ObjectClass.checkAttributes, known, checkOwned,
    getAttribute_of found, owner, bind, Except.bind, pure, Except.pure]

/-- Without candidates the attribute is free, and the service throws. -/
theorem divest_free (known : c.hasAttribute h = true) (found : o.attribute? h = some oa)
    (owner : oa.owner = fed) (unwanted : oa.firstCandidate = none) :
    OwnershipService.divest.perform fed [h] c o =
      ((o.setAttribute ((oa.setOwner 0).setDivesting false), [.offered h]),
        some .rtiInternalError) := by
  obtain ⟨oca, located⟩ := Option.isSome_iff_exists.mp known
  have step : unconditionalStep c (o, []) h =
      .ok (o.setAttribute ((oa.setOwner 0).setDivesting false), [.offered h]) := by
    simp [unconditionalStep, ObjectClass.getAttribute, located, getAttribute_of found, unwanted,
      bind, Except.bind, pure, Except.pure]
  simp [OwnershipService.perform, unconditionalAttributeOwnershipDivestiture, serve,
    divest_accepted known found owner, sweep_cons_ok [] step]

/-- The first candidate gets the attribute. -/
theorem divest_wanted (known : c.hasAttribute h = true) (found : o.attribute? h = some oa)
    (owner : oa.owner = fed) {newOwner : FederateHandle}
    (wanted : oa.firstCandidate = some newOwner) :
    OwnershipService.divest.perform fed [h] c o =
      ((grant c o (handOver oa newOwner) newOwner, [.acquired newOwner h]), none) := by
  obtain ⟨oca, located⟩ := Option.isSome_iff_exists.mp known
  have step : unconditionalStep c (o, []) h =
      .ok (grant c o (handOver oa newOwner) newOwner, [.acquired newOwner h]) := by
    simp [unconditionalStep, ObjectClass.getAttribute, located, getAttribute_of found, wanted,
      bind, Except.bind, pure, Except.pure]
  simp [OwnershipService.perform, unconditionalAttributeOwnershipDivestiture, serve,
    divest_accepted known found owner, sweep_cons_ok [] step]

/-- Somebody else's attribute is wanted at most; one's own is refused. -/
theorem acquire_owned (c : ObjectClass) (fed : FederateHandle) (found : o.attribute? h = some oa)
    (owned : oa.owner ≠ 0) (kept : oa.divesting = false) :
    (OwnershipService.acquire.perform fed [h] c o).1.1 = o ∨
      oa.owner ≠ fed ∧ (OwnershipService.acquire.perform fed [h] c o).1.1 =
        o.setAttribute ((oa.removeCandidate fed).addCandidate fed) := by
  unfold OwnershipService.perform attributeOwnershipAcquisition serve
  dsimp only
  cases accepted : acquisitionPreconditions c fed o [h] with
  | error e => exact .inl rfl
  | ok _ =>
    have other : oa.owner ≠ fed := by
      obtain ⟨_, checks, _⟩ := bind_success accepted
      exact checkAcquisition_success (forM_success checks h List.mem_cons_self) oa found
    cases taken : acquisitionStep c fed (o, []) h with
    | error e => exact .inl (by rw [sweep_cons_error [] taken])
    | ok t =>
      right
      refine ⟨other, ?_⟩
      rw [sweep_cons_ok [] taken, sweep_nil]
      obtain ⟨oa', found', ⟨free, _⟩ | ⟨_, result⟩⟩ := acquisitionStep_success taken
      · rw [found] at found'
        cases found'
        have busy : obtainable oa = false := not_obtainable.mpr ⟨owned, kept⟩
        rw [busy] at free
        cases free
      · rw [found] at found'
        cases found'
        exact result

end Attribute

/-! ## One instance -/

namespace RootObject

variable {root : RootObject} {object : ObjectHandle} {h : AttributeHandle} {o : Object}

theorem setObject_self (distinct : root.Distinct) (known : root.object? object = some o) :
    root.setObject o = root := by
  have same : ∀ o' ∈ root.objects, (if o'.handle = o.handle then o else o') = o' := by
    intro o' member
    split
    · rename_i equal
      exact List.inj_on_of_nodup_map distinct.objects (lookup_mem known) member equal.symm
    · rfl
  have objects : replace Object.handle o root.objects = root.objects := by
    rw [replace, adjust, List.map_congr_left same, List.map_id']
  rw [setObject, objects]

theorem instanceAttribute?_of (known : root.object? object = some o) :
    root.instanceAttribute? object h = o.attribute? h := by
  rw [instanceAttribute?, known]
  rfl

theorem instanceAttribute?_set (known : root.object? object = some o) (o' : Object)
    (same : o'.handle = o.handle) :
    (root.setObject o').instanceAttribute? object h = o'.attribute? h := by
  have key : object = o'.handle := (lookup_key known).symm.trans same.symm
  have stored : (root.setObject o').object? object =
      if object = o'.handle then (root.object? object).map (fun _ => o') else root.object? object :=
    lookup_replace_eq o' object root.objects
  rw [instanceAttribute?, stored, if_pos key, known]
  rfl

theorem instanceAttribute?_setAttribute (known : root.object? object = some o)
    (oa : ObjectAttribute) : (root.setObject (o.setAttribute oa)).instanceAttribute? object h =
      (o.setAttribute oa).attribute? h :=
  instanceAttribute?_set known (o.setAttribute oa) rfl

/-- The class of the instance, where it knows the attribute. -/
theorem classAttribute?_isSome (known : root.object? object = some o)
    (named : (root.classAttribute? object h).isSome = true) :
    ∃ c, root.class? o.classHandle = some c ∧ c.hasAttribute h = true := by
  rw [classAttribute?, known, Option.bind_some] at named
  cases located : root.class? o.classHandle with
  | none =>
    rw [located] at named
    cases named
  | some c =>
    rw [located] at named
    exact ⟨c, rfl, named⟩

theorem ownershipService_known {c : ObjectClass} (known : root.object? object = some o)
    (located : root.class? o.classHandle = some c)
    (service : ObjectClass → Object → Transfer × Option RTIException) :
    (root.ownershipService object service).1 =
      ⟨root.setObject (service c o).1.1, [], (service c o).2⟩ := by
  unfold ownershipService
  rw [known]
  dsimp only
  rw [located]

end RootObject

namespace Federation

variable {f : Federation} {fed : FederateHandle} {object : ObjectHandle} {h : AttributeHandle}
  {o : Object} {oa : ObjectAttribute}

theorem ownership_member (member : f.check fed = true) (service : OwnershipService)
    (object : ObjectHandle) (hs : List AttributeHandle) :
    (f.ownership service fed object hs).state.root =
        (f.root.ownershipService object (service.perform fed hs)).1.state ∧
      (f.ownership service fed object hs).error =
        (f.root.ownershipService object (service.perform fed hs)).1.error := by
  unfold ownership asMember
  rw [if_pos member]
  exact ⟨rfl, rfl⟩

theorem ownership_stranger (stranger : f.check fed = false) (service : OwnershipService)
    (hs : List AttributeHandle) :
    f.ownership service fed object hs = .refused f .federateNotExecutionMember := by
  unfold ownership asMember
  rw [if_neg (by rw [stranger]; exact Bool.false_ne_true)]

/-- A divestiture of what cannot be divested throws before it changes anything. -/
theorem divest_refused (distinct : f.root.Distinct) (known : f.root.object? object = some o)
    (fixed : f.check fed = true → (f.root.classAttribute? object h).isSome = false) :
    (f.ownership .divest fed object [h]).state.root = f.root ∧
      (f.ownership .divest fed object [h]).error.isSome = true := by
  cases member : f.check fed with
  | false =>
    rw [ownership_stranger member]
    exact ⟨rfl, rfl⟩
  | true =>
    obtain ⟨root, error⟩ := ownership_member member .divest object [h]
    rw [root, error]
    cases located : f.root.class? o.classHandle with
    | none =>
      unfold RootObject.ownershipService
      rw [known]
      dsimp only
      rw [located]
      exact ⟨rfl, rfl⟩
    | some c =>
      have unknown : c.hasAttribute h = false := by
        have absent := fixed member
        rwa [RootObject.classAttribute?, known, Option.bind_some, located, Option.bind_some]
          at absent
      rw [RootObject.ownershipService_known known located, divest_unknown unknown]
      exact ⟨RootObject.setObject_self distinct known, rfl⟩

/-- A divestiture that is performed frees the attribute and throws, or hands it over. -/
theorem divest_performed (known : f.root.object? object = some o)
    (found : o.attribute? h = some oa) (member : f.check oa.owner = true)
    (named : (f.root.classAttribute? object h).isSome = true) :
    let divested := f.ownership .divest oa.owner object [h]
    match oa.firstCandidate with
    | none => divested.error.isSome = true ∧ divested.state.root.instanceAttribute? object h =
        some ((oa.setOwner 0).setDivesting false)
    | some newOwner => divested.error = none ∧
        divested.state.root.instanceAttribute? object h = some (handOver oa newOwner) := by
  intro divested
  obtain ⟨c, located, defined⟩ := RootObject.classAttribute?_isSome known named
  obtain ⟨root, error⟩ := ownership_member member .divest object [h]
  rw [RootObject.ownershipService_known known located] at root error
  cases first : oa.firstCandidate with
  | none =>
    rw [divest_free defined found rfl first] at root error
    dsimp only at root
    refine ⟨by rw [error]; rfl, ?_⟩
    rw [root, RootObject.instanceAttribute?_setAttribute known]
    exact Object.attribute?_set_self found rfl
  | some newOwner =>
    rw [divest_wanted defined found rfl first] at root error
    dsimp only at root
    refine ⟨error, ?_⟩
    rw [root, RootObject.instanceAttribute?_set known _ (grant_sameInstance o _ newOwner).handle]
    exact attribute?_grant_self (c := c) found (handOver_handle oa newOwner) newOwner

/-- An acquisition of what somebody owns leaves the owner and adds a candidate at most. -/
theorem acquire_busy (fed : FederateHandle)
    (found : f.root.instanceAttribute? object h = some oa) (owned : oa.owner ≠ 0)
    (kept : oa.divesting = false) :
    (f.ownership .acquire fed object [h]).state.root.instanceAttribute? object h = some oa ∨
      oa.owner ≠ fed ∧
        (f.ownership .acquire fed object [h]).state.root.instanceAttribute? object h =
          some ((oa.removeCandidate fed).addCandidate fed) := by
  cases member : f.check fed with
  | false =>
    rw [ownership_stranger member]
    exact .inl found
  | true =>
    rw [(ownership_member member .acquire object [h]).1]
    rcases RootObject.ownershipService_cases f.root object (OwnershipService.acquire.perform fed
      [h]) with unchanged | ⟨o, c, known, located, result⟩
    · rw [unchanged]
      exact .inl found
    · have inside : o.attribute? h = some oa := by
        rw [← found, RootObject.instanceAttribute?_of known]
      rw [result]
      rcases acquire_owned c fed inside owned kept with same | ⟨other, wanted⟩
      · rw [same, RootObject.instanceAttribute?_set known o rfl]
        exact .inl inside
      · rw [wanted, RootObject.instanceAttribute?_setAttribute known]
        exact .inr ⟨other, Object.attribute?_set_self inside rfl⟩

end Federation

/-! ## One interaction -/

namespace Federation

variable {f : Federation} {fed : FederateHandle} {object : ObjectHandle} {h : AttributeHandle}
  {unsent : Option RTIException}

/-- What cannot be divested is left alone. -/
theorem modify_fixed (fed : FederateHandle) (unsent : Option RTIException)
    (distinct : f.root.Distinct) (fixed : ¬ f.Divestible object h) :
    (f.processFederateModifyAttributeState fed object h true unsent).state.root = f.root := by
  unfold processFederateModifyAttributeState RootObject.getObject
  cases known : f.root.object? object with
  | none => rfl
  | some o =>
    dsimp only
    rw [if_pos rfl]
    unfold Object.getAttribute
    cases found : o.attribute? h with
    | none => rfl
    | some oa =>
      have refused : f.check oa.owner = true →
          (f.root.classAttribute? object h).isSome = false := by
        intro member
        by_contra named
        rw [Bool.not_eq_false] at named
        exact fixed ⟨oa, by rw [RootObject.instanceAttribute?_of known, found], member, named⟩
      obtain ⟨unchanged, thrown⟩ := divest_refused distinct known refused
      obtain ⟨e, error⟩ := Option.isSome_iff_exists.mp thrown
      dsimp only
      rw [error]
      exact unchanged

/-- What becomes of an attribute that is divested for the interaction. -/
inductive Moved (fed : FederateHandle) (oa : ObjectAttribute) : ObjectAttribute → Prop
  | freed (unwanted : oa.firstCandidate = none) : Moved fed oa ((oa.setOwner 0).setDivesting false)
  | handed {newOwner : FederateHandle} (first : oa.firstCandidate = some newOwner) :
    Moved fed oa (handOver oa newOwner)
  | asked {newOwner : FederateHandle} (first : oa.firstCandidate = some newOwner)
    (other : newOwner ≠ fed) :
    Moved fed oa (((handOver oa newOwner).removeCandidate fed).addCandidate fed)

theorem modify_moved (fed : FederateHandle) (unsent : Option RTIException)
    {oa : ObjectAttribute}
    (found : f.root.instanceAttribute? object h = some oa) (member : f.check oa.owner = true)
    (named : (f.root.classAttribute? object h).isSome = true)
    (owners : ∀ g ∈ oa.candidates, g ≠ 0) :
    ∃ oa', (f.processFederateModifyAttributeState fed object h true
      unsent).state.root.instanceAttribute? object h = some oa' ∧ Moved fed oa oa' := by
  obtain ⟨o, known, inside⟩ := Option.bind_eq_some_iff.mp found
  have divested := divest_performed known inside member named
  unfold processFederateModifyAttributeState RootObject.getObject
  rw [known]
  dsimp only at divested ⊢
  rw [if_pos rfl, getAttribute_of inside]
  dsimp only
  cases first : oa.firstCandidate with
  | none =>
    rw [first] at divested
    obtain ⟨thrown, stored⟩ := divested
    obtain ⟨e, error⟩ := Option.isSome_iff_exists.mp thrown
    rw [error]
    exact ⟨_, stored, .freed first⟩
  | some newOwner =>
    rw [first] at divested
    obtain ⟨sent, stored⟩ := divested
    rw [sent]
    cases unsent with
    | some e => exact ⟨_, stored, .handed first⟩
    | none =>
      have owned : (handOver oa newOwner).owner ≠ 0 :=
        owners newOwner (ObjectAttribute.firstCandidate_mem first)
      rcases acquire_busy fed stored owned rfl with same | ⟨other, wanted⟩
      · exact ⟨_, same, .handed first⟩
      · exact ⟨_, wanted, .asked first other⟩

end Federation

/-! ## What the federation keeps -/

theorem Object.HeldBy.killFederate {p : FederateHandle → Prop} {o : Object} (held : o.HeldBy p)
    (fed : FederateHandle) : (o.killFederate fed).HeldBy p := by
  refine ⟨held.1, fun oa' member => ?_⟩
  obtain ⟨oa, belongs, rfl⟩ := List.mem_map.mp member
  split
  · exact ⟨fun owned => absurd rfl owned, (held.2 oa belongs).2⟩
  · exact held.2 oa belongs

namespace Federation

variable {f f' : Federation} {fed : FederateHandle}

/-- No federate has the handle 0 or ever will, it is stored nowhere, and the root object is
tidy. -/
structure Staffed (f : Federation) : Prop where
  members : ∀ g ∈ f.federates.map Federate.handle, g ≠ 0
  mom : f.root.server.momHandle ≠ some 0
  next : f.nextFederate ≠ 0
  held : f.root.HeldBy (· ≠ 0)
  tidy : f.root.Tidy

theorem Staffed.check (staffed : f.Staffed) (member : f.check fed = true) : fed ≠ 0 := by
  rintro rfl
  rcases check_iff.mp member with mom | joined
  · exact staffed.mom mom
  · exact staffed.members 0 joined rfl

/-- A service of the root object. -/
theorem Staffed.onRoot (staffed : f.Staffed) (only : OnlyRoot f f')
    (held : f'.root.HeldBy (· ≠ 0)) (tidy : f'.root.Tidy) : f'.Staffed := by
  have federates : f'.federates = f.federates := by rw [only.rest]
  have next : f'.nextFederate = f.nextFederate := by rw [only.rest]
  exact ⟨by rw [federates]; exact staffed.members, by rw [only.server]; exact staffed.mom,
    by rw [next]; exact staffed.next, held, tidy⟩

theorem Staffed.memberOnRoot (staffed : f.Staffed) {service : RootObject → Outcome RootObject}
    (held : fed ≠ 0 → (service f.root).state.HeldBy (· ≠ 0)) :
    (f.memberOnRoot fed service).state.root.HeldBy (· ≠ 0) :=
  asMember_cases (p := fun outcome => outcome.state.root.HeldBy (· ≠ 0)) staffed.held
    fun member => held (staffed.check member)

theorem Staffed.memberWithRegion (staffed : f.Staffed) {region : RegionHandle}
    {service : RootObject → Outcome RootObject}
    (held : fed ≠ 0 → (service f.root).state.HeldBy (· ≠ 0)) :
    (f.memberWithRegion fed region service).state.root.HeldBy (· ≠ 0) := by
  refine staffed.memberOnRoot fun nonzero => ?_
  split
  · exact staffed.held
  · exact held nonzero

theorem Staffed.ownership (staffed : f.Staffed) (service : OwnershipService)
    (object : ObjectHandle) (hs : List AttributeHandle) :
    (f.ownership service fed object hs).state.root.HeldBy (· ≠ 0) :=
  asMember_cases (p := fun outcome => outcome.state.root.HeldBy (· ≠ 0)) staffed.held
    fun member => RootObject.ownershipService_heldBy staffed.held (staffed.check member) service
      object hs

theorem Staffed.requests (staffed : f.Staffed) {e : Event} (onRoot : e.isOnRoot = true) :
    (f.perform e).state.root.HeldBy (· ≠ 0) := by
  have held := staffed.held
  cases e with
  | publishObject fed c hs flag =>
    exact staffed.memberOnRoot fun nonzero =>
      held.declare (RootObject.publish_redeclares f.root fed c hs flag)
        (RootObject.publish_declaredBy held.declared nonzero c hs flag)
  | subscribeObject fed c hs =>
    exact staffed.memberOnRoot fun nonzero =>
      held.declare (RootObject.subscribe_redeclares f.root fed c hs none)
        (RootObject.subscribe_declaredBy held.declared nonzero c hs none)
  | subscribeAttributesWR fed c region hs =>
    exact staffed.memberWithRegion fun nonzero =>
      held.declare (RootObject.subscribe_redeclares f.root fed c hs (some region))
        (RootObject.subscribe_declaredBy held.declared nonzero c hs (some region))
  | unsubscribeAttributesWR fed c region =>
    exact staffed.memberWithRegion fun _ =>
      held.declare (RootObject.unsubscribeWith_redeclares f.root fed c (some region))
        (RootObject.unsubscribeWith_declaredBy held.declared fed c (some region))
  | publishInteraction fed i flag =>
    exact staffed.memberOnRoot fun nonzero =>
      held.declare (RootObject.declareInteraction_redeclares f.root i _)
        (RootObject.publishInteraction_declaredBy held.declared nonzero i flag)
  | subscribeInteraction fed i flag =>
    exact staffed.memberOnRoot fun nonzero =>
      held.declare (RootObject.declareInteraction_redeclares f.root i _)
        (RootObject.subscribeInteraction_declaredBy held.declared nonzero i none flag)
  | subscribeInteractionWR fed i region flag =>
    exact staffed.memberWithRegion fun nonzero =>
      held.declare (RootObject.declareInteraction_redeclares f.root i _)
        (RootObject.subscribeInteraction_declaredBy held.declared nonzero i (some region) flag)
  | createRegion fed space extents =>
    exact staffed.memberOnRoot fun _ => RootObject.createRegion_heldBy held space extents
  | associateRegion fed object region hs =>
    exact staffed.memberOnRoot fun _ => RootObject.associate_heldBy held object region hs
  | registerObject fed c name =>
    exact RootObject.registerObjectInstance_heldBy held fed c _ _
  | registerObjectWithRegion fed c name region hs =>
    have registered : (f.registerObject fed c name).state.root.HeldBy (· ≠ 0) :=
      RootObject.registerObjectInstance_heldBy held fed c _ _
    have associated := RootObject.associate_heldBy registered f.nextObject region hs
    refine asMember_cases (p := fun outcome => outcome.state.root.HeldBy (· ≠ 0)) held
      fun _ => ?_
    dsimp only
    split
    · exact registered
    · split <;> exact associated
  | deleteObject fed object =>
    exact staffed.memberOnRoot fun _ => RootObject.deleteObjectInstance_heldBy held fed object
  | ownership service fed object hs => exact staffed.ownership service object hs
  | _ => cases onRoot

theorem Staffed.perform (staffed : f.Staffed) (e : Event) : (f.perform e).state.Staffed := by
  have tidy := (perform_keeps staffed.tidy e).1
  rcases e.sorts with ⟨name, conditions, rfl⟩ | ⟨fed, rfl⟩ | ⟨fed, rfl⟩ | internal | onRoot
  · rcases add_cases f name conditions with same | ⟨handles, next, _, _, root⟩
    · rw [Federation.perform, same]
      exact staffed
    · have held : (f.add name conditions).state.root.HeldBy (· ≠ 0) := by
        rcases root with root | root
        · rw [root]
          exact staffed.held
        · rw [root]
          exact ⟨⟨staffed.held.declared.classes, staffed.held.declared.interactions⟩,
            staffed.held.objects⟩
      refine ⟨?_, ?_, ?_, held, tidy⟩
      · intro g listed
        rw [Federation.perform, handles] at listed
        rcases List.mem_append.mp listed with old | new
        · exact staffed.members g old
        · rw [List.mem_singleton.mp new]
          exact staffed.next
      · rw [Federation.perform]
        rcases root with root | root
        · rw [root]
          exact staffed.mom
        · rw [root]
          exact staffed.mom
      · rw [Federation.perform, next]
        exact Nat.succ_ne_zero _
  · rcases remove_cases f fed with refused | ⟨_, removed⟩
    · rw [Federation.perform, refused]
      exact staffed
    · rw [Federation.perform, removed] at tidy ⊢
      refine ⟨fun g listed => ?_, staffed.mom, staffed.next, staffed.held, tidy⟩
      dsimp only [Outcome.done] at listed
      rw [map_key_drop] at listed
      exact staffed.members g (List.mem_filter.mp listed).1
  · rcases kill_cases f fed with refused | ⟨_, result, _⟩
    · rw [Federation.perform, refused]
      exact staffed
    · have same := sameMembers_of_timeless (removeRegulator_timeless (f.closeLink fed) fed)
      obtain ⟨_, objects, declared, server⟩ := RootObject.killFederate_frame
        (p := (· ≠ 0)) (f.closeLink fed).root fed
      rw [Federation.perform, result] at tidy ⊢
      refine ⟨fun g listed => ?_, ?_, ?_, ⟨?_, fun o' member => ?_⟩, tidy⟩
      · dsimp only at listed
        rw [map_key_drop, same.handles] at listed
        exact staffed.members g (List.mem_filter.mp listed).1
      · dsimp only
        rw [server]
        exact staffed.mom
      · dsimp only
        rw [same.nextFederate]
        exact staffed.next
      · exact declared ⟨staffed.held.declared.classes, staffed.held.declared.interactions⟩
      · obtain ⟨o, belongs, _, rfl⟩ := objects o' member
        exact (staffed.held.objects o belongs).killFederate fed
  · have same := perform_internal f internal
    exact ⟨by rw [same.handles]; exact staffed.members, by rw [same.root]; exact staffed.mom,
      by rw [same.nextFederate]; exact staffed.next, by rw [same.root]; exact staffed.held, tidy⟩
  · exact staffed.onRoot (perform_onRoot f onRoot) (staffed.requests onRoot) tidy

/-- The interaction is nothing or one or two ownership services, so that it keeps what every
event keeps. -/
theorem modify_keeps {p : Federation → Prop}
    (step : ∀ (f : Federation) (e : Event), p f → p (f.perform e).state) (before : p f)
    (fed : FederateHandle) (object : ObjectHandle) (h : AttributeHandle) (attributeState : Bool)
    (unsent : Option RTIException) :
    p (f.processFederateModifyAttributeState fed object h attributeState unsent).state := by
  have served : ∀ {f : Federation}, p f → ∀ service fed,
      p (f.ownership service fed object [h]).state := fun before service fed =>
    step _ (.ownership service fed object [h]) before
  unfold processFederateModifyAttributeState
  cases f.root.getObject object with
  | error e => exact before
  | ok o =>
    cases attributeState with
    | true =>
      dsimp only
      rw [if_pos rfl]
      cases o.getAttribute h with
      | error e => exact before
      | ok oa =>
        have divested := served before .divest oa.owner
        dsimp only
        split
        · exact divested
        · exact served divested .acquire fed
    | false =>
      dsimp only
      rw [if_neg Bool.false_ne_true]
      split
      · exact before
      · exact served before .divest fed
      · exact before

theorem managed_keeps {p : Federation → Prop}
    (step : ∀ (f : Federation) (e : Event), p f → p (f.perform e).state) (f : Federation)
    (e : MomEvent) (before : p f) : p (managed f e).1 := by
  unfold managed
  split
  · exact before
  · cases e with
    | event e => exact step f e before
    | modifyAttributeState fed object h attributeState unsent =>
      exact modify_keeps step before fed object h attributeState unsent

/-- What holds at the start and is kept by every event holds after every run. -/
theorem managed_always {p : Federation → Prop}
    (step : ∀ (f : Federation) (e : Event), p f → p (f.perform e).state) (start : p f)
    (es : List MomEvent) : p (managed.exec f es) :=
  managed.exec_always (managed_keeps step) start es

theorem create_staffed (fom : Fom) (withMom haveXml : Bool) :
    (create fom withMom haveXml).Staffed := by
  refine ⟨by simp [create], ?_, ?_, ⟨create_declaredBy fom withMom haveXml _, by simp [create]⟩,
    (create_keeps fom withMom haveXml).1⟩
  · cases withMom <;> simp [create]
  · cases withMom <;> simp [create]

end Federation

/-! ## What the interaction does in every run -/

namespace Federation

variable {f : Federation} {fed : FederateHandle} {object : ObjectHandle} {h : AttributeHandle}
  {oa oa' : ObjectAttribute}

/-- Another owner, or one candidate less. -/
theorem Moved.changed (moved : Moved fed oa oa') (owned : oa.owner ≠ 0) : oa' ≠ oa := by
  intro same
  have owner : oa'.owner = oa.owner := by rw [same]
  have candidates : oa'.candidates = oa.candidates := by rw [same]
  cases moved with
  | freed _ => exact owned owner.symm
  | @handed newOwner first =>
    have waiting := ObjectAttribute.firstCandidate_mem first
    rw [← candidates] at waiting
    exact Finset.notMem_erase newOwner oa.candidates waiting
  | @asked newOwner first other =>
    have waiting := ObjectAttribute.firstCandidate_mem first
    rw [← candidates] at waiting
    rcases Finset.mem_insert.mp waiting with itself | earlier
    · exact other itself
    · exact Finset.notMem_erase newOwner oa.candidates (Finset.mem_of_mem_erase earlier)

/-- The federate gets the attribute exactly where it is the candidate that is served. -/
theorem Moved.held_iff (moved : Moved fed oa oa') (nonzero : fed ≠ 0) :
    (oa'.owner = fed ∧ oa'.divesting = false ∧ oa'.isCandidate fed = false) ↔
      oa.firstCandidate = some fed := by
  cases moved with
  | freed unwanted =>
    rw [unwanted]
    constructor
    · rintro ⟨owner, -⟩
      exact absurd owner.symm nonzero
    · intro absent
      cases absent
  | @handed newOwner first =>
    rw [first, Option.some_inj]
    constructor
    · exact fun held => held.1
    · rintro rfl
      refine ⟨rfl, rfl, ?_⟩
      simp [handOver, ObjectAttribute.isCandidate, ObjectAttribute.removeCandidate,
        ObjectAttribute.setDivesting]
  | @asked newOwner first other =>
    rw [first, Option.some_inj]
    exact ⟨fun held => held.1, fun itself => absurd itself other⟩

variable {unsent : Option RTIException}

theorem modify_holds_iff (staffed : f.Staffed) (member : f.check fed = true)
    (divestible : f.Divestible object h) :
    f.AllOrNothing fed object h unsent ↔ f.FirstInLine fed object h := by
  obtain ⟨oa, found, owner, named⟩ := divestible
  obtain ⟨o, known, inside⟩ := Option.bind_eq_some_iff.mp found
  have owners : ∀ g ∈ oa.candidates, g ≠ 0 :=
    ((staffed.held.objects o (lookup_mem known)).2 oa (lookup_mem inside)).2
  obtain ⟨oa', stored, moved⟩ := modify_moved fed unsent found owner named owners
  have held := moved.held_iff (staffed.check member)
  constructor
  · rintro (⟨oa₁, found₁, holds⟩ | ⟨_, unchanged⟩)
    · rw [stored, Option.some_inj] at found₁
      subst found₁
      exact ⟨oa, found, held.mp holds⟩
    · rw [unchanged, found, Option.some_inj] at stored
      exact absurd stored.symm (moved.changed (staffed.check owner))
  · rintro ⟨oa₁, found₁, first⟩
    rw [found, Option.some_inj] at found₁
    subst found₁
    exact .inl ⟨oa', stored, held.mpr first⟩

/-- With `false` the attribute is divested only where the federate owns it. -/
theorem modify_releasesOwn (f : Federation) (fed : FederateHandle) (object : ObjectHandle)
    (h : AttributeHandle) (unsent : Option RTIException) : f.ReleasesOwn fed object h unsent := by
  intro changed
  unfold processFederateModifyAttributeState RootObject.getObject at changed
  cases known : f.root.object? object with
  | none =>
    rw [known] at changed
    exact absurd rfl changed
  | some o =>
    rw [known] at changed
    dsimp only at changed
    rw [if_neg Bool.false_ne_true] at changed
    cases found : o.attribute? h with
    | none =>
      rw [Object.isAttributeOwnedByFederate, Object.getAttribute, found] at changed
      exact absurd rfl changed
    | some oa =>
      by_cases owner : oa.owner = fed
      · exact ⟨oa, by rw [RootObject.instanceAttribute?_of known, found], owner⟩
      · have someone : o.isAttributeOwnedByFederate fed h = .ok false := by
          simp [Object.isAttributeOwnedByFederate, getAttribute_of found, owner, bind,
            Except.bind, pure, Except.pure]
        rw [someone] at changed
        exact absurd rfl changed

end Federation

/-- Where nothing is divested, the federate's own attribute is one that it cannot publish. -/
theorem Federation.excused_of_obtained {f : Federation} {fed : FederateHandle} {object : ObjectHandle}
    {h : AttributeHandle} (member : f.check fed = true) (fixed : ¬ f.Divestible object h)
    (holds : f.root.Obtained fed object h) : f.root.Excused fed object h := by
  obtain ⟨oa, found, owner, -⟩ := holds
  refine .inr (.inl ?_)
  rintro ⟨oca, declared, -⟩
  have named : (f.root.classAttribute? object h).isSome = true := by rw [declared]; rfl
  exact fixed ⟨oa, found, by rw [owner]; exact member, named⟩

/-- In every state of every run: an attribute that can be divested goes to the federate exactly
where the federate is the candidate served, and another one only stays with an excuse. -/
theorem modifyAttributeState_iff (fom : Fom) (withMom haveXml : Bool) (es : List MomEvent)
    (fed : FederateHandle) (object : ObjectHandle) (h : AttributeHandle)
    (unsent : Option RTIException)
    (member : (managed.exec (Federation.create fom withMom haveXml) es).check fed = true) :
    let f := managed.exec (Federation.create fom withMom haveXml) es
    (f.AllOrNothing fed object h unsent ↔
      (f.Divestible object h → f.FirstInLine fed object h) ∧
        (¬ f.Divestible object h → f.root.Excused fed object h)) ∧
      f.ReleasesOwn fed object h unsent := by
  intro f
  have staffed : f.Staffed :=
    Federation.managed_always (fun _ e before => before.perform e)
      (Federation.create_staffed fom withMom haveXml) es
  refine ⟨?_, Federation.modify_releasesOwn f fed object h unsent⟩
  by_cases divestible : f.Divestible object h
  · rw [Federation.modify_holds_iff staffed member divestible]
    exact ⟨fun first => ⟨fun _ => first, fun fixed => absurd divestible fixed⟩,
      fun both => both.1 divestible⟩
  · have unchanged := Federation.modify_fixed fed unsent
      staffed.tidy.distinct divestible
    unfold Federation.AllOrNothing
    dsimp only
    rw [unchanged]
    constructor
    · rintro (holds | ⟨excused, -⟩)
      · exact ⟨fun moved => absurd moved divestible,
          fun _ => Federation.excused_of_obtained member divestible holds⟩
      · exact ⟨fun moved => absurd moved divestible, fun _ => excused⟩
    · rintro ⟨-, excused⟩
      exact .inr ⟨excused divestible, rfl⟩

/-- The second federate waits for the attribute of the first one. -/
def attributeWanted : List MomEvent :=
  [.event (joinAs "a"), .event (joinAs "b"), .event (.publishObject 1 1 [2] true),
    .event (.publishObject 2 1 [2] true), .event (.registerObject 1 1 ""),
    .event (.ownership .acquire 2 1 [2])]

theorem modifyAttributeState_waiting :
    let f := managed.exec (Federation.create smallFom false true) attributeWanted
    (f.AllOrNothing 2 1 2 none ↔
      (f.Divestible 1 2 → f.FirstInLine 2 1 2) ∧
        (¬ f.Divestible 1 2 → f.root.Excused 2 1 2)) ∧ f.ReleasesOwn 2 1 2 none :=
  modifyAttributeState_iff smallFom false true attributeWanted 2 1 2 none (by decide +kernel)

/-- Nobody waits for the attribute: it is taken from its owner and given to nobody. -/
theorem attribute_freed_for_nobody :
    ¬ ∀ (fom : Fom) (withMom haveXml : Bool) (es : List MomEvent) (fed : FederateHandle)
      (object : ObjectHandle) (h : AttributeHandle),
      (managed.exec (Federation.create fom withMom haveXml) es).AllOrNothing fed object h none := by
  intro always
  have freed : ((managed.exec (Federation.create smallFom false true) (attributeWanted.take 5 ++
      [.modifyAttributeState 2 1 2 true none])).root.instanceAttribute? 1 2).map
        ObjectAttribute.owner = some 0 := by
    decide +kernel
  have before : ((managed.exec (Federation.create smallFom false true)
      (attributeWanted.take 5)).root.instanceAttribute? 1 2).map ObjectAttribute.owner = some 1 := by
    decide +kernel
  rw [managed.exec_append] at freed
  rcases always smallFom false true (attributeWanted.take 5) 2 1 2 with
    ⟨oa, found, owner, -⟩ | ⟨-, same⟩
  · have stored := (congrArg (Option.map ObjectAttribute.owner) found).symm.trans freed
    rw [Option.map_some, owner] at stored
    cases stored
  · have unchanged := (congrArg (fun root => (root.instanceAttribute? 1 2).map
      ObjectAttribute.owner) same).symm.trans freed
    cases before.symm.trans unchanged

end Certi
