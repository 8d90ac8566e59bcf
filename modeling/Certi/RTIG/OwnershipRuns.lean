import Certi.RTIG.Frames
import Certi.LibCERTI.Instances
import Certi.LibCERTI.OwnershipInvariant

/-!
# Ownership over whole runs of a federation

The invariant of `OwnershipInvariant` for every instance of a federation, kept
by every event that meets `Orderly`: an acquisition lists no attribute it
obtains twice, an unconditional divestiture never frees privilegeToDelete, and
the federate whose connection is lost owns no attribute of another federate's
object that is wanted or offered.
-/
namespace Certi

open Keyed Sweep Federation Ownership Runs

/-! ## The statement -/

namespace RootObject

/-- Is this attribute of the instance its class's privilegeToDelete? -/
def privileged (root : RootObject) (o : Object) (h : AttributeHandle) : Bool :=
  match root.class? o.classHandle with
  | some c => c.privileged h
  | none => false

/-- Ownership of every attribute of every registered object makes sense. -/
def OwnershipSound (root : RootObject) : Prop :=
  ∀ o ∈ root.objects, ∀ oa ∈ o.attributes,
    oa.owner ∉ oa.candidates ∧
    (oa.divesting = true → oa.owner ≠ 0) ∧
    (oa.owner = 0 → oa.candidates = ∅ ∧ oa.divesting = false) ∧
    (root.privileged o oa.handle = true → o.owner = oa.owner)

instance (root : RootObject) : Decidable root.OwnershipSound :=
  inferInstanceAs (Decidable (∀ o ∈ root.objects, ∀ oa ∈ o.attributes, _))

end RootObject

namespace Federation

/-- The condition on an ownership request that the class would accept. -/
def OrderlyTransfer (service : OwnershipService) (fed : FederateHandle) (hs : List AttributeHandle)
    (c : ObjectClass) (o : Object) : Prop :=
  match service with
  | .acquire => acquisitionPreconditions c fed o hs = .ok () → ObtainedOnce o hs
  | .acquireIfAvailable =>
    acquisitionIfAvailablePreconditions c fed o hs = .ok () → ObtainedOnce o hs
  | .divest => unconditionalPreconditions c fed o hs = .ok () → PrivilegeCovered c o hs
  | .negotiateDivestiture | .cancelDivestiture | .respondRelease | .cancelAcquisition => True

def OrderlyRequest (root : RootObject) (service : OwnershipService) (fed : FederateHandle)
    (object : ObjectHandle) (hs : List AttributeHandle) : Prop :=
  ∀ o ∈ root.object? object, ∀ c ∈ root.class? o.classHandle, OrderlyTransfer service fed hs c o

/-- Nothing that another federate's object leaves with `fed` is wanted or offered. -/
def UnwantedLeftovers (root : RootObject) (fed : FederateHandle) : Prop :=
  ∀ o ∈ root.objects, o.owner ≠ fed → ∀ oa ∈ o.attributes, oa.owner = fed →
    oa.candidates = ∅ ∧ oa.divesting = false

instance (c : ObjectClass) (o : Object) (hs : List AttributeHandle) :
    Decidable (PrivilegeCovered c o hs) :=
  inferInstanceAs (Decidable (∀ h ∈ hs, c.privileged h = true → ∀ oa ∈ o.attribute? h, _))

instance (o : Object) (hs : List AttributeHandle) : Decidable (ObtainedOnce o hs) :=
  inferInstanceAs (Decidable (∀ h ∈ hs, ∀ oa ∈ o.attribute? h, obtainable oa = true → _))

instance (fed : FederateHandle) (hs : List AttributeHandle) (c : ObjectClass) (o : Object) :
    ∀ service, Decidable (OrderlyTransfer service fed hs c o)
  | .acquire =>
    inferInstanceAs (Decidable (acquisitionPreconditions c fed o hs = .ok () → ObtainedOnce o hs))
  | .acquireIfAvailable => inferInstanceAs (Decidable
      (acquisitionIfAvailablePreconditions c fed o hs = .ok () → ObtainedOnce o hs))
  | .divest => inferInstanceAs (Decidable
      (unconditionalPreconditions c fed o hs = .ok () → PrivilegeCovered c o hs))
  | .negotiateDivestiture | .cancelDivestiture | .respondRelease | .cancelAcquisition =>
    .isTrue trivial

instance (root : RootObject) (service : OwnershipService) (fed : FederateHandle)
    (object : ObjectHandle) (hs : List AttributeHandle) :
    Decidable (OrderlyRequest root service fed object hs) :=
  inferInstanceAs (Decidable
    (∀ o ∈ root.object? object, ∀ c ∈ root.class? o.classHandle, OrderlyTransfer service fed hs c o))

instance (root : RootObject) (fed : FederateHandle) : Decidable (UnwantedLeftovers root fed) :=
  inferInstanceAs (Decidable (∀ o ∈ root.objects, o.owner ≠ fed → ∀ oa ∈ o.attributes, _ → _))

/-- The condition on an event. -/
def Orderly (f : Federation) : Event → Prop
  | .ownership service fed object hs => OrderlyRequest f.root service fed object hs
  | .kill fed => UnwantedLeftovers f.root fed
  | _ => True

instance (f : Federation) : ∀ e : Event, Decidable (Orderly f e)
  | .ownership service fed object hs =>
    inferInstanceAs (Decidable (OrderlyRequest f.root service fed object hs))
  | .kill fed => inferInstanceAs (Decidable (UnwantedLeftovers f.root fed))
  | .join .. | .resign .. | .setTimeRegulating .. | .messageNull .. | .setTimeConstrained ..
  | .registerSynchronization .. | .synchronizationPointAchieved .. | .requestFederationSave ..
  | .federateSaveBegun .. | .federateSaveStatus .. | .publishObject .. | .subscribeObject ..
  | .subscribeAttributesWR .. | .unsubscribeAttributesWR .. | .publishInteraction ..
  | .subscribeInteraction .. | .subscribeInteractionWR .. | .createRegion ..
  | .associateRegion .. | .registerObject .. | .registerObjectWithRegion .. | .deleteObject .. =>
    .isTrue trivial

end Federation

/-! ## What a root object keeps -/

theorem OwnershipService.perform_sameInstance (service : OwnershipService) (fed : FederateHandle)
    (hs : List AttributeHandle) (c : ObjectClass) (o : Object) :
    o.SameInstance (service.perform fed hs c o).1.1 := by
  cases service with
  | negotiateDivestiture =>
    exact serve_sameInstance (fun t h t' ok => (negotiatedStep_success ok).sameInstance) o hs
  | acquireIfAvailable =>
    exact serve_sameInstance
      (fun t h t' ok => (acquisitionIfAvailableStep_success ok).sameInstance) o hs
  | divest =>
    rw [OwnershipService.perform, unconditional_served]
    exact serve_sameInstance (fun t h t' ok => (unconditionalStep_success ok).sameInstance) o hs
  | acquire =>
    exact serve_sameInstance (fun t h t' ok => (acquisitionStep_success ok).sameInstance) o hs
  | cancelDivestiture =>
    refine serve_sameInstance (fun t h t' ok => ?_) o hs
    obtain ⟨oa, _, result⟩ := cancelNegotiatedStep_success ok
    rw [result]
    exact t.1.setAttribute_sameInstance _
  | respondRelease =>
    refine serve_sameInstance (fun t h t' ok => ?_) o hs
    obtain ⟨oa, _, newOwner, _, result⟩ := releaseResponseStep_success ok
    rw [result]
    exact grant_sameInstance t.1 _ newOwner
  | cancelAcquisition =>
    refine serve_sameInstance (fun t h t' ok => ?_) o hs
    obtain ⟨oa, _, result⟩ := cancelAcquisitionStep_success ok
    rw [result]
    exact t.1.setAttribute_sameInstance _

/-- Distinct handles and one privilegeToDelete at most, as far as a class's FOM decides. -/
structure ObjectClass.WellFormed (c : ObjectClass) : Prop where
  distinct : (c.attributes.map ObjectClassAttribute.handle).Nodup
  onePrivilege : c.OnePrivilege

theorem ObjectClass.SameClass.wellFormed {c c' : ObjectClass} (same : c.SameClass c')
    (before : c.WellFormed) : c'.WellFormed := by
  refine ⟨by rw [same.handles]; exact before.distinct, ?_⟩
  intro h h' first second
  rw [same.privileged] at first second
  exact before.onePrivilege h h' first second

theorem Object.Consistent.congr {c c' : ObjectClass} {o : Object} (before : o.Consistent c)
    (same : c.SameClass c') : o.Consistent c' := by
  refine ⟨before.attributes, fun oa member privileged => ?_⟩
  rw [same.privileged] at privileged
  exact before.privilege oa member privileged

/-- Every instance has a class and is consistent with it, and federate 0 declares nothing. -/
structure RootObject.Owned (root : RootObject) : Prop where
  instances : ∀ o ∈ root.objects, ∃ c, root.class? o.classHandle = some c ∧ o.Consistent c
  classes : ∀ h c, root.class? h = some c → c.WellFormed
  declared : root.DeclaredBy (· ≠ 0)

namespace RootObject

variable {root root' : RootObject} {fed : FederateHandle}

theorem Owned.sound (owned : root.Owned) : root.OwnershipSound := by
  intro o member oa belongs
  obtain ⟨c, found, consistent⟩ := owned.instances o member
  have ok := consistent.attributes oa belongs
  refine ⟨ok.owner_not_candidate, ok.divesting_owned, ok.unowned_idle, ?_⟩
  intro privileged
  rw [RootObject.privileged, found] at privileged
  exact consistent.privilege oa belongs privileged

/-- The rule for every change: the classes stay the same, and each instance comes from one
of the same class that was at least as consistent. -/
theorem Owned.transfer (before : root.Owned) (same : root.SameClasses root')
    (declared : root'.DeclaredBy (· ≠ 0))
    (objects : ∀ o' ∈ root'.objects, ∃ o ∈ root.objects, o'.classHandle = o.classHandle ∧
      ∀ c, o.Consistent c → o'.Consistent c) : root'.Owned := by
  refine ⟨fun o' member => ?_, fun h c' found => ?_, declared⟩
  · obtain ⟨o, belongs, sameClass, keeps⟩ := objects o' member
    obtain ⟨c, found, consistent⟩ := before.instances o belongs
    obtain ⟨c', found', sameShape⟩ := same.class? found
    exact ⟨c', by rw [sameClass]; exact found', (keeps c consistent).congr sameShape⟩
  · obtain ⟨c, earlier, sameShape⟩ := same.class?' found
    exact sameShape.wellFormed (before.classes h c earlier)

/-- The case of the declarations: the instances are the same ones. -/
theorem Owned.declare (before : root.Owned) (same : root.Redeclares root')
    (declared : root'.DeclaredBy (· ≠ 0)) : root'.Owned := by
  have objects : root'.objects = root.objects := by rw [same.rest]
  exact before.transfer same.classes declared fun o' member =>
    ⟨o', objects ▸ member, rfl, fun _ consistent => consistent⟩

/-- A part of the root object that no instance, class or declaration is in may change. -/
theorem Owned.elsewhere (before : root.Owned) (classes : root'.classes = root.classes)
    (objects : ∀ o ∈ root'.objects, o ∈ root.objects)
    (interactions : root'.interactions = root.interactions) : root'.Owned := by
  have sameClass? : ∀ h, root'.class? h = root.class? h := by
    intro h
    rw [RootObject.class?, RootObject.class?, classes]
  refine ⟨fun o member => ?_, fun h c found => ?_, ?_⟩
  · rw [sameClass?]
    exact before.instances o (objects o member)
  · rw [sameClass?] at found
    exact before.classes h c found
  · exact ⟨by rw [classes]; exact before.declared.classes,
      by rw [interactions]; exact before.declared.interactions⟩

/-! ## Instances -/

theorem instanceAttributes_consistent {c : ObjectClass} {o : Object} (wellFormed : c.WellFormed)
    (member : fed ≠ 0) (attributes : o.attributes = c.instanceAttributes fed)
    (owner : o.owner = fed) : o.Consistent c := by
  refine ⟨fun oa belongs => ?_, fun oa belongs privileged => ?_⟩
  · rw [attributes] at belongs
    obtain ⟨oca, _, rfl⟩ := List.mem_map.mp belongs
    refine ⟨by simp, ?_, fun _ => ⟨rfl, rfl⟩, by simp⟩
    intro divesting
    cases divesting
  · rw [attributes] at belongs
    obtain ⟨oca, declared, rfl⟩ := List.mem_map.mp belongs
    have located : c.attribute? oca.handle = some oca :=
      lookup_of_nodup wellFormed.distinct declared
    simp only [ObjectClass.privileged, located] at privileged
    simp [owner, privileged]


theorem registerObjectInstance_owned (before : root.Owned) (classHandle : ObjectClassHandle)
    (object : ObjectHandle) (name : String) :
    (root.registerObjectInstance fed classHandle object name).state.Owned := by
  rcases registerObjectInstance_cases root fed classHandle object name with
    ⟨e, refused⟩ | ⟨c, sent, accepted⟩
  · rw [refused]
    exact before
  · -- a publisher of the class is no federate 0
    have member : fed ≠ 0 := by
      obtain ⟨a, belongs, publishing⟩ := List.any_eq_true.mp accepted.publisher
      exact (before.declared.classes c (lookup_mem accepted.found) a belongs).1 fed
        (by simpa [ObjectClassAttribute.isPublishing] using publishing)
    rw [accepted.outcome]
    refine ⟨fun o belongs => ?_, before.classes,
      ⟨before.declared.classes, before.declared.interactions⟩⟩
    rcases List.mem_append.mp belongs with earlier | new
    · exact before.instances o earlier
    · cases List.mem_singleton.mp new
      exact ⟨c, accepted.found,
        instanceAttributes_consistent (before.classes _ c accepted.found) member rfl rfl⟩

theorem deleteObjectInstance_owned (before : root.Owned) (fed : FederateHandle)
    (object : ObjectHandle) : (root.deleteObjectInstance fed object).state.Owned := by
  rcases deleteObjectInstance_cases root fed object with ⟨e, refused⟩ | ⟨o, sent, deletes⟩
  · rw [refused]
    exact before
  · rw [deletes.outcome]
    exact before.elsewhere rfl (fun o member => (mem_drop.mp member).1) rfl

/-- Storing a consistent version of an instance. -/
theorem setObject_owned (before : root.Owned) {object : ObjectHandle} {o o' : Object}
    (found : root.object? object = some o) (sameClass : o'.classHandle = o.classHandle)
    (consistent : ∀ c, root.class? o.classHandle = some c → c.WellFormed → o.Consistent c →
      o'.Consistent c) : (root.setObject o').Owned := by
  refine ⟨?_, before.classes, ⟨before.declared.classes, before.declared.interactions⟩⟩
  refine forall_replace before.instances ?_
  obtain ⟨c, located, old⟩ := before.instances o (lookup_mem found)
  exact ⟨c, by rw [sameClass]; exact located,
    consistent c located (before.classes _ c located) old⟩

theorem SameButRegions.consistent {c : ObjectClass} {o o' : Object} (same : SameButRegions o o')
    (before : o.Consistent c) : o'.Consistent c := by
  refine ⟨fun oa' member => ?_, fun oa' member privileged => ?_⟩
  · obtain ⟨oa, belongs, region, rfl⟩ := same.attributes oa' member
    have ok := before.attributes oa belongs
    exact ⟨ok.owner_not_candidate, ok.divesting_owned, ok.unowned_idle, ok.zero_not_candidate⟩
  · obtain ⟨oa, belongs, region, rfl⟩ := same.attributes oa' member
    rw [same.owner]
    exact before.privilege oa belongs privileged

theorem associate_owned (before : root.Owned) (object : ObjectHandle) (region : RegionHandle)
    (hs : List AttributeHandle) : (root.associate object region hs).state.Owned := by
  rcases associate_cases root object region hs with unchanged | ⟨o, o', found, same, result⟩
  · rw [unchanged]
    exact before
  · rw [result]
    exact setObject_owned before found same.classHandle fun c _ _ => same.consistent

theorem createRegion_owned (before : root.Owned) (space : SpaceHandle) (extents : Nat) :
    (root.createRegion space extents).state.Owned := by
  unfold createRegion
  split
  · exact before
  · split
    · exact before
    · exact before.elsewhere rfl (fun o member => member) rfl

/-! ## Ownership services -/

/-- The condition on a request, for one instance and its class. -/
theorem perform_consistent {service : OwnershipService} {c : ObjectClass} {o : Object}
    {hs : List AttributeHandle} (wellFormed : c.WellFormed) (member : fed ≠ 0)
    (found : root.class? o.classHandle = some c) {object : ObjectHandle}
    (known : root.object? object = some o) (orderly : OrderlyRequest root service fed object hs)
    (before : o.Consistent c) : (service.perform fed hs c o).1.1.Consistent c := by
  have admitted := orderly o known c found
  have one := wellFormed.onePrivilege
  cases service with
  | negotiateDivestiture => exact negotiated_consistent before one member
  | acquireIfAvailable => exact acquisitionIfAvailable_consistent before one member admitted
  | divest => exact unconditional_consistent before one admitted
  | acquire => exact acquisition_consistent before one member admitted
  | cancelDivestiture => exact cancelNegotiated_consistent before
  | respondRelease => exact releaseResponse_consistent before one
  | cancelAcquisition => exact cancelAcquisition_consistent before

theorem ownershipService_owned (before : root.Owned) (member : fed ≠ 0)
    {service : OwnershipService} {object : ObjectHandle} {hs : List AttributeHandle}
    (orderly : OrderlyRequest root service fed object hs) :
    (root.ownershipService object (service.perform fed hs)).1.state.Owned := by
  rcases ownershipService_cases root object (service.perform fed hs) with
    unchanged | ⟨o, c, known, found, result⟩
  · rw [unchanged]
    exact before
  · rw [result]
    refine setObject_owned before known
      (service.perform_sameInstance fed hs c o).classHandle fun c' found' wellFormed consistent => ?_
    rw [found] at found'
    cases found'
    exact perform_consistent wellFormed member found known orderly consistent

/-! ## Departure -/

/-- The attributes a departed federate owned are free; unwanted ones stay consistent. -/
theorem killFederate_consistent {c : ObjectClass} {o : Object} (before : o.Consistent c)
    (other : o.owner ≠ fed)
    (unwanted : ∀ oa ∈ o.attributes, oa.owner = fed → oa.candidates = ∅ ∧ oa.divesting = false) :
    (o.killFederate fed).Consistent c := by
  refine ⟨fun oa' member => ?_, fun oa' member privileged => ?_⟩
  · obtain ⟨oa, belongs, rfl⟩ := List.mem_map.mp member
    have ok := before.attributes oa belongs
    split
    · rename_i owner
      obtain ⟨idle, kept⟩ := unwanted oa belongs owner
      refine ⟨ok.zero_not_candidate, fun divesting => ?_, fun _ => ⟨idle, kept⟩,
        ok.zero_not_candidate⟩
      change oa.divesting = true at divesting
      rw [kept] at divesting
      cases divesting
    · exact ok
  · obtain ⟨oa, belongs, rfl⟩ := List.mem_map.mp member
    have handle : (if oa.owner = fed then oa.setOwner 0 else oa).handle = oa.handle := by
      split <;> rfl
    rw [handle] at privileged
    have owner := before.privilege oa belongs privileged
    -- the owner of privilegeToDelete owns the object, so it is not the one that left
    have stays : oa.owner ≠ fed := fun equal => other (owner.trans equal)
    rw [if_neg stays]
    exact owner

theorem killFederate_owned (before : root.Owned) (unwanted : UnwantedLeftovers root fed) :
    (root.killFederate fed).1.Owned := by
  obtain ⟨same, objects, declared, _⟩ := killFederate_frame (p := (· ≠ 0)) root fed
  refine before.transfer same (declared before.declared) fun o' member => ?_
  obtain ⟨o, belongs, other, rfl⟩ := objects o' member
  exact ⟨o, belongs, rfl, fun c consistent =>
    killFederate_consistent consistent other (unwanted o belongs other)⟩

end RootObject

/-! ## What a federation keeps -/

namespace Federation

variable {f f' : Federation} {fed : FederateHandle}

/-- Federate 0 is nobody, and the root object is owned as it should be. -/
structure OwnershipInvariant (f : Federation) : Prop where
  members : ∀ fed ∈ f.federates, fed.handle ≠ 0
  mom : f.root.server.momHandle ≠ some 0
  next : f.nextFederate ≠ 0
  owned : f.root.Owned

theorem OwnershipInvariant.check (holds : f.OwnershipInvariant) (member : f.check fed = true) :
    fed ≠ 0 := by
  rintro rfl
  simp only [Federation.check, Bool.or_eq_true, decide_eq_true_eq] at member
  rcases member with mom | joined
  · exact holds.mom mom
  · unfold isJoined federate? at joined
    obtain ⟨record, found⟩ := Option.isSome_iff_exists.mp joined
    exact holds.members record (lookup_mem found) (lookup_key found)

/-- A change of the root object alone. -/
theorem OwnershipInvariant.setRoot (holds : f.OwnershipInvariant)
    (federates : f'.federates = f.federates) (next : f'.nextFederate = f.nextFederate)
    (mom : f'.root.server.momHandle = f.root.server.momHandle) (owned : f'.root.Owned) :
    f'.OwnershipInvariant :=
  ⟨by rw [federates]; exact holds.members, by rw [mom]; exact holds.mom,
    by rw [next]; exact holds.next, owned⟩

theorem SameMembers.ownershipInvariant (same : SameMembers f f') (holds : f.OwnershipInvariant) :
    f'.OwnershipInvariant := by
  refine ⟨fun fed member => ?_, by rw [same.root]; exact holds.mom,
    by rw [same.nextFederate]; exact holds.next, by rw [same.root]; exact holds.owned⟩
  have listed : fed.handle ∈ f.federates.map Federate.handle := by
    rw [← same.handles]
    exact List.mem_map_of_mem member
  obtain ⟨old, belongs, equal⟩ := List.mem_map.mp listed
  rw [← equal]
  exact holds.members old belongs

theorem add_ownershipInvariant (holds : f.OwnershipInvariant) (name : String)
    (conditions : JoinConditions) : (f.add name conditions).state.OwnershipInvariant := by
  rcases add_cases f name conditions with unchanged | ⟨handles, next, _, _, root⟩
  · rw [unchanged]
    exact holds
  · have members : ∀ g ∈ (f.add name conditions).state.federates, g.handle ≠ 0 := by
      intro g member
      have listed := List.mem_map_of_mem (f := Federate.handle) member
      rw [handles, List.mem_append] at listed
      rcases listed with old | new
      · obtain ⟨before, belongs, equal⟩ := List.mem_map.mp old
        rw [← equal]
        exact holds.members before belongs
      · rw [List.mem_singleton.mp new]
        exact holds.next
    have successor : (f.add name conditions).state.nextFederate ≠ 0 := by
      rw [next]
      exact Nat.succ_ne_zero _
    rcases root with root | root
    · exact ⟨members, by rw [root]; exact holds.mom, successor, by rw [root]; exact holds.owned⟩
    · refine ⟨members, ?_, successor, ?_⟩
      · rw [root]
        exact holds.mom
      · rw [root]
        exact holds.owned.elsewhere rfl (fun o member => member) rfl

theorem drop_ownershipInvariant (holds : f.OwnershipInvariant) (fed : FederateHandle) :
    OwnershipInvariant { f with federates := drop Federate.handle fed f.federates } :=
  ⟨fun g member => holds.members g (mem_drop.mp member).1, holds.mom, holds.next, holds.owned⟩

theorem remove_ownershipInvariant (holds : f.OwnershipInvariant) (fed : FederateHandle) :
    (f.remove fed).state.OwnershipInvariant := by
  rcases remove_cases f fed with refused | ⟨_, removed⟩
  · rw [refused]
    exact holds
  · rw [removed]
    exact drop_ownershipInvariant holds fed

theorem kill_ownershipInvariant (holds : f.OwnershipInvariant)
    (unwanted : UnwantedLeftovers f.root fed) : (f.kill fed).state.OwnershipInvariant := by
  rcases kill_cases f fed with refused | ⟨_, result, _⟩
  · rw [refused]
    exact holds
  · have closed : (f.closeLink fed).OwnershipInvariant :=
      holds.setRoot rfl rfl rfl (holds.owned.elsewhere rfl (fun o member => member) rfl)
    have unregulated := SameMembers.ownershipInvariant
      (sameMembers_of_timeless (removeRegulator_timeless (f.closeLink fed) fed)) closed
    have server := (RootObject.killFederate_frame (p := fun _ => True) (f.closeLink fed).root fed).2.2.2
    rw [result]
    refine ⟨fun g member => unregulated.members g (mem_drop.mp member).1, ?_, unregulated.next,
      RootObject.killFederate_owned closed.owned unwanted⟩
    rw [server]
    exact closed.mom

/-- A service of the root object that keeps it owned keeps the invariant. -/
theorem onRoot_ownershipInvariant (holds : f.OwnershipInvariant)
    {s : RootObject → Outcome RootObject}
    (owned : (s f.root).state.Owned)
    (server : (s f.root).state.server = f.root.server) :
    (f.onRoot s).state.OwnershipInvariant :=
  holds.setRoot rfl rfl (congrArg SecurityServer.momHandle server) owned

theorem memberOnRoot_ownershipInvariant (holds : f.OwnershipInvariant)
    {service : RootObject → Outcome RootObject}
    (owned : fed ≠ 0 → (service f.root).state.Owned)
    (server : (service f.root).state.server = f.root.server) :
    (f.memberOnRoot fed service).state.OwnershipInvariant :=
  asMember_cases (p := fun outcome => outcome.state.OwnershipInvariant) holds fun member =>
    onRoot_ownershipInvariant holds (owned (holds.check member)) server

/-- A declaration of a member. -/
theorem declaration_ownershipInvariant (holds : f.OwnershipInvariant)
    {service : RootObject → Outcome RootObject}
    (redeclares : f.root.Redeclares (service f.root).state)
    (declared : fed ≠ 0 → (service f.root).state.DeclaredBy (· ≠ 0)) :
    (f.memberOnRoot fed service).state.OwnershipInvariant :=
  memberOnRoot_ownershipInvariant holds
    (fun member => holds.owned.declare redeclares (declared member))
    (by rw [redeclares.rest])

/-- A declaration made with a region, which is looked up first. -/
theorem declarationWithRegion_ownershipInvariant (holds : f.OwnershipInvariant)
    {region : RegionHandle} {service : RootObject → Outcome RootObject}
    (redeclares : f.root.Redeclares (service f.root).state)
    (declared : fed ≠ 0 → (service f.root).state.DeclaredBy (· ≠ 0)) :
    (f.memberWithRegion fed region service).state.OwnershipInvariant := by
  unfold memberWithRegion
  refine declaration_ownershipInvariant holds ?_ ?_
  · split
    · exact .refl f.root
    · exact redeclares
  · intro member
    split
    · exact holds.owned.declared
    · exact declared member

theorem registerObject_ownershipInvariant (holds : f.OwnershipInvariant)
    (fed : FederateHandle) (classHandle : ObjectClassHandle) (name : String) :
    (f.registerObject fed classHandle name).state.OwnershipInvariant := by
  unfold registerObject
  refine onRoot_ownershipInvariant (f := { f with nextObject := f.nextObject + 1 })
    ⟨holds.members, holds.mom, holds.next, holds.owned⟩ ?_ ?_
  · exact RootObject.registerObjectInstance_owned holds.owned classHandle _ _
  · exact RootObject.registerObjectInstance_server f.root fed classHandle _ _

theorem registerObjectWithRegion_ownershipInvariant (holds : f.OwnershipInvariant)
    (fed : FederateHandle) (classHandle : ObjectClassHandle) (name : String)
    (region : RegionHandle) (hs : List AttributeHandle) :
    (f.registerObjectWithRegion fed classHandle name region hs).state.OwnershipInvariant := by
  refine asMember_cases (p := fun outcome => outcome.state.OwnershipInvariant) holds fun _ => ?_
  have registered := registerObject_ownershipInvariant holds fed classHandle name
  dsimp only
  split
  · exact registered
  · have associated := onRoot_ownershipInvariant registered
      (s := (·.associate f.nextObject region hs))
      (RootObject.associate_owned registered.owned f.nextObject region hs)
      (RootObject.associate_server _ f.nextObject region hs)
    split <;> exact associated

theorem ownership_ownershipInvariant (holds : f.OwnershipInvariant)
    {service : OwnershipService} {object : ObjectHandle} {hs : List AttributeHandle}
    (orderly : OrderlyRequest f.root service fed object hs) :
    (f.ownership service fed object hs).state.OwnershipInvariant := by
  refine asMember_cases (p := fun outcome => outcome.state.OwnershipInvariant) holds fun member => ?_
  refine holds.setRoot rfl rfl ?_
    (RootObject.ownershipService_owned holds.owned (holds.check member) orderly)
  exact congrArg SecurityServer.momHandle
    (RootObject.ownershipService_server f.root object (service.perform fed hs))

/-- One event keeps the invariant. -/
theorem perform_ownershipInvariant (holds : f.OwnershipInvariant) {e : Event}
    (orderly : Orderly f e) : (f.perform e).state.OwnershipInvariant := by
  have internal : e.isInternal = true → (f.perform e).state.OwnershipInvariant :=
    fun internal => (perform_internal f internal).ownershipInvariant holds
  have root := holds.owned
  cases e with
  | join name conditions => exact add_ownershipInvariant holds name conditions
  | resign fed => exact remove_ownershipInvariant holds fed
  | kill fed => exact kill_ownershipInvariant holds orderly
  | publishObject fed c hs flag =>
    exact declaration_ownershipInvariant holds (RootObject.publish_redeclares f.root fed c hs flag)
      fun member => RootObject.publish_declaredBy root.declared member c hs flag
  | subscribeObject fed c hs =>
    exact declaration_ownershipInvariant holds
      (RootObject.subscribe_redeclares f.root fed c hs none)
      fun member => RootObject.subscribe_declaredBy root.declared member c hs none
  | subscribeAttributesWR fed c region hs =>
    exact declarationWithRegion_ownershipInvariant holds
      (RootObject.subscribe_redeclares f.root fed c hs (some region))
      fun member => RootObject.subscribe_declaredBy root.declared member c hs (some region)
  | unsubscribeAttributesWR fed c region =>
    exact declarationWithRegion_ownershipInvariant holds
      (RootObject.unsubscribeWith_redeclares f.root fed c (some region))
      fun _ => RootObject.unsubscribeWith_declaredBy root.declared fed c (some region)
  | publishInteraction fed i flag =>
    exact declaration_ownershipInvariant holds (RootObject.declareInteraction_redeclares f.root i _)
      fun member => RootObject.publishInteraction_declaredBy root.declared member i flag
  | subscribeInteraction fed i flag =>
    exact declaration_ownershipInvariant holds (RootObject.declareInteraction_redeclares f.root i _)
      fun member => RootObject.subscribeInteraction_declaredBy root.declared member i none flag
  | subscribeInteractionWR fed i region flag =>
    exact declarationWithRegion_ownershipInvariant holds
      (RootObject.declareInteraction_redeclares f.root i _) fun member =>
        RootObject.subscribeInteraction_declaredBy root.declared member i (some region) flag
  | createRegion fed space extents =>
    exact memberOnRoot_ownershipInvariant holds
      (fun _ => RootObject.createRegion_owned root space extents)
      (RootObject.createRegion_server f.root space extents)
  | associateRegion fed object region hs =>
    exact memberOnRoot_ownershipInvariant holds
      (fun _ => RootObject.associate_owned root object region hs)
      (RootObject.associate_server f.root object region hs)
  | registerObject fed c name => exact registerObject_ownershipInvariant holds fed c name
  | registerObjectWithRegion fed c name region hs =>
    exact registerObjectWithRegion_ownershipInvariant holds fed c name region hs
  | deleteObject fed object =>
    exact memberOnRoot_ownershipInvariant holds
      (fun _ => RootObject.deleteObjectInstance_owned root fed object)
      (RootObject.deleteObjectInstance_server f.root fed object)
  | ownership service fed object hs => exact ownership_ownershipInvariant holds orderly
  | _ => exact internal rfl

end Federation

/-! ## Whole runs -/

/-- No class of the FOM has two attributes named privilegeToDelete. -/
def Fom.OnePrivilege (fom : Fom) : Prop :=
  ∀ c ∈ fom.classes, c.attributes.Pairwise fun a b =>
    ¬(a.name = "privilegeToDelete" ∧ b.name = "privilegeToDelete")

instance (fom : Fom) : Decidable fom.OnePrivilege :=
  inferInstanceAs (Decidable (∀ c ∈ fom.classes, List.Pairwise _ c.attributes))

theorem FomClass.create_handles (c : FomClass) (handle : ObjectClassHandle) :
    (c.create handle).attributes.map ObjectClassAttribute.handle =
      List.range' 1 c.attributes.length := by
  simp only [FomClass.create, List.map_map]
  rw [← List.zipIdx_map_snd 1 c.attributes, List.zipIdx_succ]
  simp [Function.comp_def]

theorem FomClass.create_wellFormed {c : FomClass}
    (one : c.attributes.Pairwise fun a b =>
      ¬(a.name = "privilegeToDelete" ∧ b.name = "privilegeToDelete"))
    (handle : ObjectClassHandle) : (c.create handle).WellFormed := by
  refine ⟨by rw [c.create_handles]; exact List.nodup_range', ?_⟩
  have named : ∀ h, (c.create handle).privileged h = true →
      ∃ i, ∃ bound : i < c.attributes.length,
        c.attributes[i].name = "privilegeToDelete" ∧ h = i + 1 := by
    intro h privileged
    unfold ObjectClass.privileged at privileged
    split at privileged
    · rename_i oca found
      have key : oca.handle = h := lookup_key found
      obtain ⟨a, belongs, rfl⟩ := List.mem_map.mp (lookup_mem found)
      obtain ⟨_, bound, read⟩ := List.mem_zipIdx belongs
      simp only [Nat.zero_add, Nat.sub_zero] at bound read
      exact ⟨a.2, bound, by simpa [ObjectClassAttribute.isNamed, read] using privileged, key.symm⟩
    · cases privileged
  have apart := List.pairwise_iff_getElem.mp one
  intro h h' first second
  obtain ⟨i, bound, name, rfl⟩ := named h first
  obtain ⟨j, bound', name', rfl⟩ := named h' second
  rcases lt_trichotomy i j with before | equal | after
  · exact absurd ⟨name, name'⟩ (apart i j bound bound' before)
  · rw [equal]
  · exact absurd ⟨name', name⟩ (apart j i bound' bound after)

theorem create_ownershipInvariant {fom : Fom} (one : fom.OnePrivilege) (withMom haveXml : Bool) :
    (Federation.create fom withMom haveXml).OwnershipInvariant := by
  refine ⟨by simp [Federation.create], ?_, ?_, ?_⟩
  · cases withMom <;> simp [Federation.create]
  · cases withMom <;> simp [Federation.create]
  · refine ⟨by simp [Federation.create], fun h c found => ?_,
      create_declaredBy fom withMom haveXml _⟩
    obtain ⟨declared, belongs, rfl⟩ := List.mem_map.mp (lookup_mem found)
    exact FomClass.create_wellFormed (one declared.1 (List.fst_mem_of_mem_zipIdx belongs)) _

/-- In a run of orderly events ownership makes sense at the end, and so in every state. -/
theorem ownership_sound {fom : Fom} (one : fom.OnePrivilege) (withMom haveXml : Bool)
    (es : List Event) (orderly : rtig.Meets Orderly (Federation.create fom withMom haveXml) es) :
    (rtig.exec (Federation.create fom withMom haveXml) es).root.OwnershipSound := by
  have holds := rtig.exec_invariant (p := Federation.OwnershipInvariant) ?_
    (create_ownershipInvariant one withMom haveXml) orderly
  · exact holds.owned.sound
  · intro f e before ok
    unfold rtig
    split
    · exact before
    · exact perform_ownershipInvariant before ok

/-- Two federates; the first registers an instance of the class they both publish. -/
def twoPublishers : List Event :=
  [joinAs "a", joinAs "b", .publishObject 1 1 [2] true, .publishObject 2 1 [3] true,
    .registerObject 1 1 ""]

theorem ownership_sound_exchange :
    (rtig.exec (Federation.create smallFom false true) (twoPublishers ++
      [.ownership .acquire 2 1 [3], .ownership .acquire 2 1 [1], .ownership .divest 1 1 [1],
        .kill 1])).root.OwnershipSound :=
  ownership_sound (by decide) false true _ (by decide +kernel)

/-- A free attribute listed twice in one acquisition: the second time it is owned, by the
federate itself, which becomes a candidate of its own attribute. -/
theorem acquisition_listed_twice :
    ¬ ∀ (fom : Fom) (withMom haveXml : Bool) (es : List Event), fom.OnePrivilege →
      (rtig.exec (Federation.create fom withMom haveXml) es).root.OwnershipSound := by
  intro always
  have sound := always smallFom false true
    (twoPublishers ++ [.ownership .acquire 2 1 [3, 3]]) (by decide)
  revert sound
  decide +kernel

end Certi
