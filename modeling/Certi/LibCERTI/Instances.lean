import Certi.LibCERTI.Declarations

/-!
# What happens to instances

One inversion lemma for each service of the root object that creates, removes
or changes an instance: it was refused and nothing changed, or it did exactly
what the lemma says. A departure is described by what it leaves.
-/
namespace Certi

open Keyed Sweep

namespace RootObject

variable {root : RootObject} {fed : FederateHandle} {object : ObjectHandle}

/-! ## Registration and deletion -/

/-- The instance a registration adds. -/
def newInstance (c : ObjectClass) (fed : FederateHandle) (classHandle : ObjectClassHandle)
    (object : ObjectHandle) (name : String) : Object :=
  ⟨object, name, classHandle, fed, c.instanceAttributes fed⟩

/-- An accepted registration: a fresh handle and name, a class the federate publishes, and
the broadcast of the discovery. -/
structure Registers (root : RootObject) (fed : FederateHandle) (classHandle : ObjectClassHandle)
    (object : ObjectHandle) (name : String) (c : ObjectClass) (sent : Responses) : Prop where
  freshHandle : root.object? object = none
  freshName : ∀ o ∈ root.objects, o.name ≠ name
  found : root.class? classHandle = some c
  publisher : c.isFederatePublisher fed = true
  broadcast : broadcastUp root.server fed (fun h => .discoverObject fed h object name)
    (BroadcastLines.start fed) (root.lineage classHandle) = .ok sent
  outcome : root.registerObjectInstance fed classHandle object name =
    .done { root with
      objects := root.objects ++ [newInstance c fed classHandle object name]
      reservedNames := drop Prod.fst name root.reservedNames } sent

theorem registerObjectInstance_cases (root : RootObject) (fed : FederateHandle)
    (classHandle : ObjectClassHandle) (object : ObjectHandle) (name : String) :
    (∃ e, root.registerObjectInstance fed classHandle object name = .refused root e) ∨
      ∃ c sent, root.Registers fed classHandle object name c sent := by
  have admitted : (∃ e, root.registerObjectInstance fed classHandle object name =
      .refused root e) ∨ root.registerObjectInstance fed classHandle object name =
        registerObjectInstance.register root fed classHandle object name := by
    unfold registerObjectInstance
    split
    · split
      · exact .inl ⟨_, rfl⟩
      · exact .inr rfl
    · exact .inr rfl
  rcases admitted with refused | admitted
  · exact .inl refused
  · unfold registerObjectInstance.register at admitted
    split at admitted
    · exact .inl ⟨_, admitted⟩
    · rename_i fresh
      simp only [Bool.or_eq_true, not_or, Bool.not_eq_true, Option.isSome_eq_false_iff,
        Option.isNone_iff_eq_none, List.any_eq_false, decide_eq_true_eq] at fresh
      split at admitted
      · exact .inl ⟨_, admitted⟩
      · rename_i c found
        split at admitted
        · exact .inl ⟨_, admitted⟩
        · rename_i publisher
          dsimp only at admitted
          split at admitted
          · exact .inl ⟨_, admitted⟩
          · rename_i sent broadcast
            exact .inr ⟨c, sent, fresh.1, fresh.2, found, by simpa using publisher, broadcast,
              admitted⟩

/-- An accepted deletion: the owner asks for it, and the broadcast of the removal. -/
structure Deletes (root : RootObject) (fed : FederateHandle) (object : ObjectHandle) (o : Object)
    (sent : Responses) : Prop where
  found : root.object? object = some o
  owner : o.owner = fed
  broadcast : broadcastUp root.server fed (fun h => .removeObject fed h object)
    (BroadcastLines.start fed) (root.lineage o.classHandle) = .ok sent
  outcome : root.deleteObjectInstance fed object =
    .done { root with objects := drop Object.handle object root.objects } sent

theorem deleteObjectInstance_cases (root : RootObject) (fed : FederateHandle)
    (object : ObjectHandle) :
    (∃ e, root.deleteObjectInstance fed object = .refused root e) ∨
      ∃ o sent, root.Deletes fed object o sent := by
  cases found : root.object? object with
  | none => exact .inl ⟨_, by rw [deleteObjectInstance, found]⟩
  | some o =>
    by_cases owner : o.owner = fed
    · cases broadcast : broadcastUp root.server fed (fun h => .removeObject fed h object)
          (BroadcastLines.start fed) (root.lineage o.classHandle) with
      | error e =>
        refine .inl ⟨e, ?_⟩
        simp only [deleteObjectInstance, found, owner, not_true_eq_false, if_false, broadcast,
          ne_eq]
      | ok sent =>
        refine .inr ⟨o, sent, found, owner, broadcast, ?_⟩
        simp only [deleteObjectInstance, found, owner, not_true_eq_false, if_false, broadcast,
          ne_eq]
    · refine .inl ⟨.deletePrivilegeNotHeld, ?_⟩
      simp only [deleteObjectInstance, found, ne_eq, owner, not_false_eq_true, if_true]

/-! ## Changes of one instance -/

/-- A service that stores a new version of one instance. -/
def RewritesInstance (object : ObjectHandle) (p : Object → Object → Prop)
    (root root' : RootObject) : Prop :=
  root' = root ∨ ∃ o o', root.object? object = some o ∧ p o o' ∧ root' = root.setObject o'

/-- Nothing but regions of attributes changes. -/
structure SameButRegions (o o' : Object) : Prop where
  handle : o'.handle = o.handle
  name : o'.name = o.name
  classHandle : o'.classHandle = o.classHandle
  owner : o'.owner = o.owner
  attributes : ∀ oa' ∈ o'.attributes, ∃ oa ∈ o.attributes, ∃ region, oa' = { oa with region := region }

theorem SameButRegions.trans {o p q : Object} (first : SameButRegions o p)
    (second : SameButRegions p q) : SameButRegions o q := by
  refine ⟨second.handle.trans first.handle, second.name.trans first.name,
    second.classHandle.trans first.classHandle, second.owner.trans first.owner, ?_⟩
  intro c member
  obtain ⟨b, belongs, region, rfl⟩ := second.attributes c member
  obtain ⟨a, original, earlier, rfl⟩ := first.attributes b belongs
  exact ⟨a, original, region, rfl⟩

theorem unassociate_sameButRegions (o : Object) (region : RegionHandle) :
    SameButRegions o (o.unassociate region) := by
  refine ⟨rfl, rfl, rfl, rfl, fun oa' member => ?_⟩
  obtain ⟨oa, belongs, rfl⟩ := List.mem_map.mp member
  split
  · exact ⟨oa, belongs, none, rfl⟩
  · exact ⟨oa, belongs, oa.region, rfl⟩

theorem setRegion_sameButRegions {o : Object} {h : AttributeHandle} {oa : ObjectAttribute}
    (found : o.attribute? h = some oa) (region : Option RegionHandle) :
    SameButRegions o (o.setAttribute { oa with region := region }) := by
  refine ⟨rfl, rfl, rfl, rfl, fun oa' member => ?_⟩
  rcases mem_replace member with rfl | ⟨belongs, _⟩
  · exact ⟨oa, Object.attribute?_mem found, region, rfl⟩
  · exact ⟨oa', belongs, oa'.region, rfl⟩

theorem associate_cases (root : RootObject) (object : ObjectHandle) (region : RegionHandle)
    (hs : List AttributeHandle) :
    RewritesInstance object SameButRegions root
      (root.associate object region hs).state := by
  unfold associate
  split
  · exact .inl rfl
  · exact .inl rfl
  · rename_i o _ found
    have known : root.object? object = some o := by
      unfold getObject at found
      split at found
      · rename_i o' located
        cases found
        exact located
      · cases found
    refine .inr ⟨o, _, known, ?_, rfl⟩
    refine sweep_invariant (p := fun s => SameButRegions o s) ?_ (unassociate_sameButRegions o region)
    intro s h next _ holds success
    dsimp only at success
    cases located : s.getAttribute h with
    | error e =>
      rw [located] at success
      cases success
    | ok oa =>
      rw [located] at success
      cases success
      exact holds.trans (setRegion_sameButRegions (Object.getAttribute_ok.mp located) _)

theorem ownershipService_cases (root : RootObject) (object : ObjectHandle)
    (service : ObjectClass → Object → Transfer × Option RTIException) :
    (root.ownershipService object service).1.state = root ∨
      ∃ o c, root.object? object = some o ∧ root.class? o.classHandle = some c ∧
        (root.ownershipService object service).1.state = root.setObject (service c o).1.1 := by
  unfold ownershipService
  split
  · exact .inl rfl
  · rename_i o found
    split
    · exact .inl rfl
    · rename_i c located
      exact .inr ⟨o, c, found, located, rfl⟩

/-! ## Access control stays -/

theorem registerObjectInstance_server (root : RootObject) (fed : FederateHandle)
    (classHandle : ObjectClassHandle) (object : ObjectHandle) (name : String) :
    (root.registerObjectInstance fed classHandle object name).state.server = root.server := by
  rcases registerObjectInstance_cases root fed classHandle object name with
    ⟨e, refused⟩ | ⟨c, sent, accepted⟩
  · rw [refused]
    rfl
  · rw [accepted.outcome]
    rfl

theorem deleteObjectInstance_server (root : RootObject) (fed : FederateHandle)
    (object : ObjectHandle) : (root.deleteObjectInstance fed object).state.server = root.server := by
  rcases deleteObjectInstance_cases root fed object with ⟨e, refused⟩ | ⟨o, sent, deletes⟩
  · rw [refused]
    rfl
  · rw [deletes.outcome]
    rfl

theorem associate_server (root : RootObject) (object : ObjectHandle) (region : RegionHandle)
    (hs : List AttributeHandle) : (root.associate object region hs).state.server = root.server := by
  rcases associate_cases root object region hs with unchanged | ⟨o, o', _, _, result⟩
  · rw [unchanged]
  · rw [result]
    rfl

theorem ownershipService_server (root : RootObject) (object : ObjectHandle)
    (service : ObjectClass → Object → Transfer × Option RTIException) :
    (root.ownershipService object service).1.state.server = root.server := by
  rcases ownershipService_cases root object service with unchanged | ⟨o, c, _, _, result⟩
  · rw [unchanged]
  · rw [result]
    rfl

theorem createRegion_server (root : RootObject) (space : SpaceHandle) (extents : Nat) :
    (root.createRegion space extents).state.server = root.server := by
  unfold createRegion
  split
  · rfl
  · split <;> rfl

/-! ## Handles stay distinct -/

/-- No two classes and no two instances share a handle. -/
structure Distinct (root : RootObject) : Prop where
  classes : (root.classes.map ObjectClass.handle).Nodup
  objects : (root.objects.map Object.handle).Nodup

theorem Distinct.declare {root' : RootObject} (distinct : root.Distinct)
    (same : root.Redeclares root') : root'.Distinct := by
  have objects : root'.objects = root.objects := by rw [same.rest]
  exact ⟨by rw [same.handles]; exact distinct.classes, by rw [objects]; exact distinct.objects⟩

theorem Distinct.setObject (distinct : root.Distinct) (o : Object) : (root.setObject o).Distinct := by
  refine ⟨distinct.classes, ?_⟩
  have kept : (root.setObject o).objects.map Object.handle = root.objects.map Object.handle :=
    map_key_replace o root.objects
  rw [kept]
  exact distinct.objects

theorem registerObjectInstance_distinct (distinct : root.Distinct) (fed : FederateHandle)
    (classHandle : ObjectClassHandle) (object : ObjectHandle) (name : String) :
    (root.registerObjectInstance fed classHandle object name).state.Distinct := by
  rcases registerObjectInstance_cases root fed classHandle object name with
    ⟨e, refused⟩ | ⟨c, sent, accepted⟩
  · rw [refused]
    exact distinct
  · have fresh : object ∉ root.objects.map Object.handle := by
      intro listed
      obtain ⟨o, belongs, handle⟩ := List.mem_map.mp listed
      exact lookup_eq_none.mp accepted.freshHandle o belongs handle
    rw [accepted.outcome]
    refine ⟨distinct.classes, ?_⟩
    change ((root.objects ++ [newInstance c fed classHandle object name]).map Object.handle).Nodup
    rw [List.map_append, List.nodup_append]
    refine ⟨distinct.objects, by simp, fun a listed b new => ?_⟩
    rw [List.mem_singleton.mp new]
    rintro rfl
    exact fresh listed

theorem deleteObjectInstance_distinct (distinct : root.Distinct) (fed : FederateHandle)
    (object : ObjectHandle) : (root.deleteObjectInstance fed object).state.Distinct := by
  rcases deleteObjectInstance_cases root fed object with ⟨e, refused⟩ | ⟨o, sent, deletes⟩
  · rw [refused]
    exact distinct
  · rw [deletes.outcome]
    exact ⟨distinct.classes, distinct.objects.sublist (List.filter_sublist.map _)⟩

theorem associate_distinct (distinct : root.Distinct) (object : ObjectHandle)
    (region : RegionHandle) (hs : List AttributeHandle) :
    (root.associate object region hs).state.Distinct := by
  rcases associate_cases root object region hs with unchanged | ⟨o, o', _, _, result⟩
  · rw [unchanged]
    exact distinct
  · rw [result]
    exact distinct.setObject o'

theorem createRegion_distinct (distinct : root.Distinct) (space : SpaceHandle) (extents : Nat) :
    (root.createRegion space extents).state.Distinct := by
  unfold createRegion
  split
  · exact distinct
  · split
    · exact distinct
    · exact ⟨distinct.classes, distinct.objects⟩

theorem ownershipService_distinct (distinct : root.Distinct) (object : ObjectHandle)
    (service : ObjectClass → Object → Transfer × Option RTIException) :
    (root.ownershipService object service).1.state.Distinct := by
  rcases ownershipService_cases root object service with unchanged | ⟨o, c, _, _, result⟩
  · rw [unchanged]
    exact distinct
  · rw [result]
    exact distinct.setObject _

/-! ## Departure -/

/-- What a departure leaves: the classes and interactions but for declarations, and the
instances of other owners, without the federate as owner of their attributes. -/
theorem killFederate_frame {p : FederateHandle → Prop} (root : RootObject) (fed : FederateHandle) :
    root.SameClasses (root.killFederate fed).1 ∧
      (∀ o' ∈ (root.killFederate fed).1.objects,
        ∃ o ∈ root.objects, o.owner ≠ fed ∧ o' = o.killFederate fed) ∧
      (root.DeclaredBy p → (root.killFederate fed).1.DeclaredBy p) ∧
      (root.killFederate fed).1.server = root.server := by
  have frame := killClasses_frame (p := p) fed (root.classes.map ObjectClass.handle) root
  refine ⟨frame.1, fun o' member => ?_, fun before => ?_, frame.2.2.2.2⟩
  · obtain ⟨o, belongs, rfl⟩ := List.mem_map.mp member
    obtain ⟨kept, other⟩ := List.mem_filter.mp belongs
    exact ⟨o, frame.2.1 o kept, by simpa using other, rfl⟩
  · have declared := frame.2.2.1 before
    refine ⟨declared.classes, fun i member => ?_⟩
    obtain ⟨i, belongs, rfl⟩ := List.mem_map.mp member
    have old := declared.interactions i belongs
    unfold Interaction.killFederate
    dsimp only
    split
    · exact ⟨fun g listed => old.1 g (Finset.mem_of_mem_erase listed),
        fun s listed => old.2 s (Subscribable.mem_unsubscribe listed)⟩
    · exact ⟨fun g listed => old.1 g (Finset.mem_of_mem_erase listed), old.2⟩

end RootObject

end Certi
