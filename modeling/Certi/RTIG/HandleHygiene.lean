import Certi.LibCERTI.Departure
import Certi.RTIG.OwnershipRuns

/-!
# Whose handles the RTIG stores

Publisher and subscriber lists, owners, candidates and regulators name joined
federates or the MOM in every run in which a federate resigns only when it is
stored nowhere and loses its connection only when it is forgettable.
-/
namespace Certi

open Keyed Sweep RemoveIf Federation Ownership Runs

/-! ## The statement -/

/-- The owner and the candidates of an attribute satisfy `p`; owner 0 is nobody. -/
def ObjectAttribute.HeldBy (p : FederateHandle → Prop) (oa : ObjectAttribute) : Prop :=
  (oa.owner ≠ 0 → p oa.owner) ∧ ∀ g ∈ oa.candidates, p g

def Object.HeldBy (p : FederateHandle → Prop) (o : Object) : Prop :=
  p o.owner ∧ ∀ oa ∈ o.attributes, oa.HeldBy p

/-- Every federate handle that the root object stores satisfies `p`. -/
structure RootObject.HeldBy (p : FederateHandle → Prop) (root : RootObject) : Prop where
  declared : root.DeclaredBy p
  objects : ∀ o ∈ root.objects, o.HeldBy p

namespace Federation

/-- Every federate handle stored anywhere is that of a member or of the MOM. -/
structure HandlesClean (f : Federation) : Prop where
  root : f.root.HeldBy (fun g => f.check g = true)
  regulators : ∀ clock ∈ f.regulators, f.check clock.1 = true

/-- The federate is stored nowhere but in the table of federates. -/
structure Unstored (f : Federation) (fed : FederateHandle) : Prop where
  root : f.root.HeldBy (· ≠ fed)
  regulators : ∀ clock ∈ f.regulators, clock.1 ≠ fed

/-- The condition on an event. -/
def LeavesNoTrace (f : Federation) : Event → Prop
  | .resign fed => f.isJoined fed = true → f.Unstored fed
  | .kill fed => f.isJoined fed = true → (f.closeLink fed).root.Forgettable fed
  | _ => True

end Federation

/-! ## The condition can be checked -/

section Decidable

variable (p : FederateHandle → Prop) [DecidablePred p]

instance (c : ObjectClass) : Decidable (c.DeclaredBy p) :=
  inferInstanceAs (Decidable (∀ a ∈ c.attributes,
    (∀ g ∈ a.publishers, p g) ∧ ∀ s ∈ a.subscribers, p s.handle))

instance (root : RootObject) : Decidable (root.DeclaredBy p) :=
  decidable_of_iff ((∀ c ∈ root.classes, c.DeclaredBy p) ∧ ∀ i ∈ root.interactions,
      (∀ g ∈ i.publishers, p g) ∧ ∀ s ∈ i.subscribers, p s.handle)
    ⟨fun both => ⟨both.1, both.2⟩, fun declared => ⟨declared.classes, declared.interactions⟩⟩

instance (oa : ObjectAttribute) : Decidable (oa.HeldBy p) :=
  inferInstanceAs (Decidable ((oa.owner ≠ 0 → p oa.owner) ∧ ∀ g ∈ oa.candidates, p g))

instance (o : Object) : Decidable (o.HeldBy p) :=
  inferInstanceAs (Decidable (p o.owner ∧ ∀ oa ∈ o.attributes, oa.HeldBy p))

instance (root : RootObject) : Decidable (root.HeldBy p) :=
  decidable_of_iff (root.DeclaredBy p ∧ ∀ o ∈ root.objects, o.HeldBy p)
    ⟨fun both => ⟨both.1, both.2⟩, fun held => ⟨held.declared, held.objects⟩⟩

end Decidable

instance (f : Federation) : Decidable f.HandlesClean :=
  decidable_of_iff (f.root.HeldBy (fun g => f.check g = true) ∧
      ∀ clock ∈ f.regulators, f.check clock.1 = true)
    ⟨fun both => ⟨both.1, both.2⟩, fun clean => ⟨clean.root, clean.regulators⟩⟩

instance (f : Federation) (fed : FederateHandle) : Decidable (f.Unstored fed) :=
  decidable_of_iff (f.root.HeldBy (· ≠ fed) ∧ ∀ clock ∈ f.regulators, clock.1 ≠ fed)
    ⟨fun both => ⟨both.1, both.2⟩, fun unstored => ⟨unstored.root, unstored.regulators⟩⟩

instance (server : SecurityServer) (fed : FederateHandle) (c : ObjectClass) :
    Decidable (RootObject.Unpublishable server fed c) :=
  inferInstanceAs (Decidable (c.isFederatePublisher fed = true → _ = true))

instance (root : RootObject) (fed : FederateHandle) : Decidable (root.Forgettable fed) :=
  decidable_of_iff
    ((∀ c ∈ root.classes, RootObject.Unpublishable root.server fed c ∧ ∀ a ∈ c.attributes,
        staying (fun s => s.handle = fed) a.subscribers
          (RootObject.ownedCount root fed c.handle + 1) = 0) ∧
      (∀ i ∈ root.interactions, staying (fun s => s.handle = fed) i.subscribers 1 = 0) ∧
      ∀ o ∈ root.objects, o.owner ≠ fed → ∀ oa ∈ o.attributes, fed ∉ oa.candidates)
    ⟨fun all => ⟨all.1, all.2.1, all.2.2⟩,
      fun forgettable => ⟨forgettable.classes, forgettable.interactions, forgettable.candidates⟩⟩

instance (f : Federation) : ∀ e : Event, Decidable (LeavesNoTrace f e)
  | .resign fed => inferInstanceAs (Decidable (f.isJoined fed = true → f.Unstored fed))
  | .kill fed =>
    inferInstanceAs (Decidable (f.isJoined fed = true → (f.closeLink fed).root.Forgettable fed))
  | .join .. | .setTimeRegulating .. | .messageNull .. | .setTimeConstrained ..
  | .registerSynchronization .. | .synchronizationPointAchieved .. | .requestFederationSave ..
  | .federateSaveBegun .. | .federateSaveStatus .. | .publishObject .. | .subscribeObject ..
  | .subscribeAttributesWR .. | .unsubscribeAttributesWR .. | .publishInteraction ..
  | .subscribeInteraction .. | .subscribeInteractionWR .. | .createRegion ..
  | .associateRegion .. | .registerObject .. | .registerObjectWithRegion .. | .deleteObject ..
  | .ownership .. => .isTrue trivial

/-! ## Instances -/

variable {p q : FederateHandle → Prop} {fed : FederateHandle} {c : ObjectClass} {o o' : Object}

theorem ObjectAttribute.HeldBy.mono {oa : ObjectAttribute} (held : oa.HeldBy p)
    (weaker : ∀ g, p g → q g) : oa.HeldBy q :=
  ⟨fun owned => weaker _ (held.1 owned), fun g member => weaker g (held.2 g member)⟩

theorem Object.HeldBy.mono (held : o.HeldBy p) (weaker : ∀ g, p g → q g) : o.HeldBy q :=
  ⟨weaker _ held.1, fun oa member => (held.2 oa member).mono weaker⟩

theorem Object.HeldBy.setAttribute {oa : ObjectAttribute} (held : o.HeldBy p)
    (stored : oa.HeldBy p) : (o.setAttribute oa).HeldBy p :=
  ⟨held.1, forall_replace held.2 stored⟩

theorem Object.HeldBy.grant {oa : ObjectAttribute} {newOwner : FederateHandle} (held : o.HeldBy p)
    (stored : oa.HeldBy p) (owner : p newOwner) : (grant c o oa newOwner).HeldBy p := by
  have set := held.setAttribute stored
  unfold Ownership.grant
  split
  · exact ⟨owner, set.2⟩
  · exact set

theorem handOver_heldBy {oa : ObjectAttribute} {newOwner : FederateHandle} (held : oa.HeldBy p)
    (owner : p newOwner) : (handOver oa newOwner).HeldBy p :=
  ⟨fun _ => owner, fun g member => held.2 g (Finset.mem_of_mem_erase member)⟩

/-- One step that gives an attribute to a candidate or rewrites it without new holders. -/
theorem Ownership.HandedOrKept.heldBy {h : AttributeHandle} {kept : ObjectAttribute → ObjectAttribute}
    (step : HandedOrKept c h kept o o') (keeps : ∀ oa, oa.HeldBy p → (kept oa).HeldBy p)
    (held : o.HeldBy p) : o'.HeldBy p := by
  obtain ⟨oa, found, ⟨newOwner, wanted, rfl⟩ | ⟨_, rfl⟩⟩ := step
  · have stored := held.2 oa (Object.attribute?_mem found)
    have owner := stored.2 newOwner wanted
    exact held.grant (handOver_heldBy stored owner) owner
  · exact held.setAttribute (keeps oa (held.2 oa (Object.attribute?_mem found)))

theorem Ownership.TakenOrWanted.heldBy {h : AttributeHandle} {taken wanted : ObjectAttribute → ObjectAttribute}
    (step : TakenOrWanted c fed h taken wanted o o') (member : p fed)
    (takes : ∀ oa, oa.HeldBy p → (taken oa).HeldBy p)
    (wants : ∀ oa, oa.HeldBy p → (wanted oa).HeldBy p) (held : o.HeldBy p) : o'.HeldBy p := by
  obtain ⟨oa, found, ⟨_, rfl⟩ | ⟨_, rfl⟩⟩ := step
  · exact held.grant (takes oa (held.2 oa (Object.attribute?_mem found))) member
  · exact held.setAttribute (wants oa (held.2 oa (Object.attribute?_mem found)))

theorem ObjectAttribute.HeldBy.take {oa : ObjectAttribute} (held : oa.HeldBy p) (member : p fed) :
    ((oa.setOwner fed).setDivesting false).HeldBy p :=
  ⟨fun _ => member, held.2⟩

theorem ObjectAttribute.HeldBy.removeCandidate {oa : ObjectAttribute} (held : oa.HeldBy p)
    (fed : FederateHandle) : (oa.removeCandidate fed).HeldBy p :=
  ⟨held.1, fun g member => held.2 g (Finset.mem_of_mem_erase member)⟩

theorem ObjectAttribute.HeldBy.addCandidate {oa : ObjectAttribute} (held : oa.HeldBy p)
    (member : p fed) : (oa.addCandidate fed).HeldBy p := by
  refine ⟨held.1, fun g candidate => ?_⟩
  rcases Finset.mem_insert.mp candidate with rfl | old
  · exact member
  · exact held.2 g old

theorem OwnershipService.perform_heldBy (service : OwnershipService) (member : p fed)
    (hs : List AttributeHandle) (c : ObjectClass) (held : o.HeldBy p) :
    (service.perform fed hs c o).1.1.HeldBy p := by
  cases service with
  | negotiateDivestiture =>
    exact serve_invariant (p := fun o => o.HeldBy p) (fun t h t' holds success =>
      (negotiatedStep_success success).heldBy (fun oa holds => holds) holds) held
  | acquireIfAvailable =>
    exact serve_invariant (p := fun o => o.HeldBy p) (fun t h t' holds success =>
      (acquisitionIfAvailableStep_success success).heldBy member
        (fun oa holds => holds.take member) (fun oa holds => holds.addCandidate member) holds) held
  | divest =>
    rw [OwnershipService.perform, unconditional_served]
    exact serve_invariant (p := fun o => o.HeldBy p) (fun t h t' holds success =>
      (unconditionalStep_success success).heldBy
        (fun oa holds => ⟨fun owned => absurd rfl owned, holds.2⟩) holds) held
  | acquire =>
    exact serve_invariant (p := fun o => o.HeldBy p) (fun t h t' holds success =>
      (acquisitionStep_success success).heldBy member
        (fun oa holds => (holds.removeCandidate fed).take member)
        (fun oa holds => (holds.removeCandidate fed).addCandidate member) holds) held
  | cancelDivestiture =>
    refine serve_invariant (p := fun o => o.HeldBy p) (fun t h t' holds success => ?_) held
    obtain ⟨oa, found, result⟩ := cancelNegotiatedStep_success success
    rw [result]
    exact holds.setAttribute (holds.2 oa (Object.attribute?_mem found))
  | respondRelease =>
    refine serve_invariant (p := fun o => o.HeldBy p) (fun t h t' holds success => ?_) held
    obtain ⟨oa, found, newOwner, wanted, result⟩ := releaseResponseStep_success success
    have stored := holds.2 oa (Object.attribute?_mem found)
    have owner := stored.2 newOwner wanted
    rw [result]
    exact holds.grant (handOver_heldBy stored owner) owner
  | cancelAcquisition =>
    refine serve_invariant (p := fun o => o.HeldBy p) (fun t h t' holds success => ?_) held
    obtain ⟨oa, found, result⟩ := cancelAcquisitionStep_success success
    rw [result]
    exact holds.setAttribute ((holds.2 oa (Object.attribute?_mem found)).removeCandidate fed)

/-! ## The root object -/

namespace RootObject

variable {root root' : RootObject}

theorem DeclaredBy.mono (declared : root.DeclaredBy p) (weaker : ∀ g, p g → q g) :
    root.DeclaredBy q := by
  refine ⟨fun c member a belongs => ?_, fun i member => ?_⟩
  · have old := declared.classes c member a belongs
    exact ⟨fun g listed => weaker g (old.1 g listed), fun s listed => weaker _ (old.2 s listed)⟩
  · have old := declared.interactions i member
    exact ⟨fun g listed => weaker g (old.1 g listed), fun s listed => weaker _ (old.2 s listed)⟩

theorem HeldBy.mono (held : root.HeldBy p) (weaker : ∀ g, p g → q g) : root.HeldBy q :=
  ⟨held.declared.mono weaker, fun o member => (held.objects o member).mono weaker⟩

theorem HeldBy.and (first : root.HeldBy p) (second : root.HeldBy q) :
    root.HeldBy (fun g => p g ∧ q g) := by
  refine ⟨⟨fun c member a belongs => ?_, fun i member => ?_⟩, fun o member => ?_⟩
  · have one := first.declared.classes c member a belongs
    have two := second.declared.classes c member a belongs
    exact ⟨fun g listed => ⟨one.1 g listed, two.1 g listed⟩,
      fun s listed => ⟨one.2 s listed, two.2 s listed⟩⟩
  · have one := first.declared.interactions i member
    have two := second.declared.interactions i member
    exact ⟨fun g listed => ⟨one.1 g listed, two.1 g listed⟩,
      fun s listed => ⟨one.2 s listed, two.2 s listed⟩⟩
  · obtain ⟨owner, stored⟩ := first.objects o member
    obtain ⟨owner', stored'⟩ := second.objects o member
    exact ⟨⟨owner, owner'⟩, fun oa belongs =>
      ⟨fun owned => ⟨(stored oa belongs).1 owned, (stored' oa belongs).1 owned⟩,
        fun g listed => ⟨(stored oa belongs).2 g listed, (stored' oa belongs).2 g listed⟩⟩⟩

theorem HeldBy.declare (held : root.HeldBy p) (same : root.Redeclares root')
    (declared : root'.DeclaredBy p) : root'.HeldBy p := by
  have objects : root'.objects = root.objects := by rw [same.rest]
  exact ⟨declared, by rw [objects]; exact held.objects⟩

theorem HeldBy.setObject (held : root.HeldBy p) (stored : o.HeldBy p) :
    (root.setObject o).HeldBy p :=
  ⟨⟨held.declared.classes, held.declared.interactions⟩, forall_replace held.objects stored⟩

theorem registerObjectInstance_heldBy (held : root.HeldBy p) (fed : FederateHandle)
    (classHandle : ObjectClassHandle) (object : ObjectHandle) (name : String) :
    (root.registerObjectInstance fed classHandle object name).state.HeldBy p := by
  rcases registerObjectInstance_cases root fed classHandle object name with
    ⟨e, refused⟩ | ⟨c, sent, accepted⟩
  · rw [refused]
    exact held
  · have member : p fed := by
      obtain ⟨a, belongs, publishing⟩ := List.any_eq_true.mp accepted.publisher
      exact (held.declared.classes c (lookup_mem accepted.found) a belongs).1 fed
        (by simpa [ObjectClassAttribute.isPublishing] using publishing)
    rw [accepted.outcome]
    refine ⟨⟨held.declared.classes, held.declared.interactions⟩, fun o belongs => ?_⟩
    rcases List.mem_append.mp belongs with earlier | new
    · exact held.objects o earlier
    · cases List.mem_singleton.mp new
      refine ⟨member, fun oa stored => ?_⟩
      obtain ⟨oca, _, rfl⟩ := List.mem_map.mp stored
      refine ⟨fun owned => ?_, by simp⟩
      -- its owner is the federate that registers, or nobody
      dsimp only at owned ⊢
      split
      · exact member
      · split
        · exact member
        · rename_i ordinary unpublished
          simp [ordinary, unpublished] at owned

theorem deleteObjectInstance_heldBy (held : root.HeldBy p) (fed : FederateHandle)
    (object : ObjectHandle) : (root.deleteObjectInstance fed object).state.HeldBy p := by
  rcases deleteObjectInstance_cases root fed object with ⟨e, refused⟩ | ⟨o, sent, deletes⟩
  · rw [refused]
    exact held
  · rw [deletes.outcome]
    exact ⟨⟨held.declared.classes, held.declared.interactions⟩,
      fun o member => held.objects o (mem_drop.mp member).1⟩

theorem associate_heldBy (held : root.HeldBy p) (object : ObjectHandle) (region : RegionHandle)
    (hs : List AttributeHandle) : (root.associate object region hs).state.HeldBy p := by
  rcases associate_cases root object region hs with unchanged | ⟨o, o', found, same, result⟩
  · rw [unchanged]
    exact held
  · have old := held.objects o (lookup_mem found)
    rw [result]
    refine held.setObject ⟨by rw [same.owner]; exact old.1, fun oa' member => ?_⟩
    obtain ⟨oa, belongs, region, rfl⟩ := same.attributes oa' member
    exact old.2 oa belongs

theorem createRegion_heldBy (held : root.HeldBy p) (space : SpaceHandle) (extents : Nat) :
    (root.createRegion space extents).state.HeldBy p := by
  unfold createRegion
  split
  · exact held
  · split
    · exact held
    · exact ⟨⟨held.declared.classes, held.declared.interactions⟩, held.objects⟩

theorem ownershipService_heldBy (held : root.HeldBy p) (member : p fed)
    (service : OwnershipService) (object : ObjectHandle) (hs : List AttributeHandle) :
    (root.ownershipService object (service.perform fed hs)).1.state.HeldBy p := by
  rcases ownershipService_cases root object (service.perform fed hs) with
    unchanged | ⟨o, c, known, _, result⟩
  · rw [unchanged]
    exact held
  · rw [result]
    exact held.setObject (service.perform_heldBy member hs c (held.objects o (lookup_mem known)))

/-- After the departure of a forgettable federate it is stored nowhere. -/
theorem killFederate_heldBy (held : root.HeldBy p) (forgettable : root.Forgettable fed)
    (distinct : root.Distinct) :
    (root.killFederate fed).1.HeldBy (fun g => p g ∧ g ≠ fed) := by
  refine ⟨killFederate_declaredBy held.declared forgettable distinct, ?_⟩
  intro o' member
  obtain ⟨o, belongs, other, rfl⟩ := (killFederate_frame (p := p) root fed).2.1 o' member
  have old := held.objects o belongs
  refine ⟨⟨old.1, other⟩, fun oa' stored => ?_⟩
  obtain ⟨oa, listed, rfl⟩ := List.mem_map.mp stored
  have candidates := forgettable.candidates o belongs other oa listed
  have rest : ∀ g ∈ oa.candidates, p g ∧ g ≠ fed := fun g candidate =>
    ⟨(old.2 oa listed).2 g candidate, fun equal => candidates (equal ▸ candidate)⟩
  split
  · exact ⟨fun owned => absurd rfl owned, rest⟩
  · rename_i owner
    exact ⟨fun owned => ⟨(old.2 oa listed).1 owned, owner⟩, rest⟩

end RootObject

/-! ## The federation -/

namespace Federation

variable {f f' : Federation}

theorem check_iff {g : FederateHandle} : f.check g = true ↔
    f.root.server.momHandle = some g ∨ g ∈ f.federates.map Federate.handle := by
  rw [check, Bool.or_eq_true, decide_eq_true_eq, isJoined_iff]

/-- Clean, and the handles of classes and of instances are distinct. -/
structure HygieneInvariant (f : Federation) : Prop where
  clean : f.HandlesClean
  distinct : f.root.Distinct

/-- A change of the root object that stores the handles of members only. -/
theorem HygieneInvariant.setRoot (holds : f.HygieneInvariant)
    (federates : f'.federates = f.federates) (regulators : f'.regulators = f.regulators)
    (server : f'.root.server = f.root.server)
    (held : f'.root.HeldBy (fun g => f.check g = true)) (distinct : f'.root.Distinct) :
    f'.HygieneInvariant := by
  have same : ∀ g, f'.check g = true ↔ f.check g = true := by
    intro g
    rw [check_iff, check_iff, federates, server]
  refine ⟨⟨held.mono fun g => (same g).mpr, fun clock listed => ?_⟩, distinct⟩
  rw [regulators] at listed
  exact (same clock.1).mpr (holds.clean.regulators clock listed)

theorem onRoot_hygiene (holds : f.HygieneInvariant) {s : RootObject → Outcome RootObject}
    (held : (s f.root).state.HeldBy (fun g => f.check g = true))
    (distinct : (s f.root).state.Distinct)
    (server : (s f.root).state.server = f.root.server) :
    (f.onRoot s).state.HygieneInvariant :=
  holds.setRoot rfl rfl server held distinct

theorem memberOnRoot_hygiene (holds : f.HygieneInvariant) {fed : FederateHandle}
    {service : RootObject → Outcome RootObject}
    (held : f.check fed = true → (service f.root).state.HeldBy (fun g => f.check g = true))
    (distinct : (service f.root).state.Distinct)
    (server : (service f.root).state.server = f.root.server) :
    (f.memberOnRoot fed service).state.HygieneInvariant :=
  asMember_cases (p := fun outcome => outcome.state.HygieneInvariant) holds fun member =>
    onRoot_hygiene holds (held member) distinct server

/-- A declaration of a member. -/
theorem declaration_hygiene (holds : f.HygieneInvariant) {fed : FederateHandle}
    {service : RootObject → Outcome RootObject}
    (redeclares : f.root.Redeclares (service f.root).state)
    (declared : f.check fed = true →
      (service f.root).state.DeclaredBy (fun g => f.check g = true)) :
    (f.memberOnRoot fed service).state.HygieneInvariant :=
  memberOnRoot_hygiene holds
    (fun member => holds.clean.root.declare redeclares (declared member))
    (holds.distinct.declare redeclares) (by rw [redeclares.rest])

theorem declarationWithRegion_hygiene (holds : f.HygieneInvariant) {fed : FederateHandle}
    {region : RegionHandle} {service : RootObject → Outcome RootObject}
    (redeclares : f.root.Redeclares (service f.root).state)
    (declared : f.check fed = true →
      (service f.root).state.DeclaredBy (fun g => f.check g = true)) :
    (f.memberWithRegion fed region service).state.HygieneInvariant := by
  unfold memberWithRegion
  refine declaration_hygiene holds ?_ ?_
  · split
    · exact .refl f.root
    · exact redeclares
  · intro member
    split
    · exact holds.clean.root.declared
    · exact declared member

theorem registerObject_hygiene (holds : f.HygieneInvariant) (fed : FederateHandle)
    (classHandle : ObjectClassHandle) (name : String) :
    (f.registerObject fed classHandle name).state.HygieneInvariant := by
  unfold registerObject
  refine onRoot_hygiene (f := { f with nextObject := f.nextObject + 1 })
    ⟨⟨holds.clean.root, holds.clean.regulators⟩, holds.distinct⟩ ?_ ?_ ?_
  · exact RootObject.registerObjectInstance_heldBy holds.clean.root fed classHandle _ _
  · exact RootObject.registerObjectInstance_distinct holds.distinct fed classHandle _ _
  · exact RootObject.registerObjectInstance_server f.root fed classHandle _ _

theorem registerObjectWithRegion_hygiene (holds : f.HygieneInvariant) (fed : FederateHandle)
    (classHandle : ObjectClassHandle) (name : String) (region : RegionHandle)
    (hs : List AttributeHandle) :
    (f.registerObjectWithRegion fed classHandle name region hs).state.HygieneInvariant := by
  refine asMember_cases (p := fun outcome => outcome.state.HygieneInvariant) holds fun _ => ?_
  have registered := registerObject_hygiene holds fed classHandle name
  dsimp only
  split
  · exact registered
  · have associated := onRoot_hygiene registered (s := (·.associate f.nextObject region hs))
      (RootObject.associate_heldBy registered.clean.root f.nextObject region hs)
      (RootObject.associate_distinct registered.distinct f.nextObject region hs)
      (RootObject.associate_server _ f.nextObject region hs)
    split <;> exact associated

theorem ownership_hygiene (holds : f.HygieneInvariant) (service : OwnershipService)
    (fed : FederateHandle) (object : ObjectHandle) (hs : List AttributeHandle) :
    (f.ownership service fed object hs).state.HygieneInvariant := by
  refine asMember_cases (p := fun outcome => outcome.state.HygieneInvariant) holds fun member => ?_
  exact holds.setRoot rfl rfl
    (RootObject.ownershipService_server f.root object (service.perform fed hs))
    (RootObject.ownershipService_heldBy holds.clean.root member service object hs)
    (RootObject.ownershipService_distinct holds.distinct object (service.perform fed hs))

/-! ## Membership -/

theorem internal_hygiene (holds : f.HygieneInvariant) {e : Event} (internal : e.isInternal = true) :
    (f.perform e).state.HygieneInvariant := by
  have same := perform_internal f internal
  have check : ∀ g, (f.perform e).state.check g = true ↔ f.check g = true := by
    intro g
    rw [check_iff, check_iff, same.handles, same.root]
  refine ⟨⟨?_, fun clock listed => (check clock.1).mpr ?_⟩, by rw [same.root]; exact holds.distinct⟩
  · rw [same.root]
    exact holds.clean.root.mono fun g => (check g).mpr
  · rcases perform_internal_clocks f internal clock listed with old | joined
    · obtain ⟨earlier, belongs, key⟩ := List.mem_map.mp old
      rw [← key]
      exact holds.clean.regulators earlier belongs
    · rw [check_iff]
      exact .inr (isJoined_iff.mp joined)

theorem add_hygiene (holds : f.HygieneInvariant) (name : String) (conditions : JoinConditions) :
    (f.add name conditions).state.HygieneInvariant := by
  rcases add_cases f name conditions with unchanged | ⟨handles, _, _, regulators, root⟩
  · rw [unchanged]
    exact holds
  · have mom : (f.add name conditions).state.root.server.momHandle = f.root.server.momHandle := by
      rcases root with root | root <;> rw [root]
      rfl
    -- whoever was a member still is
    have check : ∀ g, f.check g = true → (f.add name conditions).state.check g = true := by
      intro g member
      rw [check_iff] at member ⊢
      rw [mom, handles]
      exact member.imp_right (List.mem_append_left _)
    have clocks : ∀ clock ∈ (f.add name conditions).state.regulators,
        (f.add name conditions).state.check clock.1 = true := by
      rw [regulators]
      exact fun clock listed => check clock.1 (holds.clean.regulators clock listed)
    have held := holds.clean.root.mono check
    rcases root with root | root
    · exact ⟨⟨by rw [root]; exact held, clocks⟩, by rw [root]; exact holds.distinct⟩
    · refine ⟨⟨?_, clocks⟩, ?_⟩
      · rw [root]
        exact ⟨⟨held.declared.classes, held.declared.interactions⟩, held.objects⟩
      · rw [root]
        exact ⟨holds.distinct.classes, holds.distinct.objects⟩

/-- Once a federate is stored nowhere, its record can go. -/
theorem check_drop {fed g : FederateHandle} {f' : Federation}
    (mom : f'.root.server.momHandle = f.root.server.momHandle)
    (handles : f'.federates.map Federate.handle =
      (f.federates.map Federate.handle).filter (fun h => h ≠ fed))
    (member : f.check g = true) (other : g ≠ fed) : f'.check g = true := by
  rw [check_iff] at member ⊢
  rw [mom, handles]
  exact member.imp_right fun joined => List.mem_filter.mpr ⟨joined, by simpa using other⟩

theorem resign_hygiene (holds : f.HygieneInvariant) {fed : FederateHandle}
    (unstored : f.isJoined fed = true → f.Unstored fed) :
    (f.remove fed).state.HygieneInvariant := by
  rcases remove_cases f fed with refused | ⟨joined, removed⟩
  · rw [refused]
    exact holds
  · rw [removed]
    have nowhere := unstored joined
    have check : ∀ g, f.check g = true ∧ g ≠ fed →
        check { f with federates := drop Federate.handle fed f.federates } g = true :=
      fun g stored => check_drop (f := f) rfl (map_key_drop fed f.federates) stored.1 stored.2
    refine ⟨⟨(holds.clean.root.and nowhere.root).mono check, ?_⟩, holds.distinct⟩
    intro clock listed
    exact check clock.1 ⟨holds.clean.regulators clock listed, nowhere.regulators clock listed⟩

theorem kill_hygiene (holds : f.HygieneInvariant) {fed : FederateHandle}
    (forgettable : f.isJoined fed = true → (f.closeLink fed).root.Forgettable fed) :
    (f.kill fed).state.HygieneInvariant := by
  rcases kill_cases f fed with refused | ⟨joined, result, _⟩
  · rw [refused]
    exact holds
  · have held : (f.closeLink fed).root.HeldBy (fun g => f.check g = true) :=
      ⟨⟨holds.clean.root.declared.classes, holds.clean.root.declared.interactions⟩,
        holds.clean.root.objects⟩
    have distinct : (f.closeLink fed).root.Distinct :=
      ⟨holds.distinct.classes, holds.distinct.objects⟩
    have same := sameMembers_of_timeless (removeRegulator_timeless (f.closeLink fed) fed)
    have clocks := removeRegulator_clocks (f.closeLink fed) fed
    have server := (RootObject.killFederate_frame (p := fun _ => True)
      (f.closeLink fed).root fed).2.2.2
    have check : ∀ g, f.check g = true → g ≠ fed → (f.kill fed).state.check g = true := by
      intro g member other
      refine check_drop ?_ ?_ member other
      · rw [result]
        exact (congrArg SecurityServer.momHandle server :)
      · rw [result]
        dsimp only
        rw [map_key_drop, same.handles]
        rfl
    refine ⟨⟨?_, fun clock listed => ?_⟩, ?_⟩
    · have gone := RootObject.killFederate_heldBy held (forgettable joined) distinct
      refine RootObject.HeldBy.mono (p := fun g => f.check g = true ∧ g ≠ fed) ?_
        fun g stored => check g stored.1 stored.2
      rw [result]
      exact gone
    · rw [result] at listed
      obtain ⟨old, other⟩ := clocks clock listed
      exact check clock.1 (holds.clean.regulators clock old) (other joined)
    · rw [result]
      exact RootObject.killFederate_distinct distinct fed

/-- One event keeps the invariant. -/
theorem perform_hygiene (holds : f.HygieneInvariant) {e : Event} (clean : LeavesNoTrace f e) :
    (f.perform e).state.HygieneInvariant := by
  have internal : e.isInternal = true → (f.perform e).state.HygieneInvariant :=
    internal_hygiene holds
  have root := holds.clean.root
  cases e with
  | join name conditions => exact add_hygiene holds name conditions
  | resign fed => exact resign_hygiene holds clean
  | kill fed => exact kill_hygiene holds clean
  | publishObject fed c hs flag =>
    exact declaration_hygiene holds (RootObject.publish_redeclares f.root fed c hs flag)
      fun member => RootObject.publish_declaredBy root.declared member c hs flag
  | subscribeObject fed c hs =>
    exact declaration_hygiene holds (RootObject.subscribe_redeclares f.root fed c hs none)
      fun member => RootObject.subscribe_declaredBy root.declared member c hs none
  | subscribeAttributesWR fed c region hs =>
    exact declarationWithRegion_hygiene holds
      (RootObject.subscribe_redeclares f.root fed c hs (some region))
      fun member => RootObject.subscribe_declaredBy root.declared member c hs (some region)
  | unsubscribeAttributesWR fed c region =>
    exact declarationWithRegion_hygiene holds
      (RootObject.unsubscribeWith_redeclares f.root fed c (some region))
      fun _ => RootObject.unsubscribeWith_declaredBy root.declared fed c (some region)
  | publishInteraction fed i flag =>
    exact declaration_hygiene holds (RootObject.declareInteraction_redeclares f.root i _)
      fun member => RootObject.publishInteraction_declaredBy root.declared member i flag
  | subscribeInteraction fed i flag =>
    exact declaration_hygiene holds (RootObject.declareInteraction_redeclares f.root i _)
      fun member => RootObject.subscribeInteraction_declaredBy root.declared member i none flag
  | subscribeInteractionWR fed i region flag =>
    exact declarationWithRegion_hygiene holds
      (RootObject.declareInteraction_redeclares f.root i _) fun member =>
        RootObject.subscribeInteraction_declaredBy root.declared member i (some region) flag
  | createRegion fed space extents =>
    exact memberOnRoot_hygiene holds (fun _ => RootObject.createRegion_heldBy root space extents)
      (RootObject.createRegion_distinct holds.distinct space extents)
      (RootObject.createRegion_server f.root space extents)
  | associateRegion fed object region hs =>
    exact memberOnRoot_hygiene holds (fun _ => RootObject.associate_heldBy root object region hs)
      (RootObject.associate_distinct holds.distinct object region hs)
      (RootObject.associate_server f.root object region hs)
  | registerObject fed c name => exact registerObject_hygiene holds fed c name
  | registerObjectWithRegion fed c name region hs =>
    exact registerObjectWithRegion_hygiene holds fed c name region hs
  | deleteObject fed object =>
    exact memberOnRoot_hygiene holds
      (fun _ => RootObject.deleteObjectInstance_heldBy root fed object)
      (RootObject.deleteObjectInstance_distinct holds.distinct fed object)
      (RootObject.deleteObjectInstance_server f.root fed object)
  | ownership service fed object hs => exact ownership_hygiene holds service fed object hs
  | _ => exact internal rfl

end Federation

/-! ## Whole runs -/

/-- In a run in which departures leave no trace, only handles of members are stored. -/
theorem handles_clean (fom : Fom) (withMom haveXml : Bool) (es : List Event)
    (clean : rtig.Meets LeavesNoTrace (Federation.create fom withMom haveXml) es) :
    (rtig.exec (Federation.create fom withMom haveXml) es).HandlesClean := by
  have start : (Federation.create fom withMom haveXml).HygieneInvariant :=
    ⟨⟨⟨create_declaredBy fom withMom haveXml _, by simp [Federation.create]⟩,
      by simp [Federation.create]⟩, create_distinct fom withMom haveXml⟩
  refine (rtig.exec_invariant (p := HygieneInvariant) ?_ start clean).clean
  intro f e before ok
  unfold rtig
  split
  · exact before
  · exact perform_hygiene before ok

/-- The first federate subscribes before the second, so that its loss finds its entry among
those to keep; the second has unpublished and owns nothing when it resigns. -/
theorem handles_clean_departures :
    (rtig.exec (Federation.create smallFom false true) (twoPublishers ++
      [.subscribeObject 1 1 [2, 3], .subscribeObject 2 1 [2, 3], .kill 1,
        .publishObject 2 1 [] false, .subscribeObject 2 1 [], .resign 2])).HandlesClean :=
  handles_clean smallFom false true _ (by decide +kernel)

/-- A federate that publishes and resigns is still listed as a publisher. -/
theorem publisher_resigns :
    ¬ ∀ (fom : Fom) (withMom haveXml : Bool) (es : List Event),
      (rtig.exec (Federation.create fom withMom haveXml) es).HandlesClean := by
  intro always
  have clean := always smallFom false true [joinAs "a", .publishObject 1 1 [2] true, .resign 1]
  revert clean
  decide +kernel

end Certi
