import Certi.LibCERTI.RegionReferences
import Certi.RTIG.HandleHygiene

/-!
# References to regions over whole runs

The requests that modify, delete and unassociate regions, beside those of
`Run.lean`. Every reference is to a live region as long as no region is deleted
while it is in use; `deleteRegion` does not check that.
-/
namespace Certi

open Keyed Sweep Federation Ownership Runs

inductive RegionEvent where
  | event (e : Event)
  | modifyRegion (fed : FederateHandle) (region : RegionHandle) (extents : List Extent)
  | deleteRegion (fed : FederateHandle) (region : RegionHandle)
  | unassociateRegion (fed : FederateHandle) (object : ObjectHandle) (region : RegionHandle)

namespace Federation

/-- `deleteRegion`; there are no restore requests here. -/
def deleteRegion (f : Federation) (fed : FederateHandle) (region : RegionHandle) :
    Outcome Federation :=
  f.asMember fed <|
    if f.saveInProgress then .refused f .saveInProgress
    else f.onRoot (·.deleteRegion region)

def performRegion (f : Federation) : RegionEvent → Outcome Federation
  | .event e => f.perform e
  | .modifyRegion fed region extents => f.memberOnRoot fed (·.modifyRegion region extents)
  | .deleteRegion fed region => f.deleteRegion fed region
  | .unassociateRegion fed object region => f.memberOnRoot fed (·.unassociate object region)

end Federation

def regional : Runs.Machine Federation RegionEvent Answer := fun f e =>
  if f.crashed then (f, ([], some .networkError))
  else
    let outcome := f.performRegion e
    (outcome.state, (outcome.sent, outcome.error))

/-! ## The statement -/

/-- Live regions have distinct handles, and only live regions are referred to. -/
structure RootObject.RegionsSound (root : RootObject) : Prop where
  live : root.RefersWithin fun h => (root.region? h).isSome = true
  distinct : (root.regions.map RTIRegion.handle).Nodup

namespace Federation

/-- After the event every reference is valid, and no region in use has been deleted. -/
structure KeepsReferences (f : Federation) (e : RegionEvent) : Prop where
  sound : (regional f e).1.root.RegionsSound
  kept : ∀ h, f.root.isInUse h = true → (f.root.region? h).isSome = true →
    ((regional f e).1.root.region? h).isSome = true

/-- A deletion that the RTIG performs is of a region that nobody refers to. -/
def DeletesUnused (f : Federation) : RegionEvent → Prop
  | .deleteRegion fed region => f.crashed = false → f.check fed = true →
      f.saveInProgress = false → f.root.isInUse region = false
  | _ => True

end Federation

/-! ## What an event does to regions -/

/-- The live regions and the spaces are the same ones, and references come from those before or
from live regions. -/
structure RootObject.RegionsKept (root root' : RootObject) : Prop where
  regions : root'.regions = root.regions
  nextRegion : root'.nextRegion = root.nextRegion
  spaces : root'.spaces = root.spaces
  within : ∀ p : RegionHandle → Prop, (∀ h, (root.region? h).isSome = true → p h) →
    root.RefersWithin p → root'.RefersWithin p

namespace RootObject

variable {root root' root'' : RootObject} {fed : FederateHandle} {p : RegionHandle → Prop}

theorem RegionsKept.refl (root : RootObject) : root.RegionsKept root :=
  ⟨rfl, rfl, rfl, fun _ _ within => within⟩

theorem RegionsKept.trans (first : root.RegionsKept root') (second : root'.RegionsKept root'') :
    root.RegionsKept root'' := by
  refine ⟨second.regions.trans first.regions, second.nextRegion.trans first.nextRegion,
    second.spaces.trans first.spaces, ?_⟩
  intro p live within
  refine second.within p (fun h alive => live h ?_) (first.within p live within)
  rwa [region?, first.regions] at alive

theorem Redeclares.regionsKept (same : root.Redeclares root')
    (within : ∀ p : RegionHandle → Prop, (∀ h, (root.region? h).isSome = true → p h) →
      root.RefersWithin p → root'.RefersWithin p) : root.RegionsKept root' :=
  ⟨by rw [same.rest], by rw [same.rest], by rw [same.rest], within⟩

theorem registerObjectInstance_regionsKept (root : RootObject) (fed : FederateHandle)
    (classHandle : ObjectClassHandle) (object : ObjectHandle) (name : String) :
    root.RegionsKept (root.registerObjectInstance fed classHandle object name).state := by
  refine ⟨?_, ?_, ?_, fun p _ within => within.registerObjectInstance fed classHandle object name⟩
  all_goals
    rcases registerObjectInstance_cases root fed classHandle object name with
      ⟨e, refused⟩ | ⟨c, sent, accepted⟩
    · rw [refused]
      rfl
    · rw [accepted.outcome]
      rfl

theorem deleteObjectInstance_regionsKept (root : RootObject) (fed : FederateHandle)
    (object : ObjectHandle) :
    root.RegionsKept (root.deleteObjectInstance fed object).state := by
  refine ⟨?_, ?_, ?_, fun p _ within => within.deleteObjectInstance fed object⟩
  all_goals
    rcases deleteObjectInstance_cases root fed object with ⟨e, refused⟩ | ⟨o, sent, deletes⟩
    · rw [refused]
      rfl
    · rw [deletes.outcome]
      rfl

theorem associate_regionsKept (root : RootObject) (object : ObjectHandle)
    (region : RegionHandle) (hs : List AttributeHandle) :
    root.RegionsKept (root.associate object region hs).state := by
  refine ⟨?_, ?_, ?_, fun p live within => within.associate object (live region) hs⟩
  all_goals
    rcases associate_cases root object region hs with unchanged | ⟨o, o', _, _, result⟩
    · rw [unchanged]
    · rw [result]
      rfl

theorem unassociate_regionsKept (root : RootObject) (object : ObjectHandle)
    (region : RegionHandle) : root.RegionsKept (root.unassociate object region).state := by
  refine ⟨?_, ?_, ?_, fun p _ within => within.unassociate object region⟩
  all_goals
    unfold unassociate
    split <;> rfl

theorem killInClass_regions (fed : FederateHandle) (h : ObjectClassHandle)
    (owned : List Object) : ∀ root : RootObject,
      (killInClass fed h root owned).1.regions = root.regions ∧
        (killInClass fed h root owned).1.nextRegion = root.nextRegion ∧
        (killInClass fed h root owned).1.spaces = root.spaces := by
  induction owned with
  | nil => exact fun _ => ⟨rfl, rfl, rfl⟩
  | cons o rest ih =>
    intro root
    exact ih { killDeclarationsOf root fed h with
      objects := drop Object.handle o.handle root.objects }

theorem killClasses_regions (fed : FederateHandle) (hs : List ObjectClassHandle) :
    ∀ root : RootObject, (killClasses fed root hs).1.regions = root.regions ∧
      (killClasses fed root hs).1.nextRegion = root.nextRegion ∧
      (killClasses fed root hs).1.spaces = root.spaces := by
  induction hs with
  | nil => exact fun _ => ⟨rfl, rfl, rfl⟩
  | cons h rest ih =>
    intro root
    have first := killInClass_regions fed h
      (root.objects.filter (fun o => o.classHandle = h && o.owner = fed)) root
    have later := ih (killInClass fed h root
      (root.objects.filter (fun o => o.classHandle = h && o.owner = fed))).1
    exact ⟨later.1.trans first.1, later.2.1.trans first.2.1, later.2.2.trans first.2.2⟩

theorem killFederate_regionsKept (root : RootObject) (fed : FederateHandle) :
    root.RegionsKept (root.killFederate fed).1 :=
  have same := killClasses_regions fed (root.classes.map ObjectClass.handle) root
  ⟨same.1, same.2.1, same.2.2, fun _ _ within => within.killFederate fed⟩

end RootObject

/-! ## Ownership services -/

section Ownership

variable {p : RegionHandle → Prop} {c : ObjectClass} {o o' : Object} {fed : FederateHandle}

theorem Ownership.grant_refersWithin {oa : ObjectAttribute} {newOwner : FederateHandle}
    (within : o.RefersWithin p) (region : PointsWithin p oa.region) :
    (grant c o oa newOwner).RefersWithin p := by
  unfold grant
  split <;> exact within.setAttribute region

/-- One step that gives an attribute away or rewrites it where it stands. -/
theorem Ownership.HandedOrKept.refersWithin {h : AttributeHandle}
    {kept : ObjectAttribute → ObjectAttribute} (step : HandedOrKept c h kept o o')
    (keeps : ∀ oa, (kept oa).region = oa.region) (within : o.RefersWithin p) :
    o'.RefersWithin p := by
  obtain ⟨oa, found, ⟨newOwner, _, rfl⟩ | ⟨_, rfl⟩⟩ := step
  · exact grant_refersWithin within (within oa (Object.attribute?_mem found))
  · refine within.setAttribute ?_
    rw [keeps]
    exact within oa (Object.attribute?_mem found)

theorem Ownership.TakenOrWanted.refersWithin {h : AttributeHandle}
    {taken wanted : ObjectAttribute → ObjectAttribute}
    (step : TakenOrWanted c fed h taken wanted o o')
    (takes : ∀ oa, (taken oa).region = oa.region)
    (wants : ∀ oa, (wanted oa).region = oa.region) (within : o.RefersWithin p) :
    o'.RefersWithin p := by
  obtain ⟨oa, found, ⟨_, rfl⟩ | ⟨_, rfl⟩⟩ := step
  · refine grant_refersWithin within ?_
    rw [takes]
    exact within oa (Object.attribute?_mem found)
  · refine within.setAttribute ?_
    rw [wants]
    exact within oa (Object.attribute?_mem found)

theorem OwnershipService.perform_refersWithin (service : OwnershipService)
    (hs : List AttributeHandle) (c : ObjectClass) (within : o.RefersWithin p) :
    (service.perform fed hs c o).1.1.RefersWithin p := by
  cases service with
  | negotiateDivestiture =>
    exact serve_invariant (p := fun o => o.RefersWithin p) (fun t h t' holds success =>
      (negotiatedStep_success success).refersWithin (fun _ => rfl) holds) within
  | acquireIfAvailable =>
    exact serve_invariant (p := fun o => o.RefersWithin p) (fun t h t' holds success =>
      (acquisitionIfAvailableStep_success success).refersWithin (fun _ => rfl) (fun _ => rfl)
        holds) within
  | divest =>
    rw [OwnershipService.perform, unconditional_served]
    exact serve_invariant (p := fun o => o.RefersWithin p) (fun t h t' holds success =>
      (unconditionalStep_success success).refersWithin (fun _ => rfl) holds) within
  | acquire =>
    exact serve_invariant (p := fun o => o.RefersWithin p) (fun t h t' holds success =>
      (acquisitionStep_success success).refersWithin (fun _ => rfl) (fun _ => rfl) holds) within
  | cancelDivestiture =>
    refine serve_invariant (p := fun o => o.RefersWithin p) (fun t h t' holds success => ?_) within
    obtain ⟨oa, found, result⟩ := cancelNegotiatedStep_success success
    rw [result]
    exact holds.setAttribute (holds oa (Object.attribute?_mem found))
  | respondRelease =>
    refine serve_invariant (p := fun o => o.RefersWithin p) (fun t h t' holds success => ?_) within
    obtain ⟨oa, found, newOwner, _, result⟩ := releaseResponseStep_success success
    rw [result]
    exact grant_refersWithin holds (holds oa (Object.attribute?_mem found))
  | cancelAcquisition =>
    refine serve_invariant (p := fun o => o.RefersWithin p) (fun t h t' holds success => ?_) within
    obtain ⟨oa, found, result⟩ := cancelAcquisitionStep_success success
    rw [result]
    exact holds.setAttribute (holds oa (Object.attribute?_mem found))

theorem RootObject.ownershipService_regionsKept (root : RootObject) (service : OwnershipService)
    (object : ObjectHandle) (hs : List AttributeHandle) :
    root.RegionsKept (root.ownershipService object (service.perform fed hs)).1.state := by
  rcases ownershipService_cases root object (service.perform fed hs) with
    unchanged | ⟨o, c, known, _, result⟩
  · rw [unchanged]
    exact .refl root
  · rw [result]
    exact ⟨rfl, rfl, rfl, fun p _ within => within.setObject
      (service.perform_refersWithin hs c (within.objects o (lookup_mem known)))⟩

end Ownership

/-! ## One event -/

namespace Federation

variable {f f' : Federation} {fed : FederateHandle}

theorem memberOnRoot_regionsKept {service : RootObject → Outcome RootObject}
    (kept : f.root.RegionsKept (service f.root).state) :
    f.root.RegionsKept (f.memberOnRoot fed service).state.root :=
  asMember_cases (p := fun outcome => f.root.RegionsKept outcome.state.root) (.refl f.root)
    fun _ => kept

/-- A declaration with a region is performed only when the region is live. -/
theorem memberWithRegion_regionsKept {region : RegionHandle}
    {service : RootObject → Outcome RootObject}
    (kept : (f.root.region? region).isSome = true →
      f.root.RegionsKept (service f.root).state) :
    f.root.RegionsKept (f.memberWithRegion fed region service).state.root := by
  refine memberOnRoot_regionsKept ?_
  split
  · exact .refl f.root
  · rename_i r known
    exact kept (by rw [RootObject.getRegion_ok known]; rfl)

theorem registerObjectWithRegion_regionsKept (f : Federation) (fed : FederateHandle)
    (classHandle : ObjectClassHandle) (name : String) (region : RegionHandle)
    (hs : List AttributeHandle) : f.root.RegionsKept
      (f.registerObjectWithRegion fed classHandle name region hs).state.root := by
  refine asMember_cases (p := fun outcome => f.root.RegionsKept outcome.state.root)
    (.refl f.root) fun _ => ?_
  have registered : f.root.RegionsKept (f.registerObject fed classHandle name).state.root :=
    RootObject.registerObjectInstance_regionsKept f.root fed classHandle _ _
  have associated := registered.trans
    (RootObject.associate_regionsKept _ f.nextObject region hs)
  dsimp only
  split
  · exact registered
  · split <;> exact associated

/-- Only the creation of a region changes the table of regions. -/
theorem perform_regions (f : Federation) (e : Event) :
    f.root.RegionsKept (f.perform e).state.root ∨
      ∃ space extents, (f.perform e).state.root = (f.root.createRegion space extents).state := by
  have internal : e.isInternal = true → f.root.RegionsKept (f.perform e).state.root := by
    intro internal
    rw [(perform_internal f internal).root]
    exact .refl f.root
  cases e with
  | join name conditions =>
    left
    rw [perform]
    rcases add_cases f name conditions with unchanged | ⟨_, _, _, _, root | root⟩
    · rw [unchanged]
      exact .refl f.root
    · rw [root]
      exact .refl f.root
    · rw [root]
      exact ⟨rfl, rfl, rfl, fun p _ within => ⟨within.classes, within.interactions, within.objects⟩⟩
  | resign fed =>
    left
    rcases remove_cases f fed with refused | ⟨_, removed⟩
    · rw [perform, refused]
      exact .refl f.root
    · rw [perform, removed]
      exact .refl f.root
  | kill fed =>
    left
    rcases kill_cases f fed with refused | ⟨_, result, _⟩
    · rw [perform, refused]
      exact .refl f.root
    · rw [perform, result]
      have closed : f.root.RegionsKept (f.closeLink fed).root :=
        ⟨rfl, rfl, rfl, fun p _ within => ⟨within.classes, within.interactions, within.objects⟩⟩
      exact closed.trans (RootObject.killFederate_regionsKept _ fed)
  | publishObject fed c hs flag =>
    exact .inl (memberOnRoot_regionsKept
      ((RootObject.publish_redeclares f.root fed c hs flag).regionsKept
        fun p _ within => within.publish fed c hs flag))
  | subscribeObject fed c hs =>
    exact .inl (memberOnRoot_regionsKept
      ((RootObject.subscribe_redeclares f.root fed c hs none).regionsKept
        fun p _ within => within.subscribe pointsWithin_none fed c hs))
  | subscribeAttributesWR fed c region hs =>
    exact .inl (memberWithRegion_regionsKept fun known =>
      (RootObject.subscribe_redeclares f.root fed c hs (some region)).regionsKept
        fun p live within => within.subscribe (pointsWithin_some.mpr (live region known)) fed c hs)
  | unsubscribeAttributesWR fed c region =>
    exact .inl (memberWithRegion_regionsKept fun _ =>
      (RootObject.unsubscribeWith_redeclares f.root fed c (some region)).regionsKept
        fun p _ within => within.unsubscribeWith fed c (some region))
  | publishInteraction fed i flag =>
    exact .inl (memberOnRoot_regionsKept
      ((RootObject.declareInteraction_redeclares f.root i _).regionsKept
        fun p _ within => within.publishInteraction fed i flag))
  | subscribeInteraction fed i flag =>
    exact .inl (memberOnRoot_regionsKept
      ((RootObject.declareInteraction_redeclares f.root i _).regionsKept
        fun p _ within => within.subscribeInteraction pointsWithin_none fed i flag))
  | subscribeInteractionWR fed i region flag =>
    exact .inl (memberWithRegion_regionsKept fun known =>
      (RootObject.declareInteraction_redeclares f.root i _).regionsKept fun p live within =>
        within.subscribeInteraction (pointsWithin_some.mpr (live region known)) fed i flag)
  | createRegion fed space extents =>
    rw [perform]
    refine asMember_cases (p := fun outcome => f.root.RegionsKept outcome.state.root ∨
      ∃ space extents, outcome.state.root = (f.root.createRegion space extents).state)
      (.inl (.refl f.root)) fun _ => ?_
    exact .inr ⟨space, extents, rfl⟩
  | associateRegion fed object region hs =>
    exact .inl (memberOnRoot_regionsKept
      (RootObject.associate_regionsKept f.root object region hs))
  | registerObject fed c name =>
    exact .inl (RootObject.registerObjectInstance_regionsKept f.root fed c _ _)
  | registerObjectWithRegion fed c name region hs =>
    exact .inl (registerObjectWithRegion_regionsKept f fed c name region hs)
  | deleteObject fed object =>
    exact .inl (memberOnRoot_regionsKept
      (RootObject.deleteObjectInstance_regionsKept f.root fed object))
  | ownership service fed object hs =>
    left
    rw [perform]
    refine asMember_cases (p := fun outcome => f.root.RegionsKept outcome.state.root)
      (.refl f.root) fun _ => ?_
    exact RootObject.ownershipService_regionsKept f.root service object hs
  | _ => exact .inl (internal rfl)

end Federation

/-! ## The invariant -/

/-- Sound, and the next handle is above all handles of live regions. -/
structure RootObject.RegionInvariant (root : RootObject) : Prop where
  sound : root.RegionsSound
  numbered : ∀ r ∈ root.regions, r.handle < root.nextRegion

namespace RootObject

variable {root root' : RootObject}

theorem RegionsKept.live (kept : root.RegionsKept root') {h : RegionHandle} :
    (root'.region? h).isSome = true ↔ (root.region? h).isSome = true := by
  rw [region?, region?, kept.regions]

theorem RegionInvariant.keep (holds : root.RegionInvariant) (kept : root.RegionsKept root') :
    root'.RegionInvariant := by
  refine ⟨⟨?_, ?_⟩, ?_⟩
  · exact (kept.within _ (fun _ alive => alive) holds.sound.live).mono fun h => kept.live.mpr
  · rw [kept.regions]
    exact holds.sound.distinct
  · rw [kept.regions, kept.nextRegion]
    exact holds.numbered

theorem createRegion_cases (root : RootObject) (space : SpaceHandle) (extents : Nat) :
    (root.createRegion space extents).state = root ∨
      ∃ r : RTIRegion, r.handle = root.nextRegion ∧ (root.createRegion space extents).state =
        { root with regions := root.regions ++ [r], nextRegion := root.nextRegion + 1 } := by
  unfold createRegion
  split
  · exact .inl rfl
  · split
    · exact .inl rfl
    · exact .inr ⟨_, rfl, rfl⟩

/-- A new region has a handle of its own, and the live ones stay. -/
theorem RegionInvariant.create (holds : root.RegionInvariant) (space : SpaceHandle)
    (extents : Nat) : (root.createRegion space extents).state.RegionInvariant ∧
      ∀ h, (root.region? h).isSome = true →
        ((root.createRegion space extents).state.region? h).isSome = true := by
  have within := holds.sound.live.createRegion space extents
  rcases createRegion_cases root space extents with unchanged | ⟨r, handle, result⟩
  · rw [unchanged]
    exact ⟨holds, fun _ alive => alive⟩
  · rw [result] at within ⊢
    have grows : ∀ h, (root.region? h).isSome = true →
        (RootObject.region? { root with
          regions := root.regions ++ [r], nextRegion := root.nextRegion + 1 } h).isSome = true := by
      intro h alive
      rw [region?_isSome] at alive ⊢
      rw [List.map_append]
      exact List.mem_append_left _ alive
    refine ⟨⟨⟨within.mono grows, ?_⟩, ?_⟩, grows⟩
    · dsimp only
      rw [List.map_append, List.nodup_append]
      refine ⟨holds.sound.distinct, by simp, ?_⟩
      intro a earlier b new
      obtain ⟨r', member, rfl⟩ := List.mem_map.mp earlier
      have below := holds.numbered r' member
      have fresh : b = root.nextRegion := by simpa [handle] using new
      rw [fresh]
      exact Nat.ne_of_lt below
    · intro r' member
      rcases List.mem_append.mp member with earlier | new
      · exact Nat.lt_succ_of_lt (holds.numbered r' earlier)
      · rw [List.mem_singleton.mp new, handle]
        exact Nat.lt_succ_self _

theorem modifyRegion_cases (root : RootObject) (region : RegionHandle) (extents : List Extent) :
    (root.modifyRegion region extents).state = root ∨
      ∃ r : RTIRegion, (root.modifyRegion region extents).state =
        { root with regions := replace RTIRegion.handle r root.regions } := by
  unfold modifyRegion
  split
  · exact .inl rfl
  · split
    · exact .inl rfl
    · exact .inr ⟨_, rfl⟩

/-- New extents leave the handles and the references alone. -/
theorem RegionInvariant.modify (holds : root.RegionInvariant) (region : RegionHandle)
    (extents : List Extent) : (root.modifyRegion region extents).state.RegionInvariant ∧
      ∀ h, (root.region? h).isSome = true →
        ((root.modifyRegion region extents).state.region? h).isSome = true := by
  rcases modifyRegion_cases root region extents with unchanged | ⟨r, result⟩
  · rw [unchanged]
    exact ⟨holds, fun _ alive => alive⟩
  · rw [result]
    have handles : (replace RTIRegion.handle r root.regions).map RTIRegion.handle =
        root.regions.map RTIRegion.handle := map_key_replace r root.regions
    have stays : ∀ h, (root.region? h).isSome = true → (RootObject.region?
        { root with regions := replace RTIRegion.handle r root.regions } h).isSome = true := by
      intro h alive
      rw [region?_isSome] at alive ⊢
      dsimp only
      rwa [handles]
    have old := holds.sound.live.mono stays
    refine ⟨⟨⟨⟨old.classes, old.interactions, old.objects⟩, ?_⟩, ?_⟩, stays⟩
    · dsimp only
      rw [handles]
      exact holds.sound.distinct
    · intro r' member
      have listed : r'.handle ∈ root.regions.map RTIRegion.handle := by
        rw [← handles]
        exact List.mem_map_of_mem member
      obtain ⟨r'', belongs, same⟩ := List.mem_map.mp listed
      rw [← same]
      exact holds.numbered r'' belongs

theorem deleteRegion_cases (root : RootObject) (region : RegionHandle) :
    (root.deleteRegion region).state = root ∧ (root.region? region).isSome = false ∨
      (root.deleteRegion region).state =
        { root with regions := drop RTIRegion.handle region root.regions } := by
  unfold deleteRegion getRegion
  cases root.region? region with
  | none => exact .inl ⟨rfl, rfl⟩
  | some r => exact .inr rfl

theorem region?_deleted {region h : RegionHandle} :
    (RootObject.region? { root with regions := drop RTIRegion.handle region root.regions }
      h).isSome = true ↔ (root.region? h).isSome = true ∧ h ≠ region := by
  rw [region?_isSome, region?_isSome]
  dsimp only
  rw [map_key_drop, List.mem_filter, decide_eq_true_eq]

/-- A region that nobody refers to can go. -/
theorem RegionInvariant.delete (holds : root.RegionInvariant) {region : RegionHandle}
    (unused : root.isInUse region = false) : (root.deleteRegion region).state.RegionInvariant := by
  rcases deleteRegion_cases root region with ⟨unchanged, _⟩ | deleted
  · rw [unchanged]
    exact holds
  · rw [deleted]
    have others := (holds.sound.live.and (isInUse_eq_false.mp unused)).mono
      fun h => (@region?_deleted root region h).mpr
    refine ⟨⟨⟨others.classes, others.interactions, others.objects⟩, ?_⟩, ?_⟩
    · exact holds.sound.distinct.sublist (List.filter_sublist.map _)
    · exact fun r member => holds.numbered r (mem_drop.mp member).1

end RootObject

namespace Federation

variable {f : Federation}

/-- The invariant goes on, and every live region stays. -/
def RegionsStay (f : Federation) (root : RootObject) : Prop :=
  root.RegionInvariant ∧
    ∀ h, (f.root.region? h).isSome = true → (root.region? h).isSome = true

theorem RegionsStay.of_kept {root : RootObject} (holds : f.root.RegionInvariant)
    (kept : f.root.RegionsKept root) : f.RegionsStay root :=
  ⟨holds.keep kept, fun _ => kept.live.mpr⟩

/-- Every event but a deletion. -/
theorem performRegion_stay (holds : f.root.RegionInvariant) {e : RegionEvent}
    (other : ∀ fed region, e ≠ .deleteRegion fed region) :
    f.RegionsStay (f.performRegion e).state.root := by
  have same : f.RegionsStay f.root := .of_kept holds (.refl f.root)
  cases e with
  | event e =>
    rcases perform_regions f e with kept | ⟨space, extents, created⟩
    · exact .of_kept holds kept
    · rw [performRegion, created]
      exact holds.create space extents
  | modifyRegion fed region extents =>
    exact asMember_cases (p := fun outcome => f.RegionsStay outcome.state.root) same
      fun _ => holds.modify region extents
  | unassociateRegion fed object region =>
    exact .of_kept holds (memberOnRoot_regionsKept
      (RootObject.unassociate_regionsKept f.root object region))
  | deleteRegion fed region => exact absurd rfl (other fed region)

/-- A deletion is refused before it reaches the root object, or performed there. -/
theorem deleteRegion_cases (f : Federation) (fed : FederateHandle) (region : RegionHandle) :
    (f.deleteRegion fed region).state = f ∨
      (f.check fed = true ∧ f.saveInProgress = false ∧
        (f.deleteRegion fed region).state.root = (f.root.deleteRegion region).state) := by
  unfold deleteRegion asMember
  split
  · rename_i member
    split
    · exact .inl rfl
    · rename_i idle
      exact .inr ⟨member, by simpa using idle, rfl⟩
  · exact .inl rfl

theorem regional_invariant (holds : f.root.RegionInvariant) {e : RegionEvent}
    (unused : DeletesUnused f e) : (regional f e).1.root.RegionInvariant := by
  unfold regional
  split
  · exact holds
  · rename_i running
    by_cases deletes : ∃ fed region, e = .deleteRegion fed region
    · obtain ⟨fed, region, rfl⟩ := deletes
      dsimp only [performRegion]
      rcases deleteRegion_cases f fed region with refused | ⟨member, idle, deleted⟩
      · rw [refused]
        exact holds
      · rw [deleted]
        exact holds.delete (unused (by simpa using running) member idle)
    · exact (performRegion_stay holds fun fed region equal => deletes ⟨fed, region, equal⟩).1

/-- An event keeps the references exactly if it deletes no region in use. -/
theorem keepsReferences_iff (holds : f.root.RegionInvariant) (e : RegionEvent) :
    KeepsReferences f e ↔ DeletesUnused f e := by
  constructor
  · intro keeps
    cases e with
    | deleteRegion fed region =>
      intro running member idle
      by_contra inUse
      rw [Bool.not_eq_false] at inUse
      -- a region in use is live, and the deletion has taken it out of the table
      have alive := holds.sound.live.of_inUse inUse
      have left := keeps.kept region inUse alive
      have performed : (regional f (.deleteRegion fed region)).1.root =
          { f.root with regions := drop RTIRegion.handle region f.root.regions } := by
        rcases RootObject.deleteRegion_cases f.root region with ⟨_, unknown⟩ | deleted
        · rw [alive] at unknown
          cases unknown
        · rw [← deleted]
          simp [regional, performRegion, deleteRegion, asMember, onRoot, running, member, idle]
      rw [performed, RootObject.region?_deleted] at left
      exact left.2 rfl
    | _ => trivial
  · intro unused
    refine ⟨(regional_invariant holds unused).sound, fun h inUse alive => ?_⟩
    unfold regional
    split
    · exact alive
    · rename_i running
      by_cases deletes : ∃ fed region, e = .deleteRegion fed region
      · obtain ⟨fed, region, rfl⟩ := deletes
        dsimp only [performRegion]
        rcases deleteRegion_cases f fed region with refused | ⟨member, idle, deleted⟩
        · rw [refused]
          exact alive
        · rw [deleted]
          rcases RootObject.deleteRegion_cases f.root region with ⟨unchanged, _⟩ | dropped
          · rw [unchanged]
            exact alive
          · have free := unused (by simpa using running) member idle
            rw [dropped, RootObject.region?_deleted]
            refine ⟨alive, ?_⟩
            rintro rfl
            rw [inUse] at free
            cases free
      · exact (performRegion_stay holds fun fed region equal =>
          deletes ⟨fed, region, equal⟩).2 h alive

end Federation

theorem create_regionInvariant (fom : Fom) (withMom haveXml : Bool) :
    (Federation.create fom withMom haveXml).root.RegionInvariant := by
  refine ⟨⟨⟨?_, ?_, by simp [Federation.create]⟩, List.nodup_nil⟩, by simp [Federation.create]⟩
  · intro c member a belongs
    obtain ⟨declared, _, rfl⟩ := List.mem_map.mp member
    obtain ⟨named, _, rfl⟩ := List.mem_map.mp belongs
    exact fun s listed => absurd listed List.not_mem_nil
  · intro i member
    obtain ⟨declared, _, rfl⟩ := List.mem_map.mp member
    exact fun s listed => absurd listed List.not_mem_nil

/-! ## Whole runs -/

/-- A run keeps every reference to a region valid and every region in use exactly if it deletes
no region that is in use. -/
theorem regions_valid_iff (fom : Fom) (withMom haveXml : Bool) (es : List RegionEvent) :
    regional.Meets KeepsReferences (Federation.create fom withMom haveXml) es ↔
      regional.Meets DeletesUnused (Federation.create fom withMom haveXml) es := by
  have step : ∀ f e, f.root.RegionInvariant → DeletesUnused f e →
      (regional f e).1.root.RegionInvariant := fun f e holds => regional_invariant holds
  exact (regional.meets_congr (fun f e holds => (keepsReferences_iff holds e).symm) step
    (create_regionInvariant fom withMom haveXml) es).symm

/-- One class and one routing space of one dimension. -/
def spaceFom : Fom := { smallFom with spaces := [1] }

/-- The subscriber still refers to the region when it has gone. -/
def deletedInUse : List RegionEvent :=
  [.event (joinAs "a"), .event (.createRegion 1 1 1), .event (.subscribeAttributesWR 1 1 1 [2]),
    .deleteRegion 1 1]

theorem region_in_use_deleted :
    ¬ regional.Meets KeepsReferences (Federation.create spaceFom false true) deletedInUse := by
  intro keeps
  have last := keeps.2.2.2.1
  have inUse : (regional.exec (Federation.create spaceFom false true)
      (deletedInUse.take 3)).root.isInUse 1 = true := by decide +kernel
  have left := last.kept 1 inUse (by decide +kernel)
  have gone : ((regional.exec (Federation.create spaceFom false true)
      deletedInUse).root.region? 1).isSome = false := by decide +kernel
  exact absurd left (by rw [Bool.not_eq_true]; exact gone)

end Certi
