import Certi.LibCERTI.Instances
import Certi.LibCERTI.Records

/-!
# References to regions

The services of `RootObject.cc` that change and delete regions, and who refers
to a region: subscribers of class attributes and of interactions, and the
attributes of instances. `RefersWithin p` says that every region referred to
satisfies `p`; each service keeps it when the region it is given does.
-/
namespace Certi

open Keyed Sweep

namespace RootObject

variable (root : RootObject)

/-- Another number of extents is refused. -/
def modifyRegion (region : RegionHandle) (extents : List Extent) : Outcome RootObject :=
  match root.getRegion region with
  | .error e => .refused root e
  | .ok r =>
    if extents.length ≠ r.extents.length then .refused root .invalidExtents
    else
      .done { root with
        regions := replace RTIRegion.handle { r with extents := extents } root.regions } []

/-- `HandleManager::free` does nothing: the handle is not provided again. The list node is read
once more after it was erased; what it held is taken to be still there. -/
def deleteRegion (region : RegionHandle) : Outcome RootObject :=
  match root.getRegion region with
  | .error e => .refused root e
  | .ok _ => .done { root with regions := drop RTIRegion.handle region root.regions } []

end RootObject

/-! ## Who refers to what -/

/-- A pointer to a region is null or to a region with `p`. -/
def PointsWithin (p : RegionHandle → Prop) (region : Option RegionHandle) : Prop :=
  ∀ h ∈ region, p h

def SubscribedWithin (p : RegionHandle → Prop) (subscribers : List Subscriber) : Prop :=
  ∀ s ∈ subscribers, PointsWithin p s.region

def ObjectClass.RefersWithin (p : RegionHandle → Prop) (c : ObjectClass) : Prop :=
  ∀ a ∈ c.attributes, SubscribedWithin p a.subscribers

def Object.RefersWithin (p : RegionHandle → Prop) (o : Object) : Prop :=
  ∀ oa ∈ o.attributes, PointsWithin p oa.region

/-- Every region that a subscriber entry or an instance attribute refers to satisfies `p`. -/
structure RootObject.RefersWithin (p : RegionHandle → Prop) (root : RootObject) : Prop where
  classes : ∀ c ∈ root.classes, c.RefersWithin p
  interactions : ∀ i ∈ root.interactions, SubscribedWithin p i.subscribers
  objects : ∀ o ∈ root.objects, o.RefersWithin p

/-- Some subscriber entry or some instance attribute refers to the region. -/
def RootObject.isInUse (root : RootObject) (region : RegionHandle) : Bool :=
  root.classes.any (fun c => c.attributes.any fun a =>
      a.subscribers.any fun s => s.region = some region) ||
    root.interactions.any (fun i => i.subscribers.any fun s => s.region = some region) ||
    root.objects.any (fun o => o.attributes.any fun oa => oa.region = some region)

variable {p q : RegionHandle → Prop}

theorem PointsWithin.mono {region : Option RegionHandle} (within : PointsWithin p region)
    (weaker : ∀ h, p h → q h) : PointsWithin q region :=
  fun h points => weaker h (within h points)

theorem pointsWithin_none : PointsWithin p none := fun _ points => nomatch points

theorem pointsWithin_some {h : RegionHandle} : PointsWithin p (some h) ↔ p h := by
  simp [PointsWithin]

theorem pointsWithin_ne {region : Option RegionHandle} {h : RegionHandle} :
    PointsWithin (· ≠ h) region ↔ region ≠ some h := by
  constructor
  · rintro within rfl
    exact within h rfl rfl
  · rintro other h' points rfl
    exact other points

namespace RootObject

variable {root root' : RootObject} {fed : FederateHandle}

theorem RefersWithin.mono (within : root.RefersWithin p) (weaker : ∀ h, p h → q h) :
    root.RefersWithin q :=
  ⟨fun c member a belongs s listed => (within.classes c member a belongs s listed).mono weaker,
    fun i member s listed => (within.interactions i member s listed).mono weaker,
    fun o member oa belongs => (within.objects o member oa belongs).mono weaker⟩

theorem RefersWithin.and (first : root.RefersWithin p) (second : root.RefersWithin q) :
    root.RefersWithin (fun h => p h ∧ q h) :=
  ⟨fun c member a belongs s listed h points =>
      ⟨first.classes c member a belongs s listed h points,
        second.classes c member a belongs s listed h points⟩,
    fun i member s listed h points => ⟨first.interactions i member s listed h points,
      second.interactions i member s listed h points⟩,
    fun o member oa belongs h points => ⟨first.objects o member oa belongs h points,
      second.objects o member oa belongs h points⟩⟩

/-- A region not in use is one that everything referred to differs from. -/
theorem isInUse_eq_false {region : RegionHandle} :
    root.isInUse region = false ↔ root.RefersWithin (· ≠ region) := by
  simp only [isInUse, Bool.or_eq_false_iff, List.any_eq_false, List.any_eq_true, not_exists,
    decide_eq_true_eq, not_and]
  constructor
  · rintro ⟨⟨classes, interactions⟩, objects⟩
    exact ⟨fun c member a belongs s listed =>
        pointsWithin_ne.mpr (classes c member a belongs s listed),
      fun i member s listed => pointsWithin_ne.mpr (interactions i member s listed),
      fun o member oa belongs => pointsWithin_ne.mpr (objects o member oa belongs)⟩
  · intro within
    exact ⟨⟨fun c member a belongs s listed =>
        pointsWithin_ne.mp (within.classes c member a belongs s listed),
      fun i member s listed => pointsWithin_ne.mp (within.interactions i member s listed)⟩,
      fun o member oa belongs => pointsWithin_ne.mp (within.objects o member oa belongs)⟩

/-- What everything referred to satisfies is true of a region in use. -/
theorem RefersWithin.of_inUse (within : root.RefersWithin p) {region : RegionHandle}
    (inUse : root.isInUse region = true) : p region := by
  by_contra absent
  have unused : root.isInUse region = false :=
    isInUse_eq_false.mpr (within.mono fun h holds equal => absent (equal ▸ holds))
  rw [inUse] at unused
  cases unused

theorem region?_isSome {h : RegionHandle} :
    (root.region? h).isSome = true ↔ h ∈ root.regions.map RTIRegion.handle := by
  constructor
  · intro live
    obtain ⟨r, found⟩ := Option.isSome_iff_exists.mp live
    exact List.mem_map.mpr ⟨r, lookup_mem found, lookup_key found⟩
  · intro listed
    obtain ⟨r, member, handle⟩ := List.mem_map.mp listed
    obtain ⟨r', found⟩ : ∃ r', lookup RTIRegion.handle h root.regions = some r' :=
      lookup_of_mem member handle
    exact Option.isSome_iff_exists.mpr ⟨r', found⟩

theorem getObject_mem {h : ObjectHandle} {o : Object} (found : root.getObject h = .ok o) :
    o ∈ root.objects := by
  unfold getObject at found
  split at found
  · rename_i o' located
    cases found
    exact lookup_mem located
  · cases found

theorem getRegion_ok {h : RegionHandle} {r : RTIRegion} (found : root.getRegion h = .ok r) :
    root.region? h = some r := by
  unfold getRegion at found
  split at found
  · rename_i r' located
    cases found
    exact located
  · cases found

end RootObject

/-! ## Classes -/

namespace ObjectClass

variable {c c' : ObjectClass} {server : SecurityServer} {fed : FederateHandle}

theorem RefersWithin.setAttribute {b : ObjectClassAttribute} (within : c.RefersWithin p)
    (subscribers : SubscribedWithin p b.subscribers) : (c.setAttribute b).RefersWithin p :=
  forall_replace within subscribers

theorem RefersWithin.mapAttributes {f : ObjectClassAttribute → ObjectClassAttribute}
    (within : c.RefersWithin p)
    (subscribers : ∀ a ∈ c.attributes, ∀ s ∈ (f a).subscribers, s ∈ a.subscribers) :
    (c.mapAttributes f).RefersWithin p := by
  intro b member s listed
  obtain ⟨a, belongs, rfl⟩ := List.mem_map.mp member
  exact within a belongs s (subscribers a belongs s listed)

theorem publishStep_success {h : AttributeHandle} {flag : Bool}
    (success : publishStep server fed flag c h = .ok c') :
    ∃ a b, c.attribute? h = some a ∧ b.subscribers = a.subscribers ∧ c' = c.setAttribute b := by
  unfold publishStep at success
  cases found : c.getAttribute h with
  | error e =>
    rw [found] at success
    cases success
  | ok a =>
    rw [found] at success
    cases flag with
    | false =>
      cases success
      exact ⟨a, a.unpublish fed, getAttribute_ok found, rfl, rfl⟩
    | true =>
      cases published : a.publish server fed with
      | error e =>
        simp only [bind, Except.bind, if_true, published] at success
        cases success
      | ok b =>
        simp only [bind, Except.bind, if_true, published] at success
        cases success
        refine ⟨a, b, getAttribute_ok found, ?_, rfl⟩
        rw [ObjectClassAttribute.publish_success published]

theorem RefersWithin.publish (within : c.RefersWithin p) (hs : List AttributeHandle)
    (flag : Bool) : (c.publish server fed hs flag).1.RefersWithin p := by
  unfold ObjectClass.publish
  split
  · exact within
  · split
    · have reset : (c.mapAttributes (·.unpublish fed)).RefersWithin p :=
        within.mapAttributes fun _ _ _ listed => listed
      refine sweep_invariant (p := fun d : ObjectClass => d.RefersWithin p) ?_ reset
      intro d h next _ holds success
      obtain ⟨a, b, located, same, rfl⟩ := publishStep_success success
      refine holds.setAttribute ?_
      rw [same]
      exact holds a (lookup_mem located)
    · exact within

theorem RefersWithin.unsubscribeWith (within : c.RefersWithin p) (fed : FederateHandle)
    (region : Option RegionHandle) : (c.unsubscribeWith fed region).RefersWithin p :=
  within.mapAttributes fun _ _ _ listed => (Subscribable.mem_unsubscribeWith.mp listed).1

theorem RefersWithin.unsubscribe (within : c.RefersWithin p) (fed : FederateHandle) :
    (c.unsubscribe fed).RefersWithin p := by
  refine within.mapAttributes fun a _ s listed => ?_
  split at listed
  · exact Subscribable.mem_unsubscribe listed
  · exact listed

theorem RefersWithin.subscribe {region : Option RegionHandle} (within : c.RefersWithin p)
    (given : PointsWithin p region) (hs : List AttributeHandle) :
    (c.subscribe server fed hs region).1.RefersWithin p := by
  unfold ObjectClass.subscribe
  split
  · split
    · exact within
    · have raised : RefersWithin p (if hs.isEmpty then c
          else { c with maxSubscriberHandle := max fed c.maxSubscriberHandle }) := by
        split <;> exact within
      have step : ∀ d h next, h ∈ hs → RefersWithin p d →
          subscribeStep server fed region d h = .ok next → RefersWithin p next := by
        intro d h next _ holds success
        obtain ⟨a, b, located, subscribed, rfl⟩ := subscribeStep_success success
        refine holds.setAttribute fun s member => ?_
        rcases ((ObjectClassAttribute.subscribe_success subscribed).2 s).mp member with
          earlier | rfl
        · exact holds a (lookup_mem located) s earlier
        · exact given
      have swept := sweep_invariant step (raised.unsubscribeWith fed region)
      dsimp only
      split <;> rename_i outcome <;> rw [outcome] at swept <;> exact swept
  · exact within

theorem RefersWithin.killDeclarations (within : c.RefersWithin p) :
    (RootObject.killDeclarations server fed c).RefersWithin p := by
  have unpublished : (c.publish server fed [] false).1.RefersWithin p := within.publish [] false
  unfold RootObject.killDeclarations
  split
  · split <;> rename_i outcome <;> rw [outcome] at unpublished
    · exact unpublished
    · split
      · exact unpublished.unsubscribe fed
      · exact unpublished
  · split
    · exact within.unsubscribe fed
    · exact within

end ObjectClass

/-! ## Instances -/

namespace Object

variable {o : Object}

theorem RefersWithin.setAttribute {oa : ObjectAttribute} (within : o.RefersWithin p)
    (region : PointsWithin p oa.region) : (o.setAttribute oa).RefersWithin p :=
  forall_replace within region

theorem RefersWithin.unassociate (within : o.RefersWithin p) (region : RegionHandle) :
    (o.unassociate region).RefersWithin p := by
  intro oa' member
  obtain ⟨oa, belongs, rfl⟩ := List.mem_map.mp member
  split
  · exact pointsWithin_none
  · exact within oa belongs

theorem RefersWithin.killFederate (within : o.RefersWithin p) (fed : FederateHandle) :
    (o.killFederate fed).RefersWithin p := by
  intro oa' member
  obtain ⟨oa, belongs, rfl⟩ := List.mem_map.mp member
  split <;> exact within oa belongs

theorem newInstance_refersWithin (c : ObjectClass) (fed : FederateHandle)
    (classHandle : ObjectClassHandle) (object : ObjectHandle) (name : String) :
    (RootObject.newInstance c fed classHandle object name).RefersWithin p := by
  intro oa member
  obtain ⟨a, _, rfl⟩ := List.mem_map.mp member
  exact pointsWithin_none

end Object

/-! ## The services of the root object -/

namespace RootObject

variable {root root' : RootObject} {fed : FederateHandle}

theorem RefersWithin.setClass {h : ObjectClassHandle} {c c' : ObjectClass}
    (within : root.RefersWithin p) (found : root.class? h = some c)
    (keeps : c.RefersWithin p → c'.RefersWithin p) : (root.setClass c').RefersWithin p :=
  ⟨forall_replace within.classes (keeps (within.classes c (lookup_mem found))),
    within.interactions, within.objects⟩

theorem RefersWithin.setObject {o : Object} (within : root.RefersWithin p)
    (stored : o.RefersWithin p) : (root.setObject o).RefersWithin p :=
  ⟨within.classes, within.interactions, forall_replace within.objects stored⟩

theorem RefersWithin.publish (within : root.RefersWithin p) (fed : FederateHandle)
    (h : ObjectClassHandle) (hs : List AttributeHandle) (flag : Bool) :
    (root.publish fed h hs flag).state.RefersWithin p := by
  unfold RootObject.publish
  split
  · exact within
  · rename_i c found
    exact within.setClass found fun old => old.publish hs flag

theorem RefersWithin.subscribe {region : Option RegionHandle} (within : root.RefersWithin p)
    (given : PointsWithin p region) (fed : FederateHandle) (h : ObjectClassHandle)
    (hs : List AttributeHandle) : (root.subscribe fed h hs region).state.RefersWithin p := by
  unfold RootObject.subscribe
  split
  · exact within
  · rename_i c found
    have kept : (root.setClass (c.subscribe root.server fed hs region).1).RefersWithin p :=
      within.setClass found fun old => old.subscribe given hs
    split <;> rename_i outcome <;> rw [outcome] at kept <;> exact kept

theorem RefersWithin.unsubscribeWith (within : root.RefersWithin p) (fed : FederateHandle)
    (h : ObjectClassHandle) (region : Option RegionHandle) :
    (root.unsubscribeWith fed h region).state.RefersWithin p := by
  unfold RootObject.unsubscribeWith
  split
  · exact within
  · rename_i c found
    exact within.setClass found fun old => old.unsubscribeWith fed region

theorem RefersWithin.declareInteraction {h : InteractionClassHandle}
    {f : Interaction → Except RTIException Interaction} (within : root.RefersWithin p)
    (keeps : ∀ i i', f i = .ok i' → SubscribedWithin p i.subscribers →
      SubscribedWithin p i'.subscribers) :
    (root.declareInteraction h f).state.RefersWithin p := by
  unfold RootObject.declareInteraction
  split
  · exact within
  · rename_i i found
    split
    · exact within
    · rename_i i' success
      have member : i ∈ root.interactions := by
        unfold getInteraction at found
        split at found
        · rename_i located
          cases found
          exact lookup_mem located
        · cases found
      exact ⟨within.classes, forall_replace within.interactions
        (keeps i i' success (within.interactions i member)), within.objects⟩

theorem RefersWithin.publishInteraction (within : root.RefersWithin p) (fed : FederateHandle)
    (h : InteractionClassHandle) (flag : Bool) :
    (root.publishInteraction fed h flag).state.RefersWithin p := by
  refine within.declareInteraction fun i i' success old => ?_
  cases flag with
  | true =>
    simp only [if_true, Interaction.publish] at success
    split at success <;> cases success
    exact old
  | false =>
    simp only [Bool.false_eq_true, if_false, Interaction.unpublish] at success
    split at success <;> cases success
    exact old

theorem RefersWithin.subscribeInteraction {region : Option RegionHandle}
    (within : root.RefersWithin p) (given : PointsWithin p region) (fed : FederateHandle)
    (h : InteractionClassHandle) (flag : Bool) :
    (root.subscribeInteraction fed h region flag).state.RefersWithin p := by
  refine within.declareInteraction fun i i' success old => ?_
  cases flag with
  | true =>
    simp only [if_true, Interaction.subscribe] at success
    split at success
    · cases success
      exact old
    · split at success <;> cases success
      intro s listed
      rcases List.mem_append.mp listed with earlier | new
      · exact old s earlier
      · cases List.mem_singleton.mp new
        exact given
  | false =>
    simp only [Bool.false_eq_true, if_false] at success
    cases success
    exact fun s listed => old s (Subscribable.mem_unsubscribeWith.mp listed).1

theorem RefersWithin.registerObjectInstance (within : root.RefersWithin p)
    (fed : FederateHandle) (classHandle : ObjectClassHandle) (object : ObjectHandle)
    (name : String) :
    (root.registerObjectInstance fed classHandle object name).state.RefersWithin p := by
  rcases registerObjectInstance_cases root fed classHandle object name with
    ⟨e, refused⟩ | ⟨c, sent, accepted⟩
  · rw [refused]
    exact within
  · rw [accepted.outcome]
    refine ⟨within.classes, within.interactions, fun o belongs => ?_⟩
    rcases List.mem_append.mp belongs with earlier | new
    · exact within.objects o earlier
    · cases List.mem_singleton.mp new
      exact Object.newInstance_refersWithin c fed classHandle object name

theorem RefersWithin.deleteObjectInstance (within : root.RefersWithin p) (fed : FederateHandle)
    (object : ObjectHandle) : (root.deleteObjectInstance fed object).state.RefersWithin p := by
  rcases deleteObjectInstance_cases root fed object with ⟨e, refused⟩ | ⟨o, sent, deletes⟩
  · rw [refused]
    exact within
  · rw [deletes.outcome]
    exact ⟨within.classes, within.interactions,
      fun o member => within.objects o (mem_drop.mp member).1⟩

/-- An association refers to the region it was given, which is looked up first. -/
theorem RefersWithin.associate (within : root.RefersWithin p) (object : ObjectHandle)
    {region : RegionHandle} (given : (root.region? region).isSome = true → p region)
    (hs : List AttributeHandle) : (root.associate object region hs).state.RefersWithin p := by
  unfold RootObject.associate
  split
  · exact within
  · exact within
  · rename_i r o known found
    have live : p region := given (by rw [getRegion_ok known]; rfl)
    have stored : o.RefersWithin p := within.objects o (getObject_mem found)
    refine within.setObject ?_
    refine sweep_invariant (p := fun s : Object => s.RefersWithin p) ?_ (stored.unassociate region)
    intro s h next _ holds success
    dsimp only at success
    cases located : s.getAttribute h with
    | error e =>
      rw [located] at success
      cases success
    | ok oa =>
      rw [located] at success
      cases success
      exact holds.setAttribute (pointsWithin_some.mpr live)

theorem RefersWithin.unassociate (within : root.RefersWithin p) (object : ObjectHandle)
    (region : RegionHandle) : (root.unassociate object region).state.RefersWithin p := by
  unfold RootObject.unassociate
  split
  · exact within
  · exact within
  · rename_i o _ found
    exact within.setObject ((within.objects o (getObject_mem found)).unassociate region)

theorem RefersWithin.createRegion (within : root.RefersWithin p) (space : SpaceHandle)
    (extents : Nat) : (root.createRegion space extents).state.RefersWithin p := by
  unfold RootObject.createRegion
  split
  · exact within
  · split
    · exact within
    · exact ⟨within.classes, within.interactions, within.objects⟩

theorem RefersWithin.killDeclarationsOf (within : root.RefersWithin p) (fed : FederateHandle)
    (h : ObjectClassHandle) : (root.killDeclarationsOf fed h).RefersWithin p :=
  ⟨forall_adjust within.classes fun _ _ _ old => old.killDeclarations,
    within.interactions, within.objects⟩

theorem RefersWithin.killInClass (fed : FederateHandle) (h : ObjectClassHandle)
    (owned : List Object) : ∀ root : RootObject, root.RefersWithin p →
      (RootObject.killInClass fed h root owned).1.RefersWithin p := by
  induction owned with
  | nil => exact fun root within => within.killDeclarationsOf fed h
  | cons o rest ih =>
    intro root within
    have unpublished := within.killDeclarationsOf fed h
    exact ih _ ⟨unpublished.classes, unpublished.interactions,
      fun other member => unpublished.objects other (mem_drop.mp member).1⟩

theorem RefersWithin.killClasses (fed : FederateHandle) (hs : List ObjectClassHandle) :
    ∀ root : RootObject, root.RefersWithin p →
      (RootObject.killClasses fed root hs).1.RefersWithin p := by
  induction hs with
  | nil => exact fun root within => within
  | cons h rest ih =>
    intro root within
    exact ih _ (RefersWithin.killInClass fed h _ root within)

theorem RefersWithin.killFederate (within : root.RefersWithin p) (fed : FederateHandle) :
    (root.killFederate fed).1.RefersWithin p := by
  have killed := RefersWithin.killClasses fed (root.classes.map ObjectClass.handle) root within
  refine ⟨killed.classes, fun i member => ?_, fun o member => ?_⟩
  · obtain ⟨i, belongs, rfl⟩ := List.mem_map.mp member
    have old := killed.interactions i belongs
    unfold Interaction.killFederate
    dsimp only
    split
    · exact fun s listed => old s (Subscribable.mem_unsubscribe listed)
    · exact old
  · obtain ⟨o, belongs, rfl⟩ := List.mem_map.mp member
    exact (killed.objects o (List.mem_filter.mp belongs).1).killFederate fed

end RootObject

end Certi
