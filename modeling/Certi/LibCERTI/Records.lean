import Mathlib.Data.List.TakeWhile
import Certi.LibCERTI.Declarations

/-!
# What a root object records for one federate

The services of `RTIA/DeclarationManagement.cc` and `RTIA/DataDistribution.cc`
that a root object carries out, and what it has recorded for a federate
afterwards. `Recorded` is the purpose of the tables: what the federate
publishes, which interactions it subscribes to and where it uses its regions.
A service is refused before it records anything (`rejects`), or it records
what it asks for as far as its attributes are accepted (`carriedOut`).
-/
namespace Certi

open Keyed Sweep

inductive DeclarationService where
  | publishObjectClass (c : ObjectClassHandle) (hs : List AttributeHandle)
  | unpublishObjectClass (c : ObjectClassHandle)
  | publishInteractionClass (i : InteractionClassHandle)
  | unpublishInteractionClass (i : InteractionClassHandle)
  | subscribeInteractionClass (i : InteractionClassHandle)
  | unsubscribeInteractionClass (i : InteractionClassHandle)
  | associateRegion (object : ObjectHandle) (region : RegionHandle) (hs : List AttributeHandle)
  | unassociateRegion (object : ObjectHandle) (region : RegionHandle)
  deriving DecidableEq, Repr

/-- What is recorded for one federate; an attribute is in one region or in none. -/
@[ext] structure Recorded where
  publishes : ObjectClassHandle → AttributeHandle → Bool
  publishesInteraction : InteractionClassHandle → Bool
  subscribesInteraction : InteractionClassHandle → Bool
  region : ObjectHandle → AttributeHandle → Option RegionHandle

namespace Recorded

variable (d : Recorded)

/-! ## The purpose of the services -/

/-- The attributes of a class are published, and no others of that class. -/
def publish (c : ObjectClassHandle) (hs : List AttributeHandle) : Recorded :=
  { d with publishes := fun c' h => if c' = c then hs.contains h else d.publishes c' h }

def publishInteraction (i : InteractionClassHandle) (flag : Bool) : Recorded :=
  { d with publishesInteraction := Function.update d.publishesInteraction i flag }

def subscribeInteraction (i : InteractionClassHandle) (flag : Bool) : Recorded :=
  { d with subscribesInteraction := Function.update d.subscribesInteraction i flag }

/-- The region holds for these attributes of the object, and for no others of it. -/
def associate (object : ObjectHandle) (region : RegionHandle) (hs : List AttributeHandle) :
    Recorded :=
  { d with
    region := fun o h =>
      if o = object then
        if hs.contains h then some region
        else if d.region o h = some region then none else d.region o h
      else d.region o h }

def perform : DeclarationService → Recorded
  | .publishObjectClass c hs => d.publish c hs
  | .unpublishObjectClass c => d.publish c []
  | .publishInteractionClass i => d.publishInteraction i true
  | .unpublishInteractionClass i => d.publishInteraction i false
  | .subscribeInteractionClass i => d.subscribeInteraction i true
  | .unsubscribeInteractionClass i => d.subscribeInteraction i false
  | .associateRegion object region hs => d.associate object region hs
  | .unassociateRegion object region => d.associate object region []

/-- The service asks for nothing but what is on record. -/
def Holds : DeclarationService → Prop
  | .publishObjectClass c hs => ∀ h, d.publishes c h = true ↔ h ∈ hs
  | .unpublishObjectClass c => ∀ h, d.publishes c h = false
  | .publishInteractionClass i => d.publishesInteraction i = true
  | .unpublishInteractionClass i => d.publishesInteraction i = false
  | .subscribeInteractionClass i => d.subscribesInteraction i = true
  | .unsubscribeInteractionClass i => d.subscribesInteraction i = false
  | .associateRegion object region hs => ∀ h, d.region object h = some region ↔ h ∈ hs
  | .unassociateRegion object region => ∀ h, d.region object h ≠ some region

theorem publish_eq_self (c : ObjectClassHandle) (hs : List AttributeHandle) :
    d.publish c hs = d ↔ ∀ h, d.publishes c h = true ↔ h ∈ hs := by
  constructor
  · intro same h
    have read := congrFun (congrFun (congrArg publishes same) c) h
    rw [← read]
    simp [publish]
  · intro holds
    have kept : (d.publish c hs).publishes = d.publishes := by
      funext c' h
      by_cases equal : c' = c
      · subst equal
        have here := holds h
        rw [Bool.eq_iff_iff, here]
        simp [publish]
      · simp [publish, equal]
    exact Recorded.ext kept rfl rfl rfl

theorem associate_eq_self (object : ObjectHandle) (region : RegionHandle)
    (hs : List AttributeHandle) :
    d.associate object region hs = d ↔ ∀ h, d.region object h = some region ↔ h ∈ hs := by
  constructor
  · intro same h
    have read := congrFun (congrFun (congrArg Recorded.region same) object) h
    rw [← read]
    by_cases listed : h ∈ hs
    · simp [associate, listed]
    · by_cases used : d.region object h = some region <;> simp [associate, listed, used]
  · intro holds
    have kept : (d.associate object region hs).region = d.region := by
      funext o h
      by_cases equal : o = object
      · subst equal
        have here := holds h
        by_cases listed : h ∈ hs
        · simp [associate, listed, here.mpr listed]
        · have unused := mt here.mp listed
          simp [associate, listed, unused]
      · simp [associate, equal]
    exact Recorded.ext rfl rfl rfl kept

@[simp] theorem publishInteraction_eq_self {i : InteractionClassHandle} {flag : Bool} :
    d.publishInteraction i flag = d ↔ d.publishesInteraction i = flag := by
  simp [publishInteraction, Recorded.ext_iff, eq_comm]

@[simp] theorem subscribeInteraction_eq_self {i : InteractionClassHandle} {flag : Bool} :
    d.subscribeInteraction i flag = d ↔ d.subscribesInteraction i = flag := by
  simp [subscribeInteraction, Recorded.ext_iff, eq_comm]

/-- A service changes nothing exactly if what it asks for is on record. -/
theorem perform_eq_self {service : DeclarationService} :
    d.perform service = d ↔ d.Holds service := by
  cases service with
  | publishObjectClass c hs => exact d.publish_eq_self c hs
  | unpublishObjectClass c =>
    have cleared := d.publish_eq_self c []
    simpa [perform, Holds] using cleared
  | publishInteractionClass i => exact d.publishInteraction_eq_self
  | unpublishInteractionClass i => exact d.publishInteraction_eq_self
  | subscribeInteractionClass i => exact d.subscribeInteraction_eq_self
  | unsubscribeInteractionClass i => exact d.subscribeInteraction_eq_self
  | associateRegion object region hs => exact d.associate_eq_self object region hs
  | unassociateRegion object region =>
    have cleared := d.associate_eq_self object region []
    simpa [perform, Holds] using cleared

end Recorded

/-! ## One class, one object -/

namespace ObjectClass

variable {c c' : ObjectClass} {server : SecurityServer} {fed : FederateHandle}

def publishesAt (c : ObjectClass) (fed : FederateHandle) (h : AttributeHandle) : Bool :=
  (c.attribute? h).any (·.isPublishing fed)

/-- The attribute exists, and its level admits the federate. -/
def mayPublish (c : ObjectClass) (server : SecurityServer) (fed : FederateHandle)
    (h : AttributeHandle) : Bool :=
  (c.attribute? h).any fun a => server.canFederateAccessData fed a.level

theorem SameClass.mayPublish (same : c.SameClass c') (server : SecurityServer)
    (fed : FederateHandle) (h : AttributeHandle) :
    c'.mayPublish server fed h = c.mayPublish server fed h := by
  have read : ∀ d : ObjectClass, d.mayPublish server fed h =
      ((d.attribute? h).map (·.level)).any (server.canFederateAccessData fed) := by
    intro d
    unfold ObjectClass.mayPublish
    cases d.attribute? h <;> rfl
  rw [read, read, same.levels h]

theorem attribute?_setAttribute (c : ObjectClass) (a : ObjectClassAttribute)
    (h : AttributeHandle) :
    (c.setAttribute a).attribute? h =
      if h = a.handle then (c.attribute? h).map (fun _ => a) else c.attribute? h :=
  lookup_replace_eq a h c.attributes

theorem attribute?_mapAttributes (c : ObjectClass)
    {f : ObjectClassAttribute → ObjectClassAttribute} (keeps : ∀ a, (f a).handle = a.handle)
    (h : AttributeHandle) : (c.mapAttributes f).attribute? h = (c.attribute? h).map f :=
  lookup_map (fun a _ => keeps a) h

/-- What the loop of `publish` has done when the attributes `past` are published. -/
structure Published (server : SecurityServer) (fed : FederateHandle) (c : ObjectClass)
    (past : List AttributeHandle) (c' : ObjectClass) : Prop where
  same : c.SameClass c'
  exactly : ∀ h, c'.publishesAt fed h = past.contains h
  allowed : ∀ h ∈ past, c.mayPublish server fed h = true

theorem reset_published : Published server fed c [] (c.mapAttributes (·.unpublish fed)) := by
  have same : c.SameClass (c.mapAttributes (·.unpublish fed)) :=
    mapAttributes_sameClass (fun _ => rfl) (fun _ => rfl) (fun _ => rfl)
  refine ⟨same, fun h => ?_, by simp⟩
  rw [publishesAt, attribute?_mapAttributes c (f := (·.unpublish fed)) (fun _ => rfl)]
  cases c.attribute? h <;>
    simp [ObjectClassAttribute.isPublishing, ObjectClassAttribute.unpublish]

theorem publishStep_published {past : List AttributeHandle} {h : AttributeHandle}
    (before : Published server fed c past c') (fine : c.mayPublish server fed h = true) :
    ∃ next, publishStep server fed true c' h = .ok next ∧
      Published server fed c (past ++ [h]) next := by
  have here := before.same.mayPublish server fed h
  rw [fine, mayPublish] at here
  cases found : c'.attribute? h with
  | none => simp [found] at here
  | some a =>
    have is : a.handle = h := lookup_key found
    have access : server.canFederateAccessData fed a.level = true := by simpa [found] using here
    have published : a.publish server fed =
        .ok { a with publishers := insert fed a.publishers } := by
      unfold ObjectClassAttribute.publish
      by_cases already : fed ∈ a.publishers <;>
        simp [ObjectClassAttribute.isPublishing, already, access]
    refine ⟨c'.setAttribute { a with publishers := insert fed a.publishers }, ?_, ?_, ?_, ?_⟩
    · simp [publishStep, getAttribute, found, published, bind, Except.bind, pure, Except.pure]
    · exact before.same.trans (setAttribute_sameClass found rfl rfl rfl)
    · intro k
      have old := before.exactly k
      rw [publishesAt, attribute?_setAttribute]
      by_cases equal : k = h
      · subst equal
        simp [is, found, ObjectClassAttribute.isPublishing]
      · simpa [is, equal, publishesAt] using old
    · intro k listed
      rcases List.mem_append.mp listed with old | new
      · exact before.allowed k old
      · rw [List.mem_singleton.mp new]
        exact fine

theorem publishStep_refused {past : List AttributeHandle} {h : AttributeHandle}
    (before : Published server fed c past c') (barred : c.mayPublish server fed h = false) :
    ∃ e, publishStep server fed true c' h = .error e := by
  have here := before.same.mayPublish server fed h
  rw [barred, mayPublish] at here
  cases found : c'.attribute? h with
  | none =>
    simp [publishStep, getAttribute, found, bind, Except.bind]
  | some a =>
    have fresh : c'.publishesAt fed h = false := by
      rw [before.exactly h]
      cases listed : past.contains h with
      | false => rfl
      | true =>
        have allowed := before.allowed h (by simpa using listed)
        rw [barred] at allowed
        cases allowed
    have access : server.canFederateAccessData fed a.level = false := by simpa [found] using here
    have unpublished : a.isPublishing fed = false := by
      simpa [publishesAt, found] using fresh
    have refused : a.publish server fed = .error .securityError := by
      simp [ObjectClassAttribute.publish, unpublished, access]
    exact ⟨.securityError, by
      simp [publishStep, getAttribute, found, refused, bind, Except.bind]⟩

/-- Once the class accepts the request, its attributes are published up to the first refusal. -/
theorem publish_published {hs : List AttributeHandle} (known : hs.all c.hasAttribute = true)
    (access : server.canFederateAccessData fed c.securityLevelId = true) :
    Published server fed c (hs.takeWhile (c.mayPublish server fed))
        (c.publish server fed hs true).1 ∧
      ((c.publish server fed hs true).2 = none ↔
        hs.takeWhile (c.mayPublish server fed) = hs) := by
  have swept := sweep_progress (publishStep server fed true) (c.mayPublish server fed)
    (p := Published server fed c)
    (fun _ _ _ before fine => publishStep_published before fine)
    (fun _ _ _ before barred => publishStep_refused before barred) [] reset_published hs
  simpa [publish, checkAttributes, known, access] using swept

end ObjectClass

namespace Object

variable {o o' : Object} {region : RegionHandle}

def regionOf (o : Object) (h : AttributeHandle) : Option RegionHandle :=
  (o.attribute? h).bind (·.region)

/-- The loop of `associateRegion` over one object. -/
def associate (o : Object) (region : RegionHandle) (hs : List AttributeHandle) :
    Object × Option RTIException :=
  Sweep.sweep (fun (o : Object) h => do
    return o.setAttribute { (← o.getAttribute h) with region := some region }) o hs

/-- What that loop has done when the attributes `past` are associated. -/
structure Associated (region : RegionHandle) (o : Object) (past : List AttributeHandle)
    (o' : Object) : Prop where
  handle : o'.handle = o.handle
  known : ∀ h, (o'.attribute? h).isSome = (o.attribute? h).isSome
  exactly : ∀ h, o'.regionOf h =
    if past.contains h then some region
    else if o.regionOf h = some region then none else o.regionOf h

theorem unassociate_associated : Associated region o [] (o.unassociate region) := by
  have found : ∀ h, (o.unassociate region).attribute? h = (o.attribute? h).map fun oa =>
      if oa.region = some region then { oa with region := none } else oa := by
    intro h
    refine lookup_map (fun oa _ => ?_) h
    split <;> rfl
  refine ⟨rfl, fun h => by rw [found, Option.isSome_map], fun h => ?_⟩
  rw [regionOf, regionOf, found]
  cases o.attribute? h with
  | none => simp
  | some oa => by_cases used : oa.region = some region <;> simp [used]

theorem associateStep_associated {past : List AttributeHandle} {h : AttributeHandle}
    (before : Associated region o past o') (fine : (o.attribute? h).isSome = true) :
    ∃ next, (do return o'.setAttribute { (← o'.getAttribute h) with region := some region } :
        Except RTIException Object) = .ok next ∧ Associated region o (past ++ [h]) next := by
  rw [← before.known h] at fine
  obtain ⟨oa, found⟩ := Option.isSome_iff_exists.mp fine
  have is : oa.handle = h := attribute?_handle found
  have stored : ∀ k, (o'.setAttribute { oa with region := some region }).attribute? k =
      if k = h then (o'.attribute? k).map (fun _ => { oa with region := some region })
      else o'.attribute? k := by
    intro k
    rw [← is]
    exact lookup_replace_eq _ k o'.attributes
  refine ⟨o'.setAttribute { oa with region := some region }, ?_, before.handle, ?_, ?_⟩
  · simp [getAttribute, found, bind, Except.bind, pure, Except.pure]
  · intro k
    rw [stored, ← before.known k]
    by_cases equal : k = h <;> simp [equal]
  · intro k
    have old := before.exactly k
    rw [regionOf, stored]
    by_cases equal : k = h
    · subst equal
      simp [found]
    · simpa [equal, regionOf] using old

/-- The attributes are associated up to the first one that the object does not have. -/
theorem associate_associated (o : Object) (region : RegionHandle) (hs : List AttributeHandle) :
    Associated region o (hs.takeWhile fun h => (o.attribute? h).isSome)
        ((o.unassociate region).associate region hs).1 ∧
      (((o.unassociate region).associate region hs).2 = none ↔
        (hs.takeWhile fun h => (o.attribute? h).isSome) = hs) := by
  refine sweep_progress _ _ (p := Associated region o)
    (fun _ _ _ before fine => associateStep_associated before fine) ?_ [] unassociate_associated hs
  intro past s h before unknown
  rw [← before.known h] at unknown
  have absent : s.attribute? h = none := by simpa using unknown
  simp [getAttribute, absent, bind, Except.bind]

end Object

/-! ## The root object -/

namespace RootObject

variable (root : RootObject) (fed : FederateHandle) (own : RegionHandle → Bool)

/-- What the tables say of a federate, whose own regions are those that satisfy `own`: the
tables do not tell who associated a region. -/
def recordedFor : Recorded where
  publishes c h := (root.class? c).any (·.publishesAt fed h)
  publishesInteraction i :=
    (lookup Interaction.handle i root.interactions).any (·.isPublishing fed)
  subscribesInteraction i :=
    (lookup Interaction.handle i root.interactions).any fun interaction =>
      Subscribable.isSubscribedWith interaction.subscribers fed none
  region o h := ((root.object? o).bind (·.regionOf h)).filter own

/-- `Object::unassociate` of `unassociateRegion`. -/
def unassociate (object : ObjectHandle) (region : RegionHandle) : Outcome RootObject :=
  match root.getRegion region, root.getObject object with
  | .error e, _ => .refused root e
  | .ok _, .error e => .refused root e
  | .ok _, .ok o => .done (root.setObject (o.unassociate region)) []

/-- What both sides do with their root object. -/
def declare : DeclarationService → Outcome RootObject
  | .publishObjectClass c hs => root.publish fed c hs true
  | .unpublishObjectClass c => root.publish fed c [] false
  | .publishInteractionClass i => root.publishInteraction fed i true
  | .unpublishInteractionClass i => root.publishInteraction fed i false
  | .subscribeInteractionClass i => root.subscribeInteraction fed i none true
  | .unsubscribeInteractionClass i => root.subscribeInteraction fed i none false
  | .associateRegion object region hs => root.associate object region hs
  | .unassociateRegion object region => root.unassociate object region

/-! ## When a service is refused -/

/-- The class and its attributes exist, and the level of the class admits the federate. -/
def admitsClass (c : ObjectClassHandle) (hs : List AttributeHandle) : Bool :=
  (root.class? c).any fun cl =>
    hs.all cl.hasAttribute && root.server.canFederateAccessData fed cl.securityLevelId

def admitsInteraction (i : InteractionClassHandle) (p : Interaction → Bool) : Bool :=
  (lookup Interaction.handle i root.interactions).any p

/-- The root object throws before it has recorded anything. -/
def rejects : DeclarationService → Bool
  | .publishObjectClass c hs => !root.admitsClass fed c hs
  | .unpublishObjectClass c => !root.admitsClass fed c []
  | .publishInteractionClass i => !root.admitsInteraction i fun interaction =>
      root.server.canFederateAccessData fed interaction.securityLevelId
  | .unpublishInteractionClass i => !root.admitsInteraction i (·.isPublishing fed)
  | .subscribeInteractionClass i => !root.admitsInteraction i fun interaction =>
      Subscribable.isSubscribedWith interaction.subscribers fed none ||
        root.server.canFederateAccessData fed interaction.securityLevelId
  | .unsubscribeInteractionClass i => !root.admitsInteraction i fun _ => true
  | .associateRegion object region _ | .unassociateRegion object region =>
      !((root.region? region).isSome && (root.object? object).isSome)

/-- What the root object gets to: the attributes before the first refused one. -/
def carriedOut : DeclarationService → DeclarationService
  | .publishObjectClass c hs => .publishObjectClass c <| hs.takeWhile fun h =>
      (root.class? c).any (·.mayPublish root.server fed h)
  | .associateRegion object region hs => .associateRegion object region <|
      hs.takeWhile fun h => (root.object? object).any fun o => (o.attribute? h).isSome
  | service => service

end RootObject

/-- The regions a service names. -/
def DeclarationService.Uses (own : RegionHandle → Bool) : DeclarationService → Prop
  | .associateRegion _ region _ | .unassociateRegion _ region => own region = true
  | _ => True

namespace RootObject

variable {root root' : RootObject} {fed : FederateHandle} {own : RegionHandle → Bool}

theorem class?_setClass (c : ObjectClass) (h : ObjectClassHandle) :
    (root.setClass c).class? h =
      if h = c.handle then (root.class? h).map (fun _ => c) else root.class? h :=
  lookup_replace_eq c h root.classes

theorem object?_setObject (o : Object) (h : ObjectHandle) :
    (root.setObject o).object? h =
      if h = o.handle then (root.object? h).map (fun _ => o) else root.object? h :=
  lookup_replace_eq o h root.objects

/-- Storing a class whose publications are known. -/
theorem setClass_recorded {c c' : ObjectClass} {h : ObjectClassHandle}
    {hs : List AttributeHandle} (found : root.class? h = some c)
    (published : ObjectClass.Published root.server fed c hs c') :
    (root.setClass c').recordedFor fed own = (root.recordedFor fed own).publish h hs := by
  have is : c'.handle = h := published.same.handle.trans (lookup_key found)
  refine Recorded.ext ?_ rfl rfl rfl
  funext k a
  simp only [recordedFor, Recorded.publish, class?_setClass, is]
  by_cases equal : k = h
  · subst equal
    simp [found, published.exactly]
  · simp [equal]

theorem setClass_self_recorded {c : ObjectClass} {h : ObjectClassHandle}
    (found : root.class? h = some c) :
    (root.setClass c).recordedFor fed own = root.recordedFor fed own := by
  have is : c.handle = h := lookup_key found
  refine Recorded.ext ?_ rfl rfl rfl
  funext k a
  simp only [recordedFor, class?_setClass, is]
  by_cases equal : k = h
  · subst equal
    simp [found]
  · simp [equal]

/-- Storing an object whose associations are known; `own` admits the region. -/
theorem setObject_recorded {o o' : Object} {h : ObjectHandle} {region : RegionHandle}
    {hs : List AttributeHandle} (found : root.object? h = some o) (uses : own region = true)
    (associated : Object.Associated region o hs o') :
    (root.setObject o').recordedFor fed own =
      (root.recordedFor fed own).associate h region hs := by
  have is : o'.handle = h := associated.handle.trans (lookup_key found)
  refine Recorded.ext rfl rfl rfl ?_
  funext k a
  simp only [recordedFor, Recorded.associate, object?_setObject, is]
  by_cases equal : k = h
  · subst equal
    have exactly := associated.exactly a
    simp only [found, if_true, Option.map_some, Option.bind_some, exactly]
    by_cases listed : a ∈ hs
    · simp [listed, uses]
    · cases used : o.regionOf a with
      | none => simp [listed]
      | some r =>
        by_cases same : r = region
        · simp [listed, same, uses]
        · cases mine : own r <;> simp [listed, same, mine]
  · simp [equal]

/-- Storing an interaction that is already known. -/
theorem setInteraction_recorded {i : Interaction} (i' : Interaction) {h : InteractionClassHandle}
    (found : lookup Interaction.handle h root.interactions = some i)
    (handle : i'.handle = i.handle) :
    (root.setInteraction i').recordedFor fed own =
      ((root.recordedFor fed own).publishInteraction h (i'.isPublishing fed)).subscribeInteraction
        h (Subscribable.isSubscribedWith i'.subscribers fed none) := by
  have is : i'.handle = h := handle.trans (lookup_key found)
  have stored : ∀ k, lookup Interaction.handle k (root.setInteraction i').interactions =
      if k = h then (lookup Interaction.handle k root.interactions).map (fun _ => i')
      else lookup Interaction.handle k root.interactions := by
    intro k
    rw [← is]
    exact lookup_replace_eq i' k root.interactions
  refine Recorded.ext rfl ?_ ?_ rfl
  · funext k
    simp only [recordedFor, Recorded.publishInteraction, Recorded.subscribeInteraction, stored]
    by_cases equal : k = h
    · subst equal
      simp [found]
    · simp [equal]
  · funext k
    simp only [recordedFor, Recorded.publishInteraction, Recorded.subscribeInteraction, stored]
    by_cases equal : k = h
    · subst equal
      simp [found]
    · simp [equal]

theorem publishesInteraction_of_found {i : Interaction} {h : InteractionClassHandle}
    (found : lookup Interaction.handle h root.interactions = some i) :
    (root.recordedFor fed own).publishesInteraction h = i.isPublishing fed := by
  simp [recordedFor, found]

theorem subscribesInteraction_of_found {i : Interaction} {h : InteractionClassHandle}
    (found : lookup Interaction.handle h root.interactions = some i) :
    (root.recordedFor fed own).subscribesInteraction h =
      Subscribable.isSubscribedWith i.subscribers fed none := by
  simp [recordedFor, found]

/-- The same interaction with other publishers. -/
theorem setPublishers_recorded {i : Interaction} {h : InteractionClassHandle}
    (found : lookup Interaction.handle h root.interactions = some i)
    (publishers : Finset FederateHandle) :
    (root.setInteraction { i with publishers := publishers }).recordedFor fed own =
      (root.recordedFor fed own).publishInteraction h (fed ∈ publishers) := by
  rw [setInteraction_recorded { i with publishers := publishers } found rfl]
  have kept : (root.recordedFor fed own).subscribesInteraction h =
      Subscribable.isSubscribedWith i.subscribers fed none := subscribesInteraction_of_found found
  exact (Recorded.subscribeInteraction_eq_self _).mpr kept

/-- The same interaction with other subscribers. -/
theorem setSubscribers_recorded {i : Interaction} {h : InteractionClassHandle}
    (found : lookup Interaction.handle h root.interactions = some i)
    (subscribers : List Subscriber) :
    (root.setInteraction { i with subscribers := subscribers }).recordedFor fed own =
      (root.recordedFor fed own).subscribeInteraction h
        (Subscribable.isSubscribedWith subscribers fed none) := by
  have kept : (root.recordedFor fed own).publishInteraction h (i.isPublishing fed) =
      root.recordedFor fed own :=
    (Recorded.publishInteraction_eq_self _).mpr (publishesInteraction_of_found found)
  rw [setInteraction_recorded { i with subscribers := subscribers } found rfl]
  exact congrArg (Recorded.subscribeInteraction · h _) kept

/-! ## The services -/

/-- No service changes the server or the regions. -/
theorem declare_fixed (root : RootObject) (fed : FederateHandle) (service : DeclarationService) :
    (root.declare fed service).state.server = root.server ∧
      (root.declare fed service).state.regions = root.regions := by
  have interaction : ∀ i f, (root.declareInteraction i f).state.server = root.server ∧
      (root.declareInteraction i f).state.regions = root.regions := by
    intro i f
    unfold declareInteraction
    split
    · exact ⟨rfl, rfl⟩
    · split <;> exact ⟨rfl, rfl⟩
  have published : ∀ c hs flag, (root.publish fed c hs flag).state.server = root.server ∧
      (root.publish fed c hs flag).state.regions = root.regions := by
    intro c hs flag
    unfold publish
    split <;> exact ⟨rfl, rfl⟩
  have associated : ∀ object region hs,
      (root.associate object region hs).state.server = root.server ∧
        (root.associate object region hs).state.regions = root.regions := by
    intro object region hs
    unfold associate
    split <;> exact ⟨rfl, rfl⟩
  have unassociated : ∀ object region,
      (root.unassociate object region).state.server = root.server ∧
        (root.unassociate object region).state.regions = root.regions := by
    intro object region
    unfold unassociate
    split <;> exact ⟨rfl, rfl⟩
  cases service with
  | publishObjectClass c hs => exact published c hs true
  | unpublishObjectClass c => exact published c [] false
  | publishInteractionClass i => exact interaction i _
  | unpublishInteractionClass i => exact interaction i _
  | subscribeInteractionClass i => exact interaction i _
  | unsubscribeInteractionClass i => exact interaction i _
  | associateRegion object region hs => exact associated object region hs
  | unassociateRegion object region => exact unassociated object region

theorem publish_refused {c : ObjectClassHandle} {hs : List AttributeHandle} {flag : Bool}
    (refused : root.admitsClass fed c hs = false) :
    (root.publish fed c hs flag).state.recordedFor fed own = root.recordedFor fed own ∧
      (root.publish fed c hs flag).error ≠ none := by
  cases found : root.class? c with
  | none => simp [publish, found, Outcome.refused]
  | some cl =>
    have unchanged : ∃ e, cl.publish root.server fed hs flag = (cl, some e) := by
      cases known : hs.all cl.hasAttribute with
      | false =>
        exact ⟨.attributeNotDefined, by
          simp [ObjectClass.publish, ObjectClass.checkAttributes, known]⟩
      | true =>
        have access : root.server.canFederateAccessData fed cl.securityLevelId = false := by
          simpa [admitsClass, found, known] using refused
        exact ⟨.securityError, by
          simp [ObjectClass.publish, ObjectClass.checkAttributes, known, access]⟩
    obtain ⟨e, kept⟩ := unchanged
    simp only [publish, found, kept]
    exact ⟨setClass_self_recorded found, by simp⟩

theorem declareInteraction_refused {i : InteractionClassHandle} {p : Interaction → Bool}
    {f : Interaction → Except RTIException Interaction}
    (refuses : ∀ interaction, p interaction = false → ∃ e, f interaction = .error e)
    (refused : root.admitsInteraction i p = false) :
    (root.declareInteraction i f).state = root ∧ (root.declareInteraction i f).error ≠ none := by
  unfold declareInteraction getInteraction
  cases found : lookup Interaction.handle i root.interactions with
  | none => simp [Outcome.refused]
  | some interaction =>
    obtain ⟨e, thrown⟩ := refuses interaction (by simpa [admitsInteraction, found] using refused)
    simp [thrown, Outcome.refused]

theorem associate_refused {object : ObjectHandle} {region : RegionHandle}
    {hs : List AttributeHandle}
    (refused : ((root.region? region).isSome && (root.object? object).isSome) = false) :
    (root.associate object region hs).state = root ∧
      (root.associate object region hs).error ≠ none := by
  unfold associate getRegion getObject
  cases known : root.region? region with
  | none => simp [Outcome.refused]
  | some r =>
    have unknown : root.object? object = none := by simpa [known] using refused
    simp [unknown, Outcome.refused]

theorem unassociate_refused {object : ObjectHandle} {region : RegionHandle}
    (refused : ((root.region? region).isSome && (root.object? object).isSome) = false) :
    (root.unassociate object region).state = root ∧
      (root.unassociate object region).error ≠ none := by
  unfold unassociate getRegion getObject
  cases known : root.region? region with
  | none => simp [Outcome.refused]
  | some r =>
    have unknown : root.object? object = none := by simpa [known] using refused
    simp [unknown, Outcome.refused]

/-- A rejected service throws and leaves the records as they are. -/
theorem declare_rejected (own : RegionHandle → Bool) {service : DeclarationService}
    (rejected : root.rejects fed service = true) :
    (root.declare fed service).state.recordedFor fed own = root.recordedFor fed own ∧
      (root.declare fed service).error ≠ none := by
  have same : ∀ {outcome : Outcome RootObject}, outcome.state = root ∧ outcome.error ≠ none →
      outcome.state.recordedFor fed own = root.recordedFor fed own ∧ outcome.error ≠ none := by
    intro outcome unchanged
    exact ⟨by rw [unchanged.1], unchanged.2⟩
  cases service with
  | publishObjectClass c hs => exact publish_refused (by simpa [rejects] using rejected)
  | unpublishObjectClass c => exact publish_refused (by simpa [rejects] using rejected)
  | publishInteractionClass i =>
    refine same (declareInteraction_refused (fun interaction barred => ?_)
      (by simpa [rejects] using rejected))
    exact ⟨.securityError, by simp [Interaction.publish, barred]⟩
  | unpublishInteractionClass i =>
    refine same (declareInteraction_refused (fun interaction silent => ?_)
      (by simpa [rejects] using rejected))
    exact ⟨.federateNotPublishing, by simp [Interaction.unpublish, silent]⟩
  | subscribeInteractionClass i =>
    refine same (declareInteraction_refused (fun interaction barred => ?_)
      (by simpa [rejects] using rejected))
    simp only [Bool.or_eq_false_iff] at barred
    exact ⟨.securityError, by simp [Interaction.subscribe, barred.1, barred.2]⟩
  | unsubscribeInteractionClass i =>
    refine same (declareInteraction_refused (p := fun _ => true) (fun interaction never => ?_)
      (by simpa only [rejects, Bool.not_eq_true'] using rejected))
    cases never
  | associateRegion object region hs =>
    exact same (associate_refused (by simpa only [rejects, Bool.not_eq_true'] using rejected))
  | unassociateRegion object region =>
    exact same (unassociate_refused (by simpa only [rejects, Bool.not_eq_true'] using rejected))

theorem publish_carriedOut (own : RegionHandle → Bool) {c : ObjectClassHandle}
    {hs : List AttributeHandle} (accepted : root.admitsClass fed c hs = true) :
    (root.publish fed c hs true).state.recordedFor fed own = (root.recordedFor fed own).publish c
        (hs.takeWhile fun h => (root.class? c).any (·.mayPublish root.server fed h)) ∧
      ((root.publish fed c hs true).error = none ↔
        (hs.takeWhile fun h => (root.class? c).any (·.mayPublish root.server fed h)) = hs) := by
  cases found : root.class? c with
  | none => simp [admitsClass, found] at accepted
  | some cl =>
    have admitted : hs.all cl.hasAttribute = true ∧
        root.server.canFederateAccessData fed cl.securityLevelId = true := by
      simpa only [admitsClass, found, Option.any_some, Bool.and_eq_true] using accepted
    have published := ObjectClass.publish_published admitted.1 admitted.2
    simp only [publish, found, Option.any_some]
    exact ⟨setClass_recorded found published.1, published.2⟩

theorem unpublish_carriedOut {c : ObjectClassHandle}
    (accepted : root.admitsClass fed c [] = true) :
    (root.publish fed c [] false).state.recordedFor fed own =
        (root.recordedFor fed own).publish c [] ∧
      (root.publish fed c [] false).error = none := by
  cases found : root.class? c with
  | none => simp [admitsClass, found] at accepted
  | some cl =>
    have access : root.server.canFederateAccessData fed cl.securityLevelId = true := by
      simpa [admitsClass, found] using accepted
    have reset : cl.publish root.server fed [] false =
        (cl.mapAttributes (·.unpublish fed), none) := by
      simp [ObjectClass.publish, ObjectClass.checkAttributes, access]
    simp only [publish, found, reset]
    exact ⟨setClass_recorded found ObjectClass.reset_published, trivial⟩

/-- An interaction declaration that is accepted, by what it makes of the interaction. -/
theorem declareInteraction_done {i : InteractionClassHandle} {p : Interaction → Bool}
    {f : Interaction → Except RTIException Interaction} {d : Recorded}
    (accepted : root.admitsInteraction i p = true)
    (done : ∀ interaction, lookup Interaction.handle i root.interactions = some interaction →
      p interaction = true → ∃ after, f interaction = .ok after ∧
        (root.setInteraction after).recordedFor fed own = d) :
    (root.declareInteraction i f).state.recordedFor fed own = d ∧
      (root.declareInteraction i f).error = none := by
  unfold declareInteraction getInteraction
  cases found : lookup Interaction.handle i root.interactions with
  | none => simp [admitsInteraction, found] at accepted
  | some interaction =>
    have admitted : p interaction = true := by simpa [admitsInteraction, found] using accepted
    obtain ⟨after, changed, recorded⟩ := done interaction found admitted
    simp [changed, Outcome.done, recorded]

theorem associate_carriedOut (fed : FederateHandle) {object : ObjectHandle} {region : RegionHandle}
    (hs : List AttributeHandle) (uses : own region = true)
    (accepted : ((root.region? region).isSome && (root.object? object).isSome) = true) :
    (root.associate object region hs).state.recordedFor fed own =
        (root.recordedFor fed own).associate object region
          (hs.takeWhile fun h => (root.object? object).any fun o => (o.attribute? h).isSome) ∧
      ((root.associate object region hs).error = none ↔
        (hs.takeWhile fun h => (root.object? object).any fun o => (o.attribute? h).isSome) =
          hs) := by
  simp only [Bool.and_eq_true] at accepted
  obtain ⟨r, known⟩ := Option.isSome_iff_exists.mp accepted.1
  obtain ⟨o, found⟩ := Option.isSome_iff_exists.mp accepted.2
  have associated := Object.associate_associated o region hs
  simp only [associate, getRegion, getObject, known, found, Option.any_some]
  exact ⟨setObject_recorded found uses associated.1, associated.2⟩

theorem unassociate_carriedOut {object : ObjectHandle} {region : RegionHandle}
    (uses : own region = true)
    (accepted : ((root.region? region).isSome && (root.object? object).isSome) = true) :
    (root.unassociate object region).state.recordedFor fed own =
        (root.recordedFor fed own).associate object region [] ∧
      (root.unassociate object region).error = none := by
  simp only [Bool.and_eq_true] at accepted
  obtain ⟨r, known⟩ := Option.isSome_iff_exists.mp accepted.1
  obtain ⟨o, found⟩ := Option.isSome_iff_exists.mp accepted.2
  simp only [unassociate, getRegion, getObject, known, found]
  exact ⟨setObject_recorded found uses Object.unassociate_associated, rfl⟩

/-- A service that is not rejected records what it gets to, and throws unless that is all. -/
theorem declare_carriedOut {service : DeclarationService} (uses : service.Uses own)
    (accepted : root.rejects fed service = false) :
    (root.declare fed service).state.recordedFor fed own =
        (root.recordedFor fed own).perform (root.carriedOut fed service) ∧
      ((root.declare fed service).error = none ↔ root.carriedOut fed service = service) := by
  have complete : ∀ {outcome : Outcome RootObject} {d : Recorded},
      outcome.state.recordedFor fed own = d ∧ outcome.error = none →
      outcome.state.recordedFor fed own = d ∧ (outcome.error = none ↔ service = service) := by
    intro outcome d done
    exact ⟨done.1, by simp [done.2]⟩
  cases service with
  | publishObjectClass c hs =>
    have carried := publish_carriedOut own (by simpa [rejects] using accepted)
    exact ⟨carried.1, carried.2.trans (by simp [carriedOut])⟩
  | unpublishObjectClass c =>
    exact complete (unpublish_carriedOut (by simpa [rejects] using accepted))
  | publishInteractionClass i =>
    refine complete (declareInteraction_done (by simpa [rejects] using accepted)
      fun interaction found access => ?_)
    refine ⟨{ interaction with publishers := insert fed interaction.publishers },
      by simp [Interaction.publish, access], ?_⟩
    rw [setPublishers_recorded found]
    simp [carriedOut, Recorded.perform]
  | unpublishInteractionClass i =>
    refine complete (declareInteraction_done (by simpa [rejects] using accepted)
      fun interaction found publishing => ?_)
    refine ⟨{ interaction with publishers := interaction.publishers.erase fed },
      by simp [Interaction.unpublish, publishing], ?_⟩
    rw [setPublishers_recorded found]
    simp [carriedOut, Recorded.perform]
  | subscribeInteractionClass i =>
    refine complete (declareInteraction_done (by simpa [rejects] using accepted)
      fun interaction found access => ?_)
    by_cases already : Subscribable.isSubscribedWith interaction.subscribers fed none = true
    · refine ⟨{ interaction with subscribers := interaction.subscribers },
        by simp [Interaction.subscribe, already], ?_⟩
      rw [setSubscribers_recorded found, already]
      rfl
    · have level : root.server.canFederateAccessData fed interaction.securityLevelId = true := by
        simpa [already] using access
      refine ⟨{ interaction with subscribers := interaction.subscribers ++ [⟨fed, none⟩] },
        by simp [Interaction.subscribe, already, level], ?_⟩
      rw [setSubscribers_recorded found]
      simp [carriedOut, Recorded.perform, Subscribable.isSubscribedWith]
  | unsubscribeInteractionClass i =>
    refine complete (declareInteraction_done (by simpa [rejects] using accepted)
      fun interaction found _ => ?_)
    refine ⟨interaction.unsubscribeWith fed none, rfl, ?_⟩
    rw [Interaction.unsubscribeWith, setSubscribers_recorded found]
    simp [carriedOut, Recorded.perform, Subscribable.isSubscribedWith,
      Subscribable.mem_unsubscribeWith]
  | associateRegion object region hs =>
    have carried := associate_carriedOut fed hs uses
      (by simpa only [rejects, Bool.not_eq_false'] using accepted)
    exact ⟨carried.1, carried.2.trans (by simp [carriedOut])⟩
  | unassociateRegion object region =>
    exact complete (unassociate_carriedOut uses
      (by simpa only [rejects, Bool.not_eq_false'] using accepted))

/-- What a root object gets to is recorded as the whole service is only if it is the whole. -/
theorem perform_carriedOut_iff {d : Recorded} {service : DeclarationService} :
    d.perform (root.carriedOut fed service) = d.perform service ↔
      root.carriedOut fed service = service := by
  constructor
  · intro same
    cases service with
    | publishObjectClass c hs =>
      refine congrArg (DeclarationService.publishObjectClass c) ?_
      rw [List.takeWhile_eq_self_iff]
      intro h listed
      have read := congrFun (congrFun (congrArg Recorded.publishes same) c) h
      have reached : h ∈ hs.takeWhile fun h =>
          (root.class? c).any (·.mayPublish root.server fed h) := by
        simpa [Recorded.perform, Recorded.publish, carriedOut, listed] using read
      exact List.mem_takeWhile_imp (p := fun h =>
        (root.class? c).any (·.mayPublish root.server fed h)) reached
    | associateRegion object region hs =>
      refine congrArg (DeclarationService.associateRegion object region) ?_
      rw [List.takeWhile_eq_self_iff]
      intro h listed
      have read := congrFun (congrFun (congrArg Recorded.region same) object) h
      have reached : h ∈ hs.takeWhile fun h =>
          (root.object? object).any fun o => (o.attribute? h).isSome := by
        by_contra missed
        by_cases used : d.region object h = some region <;>
          simp [Recorded.perform, Recorded.associate, carriedOut, listed, missed, used] at read
      exact List.mem_takeWhile_imp (p := fun h =>
        (root.object? object).any fun o => (o.attribute? h).isSome) reached
    | _ => rfl
  · intro whole
    rw [whole]

/-- A federate that declared nothing, and owns no region, has nothing on record. -/
theorem recordedFor_undeclared (undeclared : root.DeclaredBy (· ≠ fed))
    (none_own : ∀ region, own region = false) :
    root.recordedFor fed own =
      ⟨fun _ _ => false, fun _ => false, fun _ => false, fun _ _ => none⟩ := by
  refine Recorded.ext ?_ ?_ ?_ ?_
  · funext c h
    simp only [recordedFor]
    cases found : root.class? c with
    | none => rfl
    | some cl =>
      simp only [Option.any_some, ObjectClass.publishesAt]
      cases located : cl.attribute? h with
      | none => rfl
      | some a =>
        have others := (undeclared.classes cl (lookup_mem found) a (lookup_mem located)).1
        have absent : fed ∉ a.publishers := fun listed => others fed listed rfl
        simp [ObjectClassAttribute.isPublishing, absent]
  · funext i
    simp only [recordedFor]
    cases found : lookup Interaction.handle i root.interactions with
    | none => rfl
    | some interaction =>
      have others := (undeclared.interactions interaction (lookup_mem found)).1
      have absent : fed ∉ interaction.publishers := fun listed => others fed listed rfl
      simp [Interaction.isPublishing, absent]
  · funext i
    simp only [recordedFor]
    cases found : lookup Interaction.handle i root.interactions with
    | none => rfl
    | some interaction =>
      have others := (undeclared.interactions interaction (lookup_mem found)).2
      have absent : (⟨fed, none⟩ : Subscriber) ∉ interaction.subscribers :=
        fun listed => others ⟨fed, none⟩ listed rfl
      simp [Subscribable.isSubscribedWith, absent]
  · funext o h
    simp [recordedFor, none_own]

end RootObject

end Certi
