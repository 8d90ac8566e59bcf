import Certi.Lib.Tables
import Certi.RTIG.MomOwnership
import Certi.RTIG.Trees

/-!
# Reports of the MOM

The handlers of `RTIG/Mom_interactions.cc` for the requests about one federate.
Each assembles reports and broadcasts them one after another. What a broadcast
answers is a parameter, and so is what the MOM has counted; broadcasts are
taken to be accepted.
-/
namespace Certi

open Keyed Runs Tables

/-- A value of a report before it is encoded. -/
inductive ReportValue where
  | uint32 (n : Nat)
  | boolean (b : Bool)
  | string (s : String)
  | vectorHandle (hs : List Nat)
  | handleBasedCounts (counts : List (Nat × Nat))
  deriving DecidableEq

/-- An interaction that the MOM broadcasts, with its parameters in order. -/
structure MomReport where
  interaction : String
  parameters : List (String × ReportValue)
  deriving DecidableEq

structure MessageEvent (μ : Type) where
  sockets : List FederateHandle
  message : Option μ

/-- What the move constructor leaves behind: the sockets are copied, the message is swapped with
the null pointer. Sending it dereferences that pointer. -/
def MessageEvent.moved {μ : Type} (event : MessageEvent μ) : MessageEvent μ :=
  { event with message := none }

/-- What the reports are about. `privilegeToDelete` is the lookup of
`HLAprivilegeToDeleteObject`, whose result is not used. -/
structure MomSources where
  my_root : RootObject
  my_updates_sent : FederateHandle → List (ObjectClassHandle × Nat)
  my_interactions_sent : FederateHandle → List (InteractionClassHandle × Nat)
  my_reflections_received : FederateHandle → List (ObjectClassHandle × Nat)
  my_interactions_received : FederateHandle → List (InteractionClassHandle × Nat)
  privilegeToDelete : Except RTIException AttributeHandle

inductive MomRequest where
  | publications
  | subscriptions
  | objectInstancesThatCanBeDeleted
  | updatesSent
  | interactionsSent
  | reflectionsReceived
  | interactionsReceived
  | objectInstanceInformation (object : ObjectHandle)

/-! ## The reports -/

/-- The two kinds of reports about declarations: their interactions, and what a line about a class
has besides the class and its attributes. -/
structure DeclarationReports where
  classReport : String
  more : List (String × ReportValue)
  interactionReport : String

def publicationReports : DeclarationReports where
  classReport := "HLAmanager.HLAfederate.HLAreport.HLAreportObjectClassPublication"
  more := []
  interactionReport := "HLAmanager.HLAfederate.HLAreport.HLAreportInteractionPublication"

/-- The indicator and the rate are not implemented. -/
def subscriptionReports : DeclarationReports where
  classReport := "HLAmanager.HLAfederate.HLAreport.HLAreportObjectClassSubscription"
  more := [("HLAactive", .boolean true), ("HLAmaxUpdateRate", .string "")]
  interactionReport := "HLAmanager.HLAfederate.HLAreport.HLAreportInteractionSubscription"

namespace DeclarationReports

variable (kind : DeclarationReports) (fed : FederateHandle)

/-- One report for each class, or one that there is none. -/
def classes (table : List (ObjectClassHandle × List AttributeHandle)) : List MomReport :=
  if table.length = 0 then
    [⟨kind.classReport, [("HLAfederate", .uint32 fed), ("HLAnumberOfClasses", .uint32 0)]⟩]
  else
    table.map fun pair => ⟨kind.classReport,
      [("HLAfederate", .uint32 fed), ("HLAnumberOfClasses", .uint32 table.length),
        ("HLAobjectClass", .uint32 pair.1)] ++ kind.more ++
        [("HLAattributeList", .vectorHandle pair.2)]⟩

def interactions (interactionClassList : List InteractionClassHandle) : MomReport :=
  ⟨kind.interactionReport,
    [("HLAfederate", .uint32 fed), ("HLAinteractionClassList", .vectorHandle interactionClassList)]⟩

end DeclarationReports

def deletableReport (fed : FederateHandle) (counts : List (ObjectClassHandle × Nat)) : MomReport :=
  ⟨"HLAmanager.HLAfederate.HLAreport.HLAreportObjectInstancesThatCanBeDeleted",
    [("HLAfederate", .uint32 fed), ("HLAobjectInstanceCounts", .handleBasedCounts counts)]⟩

/-- A report about one transportation. -/
def transportReport (interaction counted : String) (fed : FederateHandle) (transport : String)
    (counts : List (Nat × Nat)) : MomReport :=
  ⟨interaction, [("HLAfederate", .uint32 fed), ("HLAtransportation", .string transport),
    (counted, .handleBasedCounts counts)]⟩

def informationReport (fed : FederateHandle) (object : ObjectHandle) (owned : List AttributeHandle)
    (registeredClass knownClass : ObjectClassHandle) : MomReport :=
  ⟨"HLAmanager.HLAfederate.HLAreport.HLAreportObjectInstanceInformation",
    [("HLAfederate", .uint32 fed), ("HLAobjectInstance", .uint32 object),
      ("HLAownedInstanceAttributeList", .vectorHandle owned),
      ("HLAregisteredClass", .uint32 registeredClass), ("HLAknownClass", .uint32 knownClass)]⟩

/-! ## The handlers -/

/-- The attributes of each class that pass the tests, where there are any. -/
def RootObject.attributesOf (root : RootObject) (ofClass : ObjectClass → Bool)
    (ofAttribute : ObjectClassAttribute → Bool) : List (ObjectClassHandle × List AttributeHandle) :=
  grouped ObjectClass.handle
    (fun c => (c.attributes.filter ofAttribute).map ObjectClassAttribute.handle)
    (root.classes.filter ofClass)

def RootObject.interactionsOf (root : RootObject) (ofInteraction : Interaction → Bool) :
    List InteractionClassHandle :=
  (root.interactions.filter ofInteraction).map Interaction.handle

namespace MomSources

section Handlers

variable (mom : MomSources) {μ : Type} (broadcastInteraction : MomReport → List (MessageEvent μ))
  (fed : FederateHandle)

/-- The body that the requests about publications and subscriptions share. -/
def processDeclarations (kind : DeclarationReports) (ofClass : ObjectClass → Bool)
    (ofAttribute : ObjectClassAttribute → Bool) (ofInteraction : Interaction → Bool) :
    List (MessageEvent μ) :=
  (kind.classes fed (mom.my_root.attributesOf ofClass ofAttribute)).flatMap broadcastInteraction ++
    broadcastInteraction (kind.interactions fed (mom.my_root.interactionsOf ofInteraction))

def processFederateRequestPublications : List (MessageEvent μ) :=
  mom.processDeclarations broadcastInteraction fed publicationReports (·.isFederatePublisher fed)
    (·.isPublishing fed) (·.isPublishing fed)

/-- The classes the federate subscribes to, with the attributes it publishes. -/
def processFederateRequestSubscriptions : List (MessageEvent μ) :=
  mom.processDeclarations broadcastInteraction fed subscriptionReports (·.isSubscribed fed)
    (·.isPublishing fed) (·.isSubscribed fed)

def getAllObjectInstancesFromFederate : List ObjectHandle :=
  (mom.my_root.objects.filter fun o => o.owner = fed).map Object.handle

/-- The counts are kept under the handles of the instances. -/
def processFederateRequestObjectInstancesThatCanBeDeleted :
    Except RTIException (List (MessageEvent μ)) := do
  let _ ← mom.privilegeToDelete
  return broadcastInteraction
    (deletableReport fed (tally (mom.getAllObjectInstancesFromFederate fed)))

/-- The responses of the first broadcast are inserted twice, those of the second not at all. -/
def processFederateRequestUpdatesSent : List (MessageEvent μ) :=
  let report := transportReport "HLAmanager.HLAfederate.HLAreport.HLAreportUpdatesSent"
    "HLAupdateCounts" fed
  let resp := broadcastInteraction (report "HLAreliable" (mom.my_updates_sent fed))
  resp ++ resp.map MessageEvent.moved

/-- The body that the other requests about transportations share. -/
def processTransports (interaction counted : String) (counts : List (Nat × Nat)) :
    List (MessageEvent μ) :=
  let resp := broadcastInteraction (transportReport interaction counted fed "HLAreliable" counts)
  let bestEffortResp := broadcastInteraction
    (transportReport interaction counted fed "HLAbestEffort" [])
  resp ++ bestEffortResp

def processFederateRequestInteractionsSent : List (MessageEvent μ) :=
  processTransports broadcastInteraction fed
    "HLAmanager.HLAfederate.HLAreport.HLAreportInteractionsSent" "HLAinteractionCounts"
    (mom.my_interactions_sent fed)

def processFederateRequestReflectionsReceived : List (MessageEvent μ) :=
  processTransports broadcastInteraction fed
    "HLAmanager.HLAfederate.HLAreport.HLAreportReflectionsReceived" "HLAreflectCounts"
    (mom.my_reflections_received fed)

def processFederateRequestInteractionsReceived : List (MessageEvent μ) :=
  processTransports broadcastInteraction fed
    "HLAmanager.HLAfederate.HLAreport.HLAreportInteractionsReceived" "HLAinteractionCounts"
    (mom.my_interactions_received fed)

/-- The loop over the attributes of the class. `isAttributeOwnedByFederate` takes the federate
first and is given the attribute first. -/
def ownedInstanceAttributes (o : Object) : List AttributeHandle →
    Except RTIException (List AttributeHandle)
  | [] => return []
  | h :: rest => do
    let owned ← o.isAttributeOwnedByFederate h fed
    let others ← ownedInstanceAttributes o rest
    return if owned then h :: others else others

/-- An instance that is not known is reported with nothing. -/
def processFederateRequestObjectInstanceInformation (object : ObjectHandle) :
    Except RTIException (List (MessageEvent μ)) :=
  match mom.my_root.getObject object with
  | .error .objectNotKnown => return broadcastInteraction (informationReport fed object [] 0 0)
  | .error e => throw e
  | .ok o => do
    let c ← mom.my_root.getObjectFromHandle o.classHandle
    let owned ← ownedInstanceAttributes fed o (c.attributes.map ObjectClassAttribute.handle)
    return broadcastInteraction (informationReport fed object owned o.classHandle o.classHandle)

def process : MomRequest → Except RTIException (List (MessageEvent μ))
  | .publications => return mom.processFederateRequestPublications broadcastInteraction fed
  | .subscriptions => return mom.processFederateRequestSubscriptions broadcastInteraction fed
  | .objectInstancesThatCanBeDeleted =>
    mom.processFederateRequestObjectInstancesThatCanBeDeleted broadcastInteraction fed
  | .updatesSent => return mom.processFederateRequestUpdatesSent broadcastInteraction fed
  | .interactionsSent => return mom.processFederateRequestInteractionsSent broadcastInteraction fed
  | .reflectionsReceived =>
    return mom.processFederateRequestReflectionsReceived broadcastInteraction fed
  | .interactionsReceived =>
    return mom.processFederateRequestInteractionsReceived broadcastInteraction fed
  | .objectInstanceInformation object =>
    mom.processFederateRequestObjectInstanceInformation broadcastInteraction fed object

end Handlers

end MomSources

/-! ## The truth -/

namespace RootObject

variable (root : RootObject)

/-- The class has the attribute, and it passes the test. -/
def Declares (ofAttribute : ObjectClassAttribute → Bool) (h : ObjectClassHandle)
    (a : AttributeHandle) : Prop :=
  ∃ c ∈ root.classes, c.handle = h ∧ ∃ oca ∈ c.attributes, oca.handle = a ∧ ofAttribute oca = true

def DeclaresInteraction (ofInteraction : Interaction → Bool) (h : InteractionClassHandle) : Prop :=
  ∃ i ∈ root.interactions, i.handle = h ∧ ofInteraction i = true

end RootObject

def Object.Owns (o : Object) (fed : FederateHandle) (h : AttributeHandle) : Prop :=
  ∃ oa, o.attribute? h = some oa ∧ oa.owner = fed

/-- One report for each class with an attribute that is declared, which lists those, or one null
report; and the interactions. -/
def DeclarationReports.Tells (kind : DeclarationReports) (fed : FederateHandle)
    (declares : ObjectClassHandle → AttributeHandle → Prop)
    (declaresInteraction : InteractionClassHandle → Prop) (reports : List MomReport) : Prop :=
  ∃ table, Lists table declares ∧ ∃ is, (∀ i, i ∈ is ↔ declaresInteraction i) ∧
    reports = kind.classes fed table ++ [kind.interactions fed is]

namespace MomSources

variable (mom : MomSources) (fed : FederateHandle)

/-- The reports that answer the request. -/
def Tells : MomRequest → List MomReport → Prop
  | .publications => publicationReports.Tells fed (mom.my_root.Declares (·.isPublishing fed))
      (mom.my_root.DeclaresInteraction (·.isPublishing fed))
  | .subscriptions => subscriptionReports.Tells fed (mom.my_root.Declares (·.isSubscribed fed))
      (mom.my_root.DeclaresInteraction (·.isSubscribed fed))
  | .objectInstancesThatCanBeDeleted => fun reports => ∃ counts,
      Counts counts ((mom.my_root.objects.filter fun o => o.owner = fed).map Object.classHandle) ∧
        reports = [deletableReport fed counts]
  | .updatesSent => fun reports =>
      let report := transportReport "HLAmanager.HLAfederate.HLAreport.HLAreportUpdatesSent"
        "HLAupdateCounts" fed
      reports = [report "HLAreliable" (mom.my_updates_sent fed), report "HLAbestEffort" []]
  | .interactionsSent => fun reports =>
      let report := transportReport "HLAmanager.HLAfederate.HLAreport.HLAreportInteractionsSent"
        "HLAinteractionCounts" fed
      reports = [report "HLAreliable" (mom.my_interactions_sent fed), report "HLAbestEffort" []]
  | .reflectionsReceived => fun reports =>
      let report := transportReport "HLAmanager.HLAfederate.HLAreport.HLAreportReflectionsReceived"
        "HLAreflectCounts" fed
      reports = [report "HLAreliable" (mom.my_reflections_received fed), report "HLAbestEffort" []]
  | .interactionsReceived => fun reports =>
      let report := transportReport "HLAmanager.HLAfederate.HLAreport.HLAreportInteractionsReceived"
        "HLAinteractionCounts" fed
      reports = [report "HLAreliable" (mom.my_interactions_received fed),
        report "HLAbestEffort" []]
  | .objectInstanceInformation object => fun reports =>
      match mom.my_root.object? object with
      | none => reports = [informationReport fed object [] 0 0]
      | some o => ∃ owned : List AttributeHandle, owned.Nodup ∧ (∀ h, h ∈ owned ↔ o.Owns fed h) ∧
          reports = [informationReport fed object owned o.classHandle o.classHandle]

/-- The handler answers with the right reports, each broadcast once, whatever a broadcast does. -/
def Truthful (request : MomRequest) : Prop :=
  ∃ reports, mom.Tells fed request reports ∧
    ∀ (μ : Type) (broadcastInteraction : MomReport → List (MessageEvent μ)),
      mom.process broadcastInteraction fed request = .ok (reports.flatMap broadcastInteraction)

/-- When a request is answered with the truth. -/
def Reportable : MomRequest → Prop
  | .subscriptions => ∀ c ∈ mom.my_root.classes, c.isSubscribed fed = true →
      ∀ oca ∈ c.attributes, oca.isPublishing fed = oca.isSubscribed fed
  | .objectInstancesThatCanBeDeleted => mom.privilegeToDelete.isOk = true ∧
      (mom.getAllObjectInstancesFromFederate fed).Perm
        ((mom.my_root.objects.filter fun o => o.owner = fed).map Object.classHandle)
  | .updatesSent => False
  | .objectInstanceInformation object => ∀ o, mom.my_root.object? object = some o →
      ∃ c, mom.my_root.class? o.classHandle = some c ∧
        (c.attributes = [] ∨ (o.attribute? fed).isSome = true) ∧
        ∀ h, o.Owns fed h ↔ c.hasAttribute h = true ∧
          ∃ oa, o.attribute? fed = some oa ∧ oa.owner = h
  | .publications | .interactionsSent | .reflectionsReceived | .interactionsReceived => True

end MomSources

/-! ## Tables of declarations -/

namespace RootObject

variable {root : RootObject} {ofClass : ObjectClass → Bool}
  {ofAttribute : ObjectClassAttribute → Bool}

/-- Handles tell classes apart, and the attributes of a class. -/
structure Apart (root : RootObject) : Prop where
  classes : (root.classes.map ObjectClass.handle).Nodup
  attributes : ∀ c ∈ root.classes, (c.attributes.map ObjectClassAttribute.handle).Nodup

theorem Apart.attributesOf_lists (apart : root.Apart) :
    Lists (root.attributesOf ofClass ofAttribute) fun h a =>
      ∃ c ∈ root.classes, ofClass c = true ∧ c.handle = h ∧
        ∃ oca ∈ c.attributes, oca.handle = a ∧ ofAttribute oca = true := by
  have lists := grouped_lists ObjectClass.handle
    (fun c => (c.attributes.filter ofAttribute).map ObjectClassAttribute.handle)
    (root.classes.filter ofClass)
    (apart.classes.sublist (List.filter_sublist.map ObjectClass.handle))
    fun c member => (apart.attributes c (List.mem_filter.mp member).1).sublist
      (List.filter_sublist.map ObjectClassAttribute.handle)
  refine lists.lists_iff.mpr fun h a => ?_
  simp only [List.mem_filter, List.mem_map]
  constructor
  · rintro ⟨c, ⟨member, tested⟩, named, oca, ⟨belongs, passes⟩, same⟩
    exact ⟨c, member, tested, named, oca, belongs, same, passes⟩
  · rintro ⟨c, member, tested, named, oca, belongs, same, passes⟩
    exact ⟨c, ⟨member, tested⟩, named, oca, ⟨belongs, passes⟩, same⟩

/-- An attribute is the one declared under its handles. -/
theorem Apart.declares_iff (apart : root.Apart) {c : ObjectClass} (member : c ∈ root.classes)
    {oca : ObjectClassAttribute} (belongs : oca ∈ c.attributes) :
    root.Declares ofAttribute c.handle oca.handle ↔ ofAttribute oca = true := by
  constructor
  · rintro ⟨c', member', sameClass, oca', belongs', same, passes⟩
    cases List.inj_on_of_nodup_map apart.classes member' member sameClass
    cases List.inj_on_of_nodup_map (apart.attributes c member) belongs' belongs same
    exact passes
  · exact fun passes => ⟨c, member, rfl, oca, belongs, rfl, passes⟩

theorem mem_interactionsOf {ofInteraction : Interaction → Bool} (h : InteractionClassHandle) :
    h ∈ root.interactionsOf ofInteraction ↔ root.DeclaresInteraction ofInteraction h := by
  simp only [interactionsOf, List.mem_map, List.mem_filter, DeclaresInteraction]
  constructor
  · rintro ⟨i, ⟨member, passes⟩, same⟩
    exact ⟨i, member, same, passes⟩
  · rintro ⟨i, member, same, passes⟩
    exact ⟨i, ⟨member, passes⟩, same⟩

end RootObject

/-! ## What is broadcast -/

/-- Responses that show the reports: a broadcast that answers with what it is given. -/
def echo (report : MomReport) : List (MessageEvent MomReport) := [⟨[], some report⟩]

theorem reports_echoed (reports : List MomReport) :
    (reports.flatMap echo).filterMap MessageEvent.message = reports := by
  induction reports with
  | nil => rfl
  | cons report rest ih =>
    rw [List.flatMap_cons, List.filterMap_append, ih]
    rfl

/-- A handler that broadcasts some reports once each is right if those are the right ones. -/
theorem broadcasts_iff {tells : List MomReport → Prop} {actual : List MomReport}
    {process : ∀ μ : Type, (MomReport → List (MessageEvent μ)) →
      Except RTIException (List (MessageEvent μ))}
    (broadcasts : ∀ μ broadcast, process μ broadcast = .ok (actual.flatMap broadcast)) :
    (∃ reports, tells reports ∧ ∀ μ broadcast,
      process μ broadcast = .ok (reports.flatMap broadcast)) ↔ tells actual := by
  constructor
  · rintro ⟨reports, told, responses⟩
    have same := (broadcasts MomReport echo).symm.trans (responses MomReport echo)
    have echoed : actual.flatMap echo = reports.flatMap echo := Except.ok.inj same
    rw [← reports_echoed actual, echoed, reports_echoed]
    exact told
  · exact fun told => ⟨actual, told, broadcasts⟩

/-- Nothing is told by a handler that throws. -/
theorem thrown_silent {tells : List MomReport → Prop} {e : RTIException}
    {process : ∀ μ : Type, (MomReport → List (MessageEvent μ)) →
      Except RTIException (List (MessageEvent μ))}
    (throws : ∀ μ broadcast, process μ broadcast = .error e) :
    ¬ ∃ reports, tells reports ∧ ∀ μ broadcast,
      process μ broadcast = .ok (reports.flatMap broadcast) := by
  rintro ⟨reports, _, responses⟩
  cases (throws MomReport echo).symm.trans (responses MomReport echo)

namespace DeclarationReports

variable {kind : DeclarationReports} {fed : FederateHandle}
  {table other : List (ObjectClassHandle × List AttributeHandle)}

/-- The null report has no class in it. -/
theorem classes_inj (same : kind.classes fed table = kind.classes fed other) : table = other := by
  unfold classes at same
  by_cases empty : table.length = 0
  · rw [if_pos empty] at same
    by_cases none : other.length = 0
    · rw [List.eq_nil_of_length_eq_zero empty, List.eq_nil_of_length_eq_zero none]
    · rw [if_neg none] at same
      obtain ⟨line, rest, rfl⟩ := List.exists_cons_of_length_pos (Nat.pos_of_ne_zero none)
      simp at same
  · rw [if_neg empty] at same
    by_cases none : other.length = 0
    · rw [if_pos none] at same
      obtain ⟨line, rest, rfl⟩ := List.exists_cons_of_length_pos (Nat.pos_of_ne_zero empty)
      simp at same
    · rw [if_neg none] at same
      have lengths := congrArg List.length same
      rw [List.length_map, List.length_map] at lengths
      rw [lengths] at same
      refine List.map_injective_iff.mpr ?_ same
      rintro ⟨h, hs⟩ ⟨h', hs'⟩ equal
      simpa using equal

theorem tells_iff {declares : ObjectClassHandle → AttributeHandle → Prop}
    {declaresInteraction : InteractionClassHandle → Prop} {is : List InteractionClassHandle}
    (interactions : ∀ i, i ∈ is ↔ declaresInteraction i) :
    kind.Tells fed declares declaresInteraction
        (kind.classes fed table ++ [kind.interactions fed is]) ↔ Lists table declares := by
  constructor
  · rintro ⟨other, lists, is', _, same⟩
    have classes := (List.append_inj' same rfl).1
    rw [classes_inj classes]
    exact lists
  · exact fun lists => ⟨table, lists, is, interactions, rfl⟩

end DeclarationReports

/-! ## Each request -/

namespace MomSources

variable {mom : MomSources} {fed : FederateHandle}

theorem processDeclarations_broadcasts (kind : DeclarationReports) (ofClass : ObjectClass → Bool)
    (ofAttribute : ObjectClassAttribute → Bool) (ofInteraction : Interaction → Bool) {μ : Type}
    (broadcast : MomReport → List (MessageEvent μ)) :
    mom.processDeclarations broadcast fed kind ofClass ofAttribute ofInteraction =
      (kind.classes fed (mom.my_root.attributesOf ofClass ofAttribute) ++
        [kind.interactions fed (mom.my_root.interactionsOf ofInteraction)]).flatMap broadcast := by
  rw [processDeclarations, List.flatMap_append, List.flatMap_singleton]

theorem truthful_publications (apart : mom.my_root.Apart) : mom.Truthful fed .publications := by
  refine (broadcasts_iff (fun μ broadcast => congrArg Except.ok
    (processDeclarations_broadcasts publicationReports _ _ _ broadcast))).mpr ?_
  refine (DeclarationReports.tells_iff fun i => RootObject.mem_interactionsOf i).mpr ?_
  refine apart.attributesOf_lists.lists_iff.mpr fun h a => ?_
  constructor
  · rintro ⟨c, member, _, named, oca, declared⟩
    exact ⟨c, member, named, oca, declared⟩
  · rintro ⟨c, member, named, oca, belongs, declared⟩
    have publisher : c.isFederatePublisher fed = true :=
      List.any_eq_true.mpr ⟨oca, belongs, declared.2⟩
    exact ⟨c, member, publisher, named, oca, belongs, declared⟩

theorem truthful_subscriptions_iff (apart : mom.my_root.Apart) :
    mom.Truthful fed .subscriptions ↔ mom.Reportable fed .subscriptions := by
  refine (broadcasts_iff (fun μ broadcast => congrArg Except.ok
    (processDeclarations_broadcasts subscriptionReports _ _ _ broadcast))).trans ?_
  refine (DeclarationReports.tells_iff fun i => RootObject.mem_interactionsOf i).trans ?_
  refine apart.attributesOf_lists.lists_iff.trans ?_
  constructor
  · intro same c member subscriber oca belongs
    have listed : oca.isPublishing fed = true ↔ mom.my_root.Declares (·.isSubscribed fed)
        c.handle oca.handle := by
      rw [← same]
      constructor
      · exact fun publishing => ⟨c, member, subscriber, rfl, oca, belongs, rfl, publishing⟩
      · rintro ⟨c', member', _, named, oca', declared⟩
        have published : mom.my_root.Declares (·.isPublishing fed) c.handle oca.handle :=
          ⟨c', member', named, oca', declared⟩
        exact (apart.declares_iff member belongs).mp published
    rw [Bool.eq_iff_iff, listed]
    exact apart.declares_iff member belongs
  · intro agree h a
    constructor
    · rintro ⟨c, member, subscriber, named, oca, belongs, same, publishing⟩
      rw [agree c member subscriber oca belongs] at publishing
      exact ⟨c, member, named, oca, belongs, same, publishing⟩
    · rintro ⟨c, member, named, oca, belongs, same, subscribed : oca.isSubscribed fed = true⟩
      have subscriber : c.isSubscribed fed = true := List.any_eq_true.mpr ⟨oca, belongs, subscribed⟩
      rw [← agree c member subscriber oca belongs] at subscribed
      exact ⟨c, member, subscriber, named, oca, belongs, same, subscribed⟩

theorem truthful_deletable_iff : mom.Truthful fed .objectInstancesThatCanBeDeleted ↔
    mom.Reportable fed .objectInstancesThatCanBeDeleted := by
  cases looked : mom.privilegeToDelete with
  | error e =>
    have silent : ¬ mom.Truthful fed .objectInstancesThatCanBeDeleted := by
      refine thrown_silent (e := e) fun μ broadcast => ?_
      rw [process, processFederateRequestObjectInstancesThatCanBeDeleted, looked]
      rfl
    refine ⟨fun told => absurd told silent, fun reportable => ?_⟩
    rw [Reportable, looked] at reportable
    cases reportable.1
  | ok h =>
    have broadcasts : ∀ μ (broadcast : MomReport → List (MessageEvent μ)),
        mom.process broadcast fed .objectInstancesThatCanBeDeleted = .ok
          ([deletableReport fed (tally (mom.getAllObjectInstancesFromFederate fed))].flatMap
            broadcast) := by
      intro μ broadcast
      rw [process, processFederateRequestObjectInstancesThatCanBeDeleted, looked,
        List.flatMap_singleton]
      rfl
    refine (broadcasts_iff broadcasts).trans ?_
    rw [Reportable, looked, ← (tally_counts _).counts_iff]
    constructor
    · rintro ⟨counts, right, same⟩
      have equal : tally (mom.getAllObjectInstancesFromFederate fed) = counts := by
        simpa [deletableReport] using same
      rw [equal]
      exact ⟨rfl, right⟩
    · exact fun right => ⟨_, right.2, rfl⟩

/-- The second report is never among the responses, and a message without content is. -/
theorem updatesSent_untold : ¬ mom.Truthful fed .updatesSent := by
  rintro ⟨reports, rfl, responses⟩
  have echoed := Except.ok.inj (responses MomReport echo)
  simp [processFederateRequestUpdatesSent, echo, MessageEvent.moved] at echoed

theorem processTransports_broadcasts (interaction counted : String) (counts : List (Nat × Nat))
    {μ : Type} (broadcast : MomReport → List (MessageEvent μ)) :
    processTransports broadcast fed interaction counted counts =
      [transportReport interaction counted fed "HLAreliable" counts,
        transportReport interaction counted fed "HLAbestEffort" []].flatMap broadcast := by
  rw [List.flatMap_cons, List.flatMap_singleton]
  rfl

/-- What the loop with the exchanged arguments collects. -/
theorem ownedInstanceAttributes_eq (fed : FederateHandle) (o : Object) (hs : List AttributeHandle) :
    ownedInstanceAttributes fed o hs =
      match hs, o.attribute? fed with
      | [], _ => .ok []
      | _ :: _, none => .error .attributeNotDefined
      | _ :: _, some oa => .ok (hs.filter fun h => oa.owner = h) := by
  cases found : o.attribute? fed with
  | none =>
    cases hs with
    | nil => rfl
    | cons h rest =>
      rw [ownedInstanceAttributes, Object.isAttributeOwnedByFederate, Object.getAttribute, found]
      rfl
  | some oa =>
    have all : ∀ hs, ownedInstanceAttributes fed o hs =
        .ok (hs.filter fun h => oa.owner = h) := by
      intro hs
      induction hs with
      | nil => rfl
      | cons h rest ih =>
        rw [ownedInstanceAttributes, Object.isAttributeOwnedByFederate, Object.getAttribute, found,
          ih, List.filter_cons]
        by_cases owner : oa.owner = h
        · simp [owner, bind, Except.bind, pure, Except.pure]
        · simp [owner, bind, Except.bind, pure, Except.pure]
    cases hs with
    | nil => rfl
    | cons h rest => exact all (h :: rest)

end MomSources

theorem ObjectClass.hasAttribute_iff {c : ObjectClass} {h : AttributeHandle} :
    c.hasAttribute h = true ↔ h ∈ c.attributes.map ObjectClassAttribute.handle := by
  rw [hasAttribute, attribute?, List.mem_map]
  constructor
  · intro found
    obtain ⟨a, located⟩ := Option.isSome_iff_exists.mp found
    exact ⟨a, lookup_mem located, lookup_key located⟩
  · rintro ⟨a, member, same⟩
    obtain ⟨b, located⟩ := lookup_of_mem member same
    rw [located]
    rfl

namespace MomSources

section Information

variable {mom : MomSources} {fed : FederateHandle}
variable {object : ObjectHandle} {o : Object} {c : ObjectClass}

/-- A list with the right attributes is told. -/
theorem informs_iff (known : mom.my_root.object? object = some o) {owned : List AttributeHandle}
    (nodup : owned.Nodup) :
    mom.Tells fed (.objectInstanceInformation object)
        [informationReport fed object owned o.classHandle o.classHandle] ↔
      ∀ h, h ∈ owned ↔ o.Owns fed h := by
  rw [Tells, known]
  constructor
  · rintro ⟨owned', _, right, same⟩
    have equal : owned = owned' := by simpa [informationReport] using same
    rw [equal]
    exact right
  · exact fun right => ⟨owned, nodup, right, rfl⟩

theorem processInformation_eq (known : mom.my_root.object? object = some o) {μ : Type}
    (broadcast : MomReport → List (MessageEvent μ)) :
    mom.process broadcast fed (.objectInstanceInformation object) =
      (do let c ← mom.my_root.getObjectFromHandle o.classHandle
          ownedInstanceAttributes fed o
            (c.attributes.map ObjectClassAttribute.handle)).map fun owned =>
        [informationReport fed object owned o.classHandle o.classHandle].flatMap broadcast := by
  rw [process, processFederateRequestObjectInstanceInformation, RootObject.getObject, known]
  simp only [List.flatMap_singleton]
  cases mom.my_root.getObjectFromHandle o.classHandle with
  | error e => rfl
  | ok c => rfl

theorem truthful_of_collected (known : mom.my_root.object? object = some o)
    (located : mom.my_root.class? o.classHandle = some c) {owned : List AttributeHandle}
    (collected : ownedInstanceAttributes fed o (c.attributes.map ObjectClassAttribute.handle) =
      .ok owned) (nodup : owned.Nodup) :
    mom.Truthful fed (.objectInstanceInformation object) ↔ ∀ h, h ∈ owned ↔ o.Owns fed h := by
  refine (broadcasts_iff fun μ broadcast => ?_).trans (informs_iff known nodup)
  rw [processInformation_eq known, RootObject.getObjectFromHandle, located]
  dsimp only [bind, Except.bind]
  rw [collected]
  rfl

theorem untold_of_thrown (known : mom.my_root.object? object = some o) {e : RTIException}
    (thrown : (do let c ← mom.my_root.getObjectFromHandle o.classHandle
                  ownedInstanceAttributes fed o
                    (c.attributes.map ObjectClassAttribute.handle)) = .error e) :
    ¬ mom.Truthful fed (.objectInstanceInformation object) := by
  refine thrown_silent (e := e) fun μ broadcast => ?_
  rw [processInformation_eq known, thrown]
  rfl

theorem truthful_unknown (unknown : mom.my_root.object? object = none) :
    mom.Truthful fed (.objectInstanceInformation object) := by
  have broadcasts : ∀ μ (broadcast : MomReport → List (MessageEvent μ)),
      mom.process broadcast fed (.objectInstanceInformation object) = .ok
        ([informationReport fed object [] 0 0].flatMap broadcast) := by
    intro μ broadcast
    rw [process, processFederateRequestObjectInstanceInformation, RootObject.getObject, unknown,
      List.flatMap_singleton]
    rfl
  refine (broadcasts_iff broadcasts).mpr ?_
  rw [Tells, unknown]

/-- The federate owns what the loop lists: the attribute whose handle is the owner of the attribute
that has the federate's handle. -/
theorem truthful_known_iff (apart : mom.my_root.Apart)
    (known : mom.my_root.object? object = some o)
    (located : mom.my_root.class? o.classHandle = some c) :
    mom.Truthful fed (.objectInstanceInformation object) ↔
      (c.attributes = [] ∨ (o.attribute? fed).isSome = true) ∧
        ∀ h, o.Owns fed h ↔ c.hasAttribute h = true ∧
          ∃ oa, o.attribute? fed = some oa ∧ oa.owner = h := by
  have collects := ownedInstanceAttributes_eq fed o
    (c.attributes.map ObjectClassAttribute.handle)
  cases shape : c.attributes with
  | nil =>
    rw [shape] at collects
    have none : ∀ h, c.hasAttribute h = false := by
      intro h
      rw [ObjectClass.hasAttribute, ObjectClass.attribute?, shape]
      rfl
    rw [truthful_of_collected known located (by rw [shape]; exact collects) List.nodup_nil]
    constructor
    · exact fun right => ⟨.inl rfl, fun h => by simpa [none] using (right h).symm⟩
    · exact fun right h => by simpa [none] using (right.2 h).symm
  | cons first rest =>
    cases found : o.attribute? fed with
    | none =>
      rw [shape, found] at collects
      refine iff_of_false (untold_of_thrown known (e := .attributeNotDefined) ?_) ?_
      · rw [RootObject.getObjectFromHandle, located]
        dsimp only [bind, Except.bind]
        rw [shape]
        exact collects
      · rintro ⟨empty | some, _⟩
        · cases empty
        · cases some
    | some oa =>
      rw [shape, found] at collects
      have handles : ∀ h, h ∈ (c.attributes.map ObjectClassAttribute.handle).filter
          (fun h => oa.owner = h) ↔ c.hasAttribute h = true ∧ oa.owner = h := by
        intro h
        simp [ObjectClass.hasAttribute_iff]
      have nodup := apart.attributes c (lookup_mem located)
      rw [truthful_of_collected known located (by rw [shape]; exact collects)
        (by rw [← shape] ; exact nodup.sublist List.filter_sublist), ← shape]
      constructor
      · intro right
        refine ⟨.inr rfl, fun h => ?_⟩
        rw [← right, handles]
        simp
      · rintro ⟨_, right⟩ h
        rw [right, handles]
        simp

end Information

variable {mom : MomSources} {fed : FederateHandle}

theorem truthful_information_iff (apart : mom.my_root.Apart) (object : ObjectHandle) :
    mom.Truthful fed (.objectInstanceInformation object) ↔
      mom.Reportable fed (.objectInstanceInformation object) := by
  cases known : mom.my_root.object? object with
  | none =>
    refine iff_of_true (truthful_unknown known) ?_
    rw [Reportable, known]
    nofun
  | some o =>
    have reportable : mom.Reportable fed (.objectInstanceInformation object) ↔
        ∃ c, mom.my_root.class? o.classHandle = some c ∧
          (c.attributes = [] ∨ (o.attribute? fed).isSome = true) ∧
          ∀ h, o.Owns fed h ↔ c.hasAttribute h = true ∧
            ∃ oa, o.attribute? fed = some oa ∧ oa.owner = h := by
      rw [Reportable, known]
      simp
    rw [reportable]
    cases located : mom.my_root.class? o.classHandle with
    | none =>
      refine iff_of_false (untold_of_thrown known (e := .objectClassNotDefined) ?_) nofun
      rw [RootObject.getObjectFromHandle, located]
      rfl
    | some c =>
      rw [truthful_known_iff apart known located]
      simp

theorem truthful_iff (apart : mom.my_root.Apart) (request : MomRequest) :
    mom.Truthful fed request ↔ mom.Reportable fed request := by
  cases request with
  | publications => exact iff_of_true (truthful_publications apart) trivial
  | subscriptions => exact truthful_subscriptions_iff apart
  | objectInstancesThatCanBeDeleted => exact truthful_deletable_iff
  | updatesSent => exact iff_of_false updatesSent_untold id
  | interactionsSent | reflectionsReceived | interactionsReceived =>
    refine iff_of_true ((broadcasts_iff fun μ broadcast => congrArg Except.ok
      (processTransports_broadcasts _ _ _ broadcast)).mpr rfl) trivial
  | objectInstanceInformation object => exact truthful_information_iff apart object

end MomSources

/-! ## In every run -/

theorem RootObject.SameTree.apart {root root' : RootObject} (same : root.SameTree root')
    (apart : root.Apart) : root'.Apart := by
  have classes : (root'.classes.map ObjectClass.handle).Nodup := same.handles ▸ apart.classes
  refine ⟨classes, fun c' member => ?_⟩
  obtain ⟨c, located, sameClass⟩ := same.classes.class?' (lookup_of_nodup classes member)
  rw [sameClass.handles]
  exact apart.attributes c (lookup_mem located)

theorem create_apart (fom : Fom) (withMom haveXml : Bool) :
    (Federation.create fom withMom haveXml).root.Apart := by
  refine ⟨(create_keeps fom withMom haveXml).1.distinct.classes, fun c member => ?_⟩
  obtain ⟨declared, _, rfl⟩ := List.mem_map.mp member
  rw [FomClass.create_handles]
  exact List.nodup_range'

theorem managed_apart (fom : Fom) (withMom haveXml : Bool) (es : List MomEvent) :
    (managed.exec (Federation.create fom withMom haveXml) es).root.Apart := by
  have kept := Federation.managed_always (p := fun f => f.root.Tidy ∧ f.root.Apart)
    (fun f e before => ⟨(Federation.perform_keeps before.1 e).1,
      (Federation.perform_sameTree before.1 e).apart before.2⟩)
    ⟨(create_keeps fom withMom haveXml).1, create_apart fom withMom haveXml⟩ es
  exact kept.2

/-- In every state of every run: a request of the MOM is answered with the truth exactly where
`Reportable` says so. -/
theorem mom_reports_iff (fom : Fom) (withMom haveXml : Bool) (es : List MomEvent)
    (counted : MomSources) (fed : FederateHandle) (request : MomRequest) :
    let mom := { counted with
      my_root := (managed.exec (Federation.create fom withMom haveXml) es).root }
    mom.Truthful fed request ↔ mom.Reportable fed request :=
  MomSources.truthful_iff (managed_apart fom withMom haveXml es) request

/-- A subscriber that publishes nothing is reported to subscribe to nothing. -/
theorem subscription_unreported :
    ¬ ∀ (fom : Fom) (withMom haveXml : Bool) (es : List MomEvent) (counted : MomSources)
      (fed : FederateHandle) (request : MomRequest),
      MomSources.Truthful { counted with
        my_root := (managed.exec (Federation.create fom withMom haveXml) es).root } fed request := by
  intro always
  let es : List MomEvent := [.event (joinAs "a"), .event (.subscribeObject 1 1 [2])]
  let f := managed.exec (Federation.create smallFom false true) es
  have told := always smallFom false true es
    ⟨f.root, fun _ => [], fun _ => [], fun _ => [], fun _ => [], .ok 1⟩ 1 .subscriptions
  have agree : ∀ c ∈ f.root.classes, c.isSubscribed 1 = true → ∀ oca ∈ c.attributes,
      oca.isPublishing 1 = oca.isSubscribed 1 :=
    (MomSources.truthful_subscriptions_iff (managed_apart smallFom false true es)).mp told
  revert agree
  decide +kernel

end Certi
