import Certi.RTIG.Federation

/-!
# Runs of a federation

The requests of `MessageProcessor.cc` that the modelled services answer, and
the loss of a connection. An event is one of them with its arguments; the
machine performs it and answers with what was sent and thrown. After a crash
nothing happens any more.
-/
namespace Certi

open Federation Ownership

inductive OwnershipService where
  | negotiateDivestiture | acquireIfAvailable | divest | acquire
  | cancelDivestiture | respondRelease | cancelAcquisition
  deriving DecidableEq, Repr

/-- The service of the class set, or of the object set, that a request stands for. -/
def OwnershipService.perform (service : OwnershipService) (fed : FederateHandle)
    (hs : List AttributeHandle) (c : ObjectClass) (o : Object) :
    Transfer × Option RTIException :=
  match service with
  | negotiateDivestiture => negotiatedAttributeOwnershipDivestiture c fed o hs
  | acquireIfAvailable => attributeOwnershipAcquisitionIfAvailable c fed o hs
  | divest => unconditionalAttributeOwnershipDivestiture c fed o hs
  | acquire => attributeOwnershipAcquisition c fed o hs
  | cancelDivestiture => cancelNegotiatedAttributeOwnershipDivestiture fed o hs
  | respondRelease => attributeOwnershipReleaseResponse c fed o hs
  | cancelAcquisition => cancelAttributeOwnershipAcquisition c fed o hs

inductive Event where
  | join (name : String) (conditions : JoinConditions)
  | resign (fed : FederateHandle)
  | kill (fed : FederateHandle)
  | setTimeRegulating (fed : FederateHandle) (on : Bool) (date : Date)
  | messageNull (fed : FederateHandle) (date : Date)
  | setTimeConstrained (fed : FederateHandle) (on : Bool)
  | registerSynchronization (fed : FederateHandle) (label tag : String)
      (set : Option (List FederateHandle))
  | synchronizationPointAchieved (fed : FederateHandle) (label : String)
  | requestFederationSave (fed : FederateHandle) (label : String) (timed : Bool)
  | federateSaveBegun (fed : FederateHandle)
  | federateSaveStatus (fed : FederateHandle) (complete : Bool)
  | publishObject (fed : FederateHandle) (c : ObjectClassHandle) (hs : List AttributeHandle)
      (publish : Bool)
  | subscribeObject (fed : FederateHandle) (c : ObjectClassHandle) (hs : List AttributeHandle)
  | subscribeAttributesWR (fed : FederateHandle) (c : ObjectClassHandle) (region : RegionHandle)
      (hs : List AttributeHandle)
  | unsubscribeAttributesWR (fed : FederateHandle) (c : ObjectClassHandle) (region : RegionHandle)
  | publishInteraction (fed : FederateHandle) (i : InteractionClassHandle) (publish : Bool)
  | subscribeInteraction (fed : FederateHandle) (i : InteractionClassHandle) (subscribe : Bool)
  | subscribeInteractionWR (fed : FederateHandle) (i : InteractionClassHandle)
      (region : RegionHandle) (subscribe : Bool)
  | createRegion (fed : FederateHandle) (space : SpaceHandle) (extents : Nat)
  | associateRegion (fed : FederateHandle) (object : ObjectHandle) (region : RegionHandle)
      (hs : List AttributeHandle)
  | registerObject (fed : FederateHandle) (c : ObjectClassHandle) (name : String)
  | registerObjectWithRegion (fed : FederateHandle) (c : ObjectClassHandle) (name : String)
      (region : RegionHandle) (hs : List AttributeHandle)
  | deleteObject (fed : FederateHandle) (object : ObjectHandle)
  | ownership (service : OwnershipService) (fed : FederateHandle) (object : ObjectHandle)
      (hs : List AttributeHandle)

namespace Federation

/-- A service of the root object for a member of the federation. -/
def memberOnRoot (f : Federation) (fed : FederateHandle)
    (service : RootObject → Outcome RootObject) : Outcome Federation :=
  f.asMember fed (f.onRoot service)

/-- A service that first looks a region up. -/
def memberWithRegion (f : Federation) (fed : FederateHandle) (region : RegionHandle)
    (service : RootObject → Outcome RootObject) : Outcome Federation :=
  f.memberOnRoot fed fun root =>
    match root.getRegion region with
    | .error e => .refused root e
    | .ok _ => service root

/-- A negotiated divestiture ends the process once the checks have passed: the notification of
an attribute handed over is written into an array of no elements, an offer is broadcast through
the absent RAV message, and without an offer the superclass is given no broadcast list. The
root object kept here is the one the loop would leave; nothing is performed on it any more. -/
def ownership (f : Federation) (service : OwnershipService) (fed : FederateHandle)
    (object : ObjectHandle) (hs : List AttributeHandle) : Outcome Federation :=
  f.asMember fed <|
    let (outcome, notes) := f.root.ownershipService object (service.perform fed hs)
    let fatal := service = .negotiateDivestiture && outcome.error.isNone &&
      (!notes.isEmpty || f.root.hasParentClass object)
    ⟨{ f with root := outcome.state, crashed := fatal }, outcome.sent, outcome.error⟩

/-- What the RTIG does with one event. -/
def perform (f : Federation) : Event → Outcome Federation
  | .join name conditions => f.add name conditions
  | .resign fed => f.remove fed
  | .kill fed => f.kill fed
  | .setTimeRegulating fed true date => f.addRegulator fed date
  | .setTimeRegulating fed false _ => f.removeRegulator fed
  | .messageNull fed date => f.updateRegulator fed date
  | .setTimeConstrained fed on => f.setConstrained fed on
  | .registerSynchronization fed label tag set =>
    f.processRegisterSynchronization fed label tag set
  | .synchronizationPointAchieved fed label => f.unregisterSynchronization fed label
  | .requestFederationSave fed label timed => f.requestFederationSave fed label timed
  | .federateSaveBegun fed => f.federateSaveBegun fed
  | .federateSaveStatus fed complete => f.federateSaveStatus fed complete
  | .publishObject fed c hs publish => f.memberOnRoot fed (·.publish fed c hs publish)
  | .subscribeObject fed c hs => f.memberOnRoot fed (·.subscribe fed c hs none)
  | .subscribeAttributesWR fed c region hs =>
    f.memberWithRegion fed region (·.subscribe fed c hs (some region))
  | .unsubscribeAttributesWR fed c region =>
    f.memberWithRegion fed region (·.unsubscribeWith fed c (some region))
  | .publishInteraction fed i publish => f.memberOnRoot fed (·.publishInteraction fed i publish)
  | .subscribeInteraction fed i subscribe =>
    f.memberOnRoot fed (·.subscribeInteraction fed i none subscribe)
  | .subscribeInteractionWR fed i region subscribe =>
    f.memberWithRegion fed region (·.subscribeInteraction fed i (some region) subscribe)
  | .createRegion fed space extents => f.memberOnRoot fed (·.createRegion space extents)
  | .associateRegion fed object region hs => f.memberOnRoot fed (·.associate object region hs)
  | .registerObject fed c name => f.registerObject fed c name
  | .registerObjectWithRegion fed c name region hs =>
    f.registerObjectWithRegion fed c name region hs
  | .deleteObject fed object => f.memberOnRoot fed (·.deleteObjectInstance fed object)
  | .ownership service fed object hs =>
    f.ownership service fed object hs

end Federation

/-- What an event is answered with. -/
abbrev Answer := Responses × Option RTIException

/-- The RTIG on one federation; once it has ended, a request finds no connection. -/
def rtig : Runs.Machine Federation Event Answer := fun f e =>
  if f.crashed then (f, ([], some .networkError))
  else
    let outcome := f.perform e
    (outcome.state, (outcome.sent, outcome.error))

theorem rtig_perform {f : Federation} {e : Event} (running : f.crashed = false) :
    rtig f e = ((f.perform e).state, ((f.perform e).sent, (f.perform e).error)) := by
  simp [rtig, running]

theorem rtig_crashed {f : Federation} {e : Event} (crashed : f.crashed = true) :
    rtig f e = (f, ([], some .networkError)) := by
  simp [rtig, crashed]

/-! ## Creation -/

structure FomAttribute where
  name : String
  level : SecurityLevelID := PublicLevelID
  deriving DecidableEq, Repr

/-- A class as a FOM declares it, with its inherited attributes first. The readers of the FOM
count the classes, and the attributes of each class, from 1: a handle is a position. -/
structure FomClass where
  superClass : ObjectClassHandle
  attributes : List FomAttribute
  level : SecurityLevelID := PublicLevelID
  deriving DecidableEq, Repr

structure FomInteraction where
  superClass : InteractionClassHandle
  parameters : List ParameterHandle
  level : SecurityLevelID := PublicLevelID
  deriving DecidableEq, Repr

/-- A superclass is declared before its subclasses; 0 stands for none. -/
structure Fom where
  classes : List FomClass
  interactions : List FomInteraction
  spaces : List Nat
  superClasses : ∀ c ∈ classes.zipIdx, c.1.superClass ≤ c.2
  superInteractions : ∀ i ∈ interactions.zipIdx, i.1.superClass ≤ i.2

/-- Nobody publishes or subscribes to a class when it is created. -/
def FomClass.create (c : FomClass) (handle : ObjectClassHandle) : ObjectClass :=
  { handle := handle
    superClass := c.superClass
    securityLevelId := c.level
    attributes := c.attributes.zipIdx.map fun a =>
      { handle := a.2 + 1, name := a.1.name, level := a.1.level
        publishers := ∅, subscribers := [] }
    maxSubscriberHandle := 0 }

def FomInteraction.create (i : FomInteraction) (handle : InteractionClassHandle) : Interaction :=
  { handle := handle
    superClass := i.superClass
    securityLevelId := i.level
    parameters := i.parameters
    publishers := ∅
    subscribers := [] }

/-- A newly created federation: its FOM and, where it has one, the MOM, which is given a
federate handle before any federate; handles count from 1. -/
def Federation.create (fom : Fom) (withMom haveXml : Bool) : Federation :=
  { federates := []
    nextFederate := if withMom then 2 else 1
    nextObject := 1
    regulators := []
    synchronizationLabels := []
    saveInProgress := false
    saveStatus := true
    saveLabel := ""
    haveXml := haveXml
    crashed := false
    root :=
      { server := ⟨if withMom then some 1 else none, [], []⟩
        classes := fom.classes.zipIdx.map fun c => c.1.create (c.2 + 1)
        interactions := fom.interactions.zipIdx.map fun i => i.1.create (i.2 + 1)
        objects := []
        reservedNames := []
        spaces := fom.spaces
        regions := []
        nextRegion := 1 } }

theorem noInteractions_ordered :
    ∀ i ∈ ([] : List FomInteraction).zipIdx, i.1.superClass ≤ i.2 := by decide

/-- One class with two attributes besides privilegeToDelete. -/
def smallFom : Fom :=
  { classes := [⟨0, [⟨"privilegeToDelete", 0⟩, ⟨"x", 0⟩, ⟨"y", 0⟩], 0⟩]
    interactions := []
    spaces := []
    superClasses := by decide
    superInteractions := by decide }

def joinAs (name : String) : Event := .join name ⟨true, true⟩

end Certi
