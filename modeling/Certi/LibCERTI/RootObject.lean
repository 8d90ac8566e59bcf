import Certi.Lib.Forest
import Certi.LibCERTI.BroadcastList
import Certi.LibCERTI.Ownership
import Certi.LibCERTI.Region

/-!
# The root object of a federation

`libCERTI/RootObject.cc`, `ObjectClassSet.cc`, `ObjectSet.cc`, the services of
`ObjectClass.cc` that create, discover and remove instances, and the
declarations of `Interaction.cc` and `InteractionSet.cc`. An instance is in the
map of its class exactly while it is in the object set, so one table holds all
instances. Names of classes and the FOM services are left out.
-/
namespace Certi

open Keyed

structure Interaction where
  handle : InteractionClassHandle
  superClass : InteractionClassHandle
  securityLevelId : SecurityLevelID
  parameters : List ParameterHandle
  publishers : Finset FederateHandle
  subscribers : List Subscriber

namespace Interaction

def isPublishing (i : Interaction) (fed : FederateHandle) : Bool := fed ∈ i.publishers

def isSubscribed (i : Interaction) (fed : FederateHandle) : Bool :=
  Subscribable.isSubscribed i.subscribers fed

def publish (server : SecurityServer) (i : Interaction) (fed : FederateHandle) :
    Except RTIException Interaction :=
  if server.canFederateAccessData fed i.securityLevelId then
    .ok { i with publishers := insert fed i.publishers }
  else .error .securityError

def unpublish (i : Interaction) (fed : FederateHandle) : Except RTIException Interaction :=
  if i.isPublishing fed then .ok { i with publishers := i.publishers.erase fed }
  else .error .federateNotPublishing

def subscribe (server : SecurityServer) (i : Interaction) (fed : FederateHandle)
    (region : Option RegionHandle) : Except RTIException Interaction :=
  if Subscribable.isSubscribedWith i.subscribers fed region then .ok i
  else if server.canFederateAccessData fed i.securityLevelId then
    .ok { i with subscribers := i.subscribers ++ [⟨fed, region⟩] }
  else .error .securityError

def unsubscribeWith (i : Interaction) (fed : FederateHandle) (region : Option RegionHandle) :
    Interaction :=
  { i with subscribers := Subscribable.unsubscribeWith i.subscribers fed region }

/-- `Interaction::killFederate`. -/
def killFederate (i : Interaction) (fed : FederateHandle) : Interaction :=
  let unpublished := { i with publishers := i.publishers.erase fed }
  if i.isSubscribed fed then
    { unpublished with subscribers := Subscribable.unsubscribe i.subscribers fed }
  else unpublished

end Interaction

structure RootObject where
  server : SecurityServer
  classes : List ObjectClass
  interactions : List Interaction
  objects : List Object
  reservedNames : List (String × FederateHandle)
  /-- The number of dimensions of each routing space; handles count from 1. -/
  spaces : List Nat
  regions : List RTIRegion
  nextRegion : RegionHandle

namespace RootObject

variable (root : RootObject)

/-! ## Tables -/

def class? (h : ObjectClassHandle) : Option ObjectClass := lookup ObjectClass.handle h root.classes

def getObjectFromHandle (h : ObjectClassHandle) : Except RTIException ObjectClass :=
  match root.class? h with
  | some c => .ok c
  | none => .error .objectClassNotDefined

def setClass (c : ObjectClass) : RootObject :=
  { root with classes := replace ObjectClass.handle c root.classes }

def object? (h : ObjectHandle) : Option Object := lookup Object.handle h root.objects

def getObject (h : ObjectHandle) : Except RTIException Object :=
  match root.object? h with
  | some o => .ok o
  | none => .error .objectNotKnown

def setObject (o : Object) : RootObject :=
  { root with objects := replace Object.handle o root.objects }

def region? (h : RegionHandle) : Option RTIRegion := lookup RTIRegion.handle h root.regions

def getRegion (h : RegionHandle) : Except RTIException RTIRegion :=
  match root.region? h with
  | some r => .ok r
  | none => .error .regionNotKnown

def getInteraction (h : InteractionClassHandle) : Except RTIException Interaction :=
  match lookup Interaction.handle h root.interactions with
  | some i => .ok i
  | none => .error .interactionClassNotDefined

def setInteraction (i : Interaction) : RootObject :=
  { root with interactions := replace Interaction.handle i root.interactions }

/-! ## The class tree -/

/-- A class and its superclasses up to the root, as the `while (currentClass)` loops of the
class set visit them. A superclass is registered before its subclasses, so its handle is
smaller. -/
def lineage (h : ObjectClassHandle) : List ObjectClass :=
  Forest.ancestors ObjectClass.handle ObjectClass.superClass root.classes h

/-- `subClasses`: the classes whose superclass this one is. -/
def subClasses (classes : List ObjectClass) (c : ObjectClass) : List ObjectClass :=
  classes.filter (fun sub => sub.superClass = c.handle)

/-! ## Discover and Remove broadcasts -/

/-- Federates `1..maxSubscriberHandle` subscribed to some attribute, but not the sender. -/
def audience (c : ObjectClass) (sender : FederateHandle) : List FederateHandle :=
  (List.range' 1 c.maxSubscriberHandle).filter (fun fed => c.isSubscribed fed && fed ≠ sender)

def addAudience (lines : BroadcastLines) (feds : List FederateHandle) :
    Except RTIException BroadcastLines :=
  feds.foldlM (fun lines fed => lines.addFederate 0 fed 0) lines

/-- `preparePendingDOMessage`: a federate without references is skipped, but counts as told. -/
def preparePendingDO (server : SecurityServer) (message : NetworkMessage)
    (lines : BroadcastLines) : BroadcastLines × Responses :=
  (lines.map (·.markSent 0),
    (lines.filter (fun line => line.stateFor 0 = .waiting && server.hasReferences line.federate)).map
      (fun line => (line.federate, message)))

/-- `broadcastClassMessage` for Discover_Object and Remove_Object, from a class to the root. -/
def broadcastUp (server : SecurityServer) (sender : FederateHandle)
    (message : ObjectClassHandle → NetworkMessage) :
    BroadcastLines → List ObjectClass → Except RTIException Responses
  | _, [] => .ok []
  | lines, c :: rest => do
    let listed ← addAudience lines (audience c sender)
    let (told, sent) := preparePendingDO server (message c.handle) listed
    return sent ++ (← broadcastUp server sender message told rest)

/-! ## Instances -/

/-- `ObjectSet::registerObjectInstance` and `ObjectClass::registerObjectInstance`; every
refusal takes the object out of the set again. -/
def registerObjectInstance (fed : FederateHandle) (classHandle : ObjectClassHandle)
    (object : ObjectHandle) (name : String) : Outcome RootObject :=
  match lookup Prod.fst name root.reservedNames with
  | some reservation =>
    if reservation.2 ≠ fed then .refused root .objectAlreadyRegistered else register
  | none => register
where
  register : Outcome RootObject :=
    if (root.object? object).isSome || root.objects.any (fun o => o.name = name) then
      .refused root .objectAlreadyRegistered
    else match root.class? classHandle with
      | none => .refused root .objectClassNotDefined
      | some c =>
        if !c.isFederatePublisher fed then .refused root .objectClassNotPublished
        else
          let instance' : Object :=
            { handle := object, name := name, classHandle := classHandle, owner := fed
              attributes := c.instanceAttributes fed }
          match broadcastUp root.server fed (fun h => .discoverObject fed h object name)
              (BroadcastLines.start fed) (root.lineage classHandle) with
          | .error e => .refused root e
          | .ok sent =>
            .done { root with
              objects := root.objects ++ [instance']
              reservedNames := drop Prod.fst name root.reservedNames } sent

/-- `RootObject::deleteObjectInstance`, dated or not. -/
def deleteObjectInstance (fed : FederateHandle) (object : ObjectHandle) : Outcome RootObject :=
  match root.object? object with
  | none => .refused root .objectNotKnown
  | some o =>
    if o.owner ≠ fed then .refused root .deletePrivilegeNotHeld
    else match broadcastUp root.server fed (fun h => .removeObject fed h object)
        (BroadcastLines.start fed) (root.lineage o.classHandle) with
      | .error e => .refused root e
      | .ok sent => .done { root with objects := drop Object.handle object root.objects } sent

/-! ## Discovery by subscription -/

/-- `sendDiscoverMessages` for one class: every instance of another owner. -/
def discoverInstances (objects : List Object) (c : ObjectClass) (fed : FederateHandle)
    (subscription : ObjectClassHandle) : Responses :=
  (objects.filter (fun o => o.classHandle = c.handle && o.owner ≠ fed)).map
    (fun o => (fed, .discoverObject fed subscription o.handle o.name))

/-- `recursiveDiscovering`: a subclass the federate is subscribed to ends the descent. The
tree is no deeper than the number of its classes. -/
def recursiveDiscovering (classes : List ObjectClass) (objects : List Object)
    (fed : FederateHandle) (subscription : ObjectClassHandle) : Nat → ObjectClass → Responses
  | 0, _ => []
  | fuel + 1, c =>
    if c.handle ≠ subscription && c.isSubscribed fed then []
    else discoverInstances objects c fed subscription ++
      (subClasses classes c).flatMap (recursiveDiscovering classes objects fed subscription fuel)

/-- `ObjectClassSet::subscribe`. -/
def subscribe (fed : FederateHandle) (classHandle : ObjectClassHandle) (hs : List AttributeHandle)
    (region : Option RegionHandle) : Outcome RootObject :=
  match root.class? classHandle with
  | none => .refused root .objectClassNotDefined
  | some c =>
    match c.subscribe root.server fed hs region with
    | (c', .error e) => .refused (root.setClass c') e
    | (c', .ok needDiscover) =>
      let after := root.setClass c'
      .done after
        (if needDiscover then
          recursiveDiscovering after.classes after.objects fed classHandle
            (after.classes.length + 1) c'
        else [])

/-- `ObjectClass::unsubscribe(fed, region)` of `Federation::unsubscribeAttributesWR`. -/
def unsubscribeWith (fed : FederateHandle) (classHandle : ObjectClassHandle)
    (region : Option RegionHandle) : Outcome RootObject :=
  match root.class? classHandle with
  | none => .refused root .objectClassNotDefined
  | some c => .done (root.setClass (c.unsubscribeWith fed region)) []

/-- `ObjectClassSet::publish`. -/
def publish (fed : FederateHandle) (classHandle : ObjectClassHandle) (hs : List AttributeHandle)
    (pubOrUnpub : Bool) : Outcome RootObject :=
  match root.class? classHandle with
  | none => .refused root .objectClassNotDefined
  | some c =>
    let (c', error) := c.publish root.server fed hs pubOrUnpub
    ⟨root.setClass c', [], error⟩

/-! ## Interactions -/

/-- A declaration on one interaction class. -/
def declareInteraction (h : InteractionClassHandle)
    (f : Interaction → Except RTIException Interaction) : Outcome RootObject :=
  match root.getInteraction h with
  | .error e => .refused root e
  | .ok i =>
    match f i with
    | .error e => .refused root e
    | .ok i' => .done (root.setInteraction i') []

def publishInteraction (fed : FederateHandle) (h : InteractionClassHandle) (publish : Bool) :
    Outcome RootObject :=
  root.declareInteraction h fun i =>
    if publish then i.publish root.server fed else i.unpublish fed

def subscribeInteraction (fed : FederateHandle) (h : InteractionClassHandle)
    (region : Option RegionHandle) (subscribe : Bool) : Outcome RootObject :=
  root.declareInteraction h fun i =>
    if subscribe then i.subscribe root.server fed region else .ok (i.unsubscribeWith fed region)

/-! ## Regions -/

/-- `RTIRegion`'s constructor makes every extent the whole space. -/
def createRegion (space : SpaceHandle) (extents : Nat) : Outcome RootObject :=
  if space = 0 then .refused root .spaceNotDefined
  else match root.spaces[space - 1]? with
    | none => .refused root .spaceNotDefined
    | some dimensions =>
      .done { root with
        regions := root.regions ++ [⟨root.nextRegion, space,
          List.replicate extents (List.replicate dimensions (0, 2 ^ 32 - 1))⟩]
        nextRegion := root.nextRegion + 1 } []

def associate (object : ObjectHandle) (region : RegionHandle) (hs : List AttributeHandle) :
    Outcome RootObject :=
  match root.getRegion region, root.getObject object with
  | .error e, _ => .refused root e
  | .ok _, .error e => .refused root e
  | .ok _, .ok o =>
    let (o', error) := Sweep.sweep
      (fun (o : Object) h => do
        return o.setAttribute { (← o.getAttribute h) with region := some region })
      (o.unassociate region) hs
    ⟨root.setObject o', [], error⟩

/-! ## Ownership -/

/-- Every ownership service finds the object and the class of the instance; the notes say
what it did. -/
def ownershipService (object : ObjectHandle)
    (service : ObjectClass → Object → Transfer × Option RTIException) :
    Outcome RootObject × List OwnershipNote :=
  match root.object? object with
  | none => (.refused root .objectNotKnown, [])
  | some o =>
    match root.class? o.classHandle with
    | none => (.refused root .objectNotKnown, [])
    | some c =>
      let (t, error) := service c o
      (⟨root.setObject t.1, [], error⟩, t.2)

/-- The class of an instance has a superclass, to which a service passes its broadcast on. -/
def hasParentClass (object : ObjectHandle) : Bool :=
  match root.object? object with
  | none => false
  | some o =>
    match root.class? o.classHandle with
    | none => false
    | some c => c.superClass ≠ 0

/-! ## Departure -/

/-- `ObjectClass::killFederate` up to the search for owned instances. A SecurityError while
unpublishing also skips the unsubscription. -/
def killDeclarations (server : SecurityServer) (fed : FederateHandle) (c : ObjectClass) :
    ObjectClass :=
  if c.isFederatePublisher fed then
    match c.publish server fed [] false with
    | (c', some _) => c'
    | (c', none) => if c'.isSubscribed fed then c'.unsubscribe fed else c'
  else if c.isSubscribed fed then c.unsubscribe fed else c

def killDeclarationsOf (root : RootObject) (fed : FederateHandle)
    (classHandle : ObjectClassHandle) : RootObject :=
  { root with
    classes := adjust ObjectClass.handle classHandle (killDeclarations root.server fed)
      root.classes }

/-- The `do … while` of `ObjectClassSet::killFederate` on one class: it is repeated once
more for each instance of the class the federate owns, deleting one each time. -/
def killInClass (fed : FederateHandle) (classHandle : ObjectClassHandle) :
    RootObject → List Object → RootObject × Responses
  | root, [] => (killDeclarationsOf root fed classHandle, [])
  | root, o :: rest =>
    let unpublished := killDeclarationsOf root fed classHandle
    let removed := match broadcastUp root.server fed (fun h => .removeObject fed h o.handle)
        (BroadcastLines.start fed) (unpublished.lineage classHandle) with
      | .error _ => []
      | .ok sent => sent
    let (after, sent) := killInClass fed classHandle
      { unpublished with objects := drop Object.handle o.handle unpublished.objects } rest
    (after, removed ++ sent)

/-- `ObjectClassSet::killFederate`: every class in turn. -/
def killClasses (fed : FederateHandle) : RootObject → List ObjectClassHandle → RootObject × Responses
  | root, [] => (root, [])
  | root, h :: rest =>
    let owned := root.objects.filter (fun o => o.classHandle = h && o.owner = fed)
    let (after, sent) := killInClass fed h root owned
    let (final, sent') := killClasses fed after rest
    (final, sent ++ sent')

/-- `RootObject::killFederate`: classes, interactions, then the object set. -/
def killFederate (fed : FederateHandle) : RootObject × Responses :=
  let (after, sent) := killClasses fed root (root.classes.map ObjectClass.handle)
  let final : RootObject :=
    { after with
      interactions := after.interactions.map (·.killFederate fed)
      objects := (after.objects.filter (fun o => o.owner ≠ fed)).map (·.killFederate fed) }
  (final, sent)

end RootObject

end Certi
