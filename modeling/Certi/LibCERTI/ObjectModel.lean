import Mathlib.Data.Finset.Max
import Certi.Lib.Keyed
import Certi.Lib.Sweep
import Certi.Lib.RemoveIf
import Certi.LibCERTI.Types

/-!
# Classes, attributes and object instances

`libCERTI/Subscribable.cc`, `ObjectClassAttribute.cc`, `ObjectClass.cc`,
`ObjectAttribute.cc`, `Object.cc` and `SecurityServer.cc`. Maps keyed by handle
are tables of records that carry their handle; a pointer to a region is the
region's handle, null being `none`. Names of classes, routing spaces, transport
and order types are left out: nothing modelled reads them.
-/
namespace Certi

open Keyed Sweep

/-! ## Access control -/

/-- The MOM's handle, the federates the socket server has references for (kept when their
link closes), and the level of the principal behind each secure link. -/
structure SecurityServer where
  momHandle : Option FederateHandle
  references : List FederateHandle
  principals : List (FederateHandle × SecurityLevelID)
  deriving DecidableEq, Repr

namespace SecurityServer

def dominates (a b : SecurityLevelID) : Bool := a = b || b = PublicLevelID

/-- Without an open secure socket a federate is at the public level. -/
def federateLevel (server : SecurityServer) (fed : FederateHandle) : SecurityLevelID :=
  match lookup Prod.fst fed server.principals with
  | some principal => principal.2
  | none => PublicLevelID

def canFederateAccessData (server : SecurityServer) (fed : FederateHandle)
    (dataLevel : SecurityLevelID) : Bool :=
  server.momHandle = some fed || dominates (server.federateLevel fed) dataLevel

/-- `getSocketLink` finds a tuple; for any other federate it throws. -/
def hasReferences (server : SecurityServer) (fed : FederateHandle) : Bool :=
  server.momHandle = some fed || server.references.contains fed

/-- `SocketServer::close`: the link goes, the references stay. -/
def closeLink (server : SecurityServer) (fed : FederateHandle) : SecurityServer :=
  { server with principals := drop Prod.fst fed server.principals }

def setReferences (server : SecurityServer) (fed : FederateHandle) : SecurityServer :=
  { server with references := fed :: server.references }

theorem hasReferences_setReferences {server : SecurityServer} {fed g : FederateHandle} :
    (server.setReferences fed).hasReferences g = true ↔ server.hasReferences g = true ∨ g = fed := by
  simp only [hasReferences, setReferences, List.contains_cons, Bool.or_eq_true, beq_iff_eq]
  tauto

end SecurityServer

/-! ## Subscribers -/

structure Subscriber where
  handle : FederateHandle
  region : Option RegionHandle
  deriving DecidableEq, Repr

namespace Subscribable

def isSubscribedWith (subscribers : List Subscriber) (fed : FederateHandle)
    (region : Option RegionHandle) : Bool := ⟨fed, region⟩ ∈ subscribers

def isSubscribed (subscribers : List Subscriber) (fed : FederateHandle) : Bool :=
  subscribers.any (fun s => s.handle = fed)

/-- `unsubscribe(fed)`, for all regions: the result of `std::remove_if` is not erased. -/
def unsubscribe (subscribers : List Subscriber) (fed : FederateHandle) : List Subscriber :=
  RemoveIf.removeIf (fun s => s.handle = fed) subscribers

/-- `unsubscribe(fed, region)` is `std::list::remove`. -/
def unsubscribeWith (subscribers : List Subscriber) (fed : FederateHandle)
    (region : Option RegionHandle) : List Subscriber :=
  subscribers.filter (fun s => s ≠ ⟨fed, region⟩)

theorem mem_unsubscribe {subscribers : List Subscriber} {fed : FederateHandle} {s : Subscriber}
    (member : s ∈ unsubscribe subscribers fed) : s ∈ subscribers :=
  RemoveIf.mem_removeIf member

theorem mem_unsubscribeWith {subscribers : List Subscriber} {fed : FederateHandle}
    {region : Option RegionHandle} {s : Subscriber} :
    s ∈ unsubscribeWith subscribers fed region ↔ s ∈ subscribers ∧ s ≠ ⟨fed, region⟩ := by
  simp [unsubscribeWith]

theorem isSubscribed_iff {subscribers : List Subscriber} {fed : FederateHandle} :
    isSubscribed subscribers fed = true ↔ ∃ s ∈ subscribers, s.handle = fed := by
  simp [isSubscribed]

end Subscribable

/-! ## Class attributes -/

structure ObjectClassAttribute where
  handle : AttributeHandle
  name : String
  level : SecurityLevelID
  publishers : Finset FederateHandle
  subscribers : List Subscriber

namespace ObjectClassAttribute

def isNamed (a : ObjectClassAttribute) (name : String) : Bool := a.name = name

def isPublishing (a : ObjectClassAttribute) (fed : FederateHandle) : Bool := fed ∈ a.publishers

def isSubscribed (a : ObjectClassAttribute) (fed : FederateHandle) : Bool :=
  Subscribable.isSubscribed a.subscribers fed

/-- A federate already publishing only raises a debug trace. -/
def publish (server : SecurityServer) (a : ObjectClassAttribute) (fed : FederateHandle) :
    Except RTIException ObjectClassAttribute :=
  if a.isPublishing fed then .ok a
  else if server.canFederateAccessData fed a.level then
    .ok { a with publishers := insert fed a.publishers }
  else .error .securityError

def unpublish (a : ObjectClassAttribute) (fed : FederateHandle) : ObjectClassAttribute :=
  { a with publishers := a.publishers.erase fed }

/-- A pair already subscribed only raises a debug trace. -/
def subscribe (server : SecurityServer) (a : ObjectClassAttribute) (fed : FederateHandle)
    (region : Option RegionHandle) : Except RTIException ObjectClassAttribute :=
  if Subscribable.isSubscribedWith a.subscribers fed region then .ok a
  else if server.canFederateAccessData fed a.level then
    .ok { a with subscribers := a.subscribers ++ [⟨fed, region⟩] }
  else .error .securityError

def unsubscribe (a : ObjectClassAttribute) (fed : FederateHandle) : ObjectClassAttribute :=
  { a with subscribers := Subscribable.unsubscribe a.subscribers fed }

def unsubscribeWith (a : ObjectClassAttribute) (fed : FederateHandle)
    (region : Option RegionHandle) : ObjectClassAttribute :=
  { a with subscribers := Subscribable.unsubscribeWith a.subscribers fed region }

@[simp] theorem unpublish_handle (a : ObjectClassAttribute) (fed : FederateHandle) :
    (a.unpublish fed).handle = a.handle := rfl

@[simp] theorem unsubscribe_handle (a : ObjectClassAttribute) (fed : FederateHandle) :
    (a.unsubscribe fed).handle = a.handle := rfl

@[simp] theorem unsubscribeWith_handle (a : ObjectClassAttribute) (fed : FederateHandle)
    (region : Option RegionHandle) : (a.unsubscribeWith fed region).handle = a.handle := rfl

end ObjectClassAttribute

/-! ## Classes -/

structure ObjectClass where
  handle : ObjectClassHandle
  superClass : ObjectClassHandle
  securityLevelId : SecurityLevelID
  attributes : List ObjectClassAttribute
  maxSubscriberHandle : FederateHandle

namespace ObjectClass

def attribute? (c : ObjectClass) (h : AttributeHandle) : Option ObjectClassAttribute :=
  lookup ObjectClassAttribute.handle h c.attributes

def getAttribute (c : ObjectClass) (h : AttributeHandle) :
    Except RTIException ObjectClassAttribute :=
  match c.attribute? h with
  | some a => .ok a
  | none => .error .attributeNotDefined

def hasAttribute (c : ObjectClass) (h : AttributeHandle) : Bool := (c.attribute? h).isSome

/-- Does every handle of the list name an attribute of the class? -/
def checkAttributes (c : ObjectClass) (hs : List AttributeHandle) : Except RTIException Unit :=
  if hs.all c.hasAttribute then .ok () else .error .attributeNotDefined

def isFederatePublisher (c : ObjectClass) (fed : FederateHandle) : Bool :=
  c.attributes.any (fun a => a.isPublishing fed)

def isSubscribed (c : ObjectClass) (fed : FederateHandle) : Bool :=
  c.attributes.any (fun a => a.isSubscribed fed)

def setAttribute (c : ObjectClass) (a : ObjectClassAttribute) : ObjectClass :=
  { c with attributes := replace ObjectClassAttribute.handle a c.attributes }

def mapAttributes (c : ObjectClass) (f : ObjectClassAttribute → ObjectClassAttribute) :
    ObjectClass :=
  { c with attributes := c.attributes.map f }

/-- The attributes one after another; a refused attribute leaves the ones before it changed. -/
def publishStep (server : SecurityServer) (fed : FederateHandle) (pubOrUnpub : Bool)
    (c : ObjectClass) (h : AttributeHandle) : Except RTIException ObjectClass := do
  let a ← c.getAttribute h
  if pubOrUnpub then return c.setAttribute (← a.publish server fed)
  else return c.setAttribute (a.unpublish fed)

/-- `ObjectClass::publish`: all previous publications of the federate are reset first. -/
def publish (server : SecurityServer) (c : ObjectClass) (fed : FederateHandle)
    (hs : List AttributeHandle) (pubOrUnpub : Bool) : ObjectClass × Option RTIException :=
  match c.checkAttributes hs with
  | .error e => (c, some e)
  | .ok () =>
    if server.canFederateAccessData fed c.securityLevelId then
      sweep (publishStep server fed pubOrUnpub) (c.mapAttributes (·.unpublish fed)) hs
    else (c, some .securityError)

/-- `unsubscribe(fed, region)` of every attribute. -/
def unsubscribeWith (c : ObjectClass) (fed : FederateHandle) (region : Option RegionHandle) :
    ObjectClass :=
  c.mapAttributes (·.unsubscribeWith fed region)

/-- `unsubscribe(fed)` of every attribute the federate is subscribed to. -/
def unsubscribe (c : ObjectClass) (fed : FederateHandle) : ObjectClass :=
  c.mapAttributes fun a => if a.isSubscribed fed then a.unsubscribe fed else a

def subscribeStep (server : SecurityServer) (fed : FederateHandle) (region : Option RegionHandle)
    (c : ObjectClass) (h : AttributeHandle) : Except RTIException ObjectClass := do
  let a ← c.getAttribute h
  return c.setAttribute (← a.subscribe server fed region)

/-- `ObjectClass::subscribe`. An empty list only unsubscribes; the flag says whether
existing objects must be discovered. -/
def subscribe (server : SecurityServer) (c : ObjectClass) (fed : FederateHandle)
    (hs : List AttributeHandle) (region : Option RegionHandle) :
    ObjectClass × Except RTIException Bool :=
  if server.canFederateAccessData fed c.securityLevelId then
    match c.checkAttributes hs with
    | .error e => (c, .error e)
    | .ok () =>
      let c' := if hs.isEmpty then c
        else { c with maxSubscriberHandle := max fed c.maxSubscriberHandle }
      match sweep (subscribeStep server fed region) (c'.unsubscribeWith fed region) hs with
      | (c'', some e) => (c'', .error e)
      | (c'', none) => (c'', .ok (!hs.isEmpty && !c.isSubscribed fed))
  else (c, .error .securityError)

end ObjectClass

/-! ## Object instances -/

structure ObjectAttribute where
  handle : AttributeHandle
  owner : FederateHandle
  divesting : Bool
  candidates : Finset FederateHandle
  region : Option RegionHandle

namespace ObjectAttribute

def isCandidate (oa : ObjectAttribute) (fed : FederateHandle) : Bool := fed ∈ oa.candidates

def hasCandidates (oa : ObjectAttribute) : Bool := oa.candidates.Nonempty

/-- The smallest handle: the candidates are a `std::set`. -/
def firstCandidate (oa : ObjectAttribute) : Option FederateHandle :=
  if nonempty : oa.candidates.Nonempty then some (oa.candidates.min' nonempty) else none

def setOwner (oa : ObjectAttribute) (fed : FederateHandle) : ObjectAttribute :=
  { oa with owner := fed }

def setDivesting (oa : ObjectAttribute) (divesting : Bool) : ObjectAttribute :=
  { oa with divesting := divesting }

def addCandidate (oa : ObjectAttribute) (fed : FederateHandle) : ObjectAttribute :=
  { oa with candidates := insert fed oa.candidates }

def removeCandidate (oa : ObjectAttribute) (fed : FederateHandle) : ObjectAttribute :=
  { oa with candidates := oa.candidates.erase fed }

theorem firstCandidate_mem {oa : ObjectAttribute} {fed : FederateHandle}
    (first : oa.firstCandidate = some fed) : fed ∈ oa.candidates := by
  unfold firstCandidate at first
  split at first
  · cases first
    exact Finset.min'_mem _ _
  · cases first

theorem firstCandidate_eq_none {oa : ObjectAttribute} :
    oa.firstCandidate = none ↔ oa.candidates = ∅ := by
  unfold firstCandidate
  split
  · rename_i nonempty
    simp [nonempty.ne_empty]
  · rename_i empty
    simp [Finset.not_nonempty_iff_eq_empty.mp empty]

end ObjectAttribute

structure Object where
  handle : ObjectHandle
  name : String
  classHandle : ObjectClassHandle
  owner : FederateHandle
  attributes : List ObjectAttribute

namespace Object

def attribute? (o : Object) (h : AttributeHandle) : Option ObjectAttribute :=
  lookup ObjectAttribute.handle h o.attributes

def getAttribute (o : Object) (h : AttributeHandle) : Except RTIException ObjectAttribute :=
  match o.attribute? h with
  | some oa => .ok oa
  | none => .error .attributeNotDefined

def setAttribute (o : Object) (oa : ObjectAttribute) : Object :=
  { o with attributes := replace ObjectAttribute.handle oa o.attributes }

def setOwner (o : Object) (fed : FederateHandle) : Object := { o with owner := fed }

def isAttributeOwnedByFederate (o : Object) (fed : FederateHandle) (h : AttributeHandle) :
    Except RTIException Bool := do
  return (← o.getAttribute h).owner = fed

/-- `Object::unassociate`: attributes associated with another region keep it. -/
def unassociate (o : Object) (region : RegionHandle) : Object :=
  { o with attributes := o.attributes.map fun oa =>
      if oa.region = some region then { oa with region := none } else oa }

/-- `Object::killFederate` clears the owner only. -/
def killFederate (o : Object) (fed : FederateHandle) : Object :=
  { o with attributes := o.attributes.map fun oa =>
      if oa.owner = fed then oa.setOwner 0 else oa }

theorem getAttribute_ok {o : Object} {h : AttributeHandle} {oa : ObjectAttribute} :
    o.getAttribute h = .ok oa ↔ o.attribute? h = some oa := by
  unfold getAttribute
  split <;> rename_i located <;> simp [located]

theorem attribute?_mem {o : Object} {h : AttributeHandle} {oa : ObjectAttribute}
    (found : o.attribute? h = some oa) : oa ∈ o.attributes := lookup_mem found

theorem attribute?_handle {o : Object} {h : AttributeHandle} {oa : ObjectAttribute}
    (found : o.attribute? h = some oa) : oa.handle = h := lookup_key found

theorem attribute?_setAttribute {o : Object} {h : AttributeHandle} {oa b : ObjectAttribute}
    (found : (o.setAttribute oa).attribute? h = some b) :
    (h = oa.handle ∧ b = oa) ∨ (h ≠ oa.handle ∧ o.attribute? h = some b) :=
  lookup_replace found

end Object

end Certi
