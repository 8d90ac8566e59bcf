import Certi.LibCERTI.ObjectModel

/-!
# Attribute ownership services

`libCERTI/ObjectClass.cc:946-1522` and
`ObjectSet::cancelNegotiatedAttributeOwnershipDivestiture`. Each service first
checks every attribute of the list and then changes them one after another;
what it did to each attribute is noted, in order, for the messages it sends
last. Sending is not modelled here: it comes after every change, so that a
broadcast or a link that fails leaves the object as computed.
-/
namespace Certi

open Keyed Sweep

/-- `oca->isNamed("privilegeToDelete")` for the class attribute of a handle. -/
def ObjectClass.privileged (c : ObjectClass) (h : AttributeHandle) : Bool :=
  match c.attribute? h with
  | some oca => oca.isNamed "privilegeToDelete"
  | none => false

/-- What a service did to one attribute. -/
inductive OwnershipNote where
  | acquired (newOwner : FederateHandle) (h : AttributeHandle)
  | divested (oldOwner : FederateHandle) (h : AttributeHandle)
  | offered (h : AttributeHandle)
  | unavailable (h : AttributeHandle)
  | releaseRequested (owner : FederateHandle) (h : AttributeHandle)
  | cancelled (h : AttributeHandle)
  deriving DecidableEq, Repr

/-- The object under change and the notes so far. -/
abbrev Transfer := Object × List OwnershipNote

namespace Ownership

variable (c : ObjectClass) (fed : FederateHandle)

/-- A new owner is set; the object's own owner follows its privilegeToDelete attribute. -/
def grant (o : Object) (oa : ObjectAttribute) (newOwner : FederateHandle) : Object :=
  if c.privileged oa.handle then (o.setAttribute oa).setOwner newOwner else o.setAttribute oa

/-- The candidate that gets the attribute leaves the candidates, and divesting is reset. -/
def handOver (oa : ObjectAttribute) (newOwner : FederateHandle) : ObjectAttribute :=
  ((oa.setOwner newOwner).removeCandidate newOwner).setDivesting false

/-- Free, or offered by its owner. -/
def obtainable (oa : ObjectAttribute) : Bool := oa.owner = 0 || oa.divesting

/-- Pre-conditions first, then the attributes one after another. -/
def serve (preconditions : Except RTIException Unit)
    (step : Transfer → AttributeHandle → Except RTIException Transfer) (o : Object)
    (hs : List AttributeHandle) : Transfer × Option RTIException :=
  match preconditions with
  | .error e => ((o, []), some e)
  | .ok () => sweep step (o, []) hs

/-! ## Negotiated divestiture -/

def checkNegotiated (o : Object) (h : AttributeHandle) : Except RTIException Unit := do
  let _ ← c.getAttribute h
  let oa ← o.getAttribute h
  if oa.owner ≠ fed then throw .attributeNotOwned
  if oa.divesting then throw .attributeAlreadyBeingDivested

def negotiatedStep (t : Transfer) (h : AttributeHandle) : Except RTIException Transfer := do
  let oa ← t.1.getAttribute h
  match oa.firstCandidate with
  | some newOwner =>
    let _ ← c.getAttribute h
    return (grant c t.1 (handOver oa newOwner) newOwner, t.2 ++ [.acquired newOwner h])
  | none => return (t.1.setAttribute (oa.setDivesting true), t.2 ++ [.offered h])

def negotiatedPreconditions (o : Object) (hs : List AttributeHandle) :
    Except RTIException Unit := do
  c.checkAttributes hs
  hs.forM (checkNegotiated c fed o)

def negotiatedAttributeOwnershipDivestiture (o : Object) (hs : List AttributeHandle) :
    Transfer × Option RTIException :=
  serve (negotiatedPreconditions c fed o hs) (negotiatedStep c) o hs

/-! ## Acquisition if available -/

def checkAcquisitionIfAvailable (o : Object) (h : AttributeHandle) : Except RTIException Unit := do
  let oca ← c.getAttribute h
  let oa ← o.getAttribute h
  if !oca.isPublishing fed && !oca.isNamed "privilegeToDelete" then throw .attributeNotPublished
  if oa.owner = fed then throw .federateOwnsAttributes
  if oa.isCandidate fed then throw .attributeAlreadyBeingAcquired

/-- What a federate that gets a free or offered attribute is told, after its former owner. -/
def acquisitionNotes (oa : ObjectAttribute) (h : AttributeHandle) : List OwnershipNote :=
  (if oa.divesting then [.divested oa.owner h] else []) ++ [.acquired fed h]

/-- A federate already among the candidates is not looked for: the check refused it. -/
def acquisitionIfAvailableStep (t : Transfer) (h : AttributeHandle) :
    Except RTIException Transfer := do
  let _ ← c.getAttribute h
  let oa ← t.1.getAttribute h
  if obtainable oa then
    return (grant c t.1 ((oa.setOwner fed).setDivesting false) fed, t.2 ++ acquisitionNotes fed oa h)
  else return (t.1.setAttribute (oa.addCandidate fed), t.2 ++ [.unavailable h])

def acquisitionIfAvailablePreconditions (o : Object) (hs : List AttributeHandle) :
    Except RTIException Unit := do
  c.checkAttributes hs
  if !c.isFederatePublisher fed then throw .objectClassNotPublished
  hs.forM (checkAcquisitionIfAvailable c fed o)

def attributeOwnershipAcquisitionIfAvailable (o : Object) (hs : List AttributeHandle) :
    Transfer × Option RTIException :=
  serve (acquisitionIfAvailablePreconditions c fed o hs) (acquisitionIfAvailableStep c fed) o hs

/-! ## Unconditional divestiture -/

def checkOwned (o : Object) (h : AttributeHandle) : Except RTIException Unit := do
  let oa ← o.getAttribute h
  if oa.owner ≠ fed then throw .attributeNotOwned

/-- Without candidates the attribute becomes free; the object's own owner is not touched. -/
def unconditionalStep (t : Transfer) (h : AttributeHandle) : Except RTIException Transfer := do
  let _ ← c.getAttribute h
  let oa ← t.1.getAttribute h
  match oa.firstCandidate with
  | some newOwner =>
    return (grant c t.1 (handOver oa newOwner) newOwner, t.2 ++ [.acquired newOwner h])
  | none => return (t.1.setAttribute ((oa.setOwner 0).setDivesting false), t.2 ++ [.offered h])

def unconditionalPreconditions (o : Object) (hs : List AttributeHandle) :
    Except RTIException Unit := do
  c.checkAttributes hs
  hs.forM (checkOwned fed o)

/-- Offering what was given up needs a broadcast list for a message type it does not
know: its constructor throws after the attributes have been changed. -/
def unconditionalAttributeOwnershipDivestiture (o : Object) (hs : List AttributeHandle) :
    Transfer × Option RTIException :=
  match serve (unconditionalPreconditions c fed o hs) (unconditionalStep c) o hs with
  | (t, some e) => (t, some e)
  | (t, none) =>
    (t, if t.2.any (fun n => n matches .offered _) then some .rtiInternalError else none)

/-! ## Acquisition -/

def checkAcquisition (o : Object) (h : AttributeHandle) : Except RTIException Unit := do
  let oca ← c.getAttribute h
  let oa ← o.getAttribute h
  if oa.owner = fed then throw .federateOwnsAttributes
  if !(oca.isPublishing fed || oca.isNamed "privilegeToDelete") then throw .attributeNotPublished

def acquisitionStep (t : Transfer) (h : AttributeHandle) : Except RTIException Transfer := do
  let _ ← c.getAttribute h
  let oa ← t.1.getAttribute h
  if obtainable oa then
    return (grant c t.1 (((oa.removeCandidate fed).setOwner fed).setDivesting false) fed,
      t.2 ++ acquisitionNotes fed oa h)
  else
    return (t.1.setAttribute ((oa.removeCandidate fed).addCandidate fed),
      t.2 ++ [.releaseRequested oa.owner h])

def acquisitionPreconditions (o : Object) (hs : List AttributeHandle) :
    Except RTIException Unit := do
  hs.forM (checkAcquisition c fed o)
  if !c.isFederatePublisher fed then throw .objectClassNotPublished

def attributeOwnershipAcquisition (o : Object) (hs : List AttributeHandle) :
    Transfer × Option RTIException :=
  serve (acquisitionPreconditions c fed o hs) (acquisitionStep c fed) o hs

/-! ## Release response -/

def checkReleaseResponse (o : Object) (h : AttributeHandle) : Except RTIException Unit := do
  let oa ← o.getAttribute h
  if oa.owner ≠ fed then throw .attributeNotOwned
  if !oa.hasCandidates then throw .federateWasNotAskedToReleaseAttribute

/-- `getFirstCandidate` throws when the candidates ran out, for an attribute listed twice. -/
def releaseResponseStep (t : Transfer) (h : AttributeHandle) : Except RTIException Transfer := do
  let _ ← c.getAttribute h
  let oa ← t.1.getAttribute h
  match oa.firstCandidate with
  | some newOwner =>
    return (grant c t.1 (handOver oa newOwner) newOwner, t.2 ++ [.acquired newOwner h])
  | none => throw .rtiInternalError

def releaseResponsePreconditions (o : Object) (hs : List AttributeHandle) :
    Except RTIException Unit := do
  c.checkAttributes hs
  hs.forM (checkReleaseResponse fed o)

def attributeOwnershipReleaseResponse (o : Object) (hs : List AttributeHandle) :
    Transfer × Option RTIException :=
  serve (releaseResponsePreconditions c fed o hs) (releaseResponseStep c) o hs

/-! ## Cancellations -/

def checkCancelAcquisition (o : Object) (h : AttributeHandle) : Except RTIException Unit := do
  let oa ← o.getAttribute h
  if oa.owner = fed then throw .attributeAlreadyOwned
  if !oa.isCandidate fed then throw .attributeAcquisitionWasNotRequested

def cancelAcquisitionStep (t : Transfer) (h : AttributeHandle) : Except RTIException Transfer := do
  let oa ← t.1.getAttribute h
  return (t.1.setAttribute (oa.removeCandidate fed), t.2 ++ [.cancelled h])

def cancelAcquisitionPreconditions (o : Object) (hs : List AttributeHandle) :
    Except RTIException Unit := do
  c.checkAttributes hs
  hs.forM (checkCancelAcquisition fed o)

def cancelAttributeOwnershipAcquisition (o : Object) (hs : List AttributeHandle) :
    Transfer × Option RTIException :=
  serve (cancelAcquisitionPreconditions c fed o hs) (cancelAcquisitionStep fed) o hs

def checkCancelNegotiated (o : Object) (h : AttributeHandle) : Except RTIException Unit := do
  let oa ← o.getAttribute h
  if oa.owner ≠ fed then throw .attributeNotOwned
  if !oa.divesting then throw .attributeDivestitureWasNotRequested

def cancelNegotiatedStep (t : Transfer) (h : AttributeHandle) : Except RTIException Transfer := do
  let oa ← t.1.getAttribute h
  return (t.1.setAttribute (oa.setDivesting false), t.2)

/-- `ObjectSet::cancelNegotiatedAttributeOwnershipDivestiture`, which reads no class. -/
def cancelNegotiatedAttributeOwnershipDivestiture (o : Object) (hs : List AttributeHandle) :
    Transfer × Option RTIException :=
  serve (hs.forM (checkCancelNegotiated fed o)) cancelNegotiatedStep o hs

end Ownership

/-! ## Registration -/

/-- The attributes a new instance gets: the federate owns those it publishes, and
privilegeToDelete whether published or not. -/
def ObjectClass.instanceAttributes (c : ObjectClass) (fed : FederateHandle) :
    List ObjectAttribute :=
  c.attributes.map fun oca =>
    { handle := oca.handle
      owner := if oca.isNamed "privilegeToDelete" then fed
        else if oca.isPublishing fed then fed else 0
      divesting := false
      candidates := ∅
      region := none }

end Certi
