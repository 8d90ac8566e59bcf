import Certi.LibCERTI.RootObject
import Mathlib.Data.Finset.Sort

/-!
# Broadcasts of attribute messages

`ObjectClass::broadcastClassMessage` and `preparePendingRAVMessage` for the two
messages that carry attributes: Reflect_Attribute_Values, which goes to the
subscribers, and Request_Attribute_Ownership_Assumption, which goes to the
publishers. A broadcast list owns one message and points to it with the pointer
of its type; the pointers of the other types are null.
-/
namespace Certi

open Keyed

/-- How an operation ends before its end. -/
inductive Stop where
  | thrown (e : RTIException)
  | nullDereference
  | outOfBounds
  deriving DecidableEq, Repr

/-- An operation that throws what the other one throws. -/
def Stop.lift {α : Type} : Except RTIException α → Except Stop α
  | .ok a => .ok a
  | .error e => .error (.thrown e)

structure ReflectAttributeValues (V : Type) where
  federate : FederateHandle
  object : ObjectHandle
  date : Option Date
  label : String
  attributes : List AttributeHandle
  values : List V
  deriving DecidableEq

structure RequestOwnershipAssumption where
  federate : FederateHandle
  object : ObjectHandle
  label : String
  attributes : List AttributeHandle
  deriving DecidableEq

/-- The message of a broadcast list, by the pointer that is not null. -/
inductive AttributeMessage (V : Type) where
  | rav (message : ReflectAttributeValues V)
  | raoa (message : RequestOwnershipAssumption)
  deriving DecidableEq

namespace AttributeMessage

variable {V : Type}

def federate : AttributeMessage V → FederateHandle
  | rav message => message.federate
  | raoa message => message.federate

def attributes : AttributeMessage V → List AttributeHandle
  | rav message => message.attributes
  | raoa message => message.attributes

end AttributeMessage

structure ObjectClassBroadcastList (V : Type) where
  message : AttributeMessage V
  maxHandle : AttributeHandle
  lines : BroadcastLines

namespace ObjectClassBroadcastList

variable {V : Type}

/-- The constructor: the sender counts as told. -/
def create (message : AttributeMessage V) (maxHandle : AttributeHandle) :
    ObjectClassBroadcastList V := ⟨message, maxHandle, BroadcastLines.start message.federate⟩

def getMsgRAV (l : ObjectClassBroadcastList V) : Except Stop (ReflectAttributeValues V) :=
  match l.message with
  | .rav message => .ok message
  | .raoa _ => .error .nullDereference

def getMsgRAOA (l : ObjectClassBroadcastList V) : Except Stop RequestOwnershipAssumption :=
  match l.message with
  | .rav _ => .error .nullDereference
  | .raoa message => .ok message

/-- `removeAttributes` for every attribute the class does not have; the values stay. -/
def trimRAV (c : ObjectClass) (l : ObjectClassBroadcastList V) :
    Except Stop (ObjectClassBroadcastList V) := do
  let message ← l.getMsgRAV
  return { l with
    message := .rav { message with attributes := message.attributes.filter c.hasAttribute } }

/-- The loop over the first `size` attributes that are kept. -/
def trimWithin (c : ObjectClass) : Nat → List AttributeHandle → List AttributeHandle
  | _, [] => []
  | 0, hs => hs
  | size + 1, h :: rest =>
    if c.hasAttribute h then h :: trimWithin c size rest else trimWithin c (size + 1) rest

/-- The same loop for the assumption, whose bound is the size of the RAV message. -/
def trimRAOA (c : ObjectClass) (l : ObjectClassBroadcastList V) :
    Except Stop (ObjectClassBroadcastList V) := do
  let bound ← l.getMsgRAV
  let message ← l.getMsgRAOA
  return { l with
    message := .raoa { message with
      attributes := trimWithin c bound.attributes.length message.attributes } }

/-- `Subscribable::addFederatesIfOverlap`. -/
def addFederatesIfOverlap (region : RegionHandle → RTIRegion) (l : ObjectClassBroadcastList V)
    (a : AttributeHandle) (update : Option RegionHandle) (subscribers : List Subscriber) :
    Except RTIException (ObjectClassBroadcastList V) :=
  subscribers.foldlM (fun (l : ObjectClassBroadcastList V) (s : Subscriber) => do
    if ← s.matches region update then
      return { l with lines := ← l.lines.addFederate l.maxHandle s.handle a }
    else return l) l

/-- The audience of a RAV message: per attribute the subscribers whose region meets that of the
instance's attribute. -/
def addSubscribers (region : RegionHandle → RTIRegion) (c : ObjectClass) (source : Object)
    (l : ObjectClassBroadcastList V) : Except RTIException (ObjectClassBroadcastList V) :=
  l.message.attributes.foldlM (fun l h =>
    match c.attribute? h with
    | none => return l
    | some oca => do
      let oa ← source.getAttribute h
      addFederatesIfOverlap region l oca.handle oa.region oca.subscribers) l

/-- The audience of an assumption: the publishers of every attribute of the class. -/
def addPublishers (c : ObjectClass) (l : ObjectClassBroadcastList V) :
    Except RTIException (ObjectClassBroadcastList V) :=
  c.attributes.foldlM (fun l oca =>
    (oca.publishers.sort (· ≤ ·)).foldlM (fun l fed => do
      return { l with lines := ← l.lines.addFederate l.maxHandle fed oca.handle }) l) l

/-- `createResponseMessage` and `createResponseMessageWithValues` with a line: the attributes
that wait for the federate, with the values of their places. -/
def reduced (line : ObjectBroadcastLine) : AttributeMessage V → AttributeMessage V
  | .rav message =>
    let waiting := (message.attributes.zip message.values).filter
      (fun p => line.stateFor p.1 = .waiting)
    .rav { message with
      attributes := waiting.map Prod.fst
      values := waiting.map Prod.snd }
  | .raoa message =>
    .raoa { message with
      attributes := message.attributes.filter (fun h => line.stateFor h = .waiting) }

/-- What one federate is sent. -/
def messageFor (l : ObjectClassBroadcastList V) (line : ObjectBroadcastLine) :
    AttributeMessage V :=
  if line.isWaitingAll l.message.attributes then l.message else reduced line l.message

/-- `preparePendingRAVMessage`: a federate without references is skipped, but counts as told. -/
def preparePending (server : SecurityServer) (l : ObjectClassBroadcastList V) :
    ObjectClassBroadcastList V × List (FederateHandle × AttributeMessage V) :=
  ({ l with lines := l.lines.map fun line =>
      if line.isWaitingAny l.maxHandle then line.markAllSent l.maxHandle else line },
    (l.lines.filter fun line =>
      line.isWaitingAny l.maxHandle && server.hasReferences line.federate).map fun line =>
        (line.federate, l.messageFor line))

end ObjectClassBroadcastList

namespace ObjectClass

variable {V : Type}

/-- `broadcastClassMessage`; the source is null where an assumption is broadcast. -/
def broadcastClassMessage (server : SecurityServer) (region : RegionHandle → RTIRegion)
    (c : ObjectClass) (l : ObjectClassBroadcastList V) (source : Option Object) :
    Except Stop (ObjectClassBroadcastList V × List (FederateHandle × AttributeMessage V)) :=
  match l.message with
  | .rav _ => do
    let trimmed ← l.trimRAV c
    match source with
    | none =>
      if trimmed.message.attributes = [] then return trimmed.preparePending server
      else throw .nullDereference
    | some o =>
      let listed ← Stop.lift (trimmed.addSubscribers region c o)
      return listed.preparePending server
  | .raoa _ => do
    let trimmed ← l.trimRAOA c
    let listed ← Stop.lift (trimmed.addPublishers c)
    return listed.preparePending server

end ObjectClass

namespace RootObject

variable {V : Type}

/-- The `while` over the superclasses; a list that was never made is a null pointer. The tree is
no deeper than the number of its classes. -/
def broadcastToSuperclasses (root : RootObject) (region : RegionHandle → RTIRegion)
    (source : Option Object) : Nat → ObjectClassHandle → Option (ObjectClassBroadcastList V) →
    Except Stop (List (FederateHandle × AttributeMessage V))
  | 0, _, _ => return []
  | fuel + 1, current, list =>
    if current = 0 then return []
    else match root.class? current with
      | none => throw (.thrown .objectClassNotDefined)
      | some c =>
        match list with
        | none => throw .nullDereference
        | some l => do
          let (l', sent) ← c.broadcastClassMessage root.server region l source
          return sent ++ (← root.broadcastToSuperclasses region source fuel c.superClass l')

end RootObject

end Certi
