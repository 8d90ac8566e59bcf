import Certi.LibCERTI.FomModules
import Certi.LibHLA.BufferRules
import Certi.Lib.Memo
import Certi.Lib.Runs

/-!
# Interactions the MOM receives

`RTIG/Mom.cc` and the dispatch of `RTIG/Mom_interactions.cc`: which FOMs have a
MOM, how the arguments of an interaction are found among its parameters and
decoded, and which handler they go to. What the handlers do is not modelled
here, but for the parameter handles they look up for their reports.
-/
namespace Certi.MOM

open Bytes Keyed Modules

inductive MomAction where
  | Publish
  | Subsribe
  | Nothing
  deriving DecidableEq, Repr

/-- A class with what the MOM does with it and the members it must have. -/
abbrev Required := String × MomAction × List String

def the_required_object_classes : List Required :=
  [("HLAobjectRoot", .Nothing, []),
   ("HLAmanager", .Nothing, []),
   ("HLAmanager.HLAfederate", .Publish,
      ["HLAfederateHandle", "HLAfederateName", "HLAfederateType", "HLAfederateHost",
       "HLARTIversion", "HLAFOMmoduleDesignatorList", "HLAtimeConstrained", "HLAtimeRegulating",
       "HLAasynchronousDelivery", "HLAfederateState", "HLAtimeManagerState", "HLAlogicalTime",
       "HLAlookahead", "HLAGALT", "HLALITS", "HLAROlength", "HLATSOlength",
       "HLAreflectionsReceived", "HLAupdatesSent", "HLAinteractionsReceived",
       "HLAinteractionsSent", "HLAobjectInstancesThatCanBeDeleted", "HLAobjectInstancesUpdated",
       "HLAobjectInstancesReflected", "HLAobjectInstancesDeleted", "HLAobjectInstancesRemoved",
       "HLAobjectInstancesRegistered", "HLAobjectInstancesDiscovered", "HLAtimeGrantedTime",
       "HLAtimeAdvancingTime", "HLAconveyRegionDesignatorSets", "HLAconveyProducingFederate"]),
   ("HLAmanager.HLAfederation", .Publish,
      ["HLAfederationName", "HLAfederatesInFederation", "HLARTIversion", "HLAMIMDesignator",
       "HLAFOMmoduleDesignatorList", "HLAcurrentFDD", "HLAtimeImplementationName",
       "HLAlastSaveName", "HLAlastSaveTime", "HLAnextSaveName", "HLAnextSaveTime",
       "HLAautoProvide"])]

def the_required_interactions : List Required :=
  [("HLAinteractionRoot", .Nothing, []),
   ("HLAmanager", .Nothing, []),
   ("HLAmanager.HLAfederate", .Nothing, ["HLAfederate"]),
   ("HLAmanager.HLAfederate.HLAadjust", .Nothing, []),
   ("HLAmanager.HLAfederate.HLAadjust.HLAsetTiming", .Subsribe, ["HLAreportPeriod"]),
   ("HLAmanager.HLAfederate.HLAadjust.HLAmodifyAttributeState", .Subsribe,
      ["HLAobjectInstance", "HLAattribute", "HLAattributeState"]),
   ("HLAmanager.HLAfederate.HLAadjust.HLAsetSwitches", .Subsribe,
      ["HLAconveyRegionDesignatorSets", "HLAconveyProducingFederate", "HLAserviceReporting",
       "HLAexceptionReporting"]),
   ("HLAmanager.HLAfederate.HLArequest", .Nothing, []),
   ("HLAmanager.HLAfederate.HLArequest.HLArequestPublications", .Subsribe, []),
   ("HLAmanager.HLAfederate.HLArequest.HLArequestSubscriptions", .Subsribe, []),
   ("HLAmanager.HLAfederate.HLArequest.HLArequestObjectInstancesThatCanBeDeleted", .Subsribe,
      []),
   ("HLAmanager.HLAfederate.HLArequest.HLArequestObjectInstancesUpdated", .Subsribe, []),
   ("HLAmanager.HLAfederate.HLArequest.HLArequestObjectInstancesReflected", .Subsribe, []),
   ("HLAmanager.HLAfederate.HLArequest.HLArequestUpdatesSent", .Subsribe, []),
   ("HLAmanager.HLAfederate.HLArequest.HLArequestInteractionsSent", .Subsribe, []),
   ("HLAmanager.HLAfederate.HLArequest.HLArequestReflectionsReceived", .Subsribe, []),
   ("HLAmanager.HLAfederate.HLArequest.HLArequestInteractionsReceived", .Subsribe, []),
   ("HLAmanager.HLAfederate.HLArequest.HLArequestObjectInstanceInformation", .Subsribe,
      ["HLAobjectInstance"]),
   ("HLAmanager.HLAfederate.HLArequest.HLArequestFOMmoduleData", .Subsribe,
      ["HLAFOMmoduleIndicator"]),
   ("HLAmanager.HLAfederate.HLAreport", .Nothing, []),
   ("HLAmanager.HLAfederate.HLAreport.HLAreportObjectClassPublication", .Publish,
      ["HLAnumberOfClasses", "HLAobjectClass", "HLAattributeList"]),
   ("HLAmanager.HLAfederate.HLAreport.HLAreportObjectClassSubscription", .Publish,
      ["HLAnumberOfClasses", "HLAobjectClass", "HLAactive", "HLAmaxUpdateRate",
       "HLAattributeList"]),
   ("HLAmanager.HLAfederate.HLAreport.HLAreportInteractionPublication", .Publish,
      ["HLAinteractionClassList"]),
   ("HLAmanager.HLAfederate.HLAreport.HLAreportInteractionSubscription", .Publish,
      ["HLAinteractionClassList"]),
   ("HLAmanager.HLAfederate.HLAreport.HLAreportObjectInstancesThatCanBeDeleted", .Publish,
      ["HLAobjectInstanceCounts"]),
   ("HLAmanager.HLAfederate.HLAreport.HLAreportObjectInstancesUpdated", .Publish,
      ["HLAobjectInstanceCounts"]),
   ("HLAmanager.HLAfederate.HLAreport.HLAreportObjectInstancesReflected", .Publish,
      ["HLAobjectInstanceCounts"]),
   ("HLAmanager.HLAfederate.HLAreport.HLAreportUpdatesSent", .Publish,
      ["HLAtransportation", "HLAupdateCounts"]),
   ("HLAmanager.HLAfederate.HLAreport.HLAreportReflectionsReceived", .Publish,
      ["HLAtransportation", "HLAreflectCounts"]),
   ("HLAmanager.HLAfederate.HLAreport.HLAreportInteractionsSent", .Publish,
      ["HLAtransportation", "HLAinteractionCounts"]),
   ("HLAmanager.HLAfederate.HLAreport.HLAreportInteractionsReceived", .Publish,
      ["HLAtransportation", "HLAinteractionCounts"]),
   ("HLAmanager.HLAfederate.HLAreport.HLAreportObjectInstanceInformation", .Publish,
      ["HLAobjectInstance", "HLAownedInstanceAttributeList", "HLAregisteredClass",
       "HLAknownClass"]),
   ("HLAmanager.HLAfederate.HLAreport.HLAreportException", .Publish,
      ["HLAservice", "HLAexception"]),
   ("HLAmanager.HLAfederate.HLAreport.HLAreportServiceInvocation", .Publish,
      ["HLAservice", "HLAsuccessIndicator", "HLAsuppliedArguments", "HLAreturnedArguments",
       "HLAexception", "HLAserialNumber"]),
   ("HLAmanager.HLAfederate.HLAreport.HLAreportMOMexception", .Publish,
      ["HLAservice", "HLAexception", "HLAparameterError"]),
   ("HLAmanager.HLAfederate.HLAreport.HLAreportFederateLost", .Publish,
      ["HLAfederateName", "HLAtimestamp", "HLAfaultDescription"]),
   ("HLAmanager.HLAfederate.HLAreport.HLAreportFOMmoduleData", .Publish,
      ["HLAFOMmoduleIndicator", "HLAFOMmoduleData"]),
   ("HLAmanager.HLAfederate.HLAservice", .Nothing, []),
   ("HLAmanager.HLAfederate.HLAservice.HLAresignFederationExecution", .Subsribe,
      ["HLAresignAction"]),
   ("HLAmanager.HLAfederate.HLAservice.HLAsynchronizationPointAchieved", .Subsribe,
      ["HLAlabel"]),
   ("HLAmanager.HLAfederate.HLAservice.HLAfederateSaveBegun", .Subsribe, []),
   ("HLAmanager.HLAfederate.HLAservice.HLAfederateSaveComplete", .Subsribe,
      ["HLAsuccessIndicator"]),
   ("HLAmanager.HLAfederate.HLAservice.HLAfederateRestoreComplete", .Subsribe,
      ["HLAsuccessIndicator"]),
   ("HLAmanager.HLAfederate.HLAservice.HLApublishObjectClassAttributes", .Subsribe,
      ["HLAobjectClass", "HLAattributeList"]),
   ("HLAmanager.HLAfederate.HLAservice.HLAunpublishObjectClassAttributes", .Subsribe,
      ["HLAobjectClass", "HLAattributeList"]),
   ("HLAmanager.HLAfederate.HLAservice.HLApublishInteractionClass", .Subsribe,
      ["HLAinteractionClass"]),
   ("HLAmanager.HLAfederate.HLAservice.HLAunpublishInteractionClass", .Subsribe,
      ["HLAinteractionClass"]),
   ("HLAmanager.HLAfederate.HLAservice.HLAsubscribeObjectClassAttributes", .Subsribe,
      ["HLAobjectClass", "HLAattributeList", "HLAactive"]),
   ("HLAmanager.HLAfederate.HLAservice.HLAunsubscribeObjectClassAttributes", .Subsribe,
      ["HLAobjectClass", "HLAattributeList"]),
   ("HLAmanager.HLAfederate.HLAservice.HLAsubscribeInteractionClass", .Subsribe,
      ["HLAinteractionClass", "HLAactive"]),
   ("HLAmanager.HLAfederate.HLAservice.HLAunsubscribeInteractionClass", .Subsribe,
      ["HLAinteractionClass"]),
   ("HLAmanager.HLAfederate.HLAservice.HLAdeleteObjectInstance", .Subsribe,
      ["HLAobjectInstance", "HLAtag", "HLAtimeStamp"]),
   ("HLAmanager.HLAfederate.HLAservice.HLAlocalDeleteObjectInstance", .Subsribe,
      ["HLAobjectInstance"]),
   ("HLAmanager.HLAfederate.HLAservice.HLArequestAttributeTransportationTypeChange", .Subsribe,
      ["HLAobjectInstance", "HLAattributeList", "HLAtransportation"]),
   ("HLAmanager.HLAfederate.HLAservice.HLArequestInteractionTransportationTypeChange", .Subsribe,
      ["HLAinteractionClass", "HLAtransportation"]),
   ("HLAmanager.HLAfederate.HLAservice.HLAunconditionalAttributeOwnershipDivestiture", .Subsribe,
      ["HLAobjectInstance", "HLAattributeList"]),
   ("HLAmanager.HLAfederate.HLAservice.HLAenableTimeRegulation", .Subsribe, ["HLAlookahead"]),
   ("HLAmanager.HLAfederate.HLAservice.HLAdisableTimeRegulation", .Subsribe, []),
   ("HLAmanager.HLAfederate.HLAservice.HLAenableTimeConstrained", .Subsribe, []),
   ("HLAmanager.HLAfederate.HLAservice.HLAdisableTimeConstrained", .Subsribe, []),
   ("HLAmanager.HLAfederate.HLAservice.HLAtimeAdvanceRequest", .Subsribe, ["HLAtimeStamp"]),
   ("HLAmanager.HLAfederate.HLAservice.HLAtimeAdvanceRequestAvailable", .Subsribe,
      ["HLAtimeStamp"]),
   ("HLAmanager.HLAfederate.HLAservice.HLAnextMessageRequest", .Subsribe, ["HLAtimeStamp"]),
   ("HLAmanager.HLAfederate.HLAservice.HLAnextMessageRequestAvailable", .Subsribe,
      ["HLAtimeStamp"]),
   ("HLAmanager.HLAfederate.HLAservice.HLAflushQueueRequest", .Subsribe, ["HLAtimeStamp"]),
   ("HLAmanager.HLAfederate.HLAservice.HLAenableAsynchronousDelivery", .Subsribe, []),
   ("HLAmanager.HLAfederate.HLAservice.HLAdisableAsynchronousDelivery", .Subsribe, []),
   ("HLAmanager.HLAfederate.HLAservice.HLAmodifyLookahead", .Subsribe, ["HLAlookahead"]),
   ("HLAmanager.HLAfederate.HLAservice.HLAchangeAttributeOrderType", .Subsribe,
      ["HLAobjectInstance", "HLAattributeList", "HLAsendOrder"]),
   ("HLAmanager.HLAfederate.HLAservice.HLAchangeInteractionOrderType", .Subsribe,
      ["HLAinteractionClass", "HLAsendOrder"]),
   ("HLAmanager.HLAfederation", .Nothing, []),
   ("HLAmanager.HLAfederation.HLAadjust", .Nothing, []),
   ("HLAmanager.HLAfederation.HLAadjust.HLAsetSwitches", .Subsribe, ["HLAautoProvide"]),
   ("HLAmanager.HLAfederation.HLArequest", .Nothing, []),
   ("HLAmanager.HLAfederation.HLArequest.HLArequestSynchronizationPoints", .Subsribe, []),
   ("HLAmanager.HLAfederation.HLArequest.HLArequestSynchronizationPointStatus", .Subsribe,
      ["HLAsyncPointName"]),
   ("HLAmanager.HLAfederation.HLArequest.HLArequestFOMmoduleData", .Subsribe,
      ["HLAFOMmoduleIndicator"]),
   ("HLAmanager.HLAfederation.HLArequest.HLArequestMIMData", .Subsribe, []),
   ("HLAmanager.HLAfederation.HLAreport", .Nothing, []),
   ("HLAmanager.HLAfederation.HLAreport.HLAreportSynchronizationPoints", .Publish,
      ["HLAsyncPoints"]),
   ("HLAmanager.HLAfederation.HLAreport.HLAreportSynchronizationPointStatus", .Publish,
      ["HLAsyncPointName", "HLAsyncPointFederates"]),
   ("HLAmanager.HLAfederation.HLAreport.HLAreportFOMmoduleData", .Publish,
      ["HLAFOMmoduleIndicator", "HLAFOMmoduleData"]),
   ("HLAmanager.HLAfederation.HLAreport.HLAreportMIMData", .Publish, ["HLAMIMData"])]

/-! ## FOMs with a MOM -/

/-- `getAttributeHandle` and `getParameterHandle` of the class sets: the first member of the
class that has the name. -/
def memberHandle {σ μ : Type} (nameOf : μ → String) (t : ClassSet σ μ) (h : Nat) (name : String) :
    Except RTIException Nat := do
  let c ← getObjectFromHandle t h
  match c.members.find? fun m => nameOf m.2 = name with
  | some m => return m.1
  | none => throw .nameNotFound

def hasRequired {σ μ : Type} (nameOf : μ → String) (t : ClassSet σ μ) (required : Required) :
    Bool :=
  match getHandleFromName t required.1 with
  | .ok h => required.2.2.all fun name => (memberHandle nameOf t h name).isOk
  | .error _ => false

def isAvailableInRootObjectAndCompliant (root : Modules.RootObject) : Bool :=
  the_required_object_classes.length ≤ (handled root.objectClasses).length &&
    the_required_interactions.length ≤ (handled root.interactions).length &&
    the_required_object_classes.all (hasRequired Attribute.name root.objectClasses) &&
    the_required_interactions.all (hasRequired Parameter.name root.interactions)

structure MomFom where
  root : Modules.RootObject
  compliant : isAvailableInRootObjectAndCompliant root = true

/-! ## Decoding -/

abbrev ParameterValue := List Byte

inductive ResignAction where
  | DivestOwnership
  | DeleteObjectInstances
  | CancelPendingAcquisitions
  | DeleteObjectInstancesThenDivestOwnership
  | CancelPendingAcquisitionsThenDeleteObjectInstancesThenDivestOwnership
  | NoActions
  deriving DecidableEq, Repr

inductive OrderType where
  | Receive
  | TimeStamp
  deriving DecidableEq, Repr

inductive Decoder where
  | uint32
  | boolean
  | string
  | resignAction
  | vectorAttributeHandle
  | federationTime
  | orderType
  deriving DecidableEq, Repr

/-- A time is the bits of its `double`. -/
inductive Argument where
  | uint32 (data : UInt32T)
  | boolean (data : Bool)
  | string (data : List Byte)
  | resignAction (data : ResignAction)
  | vectorAttributeHandle (data : List UInt32T)
  | federationTime (data : BitVec 64)
  | orderType (data : OrderType)
  deriving DecidableEq, Repr

open MessageBuffer

/-- How every decoder begins: the value goes into the MOM's own buffer. -/
def fill (host : Host) (data : ParameterValue) : Access Unit := do
  reset host
  let _ ← write_chars host data (BitVec.ofNat 32 data.length)

def decodeString (host : Host) (data : ParameterValue) : Access (List Byte) := do
  fill host data
  read_string host

def decodeBoolean (host : Host) (data : ParameterValue) : Access Bool := do
  fill host data
  read_bool

def decodeUInt32 (host : Host) (data : ParameterValue) : Access UInt32T := do
  fill host data
  read_uint32 host

def resignActionOf (data : UInt32T) : ResignAction :=
  match data.toNat with
  | 1 => .DivestOwnership
  | 2 => .DeleteObjectInstances
  | 3 => .CancelPendingAcquisitions
  | 4 => .DeleteObjectInstancesThenDivestOwnership
  | 5 => .CancelPendingAcquisitionsThenDeleteObjectInstancesThenDivestOwnership
  | _ => .NoActions

def decodeResignAction (host : Host) (data : ParameterValue) : Access ResignAction := do
  return resignActionOf (← decodeUInt32 host data)

/-- `for (i; i < mb.read_uint32(); ++i)`: every turn reads a bound of its own, so a turn takes
eight octets and as many turns as there are octets are enough. -/
def readHandles (host : Host) : Nat → UInt32T → Access (List UInt32T)
  | 0, _ => throw .outOfBounds
  | turns + 1, i => do
    if i < (← read_uint32 host) then
      let handle ← read_uint32 host
      return handle :: (← readHandles host turns (i + 1))
    else
      return []

def decodeVectorAttributeHandle (host : Host) (data : ParameterValue) : Access (List UInt32T) := do
  fill host data
  readHandles host (data.length + 1) 0

def decodeFederationTime (host : Host) (data : ParameterValue) : Access (BitVec 64) := do
  fill host data
  read_double host

def orderTypeOf (data : UInt32T) : OrderType := if data = 1 then .TimeStamp else .Receive

def decodeOrderType (host : Host) (data : ParameterValue) : Access OrderType := do
  return orderTypeOf (← decodeUInt32 host data)

def decode (host : Host) (decoder : Decoder) (data : ParameterValue) : Access Argument :=
  match decoder with
  | .uint32 => Argument.uint32 <$> decodeUInt32 host data
  | .boolean => Argument.boolean <$> decodeBoolean host data
  | .string => Argument.string <$> decodeString host data
  | .resignAction => Argument.resignAction <$> decodeResignAction host data
  | .vectorAttributeHandle =>
    Argument.vectorAttributeHandle <$> decodeVectorAttributeHandle host data
  | .federationTime => Argument.federationTime <$> decodeFederationTime host data
  | .orderType => Argument.orderType <$> decodeOrderType host data

/-! ## Dispatch -/

/-- The handlers, `process…` in the source. -/
inductive Handler where
  | federateSetTiming
  | federateModifyAttributeState
  | federateSetSwitches
  | federateRequestPublications
  | federateRequestSubscriptions
  | federateRequestObjectInstancesThatCanBeDeleted
  | federateRequestObjectInstancesUpdated
  | federateRequestObjectInstancesReflected
  | federateRequestUpdatesSent
  | federateRequestInteractionsSent
  | federateRequestReflectionsReceived
  | federateRequestInteractionsReceived
  | federateRequestObjectInstanceInformation
  | federateRequestFOMmoduleData
  | federateResignFederationExecution
  | federateSynchronizationPointAchieved
  | federateFederateSaveBegun
  | federateFederateSaveComplete
  | federateFederateRestoreComplete
  | federatePublishObjectClassAttributes
  | federateUnpublishObjectClassAttributes
  | federatePublishInteractionClass
  | federateUnpublishInteractionClass
  | federateSubscribeObjectClassAttributes
  | federateUnsubscribeObjectClassAttributes
  | federateSubscribeInteractionClass
  | federateUnsubscribeInteractionClass
  | federateDeleteObjectInstance
  | federateLocalDeleteObjectInstance
  | federateRequestAttributeTransportationTypeChange
  | federateRequestInteractionTransportationTypeChange
  | federateUnconditionalAttributeOwnershipDivestiture
  | federateEnableTimeRegulation
  | federateDisableTimeRegulation
  | federateEnableTimeConstrained
  | federateDisableTimeConstrained
  | federateTimeAdvanceRequest
  | federateTimeAdvanceRequestAvailable
  | federateNextMessageRequest
  | federateNextMessageRequestAvailable
  | federateFlushQueueRequest
  | federateEnableAsynchronousDelivery
  | federateDisableAsynchronousDelivery
  | federateModifyLookahead
  | federateChangeAttributeOrderType
  | federateChangeInteractionOrderType
  | federationSetSwitches
  | federationRequestSynchronizationPoints
  | federationRequestSynchronizationPointStatus
  | federationRequestFOMmoduleData
  | federationRequestMIMData
  deriving DecidableEq, Repr

/-- One branch of `processInteraction`: the class it compares with, the handler it calls and
how it finds the arguments. -/
structure Branch where
  interaction : String
  handler : Handler
  parameters : List (Decoder × String)
  deriving DecidableEq, Repr

def branches : List Branch :=
  [⟨"HLAmanager.HLAfederate.HLAadjust.HLAsetTiming", .federateSetTiming,
     [(.uint32, "HLAfederate"), (.uint32, "HLAreportPeriod")]⟩,
   ⟨"HLAmanager.HLAfederate.HLAadjust.HLAmodifyAttributeState", .federateModifyAttributeState,
     [(.uint32, "HLAfederate"), (.uint32, "HLAobjectInstance"), (.uint32, "HLAattribute"),
      (.boolean, "HLAattributeState")]⟩,
   ⟨"HLAmanager.HLAfederate.HLAadjust.HLAsetSwitches", .federateSetSwitches,
     [(.uint32, "HLAfederate"), (.boolean, "HLAconveyRegionDesignatorSets"),
      (.boolean, "HLAconveyProducingFederate"), (.boolean, "HLAserviceReporting"),
      (.boolean, "HLAexceptionReporting")]⟩,
   ⟨"HLAmanager.HLAfederate.HLArequest.HLArequestPublications", .federateRequestPublications,
     [(.uint32, "HLAfederate")]⟩,
   ⟨"HLAmanager.HLAfederate.HLArequest.HLArequestSubscriptions", .federateRequestSubscriptions,
     [(.uint32, "HLAfederate")]⟩,
   ⟨"HLAmanager.HLAfederate.HLArequest.HLArequestObjectInstancesThatCanBeDeleted",
     .federateRequestObjectInstancesThatCanBeDeleted,
     [(.uint32, "HLAfederate")]⟩,
   ⟨"HLAmanager.HLAfederate.HLArequest.HLArequestObjectInstancesUpdated",
     .federateRequestObjectInstancesUpdated,
     [(.uint32, "HLAfederate")]⟩,
   ⟨"HLAmanager.HLAfederate.HLArequest.HLArequestObjectInstancesReflected",
     .federateRequestObjectInstancesReflected,
     [(.uint32, "HLAfederate")]⟩,
   ⟨"HLAmanager.HLAfederate.HLArequest.HLArequestUpdatesSent", .federateRequestUpdatesSent,
     [(.uint32, "HLAfederate")]⟩,
   ⟨"HLAmanager.HLAfederate.HLArequest.HLArequestInteractionsSent",
     .federateRequestInteractionsSent,
     [(.uint32, "HLAfederate")]⟩,
   ⟨"HLAmanager.HLAfederate.HLArequest.HLArequestReflectionsReceived",
     .federateRequestReflectionsReceived,
     [(.uint32, "HLAfederate")]⟩,
   ⟨"HLAmanager.HLAfederate.HLArequest.HLArequestInteractionsReceived",
     .federateRequestInteractionsReceived,
     [(.uint32, "HLAfederate")]⟩,
   ⟨"HLAmanager.HLAfederate.HLArequest.HLArequestObjectInstanceInformation",
     .federateRequestObjectInstanceInformation,
     [(.uint32, "HLAfederate"), (.uint32, "HLAobjectInstance")]⟩,
   ⟨"HLAmanager.HLAfederate.HLArequest.HLArequestFOMmoduleData", .federateRequestFOMmoduleData,
     [(.uint32, "HLAfederate"), (.uint32, "HLAFOMmoduleIndicator")]⟩,
   ⟨"HLAmanager.HLAfederate.HLAservice.HLAresignFederationExecution",
     .federateResignFederationExecution,
     [(.uint32, "HLAfederate"), (.resignAction, "HLAresignAction")]⟩,
   ⟨"HLAmanager.HLAfederate.HLAservice.HLAsynchronizationPointAchieved",
     .federateSynchronizationPointAchieved,
     [(.uint32, "HLAfederate"), (.string, "HLAlabel")]⟩,
   ⟨"HLAmanager.HLAfederate.HLAservice.HLAfederateSaveBegun", .federateFederateSaveBegun,
     [(.uint32, "HLAfederate")]⟩,
   ⟨"HLAmanager.HLAfederate.HLAservice.HLAfederateSaveComplete", .federateFederateSaveComplete,
     [(.uint32, "HLAfederate"), (.boolean, "HLAsuccessIndicator")]⟩,
   ⟨"HLAmanager.HLAfederate.HLAservice.HLAfederateRestoreComplete",
     .federateFederateRestoreComplete,
     [(.uint32, "HLAfederate"), (.boolean, "HLAsuccessIndicator")]⟩,
   ⟨"HLAmanager.HLAfederate.HLAservice.HLApublishObjectClassAttributes",
     .federatePublishObjectClassAttributes,
     [(.uint32, "HLAfederate"), (.uint32, "HLAobjectClass"),
      (.vectorAttributeHandle, "HLAattributeList")]⟩,
   ⟨"HLAmanager.HLAfederate.HLAservice.HLAunpublishObjectClassAttributes",
     .federateUnpublishObjectClassAttributes,
     [(.uint32, "HLAfederate"), (.uint32, "HLAobjectClass"),
      (.vectorAttributeHandle, "HLAattributeList")]⟩,
   ⟨"HLAmanager.HLAfederate.HLAservice.HLApublishInteractionClass",
     .federatePublishInteractionClass,
     [(.uint32, "HLAfederate"), (.uint32, "HLAinteractionClass")]⟩,
   ⟨"HLAmanager.HLAfederate.HLAservice.HLAunpublishInteractionClass",
     .federateUnpublishInteractionClass,
     [(.uint32, "HLAfederate"), (.uint32, "HLAinteractionClass")]⟩,
   ⟨"HLAmanager.HLAfederate.HLAservice.HLAsubscribeObjectClassAttributes",
     .federateSubscribeObjectClassAttributes,
     [(.uint32, "HLAfederate"), (.uint32, "HLAobjectClass"),
      (.vectorAttributeHandle, "HLAattributeList"), (.boolean, "HLAactive")]⟩,
   ⟨"HLAmanager.HLAfederate.HLAservice.HLAunsubscribeObjectClassAttributes",
     .federateUnsubscribeObjectClassAttributes,
     [(.uint32, "HLAfederate"), (.uint32, "HLAobjectClass"),
      (.vectorAttributeHandle, "HLAattributeList")]⟩,
   ⟨"HLAmanager.HLAfederate.HLAservice.HLAsubscribeInteractionClass",
     .federateSubscribeInteractionClass,
     [(.uint32, "HLAfederate"), (.uint32, "HLAinteractionClass"), (.boolean, "HLAactive")]⟩,
   ⟨"HLAmanager.HLAfederate.HLAservice.HLAunsubscribeInteractionClass",
     .federateUnsubscribeInteractionClass,
     [(.uint32, "HLAfederate"), (.uint32, "HLAinteractionClass")]⟩,
   ⟨"HLAmanager.HLAfederate.HLAservice.HLAdeleteObjectInstance", .federateDeleteObjectInstance,
     [(.uint32, "HLAfederate"), (.uint32, "HLAobjectInstance"), (.string, "HLAtag"),
      (.federationTime, "HLAtimeStamp")]⟩,
   ⟨"HLAmanager.HLAfederate.HLAservice.HLAlocalDeleteObjectInstance",
     .federateLocalDeleteObjectInstance,
     [(.uint32, "HLAfederate"), (.uint32, "HLAobjectInstance")]⟩,
   ⟨"HLAmanager.HLAfederate.HLAservice.HLArequestAttributeTransportationTypeChange",
     .federateRequestAttributeTransportationTypeChange,
     [(.uint32, "HLAfederate"), (.uint32, "HLAobjectInstance"),
      (.vectorAttributeHandle, "HLAattributeList"), (.string, "HLAtransportation")]⟩,
   ⟨"HLAmanager.HLAfederate.HLAservice.HLArequestInteractionTransportationTypeChange",
     .federateRequestInteractionTransportationTypeChange,
     [(.uint32, "HLAfederate"), (.uint32, "HLAinteractionClass"), (.string, "HLAtransportation")]⟩,
   ⟨"HLAmanager.HLAfederate.HLAservice.HLAunconditionalAttributeOwnershipDivestiture",
     .federateUnconditionalAttributeOwnershipDivestiture,
     [(.uint32, "HLAfederate"), (.uint32, "HLAobjectInstance"),
      (.vectorAttributeHandle, "HLAattributeList")]⟩,
   ⟨"HLAmanager.HLAfederate.HLAservice.HLAenableTimeRegulation", .federateEnableTimeRegulation,
     [(.uint32, "HLAfederate"), (.uint32, "HLAlookahead")]⟩,
   ⟨"HLAmanager.HLAfederate.HLAservice.HLAdisableTimeRegulation", .federateDisableTimeRegulation,
     [(.uint32, "HLAfederate")]⟩,
   ⟨"HLAmanager.HLAfederate.HLAservice.HLAenableTimeConstrained", .federateEnableTimeConstrained,
     [(.uint32, "HLAfederate")]⟩,
   ⟨"HLAmanager.HLAfederate.HLAservice.HLAdisableTimeConstrained", .federateDisableTimeConstrained,
     [(.uint32, "HLAfederate")]⟩,
   ⟨"HLAmanager.HLAfederate.HLAservice.HLAtimeAdvanceRequest", .federateTimeAdvanceRequest,
     [(.uint32, "HLAfederate"), (.federationTime, "HLAtimeStamp")]⟩,
   ⟨"HLAmanager.HLAfederate.HLAservice.HLAtimeAdvanceRequestAvailable",
     .federateTimeAdvanceRequestAvailable,
     [(.uint32, "HLAfederate"), (.federationTime, "HLAtimeStamp")]⟩,
   ⟨"HLAmanager.HLAfederate.HLAservice.HLAnextMessageRequest", .federateNextMessageRequest,
     [(.uint32, "HLAfederate"), (.federationTime, "HLAtimeStamp")]⟩,
   ⟨"HLAmanager.HLAfederate.HLAservice.HLAnextMessageRequestAvailable",
     .federateNextMessageRequestAvailable,
     [(.uint32, "HLAfederate"), (.federationTime, "HLAtimeStamp")]⟩,
   ⟨"HLAmanager.HLAfederate.HLAservice.HLAflushQueueRequest", .federateFlushQueueRequest,
     [(.uint32, "HLAfederate"), (.federationTime, "HLAtimeStamp")]⟩,
   ⟨"HLAmanager.HLAfederate.HLAservice.HLAenableAsynchronousDelivery",
     .federateEnableAsynchronousDelivery,
     [(.uint32, "HLAfederate")]⟩,
   ⟨"HLAmanager.HLAfederate.HLAservice.HLAdisableAsynchronousDelivery",
     .federateDisableAsynchronousDelivery,
     [(.uint32, "HLAfederate")]⟩,
   ⟨"HLAmanager.HLAfederate.HLAservice.HLAmodifyLookahead", .federateModifyLookahead,
     [(.uint32, "HLAfederate"), (.uint32, "HLAlookahead")]⟩,
   ⟨"HLAmanager.HLAfederate.HLAservice.HLAchangeAttributeOrderType",
     .federateChangeAttributeOrderType,
     [(.uint32, "HLAfederate"), (.uint32, "HLAobjectInstance"),
      (.vectorAttributeHandle, "HLAattributeList"), (.orderType, "HLAsendOrder")]⟩,
   ⟨"HLAmanager.HLAfederate.HLAservice.HLAchangeInteractionOrderType",
     .federateChangeInteractionOrderType,
     [(.uint32, "HLAfederate"), (.uint32, "HLAinteractionClass"), (.orderType, "HLAsendOrder")]⟩,
   ⟨"HLAmanager.HLAfederation.HLAadjust.HLAsetSwitches", .federationSetSwitches,
     [(.boolean, "HLAautoProvide")]⟩,
   ⟨"HLAmanager.HLAfederation.HLArequest.HLArequestSynchronizationPoints",
     .federationRequestSynchronizationPoints,
     []⟩,
   ⟨"HLAmanager.HLAfederation.HLArequest.HLArequestSynchronizationPointStatus",
     .federationRequestSynchronizationPointStatus,
     [(.string, "HLAsyncPointName")]⟩,
   ⟨"HLAmanager.HLAfederation.HLArequest.HLArequestFOMmoduleData", .federationRequestFOMmoduleData,
     [(.uint32, "HLAFOMmoduleIndicator")]⟩,
   ⟨"HLAmanager.HLAfederation.HLArequest.HLArequestMIMData", .federationRequestMIMData,
     []⟩]

inductive Problem where
  | exception (e : RTIException)
  | fault (f : Fault)
  deriving DecidableEq, Repr

/-- An ended process has been left by an exception that nothing caught. -/
structure Mom where
  my_root : Modules.RootObject
  my_interaction_class_cache : List (String × InteractionClassHandle)
  my_parameter_cache : List (String × ParameterHandle) := []
  mb : MessageBuffer
  hasEnded : Bool := false

/-- What `publishAndSubscribeInteractions` fills the cache of class handles with. -/
def classCache (root : Modules.RootObject) : List (String × InteractionClassHandle) :=
  the_required_interactions.filterMap fun required =>
    match required.2.1, getHandleFromName root.interactions required.1 with
    | .Nothing, _ => none
    | _, .ok h => some (required.1, h)
    | _, .error _ => none

def start (fom : MomFom) (mb : MessageBuffer) : Mom where
  my_root := fom.root
  my_interaction_class_cache := classCache fom.root
  mb := mb

/-- `my_interaction_class_cache[…]`: a class that is not there gets the handle 0. -/
def Mom.interactionClass (mom : Mom) (name : String) : InteractionClassHandle :=
  (lookup Prod.fst name mom.my_interaction_class_cache).elim 0 Prod.snd

def getParameterHandle (interaction : InteractionClassHandle) (name : String) :
    EStateM Problem Mom ParameterHandle := fun mom =>
  match lookup Prod.fst name mom.my_parameter_cache with
  | some entry => .ok entry.2 mom
  | none =>
    match memberHandle Parameter.name mom.my_root.interactions interaction name with
    | .ok handle =>
      .ok handle { mom with my_parameter_cache := (name, handle) :: mom.my_parameter_cache }
    | .error e => .error (.exception e) mom

def withBuffer {α : Type} (access : Access α) : EStateM Problem Mom α := fun mom =>
  match access mom.mb with
  | .ok a mb => .ok a { mom with mb := mb }
  | .error f mb => .error (.fault f) { mom with mb := mb }

/-- `parameters[handle]`: of two values for one handle the later one stays, and a parameter
that is not there has no octets. -/
def parameterValue (parameters : List (ParameterHandle × ParameterValue))
    (handle : ParameterHandle) : ParameterValue :=
  (lookup Prod.fst handle parameters.reverse).elim [] Prod.snd

def argument (host : Host) (interaction : InteractionClassHandle)
    (parameters : List (ParameterHandle × ParameterValue)) (wanted : Decoder × String) :
    EStateM Problem Mom Argument := do
  let handle ← getParameterHandle interaction wanted.2
  withBuffer (decode host wanted.1 (parameterValue parameters handle))

def Mom.branch? (mom : Mom) (interaction : InteractionClassHandle) : Option Branch :=
  branches.find? fun b => interaction = mom.interactionClass b.interaction

/-- The call `processInteraction` ends in; an interaction that is unknown to it ends in none.
The compiler may order the arguments otherwise; that decides only which error comes first. -/
def processInteraction (host : Host) (interaction : InteractionClassHandle)
    (parameters : List (ParameterHandle × ParameterValue)) :
    EStateM Problem Mom (Option (Handler × List Argument)) := do
  match (← get).branch? interaction with
  | none => return none
  | some b =>
    let arguments ← b.parameters.mapM (argument host interaction parameters)
    return some (b.handler, arguments)

/-! ## Reports -/

/-- A report's interaction class and the parameters its handler looks up. -/
abbrev Report := String × List String

/-- The reports of a handler; `declared` says whether the federate it asks about publishes
any attribute of a class the loop looks at. -/
def Handler.reports (declared : Bool) : Handler → List Report
  | .federateRequestPublications =>
    [("HLAmanager.HLAfederate.HLAreport.HLAreportObjectClassPublication",
      if declared then ["HLAfederate", "HLAnumberOfClasses", "HLAobjectClass", "HLAattributeList"]
      else ["HLAfederate", "HLAnumberOfClasses"]),
     ("HLAmanager.HLAfederate.HLAreport.HLAreportInteractionPublication",
      ["HLAfederate", "HLAinteractionClassList"])]
  | .federateRequestSubscriptions =>
    [("HLAmanager.HLAfederate.HLAreport.HLAreportObjectClassSubscription",
      if declared then
        ["HLAfederate", "HLAnumberOfClasses", "HLAobjectClass", "HLAactive", "HLAmaxUpdateRate",
         "HLAattributeList"]
      else ["HLAfederate", "HLAnumberOfClasses"]),
     ("HLAmanager.HLAfederate.HLAreport.HLAreportInteractionSubscription",
      ["HLAfederate", "HLAinteractionClassList"])]
  | .federateRequestObjectInstancesThatCanBeDeleted =>
    [("HLAmanager.HLAfederate.HLAreport.HLAreportObjectInstancesThatCanBeDeleted",
      ["HLAfederate", "HLAobjectInstanceCounts"])]
  | .federateRequestObjectInstancesUpdated =>
    [("HLAmanager.HLAfederate.HLAreport.HLAreportObjectInstancesUpdated",
      ["HLAfederate", "HLAobjectInstanceCounts"])]
  | .federateRequestObjectInstancesReflected =>
    [("HLAmanager.HLAfederate.HLAreport.HLAreportObjectInstancesReflected",
      ["HLAfederate", "HLAobjectInstanceCounts"])]
  | .federateRequestUpdatesSent =>
    [("HLAmanager.HLAfederate.HLAreport.HLAreportUpdatesSent",
      ["HLAfederate", "HLAtransportation", "HLAupdateCounts"])]
  | .federateRequestInteractionsSent =>
    [("HLAmanager.HLAfederate.HLAreport.HLAreportInteractionsSent",
      ["HLAfederate", "HLAtransportation", "HLAinteractionCounts"])]
  | .federateRequestReflectionsReceived =>
    [("HLAmanager.HLAfederate.HLAreport.HLAreportReflectionsReceived",
      ["HLAfederate", "HLAtransportation", "HLAreflectCounts"])]
  | .federateRequestInteractionsReceived =>
    [("HLAmanager.HLAfederate.HLAreport.HLAreportInteractionsReceived",
      ["HLAfederate", "HLAtransportation", "HLAinteractionCounts"])]
  | .federateRequestObjectInstanceInformation =>
    [("HLAmanager.HLAfederate.HLAreport.HLAreportObjectInstanceInformation",
      ["HLAfederate", "HLAobjectInstance", "HLAownedInstanceAttributeList", "HLAregisteredClass",
       "HLAknownClass"])]
  | .federateRequestFOMmoduleData =>
    [("HLAmanager.HLAfederate.HLAreport.HLAreportFOMmoduleData",
      ["HLAfederate", "HLAFOMmoduleIndicator", "HLAFOMmoduleData"])]
  | .federationRequestSynchronizationPoints =>
    [("HLAmanager.HLAfederation.HLAreport.HLAreportSynchronizationPoints", ["HLAsyncPoints"])]
  | .federationRequestSynchronizationPointStatus =>
    [("HLAmanager.HLAfederation.HLAreport.HLAreportSynchronizationPointStatus",
      ["HLAsyncPointName", "HLAsyncPointFederates"])]
  | .federationRequestFOMmoduleData =>
    [("HLAmanager.HLAfederation.HLAreport.HLAreportFOMmoduleData",
      ["HLAFOMmoduleIndicator", "HLAFOMmoduleData"])]
  | .federationRequestMIMData =>
    [("HLAmanager.HLAfederation.HLAreport.HLAreportMIMData", ["HLAMIMData"])]
  | _ => []

/-- The handles of a report's parameters. -/
def prepare (report : Report) : EStateM Problem Mom (List ParameterHandle) := do
  match getHandleFromName (← get).my_root.interactions report.1 with
  | .ok interaction => report.2.mapM (getParameterHandle interaction)
  | .error e => throw (.exception e)

def prepareAll (reports : List Report) : EStateM Problem Mom Unit :=
  reports.forM fun report => do
    let _ ← prepare report

/-! ## Runs -/

/-- A buffer that can be reset. -/
structure Scratch where
  buffer : MessageBuffer
  fit : Fit buffer
  room : 5 < buffer.bufferMaxSize.toNat

/-- An interaction of a class the MOM subscribes to. Its updates and reports write to `mb` as
well: `mb` is the buffer they left behind. `declared` and `prepared` say what the handler
finds in the federation: which report it makes first, and after how many of them it stops. -/
structure Request where
  interaction : InteractionClassHandle
  parameters : List (ParameterHandle × ParameterValue)
  mb : Scratch
  declared : Bool
  prepared : Nat

inductive Ending where
  | unknown
  | called (handler : Handler) (arguments : List Argument)
  -- an exception that is sent back to the federate
  | refused (e : RTIException)
  -- an exception that nothing catches, and requests to a process that has ended so
  | stopped (f : Fault)
  | gone
  deriving DecidableEq, Repr

def receive (host : Host) (request : Request) (mom : Mom) : Mom × Ending :=
  match processInteraction host request.interaction request.parameters
      { mom with mb := request.mb.buffer } with
  | .ok none mom => (mom, .unknown)
  | .ok (some (handler, arguments)) mom =>
    (Throwing.final (prepareAll ((handler.reports request.declared).take request.prepared) mom),
      .called handler arguments)
  | .error (.exception e) mom => (mom, .refused e)
  | .error (.fault f) mom => ({ mom with hasEnded := true }, .stopped f)

def requests (host : Host) : Runs.Machine Mom Request Ending := fun mom request =>
  if mom.hasEnded then (mom, .gone) else receive host request mom

end Certi.MOM
