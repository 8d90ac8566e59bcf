import Mathlib.Algebra.Order.Monoid.WithTop
import Mathlib.Algebra.Order.Ring.Rat

/-!
# Handles, dates and exceptions

`libCERTI/Handle.hh` (every handle is a `uint32_t`, 0 meaning "none"),
`libCERTI/FedTimeD.hh` and the exceptions of `include/certi.hh` that the
modelled services throw. Handles are counters that are only compared and
counted up, so they are natural numbers here. Dates are exact rationals: the
rounding of `double` is not modelled.
-/
namespace Certi

abbrev FederateHandle := Nat
abbrev ObjectClassHandle := Nat
abbrev InteractionClassHandle := Nat
abbrev AttributeHandle := Nat
abbrev ParameterHandle := Nat
abbrev ObjectHandle := Nat
abbrev SpaceHandle := Nat
abbrev RegionHandle := Nat
abbrev SecurityLevelID := Nat
abbrev FederationTime := Rat

/-- A date, or positive infinity (`FedTime::setPositiveInfinity`). -/
abbrev Date := WithTop FederationTime

/-- The level every unclassified datum has (`PublicLevelID`). -/
def PublicLevelID : SecurityLevelID := 0

inductive RTIException where
  | attributeAcquisitionWasNotRequested | attributeAlreadyBeingAcquired
  | attributeAlreadyBeingDivested | attributeAlreadyOwned | attributeDivestitureWasNotRequested
  | attributeNotDefined | attributeNotOwned | attributeNotPublished | arrayIndexOutOfBounds
  | deletePrivilegeNotHeld | federateNotExecutionMember | federateOwnsAttributes
  | federateNotPublishing | federateAlreadyExecutionMember
  | federateWasNotAskedToReleaseAttribute | federationAlreadyPaused | federationNotPaused
  | federationTimeAlreadyPassed | interactionClassNotDefined | interactionClassNotPublished
  | interactionParameterNotDefined | invalidFederationTime | invalidLookahead
  | objectAlreadyRegistered | objectClassNotDefined
  | networkError | objectClassNotPublished | objectNotKnown | regionNotKnown | rtiInternalError
  | saveInProgress | securityError | spaceNotDefined | timeAdvanceAlreadyInProgress
  | timeRegulationAlreadyEnabled | timeRegulationWasNotEnabled
  | timeConstrainedAlreadyEnabled | timeConstrainedWasNotEnabled
  | asynchronousDeliveryAlreadyEnabled | asynchronousDeliveryAlreadyDisabled
  | outOfRange | unknownLabel | nameNotFound | couldNotOpenFED | errorReadingFED | restoreInProgress
  | invalidExtents
  deriving DecidableEq, Repr

/-- The messages RTIG sends whose delivery is spoken about. -/
inductive NetworkMessage where
  | discoverObject (sender : FederateHandle) (objectClass : ObjectClassHandle)
      (object : ObjectHandle) (name : String)
  | removeObject (sender : FederateHandle) (objectClass : ObjectClassHandle)
      (object : ObjectHandle)
  | messageNull (sender : FederateHandle) (date : Date)
  | setTimeRegulating (sender : FederateHandle) (on : Bool) (date : Date)
  | timeRegulationEnabled (date : Date)
  | announceSynchronizationPoint (label tag : String)
  | confirmSynchronizationPointRegistration (label : String) (success : Bool)
  | federationSynchronized (label : String)
  | initiateFederateSave (label : String)
  | federationSaved
  | federationNotSaved
  | joinFederationExecution (federate : FederateHandle) (numberOfRegulators : Nat)
  | resignFederationExecution (federate : FederateHandle)
  deriving DecidableEq, Repr

/-- Each message with the federate it goes to, in the order of sending. -/
abbrev Responses := List (FederateHandle × NetworkMessage)

/-- What a service leaves behind: the state, what it sent, and the exception it threw. -/
structure Outcome (σ : Type) where
  state : σ
  sent : Responses
  error : Option RTIException

def Outcome.refused {σ : Type} (s : σ) (e : RTIException) : Outcome σ := ⟨s, [], some e⟩

def Outcome.done {σ : Type} (s : σ) (sent : Responses) : Outcome σ := ⟨s, sent, none⟩

end Certi
