import Certi.Lib.Runs
import Certi.LibCERTI.RootObject

/-!
# A federation of the RTIG

`RTIG/Federation.cc`, `Federate.cc` and the parts of `MessageProcessor.cc` that
call them. The RTIG handles one message at a time, so a run is a list of events
and every interleaving of the federates' requests is one. What a service
answers is the messages it sends and the exception it throws; the state keeps
what had been done before the exception. Advisory switches, the MOM's mirror of
the state and the restore services are left out.
-/
namespace Certi

open Keyed

structure Federate where
  handle : FederateHandle
  name : String
  isConstrained : Bool
  isRegulator : Bool
  isSaving : Bool
  syncLabels : Finset String

structure Federation where
  federates : List Federate
  /-- `my_federate_handle_generator`: handles are never given twice. -/
  nextFederate : FederateHandle
  nextObject : ObjectHandle
  regulators : List (FederateHandle × Date)
  synchronizationLabels : List (String × String)
  saveInProgress : Bool
  saveStatus : Bool
  saveLabel : String
  /-- Whether the build has an XML library, without which nothing can be saved. -/
  haveXml : Bool
  /-- The process has been ended by an uncaught exception or a null dereference. -/
  crashed : Bool
  root : RootObject

namespace Federation

variable (f : Federation)

def federate? (h : FederateHandle) : Option Federate := lookup Federate.handle h f.federates

def isJoined (h : FederateHandle) : Bool := (f.federate? h).isSome

/-- Changes the record of a federate in place. -/
def adjustFederate (h : FederateHandle) (change : Federate → Federate) : Federation :=
  { f with federates := adjust Federate.handle h change f.federates }

/-- `check`: the MOM's handle passes. -/
def check (h : FederateHandle) : Bool := f.root.server.momHandle = some h || f.isJoined h

/-- A service of a member; for anyone else `check` throws. -/
def asMember (h : FederateHandle) (service : Outcome Federation) : Outcome Federation :=
  if f.check h then service else .refused f .federateNotExecutionMember

/-- A service that needs the federate's record, which the MOM has none of. -/
def withFederate (h : FederateHandle) (service : Federate → Outcome Federation) :
    Outcome Federation :=
  match f.federate? h with
  | some fed => service fed
  | none => .refused f .federateNotExecutionMember

/-- Runs a service of the root object. -/
def onRoot (service : RootObject → Outcome RootObject) : Outcome Federation :=
  let outcome := service f.root
  ⟨{ f with root := outcome.state }, outcome.sent, outcome.error⟩

/-- `respondToAll`; a federate without references makes `getSocketLink` throw. -/
def respondToAll (message : NetworkMessage) (except : FederateHandle) :
    Except RTIException Responses :=
  let recipients := (f.federates.map Federate.handle).filter (fun h => h ≠ except)
  if recipients.all f.root.server.hasReferences then .ok (recipients.map (·, message))
  else .error .federateNotExecutionMember

/-- The state a service ends in, with the answer that comes last. -/
def answering (state : Federation) (sent : Responses) (last : Except RTIException Responses) :
    Outcome Federation :=
  match last with
  | .ok responses => ⟨state, sent ++ responses, none⟩
  | .error e => ⟨state, [], some e⟩

/-! ## Joining and leaving -/

/-- What a join meets: FOM modules that open, and a link not yet bound to a federate. -/
structure JoinConditions where
  modulesOpen : Bool
  linkFree : Bool
  deriving DecidableEq, Repr

/-- The new record in the table, before its FOM modules are opened. -/
def inserted (name : String) : Federation :=
  let fed : Federate :=
    { handle := f.nextFederate, name := name, isConstrained := false, isRegulator := false
      isSaving := false, syncLabels := ∅ }
  { f with federates := f.federates ++ [fed], nextFederate := f.nextFederate + 1 }

/-- The newcomer holds every pending label. -/
def labelled (name : String) : Federation :=
  (f.inserted name).adjustFederate f.nextFederate fun fed =>
    { fed with syncLabels := (f.synchronizationLabels.map Prod.fst).toFinset }

/-- `add`: the federate is inserted before the FOM modules are opened, and the answer is
built before the references are set. -/
def add (name : String) (conditions : JoinConditions) : Outcome Federation :=
  let h := f.nextFederate
  if f.federates.any (fun fed => fed.name = name) then
    .refused f .federateAlreadyExecutionMember
  else if !conditions.modulesOpen then .refused (f.inserted name) .rtiInternalError
  else if !conditions.linkFree then .refused (f.labelled name) .rtiInternalError
  else
    .done { f.labelled name with
      root := { f.root with server := f.root.server.setReferences h } }
      (f.regulators.map (fun clock => (h, .messageNull clock.1 clock.2)) ++
        f.synchronizationLabels.map (fun label =>
          (h, .announceSynchronizationPoint label.1 label.2)) ++
        [(h, .joinFederationExecution h f.regulators.length)])

/-- `remove`, all that a resignation does. -/
def remove (h : FederateHandle) : Outcome Federation :=
  f.withFederate h fun _ =>
    .done { f with federates := drop Federate.handle h f.federates }
      [(h, .resignFederationExecution h)]

/-- `LBTS::remove` throws for an unknown clock. -/
def removeRegulator (h : FederateHandle) : Outcome Federation :=
  f.withFederate h fun fed =>
    if (lookup Prod.fst h f.regulators).isNone then .refused f .rtiInternalError
    else
      let removed := { f with regulators := drop Prod.fst h f.regulators }
      if !fed.isRegulator then .refused removed .rtiInternalError
      else
        let cleared := removed.adjustFederate h fun fed => { fed with isRegulator := false }
        answering cleared [] (cleared.respondToAll (.setTimeRegulating h false 0) 0)

def closeLink (h : FederateHandle) : Federation :=
  { f with root := { f.root with server := f.root.server.closeLink h } }

/-- `kill`, once the link has been closed: the regulator, the root object, then the record. -/
def kill (h : FederateHandle) : Outcome Federation :=
  f.withFederate h fun _ =>
    let unregulated := ((f.closeLink h).removeRegulator h).state
    let (root, sent) := unregulated.root.killFederate h
    let killed := { unregulated with root := root }
    ⟨(killed.remove h).state, sent ++ (killed.remove h).sent, none⟩

/-! ## Time -/

/-- `addRegulator`: `LBTS::insert` throws for a clock already there. -/
def addRegulator (h : FederateHandle) (date : Date) : Outcome Federation :=
  f.withFederate h fun fed =>
    if (lookup Prod.fst h f.regulators).isSome then .refused f .rtiInternalError
    else
      let added := { f with regulators := f.regulators ++ [(h, date)] }
      if fed.isRegulator then .refused added .rtiInternalError
      else
        let set := added.adjustFederate h fun fed => { fed with isRegulator := true }
        match set.respondToAll (.setTimeRegulating h true date) 0 with
        | .error e => .refused set e
        | .ok sent => .done set (sent ++ [(h, .timeRegulationEnabled date)])

/-- `LBTS::update` keeps the later of two dates. -/
def updateClock (h : FederateHandle) (date : Date)
    (clocks : List (FederateHandle × Date)) : List (FederateHandle × Date) :=
  adjust Prod.fst h (fun clock => if clock.2 > date then clock else (h, date)) clocks

/-- `updateRegulator`; its exceptions are swallowed by the message processor. -/
def updateRegulator (h : FederateHandle) (date : Date) : Outcome Federation :=
  f.withFederate h fun fed =>
    if !fed.isRegulator then .refused f .rtiInternalError
    else if (lookup Prod.fst h f.regulators).isNone then .refused f .rtiInternalError
    else
      let updated := { f with regulators := updateClock h date f.regulators }
      answering updated [] (updated.respondToAll (.messageNull h date) h)

def setConstrained (h : FederateHandle) (constrained : Bool) : Outcome Federation :=
  f.withFederate h fun fed =>
    if fed.isConstrained = constrained then .refused f .rtiInternalError
    else .done (f.adjustFederate h fun fed => { fed with isConstrained := constrained }) []

/-! ## Synchronization points -/

/-- `Federate::addSynchronizationLabel`, for one federate after another; `my_federates.at`
throws a `std::out_of_range` for a handle that is not joined. -/
def labelFederate (label : String) (f : Federation) (h : FederateHandle) :
    Except RTIException Federation :=
  match f.federate? h with
  | none => .error .outOfRange
  | some fed =>
    if label ∈ fed.syncLabels then .error .rtiInternalError
    else .ok (f.adjustFederate h fun fed => { fed with syncLabels := insert label fed.syncLabels })

/-- `registerSynchronization` without a set. -/
def registerSynchronization (h : FederateHandle) (label tag : String) : Outcome Federation :=
  f.asMember h <|
    if label = "" then .refused f .rtiInternalError
    else if (lookup Prod.fst label f.synchronizationLabels).isSome then
      .refused f .federationAlreadyPaused
    else
      let (labelled, error) := Sweep.sweep (labelFederate label)
        { f with synchronizationLabels := f.synchronizationLabels ++ [(label, tag)] }
        (f.federates.map Federate.handle)
      ⟨labelled, [], error⟩

/-- `registerSynchronization` for a set: the requester is given the label too. -/
def registerSynchronizationSet (h : FederateHandle) (label tag : String)
    (set : List FederateHandle) : Outcome Federation :=
  f.withFederate h fun _ =>
    if label = "" then .refused f .rtiInternalError
    else if (lookup Prod.fst label f.synchronizationLabels).isSome then
      .refused f .federationAlreadyPaused
    else
      let (labelled, error) := Sweep.sweep (labelFederate label)
        { f with synchronizationLabels := f.synchronizationLabels ++ [(label, tag)] }
        ((if set = [] then [] else [h]) ++ set)
      ⟨labelled, [], error⟩

/-- `respondToSome`. -/
def respondToSome (message : NetworkMessage) (recipients : List FederateHandle) :
    Except RTIException Responses :=
  if recipients.all f.root.server.hasReferences then .ok (recipients.map (·, message))
  else .error .federateNotExecutionMember

/-- The overload that the message asks for. -/
def registerSynchronizationFor (h : FederateHandle) (label tag : String) :
    Option (List FederateHandle) → Outcome Federation
  | some set => f.registerSynchronizationSet h label tag set
  | none => f.registerSynchronization h label tag

/-- The message handler: the point is announced once it is registered, and the requester
told whether it was. A `std::out_of_range` is caught nowhere. -/
def processRegisterSynchronization (h : FederateHandle) (label tag : String)
    (set : Option (List FederateHandle)) : Outcome Federation :=
  let registered := f.registerSynchronizationFor h label tag set
  match registered.error with
  | some .outOfRange => ⟨{ registered.state with crashed := true }, [], some .outOfRange⟩
  | some _ => ⟨registered.state, [(h, .confirmSynchronizationPointRegistration label false)], none⟩
  | none =>
    let announced := match set with
      | some set => registered.state.respondToSome (.announceSynchronizationPoint label tag) set
      | none => registered.state.respondToAll (.announceSynchronizationPoint label tag) 0
    match announced with
    | .error e => .refused registered.state e
    | .ok sent =>
      .done registered.state (sent ++ [(h, .confirmSynchronizationPointRegistration label true)])

/-- `unregisterSynchronization`, the synchronizationPointAchieved service. -/
def unregisterSynchronization (h : FederateHandle) (label : String) : Outcome Federation :=
  f.asMember h <|
    if label = "" then .refused f .rtiInternalError
    else f.withFederate h fun fed =>
      if label ∉ fed.syncLabels then .refused f .rtiInternalError
      else
        let achieved := f.adjustFederate h fun fed =>
          { fed with syncLabels := fed.syncLabels.erase label }
        if achieved.federates.any (fun fed => label ∈ fed.syncLabels) then .done achieved []
        else
          let done := { achieved with
            synchronizationLabels := drop Prod.fst label achieved.synchronizationLabels }
          answering done [] (done.respondToAll (.federationSynchronized label) 0)

/-! ## Saving -/

/-- Every member is saving. -/
def startSave (label : String) : Federation :=
  { f with
    federates := f.federates.map fun fed : Federate => { fed with isSaving := true }
    saveStatus := true
    saveInProgress := true
    saveLabel := label }

/-- `requestFederationSave`. The overload with a time inserts its responses twice; the second
copies have been moved from, and sending them dereferences null. -/
def requestFederationSave (h : FederateHandle) (label : String) (timed : Bool) :
    Outcome Federation :=
  f.asMember h <|
    if f.saveInProgress then .refused f .saveInProgress
    else
      let saving := f.startSave label
      match saving.respondToAll (.initiateFederateSave label) 0 with
      | .error e => .refused saving e
      | .ok sent => .done { saving with crashed := timed && !sent.isEmpty || f.crashed } sent

def federateSaveBegun (h : FederateHandle) : Outcome Federation := f.asMember h (.done f [])

/-- The federate no longer saves, and a failure is remembered. -/
def reported (h : FederateHandle) (status : Bool) : Federation :=
  { f.adjustFederate h (fun fed => { fed with isSaving := false }) with
    saveStatus := f.saveStatus && status }

/-- `federateSaveStatus`, the federateSaveComplete and federateSaveNotComplete services. -/
def federateSaveStatus (h : FederateHandle) (status : Bool) : Outcome Federation :=
  f.withFederate h fun _ =>
    let reported := f.reported h status
    if reported.federates.any (·.isSaving) then .done reported []
    else
      -- `saveXmlData` succeeds exactly in a build with an XML library
      let saved := reported.saveStatus && f.haveXml
      let verdict := if saved then NetworkMessage.federationSaved else .federationNotSaved
      match reported.respondToAll verdict 0 with
      | .error e => .refused { reported with saveStatus := saved } e
      | .ok sent => .done { reported with saveStatus := true, saveInProgress := false } sent

/-! ## Objects -/

/-- `registerObject` makes a name from the handle when none is given; it does not check the
federate, whose publications alone admit it. -/
def registerObject (h : FederateHandle) (classHandle : ObjectClassHandle) (name : String) :
    Outcome Federation :=
  let object := f.nextObject
  let named := if name = "" then "HLAObject_" ++ toString object else name
  { f with nextObject := object + 1 }.onRoot
    (·.registerObjectInstance h classHandle object named)

/-- `registerObjectWithRegion`: the instance is registered before the region is looked up. -/
def registerObjectWithRegion (h : FederateHandle) (classHandle : ObjectClassHandle)
    (name : String) (region : RegionHandle) (hs : List AttributeHandle) : Outcome Federation :=
  f.asMember h <|
    let object := f.nextObject
    let registered := f.registerObject h classHandle name
    match registered.error with
    | some _ => registered
    | none =>
      let associated := registered.state.onRoot (·.associate object region hs)
      match associated.error with
      | some e => .refused associated.state e
      | none => .done associated.state registered.sent

end Federation

end Certi
