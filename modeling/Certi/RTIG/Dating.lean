import Certi.LibCERTI.ValueBroadcast
import Certi.RTIG.Run

/-!
# Dates of interactions and updates

`MessageProcessor.cc` and `Federation.cc` for Send_Interaction and
Update_Attribute_Values. The processor chooses the overload with or without
time by the arguments it writes; an undated interaction is given the number of
its parameters where the overload without time has no argument, and that
number is its time. What the MOM then counts and reports in messages of its own,
and the answer to the sender, are left out.
-/
namespace Certi

open Collect Keyed Runs

variable {V : Type}

structure SendInteraction (V : Type) where
  federate : FederateHandle
  interactionClass : InteractionClassHandle
  date : Option Date
  region : RegionHandle
  label : String
  parameters : List ParameterHandle
  values : List V

structure UpdateAttributeValues (V : Type) where
  federate : FederateHandle
  object : ObjectHandle
  date : Option Date
  label : String
  attributes : List AttributeHandle
  values : List V

inductive ValueRequest (V : Type) where
  | sendInteraction (r : SendInteraction V)
  | updateAttributeValues (r : UpdateAttributeValues V)

/-- The messages that carry values to a federate. -/
inductive ValueMessage (V : Type) where
  | receiveInteraction (m : ReceiveInteraction V)
  | reflectAttributeValues (m : AttributeMessage V)
  deriving DecidableEq

/-- The size checks of both kinds of values, which depend on the data types of the FOM. -/
structure SizeChecks (V : Type) where
  ofParameter : InteractionClassHandle → ParameterHandle → V → Except Stop Unit
  ofAttribute : ObjectClassHandle → AttributeHandle → V → Except Stop Unit

def AttributeMessage.date : AttributeMessage V → Option Date
  | .rav message => message.date
  | .raoa _ => none

theorem AttributeMessage.ReflectsAt.date {date : Option Date} {m : AttributeMessage V}
    (reflects : m.ReflectsAt date) : m.date = date := by
  cases m with
  | rav message => exact reflects
  | raoa message => cases reflects

namespace ValueRequest

def date : ValueRequest V → Option Date
  | sendInteraction r => r.date
  | updateAttributeValues r => r.date

def isUpdate : ValueRequest V → Bool
  | sendInteraction _ => false
  | updateAttributeValues _ => true

end ValueRequest

/-- The queues of an RTIA. -/
inductive Queue where
  | fifo | tso
  deriving DecidableEq, Repr

namespace ValueMessage

def date : ValueMessage V → Option Date
  | receiveInteraction m => m.date
  | reflectAttributeValues m => m.date

/-- `RTIA_network.cc`: a message is timestamp ordered if it is dated, what it carries is ordered
by timestamp and the federate is constrained. -/
def queue (timestampOrdered constrained : Bool) (m : ValueMessage V) : Queue :=
  if m.date.isSome && timestampOrdered && constrained then .tso else .fifo

end ValueMessage

namespace Federation

variable (f : Federation) (checks : SizeChecks V) (region : RegionHandle → RTIRegion)

/-- The region of an interaction; 0 is the default region. -/
def interactionRegion (h : RegionHandle) : Except Stop (Option RegionHandle) :=
  if h = 0 then .ok none else (Stop.lift (f.root.getRegion h)).map fun r => some r.handle

def checkMember (h : FederateHandle) : Except Stop Unit :=
  if f.check h then .ok () else .error (.thrown .federateNotExecutionMember)

def broadcastInteractionWithTime (fed : FederateHandle) (interaction : InteractionClassHandle)
    (parameters : List ParameterHandle) (values : List V) (time : Date) (h : RegionHandle)
    (tag : String) : Except Stop (InteractionResponses V) := do
  f.checkMember fed
  let update ← f.interactionRegion h
  f.root.broadcastInteraction region (fun i => i.sendInteractionWithTime
    (checks.ofParameter i.handle) f.root.server region fed parameters values time update tag)
    interaction update

def broadcastInteractionWithoutTime (fed : FederateHandle) (interaction : InteractionClassHandle)
    (parameters : List ParameterHandle) (values : List V) (h : RegionHandle)
    (tag : String) : Except Stop (InteractionResponses V) := do
  f.checkMember fed
  let update ← f.interactionRegion h
  f.root.broadcastInteraction region (fun i => i.sendInteractionWithoutTime
    (checks.ofParameter i.handle) f.root.server region fed parameters values update tag)
    interaction update

def updateAttributeValuesWithTime (fed : FederateHandle) (object : ObjectHandle)
    (attributes : List AttributeHandle) (values : List V) (time : Date) (tag : String) :
    Except Stop (List (FederateHandle × AttributeMessage V)) := do
  f.checkMember fed
  let o ← Stop.lift (f.root.getObject object)
  f.root.updateAttributeValues region (fun c => c.updateAttributeValuesWithTime
    (checks.ofAttribute c.handle) f.root.server region fed o attributes values time tag) o

def updateAttributeValuesWithoutTime (fed : FederateHandle) (object : ObjectHandle)
    (attributes : List AttributeHandle) (values : List V) (tag : String) :
    Except Stop (List (FederateHandle × AttributeMessage V)) := do
  f.checkMember fed
  let o ← Stop.lift (f.root.getObject object)
  f.root.updateAttributeValues region (fun c => c.updateAttributeValuesWithoutTime
    (checks.ofAttribute c.handle) f.root.server region fed o attributes values tag) o

/-- `MessageProcessor::process(NM_Send_Interaction)`. Without a date the fifth argument is the
number of parameters, and seven arguments are those of the overload with time. -/
def processSendInteraction (r : SendInteraction V) : Except Stop (InteractionResponses V) :=
  match r.date with
  | some date => f.broadcastInteractionWithTime checks region r.federate r.interactionClass
      r.parameters r.values date r.region r.label
  | none => f.broadcastInteractionWithTime checks region r.federate r.interactionClass
      r.parameters r.values (r.parameters.length : FederationTime) r.region r.label

/-- `MessageProcessor::process(NM_Update_Attribute_Values)`. -/
def processUpdateAttributeValues (r : UpdateAttributeValues V) :
    Except Stop (List (FederateHandle × AttributeMessage V)) :=
  match r.date with
  | some date => f.updateAttributeValuesWithTime checks region r.federate r.object r.attributes
      r.values date r.label
  | none => f.updateAttributeValuesWithoutTime checks region r.federate r.object r.attributes
      r.values r.label

/-- The messages that a request produces, in order. -/
def processValues : ValueRequest V → Except Stop (List (ValueMessage V))
  | .sendInteraction r => (f.processSendInteraction checks region r).map
      fun sent => sent.map fun response => .receiveInteraction response.2
  | .updateAttributeValues r => (f.processUpdateAttributeValues checks region r).map
      fun sent => sent.map fun response => .reflectAttributeValues response.2

/-- What a request produces is dated as the request is, and goes into the queue of the received
order when that is not dated. -/
structure DatedAsSent (r : ValueRequest V) (sent : List (ValueMessage V)) : Prop where
  dated : ∀ m ∈ sent, m.date = r.date
  received : r.date = none → ∀ m ∈ sent, ∀ timestampOrdered constrained,
    m.queue timestampOrdered constrained = .fifo

variable {f checks region}

theorem map_success {α β : Type} {r : Except Stop α} {g : α → β} {b : β}
    (success : r.map g = .ok b) : ∃ a, r = .ok a ∧ g a = b := by
  cases r with
  | error e => cases success
  | ok a =>
    cases success
    exact ⟨a, rfl, rfl⟩

/-- Whatever the date, an accepted interaction makes a message, and every message has that date. -/
theorem broadcastInteractionWithTime_dated {fed : FederateHandle}
    {interaction : InteractionClassHandle} {parameters : List ParameterHandle} {values : List V}
    {time : Date} {h : RegionHandle} {tag : String} {sent : InteractionResponses V}
    (accepted : f.broadcastInteractionWithTime checks region fed interaction parameters values time
      h tag = .ok sent) : sent ≠ [] ∧ ∀ response ∈ sent, response.2.date = some time := by
  obtain ⟨_, _, checked⟩ := bind_success accepted
  obtain ⟨update, _, broadcast⟩ := bind_success checked
  exact broadcastInteraction_dated broadcast

theorem processUpdateAttributeValues_dated {r : UpdateAttributeValues V}
    {sent : List (FederateHandle × AttributeMessage V)}
    (accepted : f.processUpdateAttributeValues checks region r = .ok sent) :
    ∀ response ∈ sent, response.2.date = r.date := by
  have reflects : ∀ response ∈ sent, response.2.ReflectsAt r.date := by
    unfold processUpdateAttributeValues at accepted
    cases date : r.date with
    | some time =>
      simp only [date] at accepted
      obtain ⟨_, _, checked⟩ := bind_success accepted
      obtain ⟨o, _, updated⟩ := bind_success checked
      exact updateAttributeValues_dated updated
    | none =>
      simp only [date] at accepted
      obtain ⟨_, _, checked⟩ := bind_success accepted
      obtain ⟨o, _, updated⟩ := bind_success checked
      exact updateAttributeValues_dated updated
  exact fun response member => (reflects response member).date

theorem datedAsSent {r : ValueRequest V} {sent : List (ValueMessage V)}
    (dated : ∀ m ∈ sent, m.date = r.date) : DatedAsSent r sent := by
  refine ⟨dated, fun undated m member timestampOrdered constrained => ?_⟩
  rw [ValueMessage.queue, dated m member, undated]
  rfl

/-- An accepted request produces messages dated as it is exactly if it is dated or an update. -/
theorem dated_as_sent_iff (f : Federation) (checks : SizeChecks V)
    (region : RegionHandle → RTIRegion) (r : ValueRequest V) (sent : List (ValueMessage V))
    (accepted : f.processValues checks region r = .ok sent) :
    DatedAsSent r sent ↔ r.date.isSome = true ∨ r.isUpdate = true := by
  cases r with
  | updateAttributeValues r =>
    refine iff_of_true (datedAsSent fun m member => ?_) (.inr rfl)
    obtain ⟨responses, processed, rfl⟩ := map_success accepted
    obtain ⟨response, listed, rfl⟩ := List.mem_map.mp member
    exact processUpdateAttributeValues_dated processed response listed
  | sendInteraction r =>
    obtain ⟨responses, processed, rfl⟩ := map_success accepted
    unfold processSendInteraction at processed
    cases date : r.date with
    | some time =>
      simp only [date] at processed
      obtain ⟨_, dated⟩ := broadcastInteractionWithTime_dated processed
      refine iff_of_true (datedAsSent fun m member => ?_) (.inl ?_)
      · obtain ⟨response, listed, rfl⟩ := List.mem_map.mp member
        exact (dated response listed).trans date.symm
      · rw [ValueRequest.date, date]
        rfl
    | none =>
      simp only [date] at processed
      obtain ⟨answered, dated⟩ := broadcastInteractionWithTime_dated processed
      refine iff_of_false (fun sound => ?_) ?_
      · obtain ⟨response, listed⟩ := List.exists_mem_of_ne_nil _ answered
        have undated := sound.dated _ (List.mem_map_of_mem listed)
        have numbered := (dated response listed).symm.trans (undated.trans date)
        cases numbered
      · simp [ValueRequest.date, ValueRequest.isUpdate, date]

/-- One class of interactions with one parameter, `smallFom` otherwise. -/
def interactionFom : Fom :=
  { smallFom with
    interactions := [⟨0, [1], 0⟩]
    superInteractions := by decide }

/-- A federate publishes the interaction, another subscribes to it. -/
def exchanging : Federation :=
  rtig.exec (create interactionFom false true)
    [joinAs "a", joinAs "b", .publishInteraction 1 1 true, .subscribeInteraction 2 1 true]

def unchecked : SizeChecks String := ⟨fun _ _ _ => .ok (), fun _ _ _ => .ok ()⟩

/-- An interaction with one parameter. -/
def interactionAt (date : Option Date) : ValueRequest String :=
  .sendInteraction ⟨1, 1, date, 0, "tag", [1], ["v"]⟩

theorem dated_as_sent_iff_dated :
    DatedAsSent (interactionAt (some 7))
        [.receiveInteraction ⟨1, 1, some 7, "tag", [1], ["v"]⟩] ↔
      (interactionAt (some 7)).date.isSome = true ∨ (interactionAt (some 7)).isUpdate = true :=
  dated_as_sent_iff exchanging unchecked (fun _ => ⟨0, 0, []⟩) (interactionAt (some 7)) _
    (by decide +kernel)

/-- An undated interaction with one parameter arrives dated 1, and enters the queue of a
constrained federate's timestamp order. -/
theorem undated_interaction_dated :
    ¬ ∀ (f : Federation) (checks : SizeChecks String) (region : RegionHandle → RTIRegion)
      (r : ValueRequest String) (sent : List (ValueMessage String)),
      f.processValues checks region r = .ok sent → DatedAsSent r sent := by
  intro always
  have sound := always exchanging unchecked (fun _ => ⟨0, 0, []⟩) (interactionAt none)
    [.receiveInteraction ⟨1, 1, some 1, "tag", [1], ["v"]⟩] (by decide +kernel)
  have undated := sound.dated _ List.mem_cons_self
  cases undated

end Federation

end Certi
