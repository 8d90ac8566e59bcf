import Certi.Lib.Collect
import Certi.LibCERTI.ClassBroadcast

/-!
# Broadcasts of values

`Interaction::sendInteraction`, `InteractionBroadcastList.cc` and
`ObjectClass::updateAttributeValues`, with the loops of `InteractionSet.cc` and
`ObjectClassSet.cc` that take the broadcast to the superclasses. The overloads
with and without time differ in the `setDate` of the message. What a value is
and how its size is checked are parameters; a refused size only warns.
-/
namespace Certi

open Collect Keyed

variable {V : Type}

/-- The loop that asks for each parameter or attribute and checks the size of its value. -/
def checkEach (check : Nat → V → Except Stop Unit) (defined : Nat → Except Stop Unit) :
    List Nat → List V → Except Stop Unit
  | [], _ => return ()
  | h :: rest, values => do
    defined h
    match values with
    | [] => throw .outOfBounds
    | v :: values => do
      check h v
      checkEach check defined rest values

/-- A loop that ends has found a value for every parameter, and every parameter. -/
theorem checkEach_success {check : Nat → V → Except Stop Unit} {defined : Nat → Except Stop Unit}
    {keys : List Nat} : ∀ {values : List V}, checkEach check defined keys values = .ok () →
      keys.length ≤ values.length ∧ ∀ k ∈ keys, defined k = .ok () := by
  induction keys with
  | nil => exact fun _ => ⟨Nat.zero_le _, fun k member => absurd member List.not_mem_nil⟩
  | cons k rest ih =>
    intro values done
    unfold checkEach at done
    obtain ⟨_, known, more⟩ := bind_success done
    cases values with
    | nil => cases more
    | cons v values =>
      obtain ⟨_, _, later⟩ := bind_success more
      obtain ⟨enough, all⟩ := ih later
      refine ⟨Nat.succ_le_succ enough, fun k' member => ?_⟩
      rcases List.mem_cons.mp member with rfl | inside
      · exact known
      · exact all k' inside

/-! ## Interactions -/

structure ReceiveInteraction (V : Type) where
  federate : FederateHandle
  interactionClass : InteractionClassHandle
  date : Option Date
  label : String
  parameters : List ParameterHandle
  values : List V
  deriving DecidableEq

structure InteractionBroadcastList (V : Type) where
  message : ReceiveInteraction V
  lines : List (FederateHandle × LineState)

/-- One message goes to many federates. -/
abbrev InteractionResponses (V : Type) := List (List FederateHandle × ReceiveInteraction V)

namespace InteractionBroadcastList

/-- The constructor: the sender counts as told. -/
def create (message : ReceiveInteraction V) : InteractionBroadcastList V :=
  ⟨message, if message.federate ≠ 0 then [(message.federate, .sent)] else []⟩

def addFederate (l : InteractionBroadcastList V) (fed : FederateHandle) :
    InteractionBroadcastList V :=
  match lookup Prod.fst fed l.lines with
  | none => { l with lines := l.lines ++ [(fed, .waiting)] }
  | some _ => l

/-- A federate without references is skipped, but counts as told. The response is there even
when it goes to nobody. -/
def preparePendingMessage (server : SecurityServer) (l : InteractionBroadcastList V) :
    InteractionBroadcastList V × InteractionResponses V :=
  ({ l with lines := l.lines.map fun line =>
      if line.2 = .waiting then (line.1, .sent) else line },
    [((l.lines.filter fun line =>
      line.2 = .waiting && server.hasReferences line.1).map Prod.fst, l.message)])

/-- `Subscribable::addFederatesIfOverlap`. -/
def addFederatesIfOverlap (region : RegionHandle → RTIRegion) (l : InteractionBroadcastList V)
    (update : Option RegionHandle) (subscribers : List Subscriber) :
    Except RTIException (InteractionBroadcastList V) :=
  subscribers.foldlM (fun (l : InteractionBroadcastList V) (s : Subscriber) => do
    if ← s.matches region update then return l.addFederate s.handle else return l) l

end InteractionBroadcastList

namespace Interaction

def hasParameter (i : Interaction) (h : ParameterHandle) : Bool := h ∈ i.parameters

/-- `removeParameters` for every parameter the class does not have; the values stay. -/
def broadcastInteractionMessage (server : SecurityServer) (region : RegionHandle → RTIRegion)
    (i : Interaction) (l : InteractionBroadcastList V) (update : Option RegionHandle) :
    Except Stop (InteractionBroadcastList V × InteractionResponses V) := do
  let own := { l with message := { l.message with
    interactionClass := i.handle
    parameters := l.message.parameters.filter i.hasParameter } }
  let listed ← Stop.lift (own.addFederatesIfOverlap region update i.subscribers)
  return listed.preparePendingMessage server

/-- The body of both `sendInteraction`; `list_size` is a `uint16_t`. -/
def sendDated (checkSizeData : ParameterHandle → V → Except Stop Unit)
    (server : SecurityServer) (region : RegionHandle → RTIRegion) (i : Interaction)
    (date : Option Date) (fed : FederateHandle) (parameters : List ParameterHandle)
    (values : List V) (update : Option RegionHandle) (tag : String) :
    Except Stop (InteractionBroadcastList V × InteractionResponses V) :=
  let size := parameters.length % 2 ^ 16
  let message : ReceiveInteraction V :=
    ⟨fed, i.handle, date, tag, parameters.take size, values.take size⟩
  if !i.isPublishing fed then throw (.thrown .federateNotPublishing)
  else do
    checkEach checkSizeData (fun h =>
      if i.hasParameter h then return () else throw (.thrown .interactionParameterNotDefined))
      (parameters.take size) values
    i.broadcastInteractionMessage server region (.create message) update

def sendInteractionWithTime (checkSizeData : ParameterHandle → V → Except Stop Unit)
    (server : SecurityServer) (region : RegionHandle → RTIRegion) (i : Interaction)
    (fed : FederateHandle) (parameters : List ParameterHandle) (values : List V) (time : Date)
    (update : Option RegionHandle) (tag : String) :=
  i.sendDated checkSizeData server region (some time) fed parameters values update tag

def sendInteractionWithoutTime (checkSizeData : ParameterHandle → V → Except Stop Unit)
    (server : SecurityServer) (region : RegionHandle → RTIRegion) (i : Interaction)
    (fed : FederateHandle) (parameters : List ParameterHandle) (values : List V)
    (update : Option RegionHandle) (tag : String) :=
  i.sendDated checkSizeData server region none fed parameters values update tag

end Interaction

/-! ## Updates -/

namespace ObjectClass

/-- The body of both `updateAttributeValues`. -/
def updateDated (checkSizeData : AttributeHandle → V → Except Stop Unit)
    (server : SecurityServer) (region : RegionHandle → RTIRegion) (c : ObjectClass)
    (date : Option Date) (fed : FederateHandle) (object : Object)
    (attributes : List AttributeHandle) (values : List V) (tag : String) :
    Except Stop (ObjectClassBroadcastList V × List (FederateHandle × AttributeMessage V)) := do
  checkEach (fun h v => do
    checkSizeData h v
    let oa ← Stop.lift (object.getAttribute h)
    if oa.owner = fed then return () else throw (.thrown .attributeNotOwned))
    (fun h => do
      let _ ← Stop.lift (object.getAttribute h)
      return ()) attributes values
  c.broadcastClassMessage server region
    (.create (.rav ⟨fed, object.handle, date, tag, attributes, values.take attributes.length⟩)
      c.attributes.length) (some object)

def updateAttributeValuesWithTime (checkSizeData : AttributeHandle → V → Except Stop Unit)
    (server : SecurityServer) (region : RegionHandle → RTIRegion) (c : ObjectClass)
    (fed : FederateHandle) (object : Object) (attributes : List AttributeHandle)
    (values : List V) (time : Date) (tag : String) :=
  c.updateDated checkSizeData server region (some time) fed object attributes values tag

def updateAttributeValuesWithoutTime (checkSizeData : AttributeHandle → V → Except Stop Unit)
    (server : SecurityServer) (region : RegionHandle → RTIRegion) (c : ObjectClass)
    (fed : FederateHandle) (object : Object) (attributes : List AttributeHandle)
    (values : List V) (tag : String) :=
  c.updateDated checkSizeData server region none fed object attributes values tag

end ObjectClass

/-! ## The class sets -/

namespace RootObject

variable (root : RootObject)

/-- The `while` over the superclasses of an interaction. The tree is no deeper than the number of
its classes. -/
def passToSuperclasses (region : RegionHandle → RTIRegion) (update : Option RegionHandle) :
    Nat → InteractionClassHandle → InteractionBroadcastList V →
      Except Stop (InteractionResponses V)
  | 0, _, _ => return []
  | fuel + 1, current, list =>
    if current = 0 then return []
    else do
      let i ← Stop.lift (root.getInteraction current)
      let (next, sent) ← i.broadcastInteractionMessage root.server region list update
      return sent ++ (← passToSuperclasses region update fuel i.superClass next)

/-- `InteractionSet::broadcastInteraction`, with the `sendInteraction` of its overload. -/
def broadcastInteraction (region : RegionHandle → RTIRegion)
    (send : Interaction → Except Stop (InteractionBroadcastList V × InteractionResponses V))
    (interaction : InteractionClassHandle) (update : Option RegionHandle) :
    Except Stop (InteractionResponses V) := do
  let i ← Stop.lift (root.getInteraction interaction)
  let (list, sent) ← send i
  return sent ++ (← root.passToSuperclasses region update root.interactions.length i.superClass
    list)

/-- `ObjectClassSet::updateAttributeValues`, with that of the class of its overload. -/
def updateAttributeValues (region : RegionHandle → RTIRegion)
    (update : ObjectClass →
      Except Stop (ObjectClassBroadcastList V × List (FederateHandle × AttributeMessage V)))
    (object : Object) : Except Stop (List (FederateHandle × AttributeMessage V)) := do
  let c ← Stop.lift (root.getObjectFromHandle object.classHandle)
  let (list, sent) ← update c
  return sent ++ (← root.broadcastToSuperclasses region (some object) root.classes.length
    c.superClass (some list))

end RootObject

/-! ## The date of a broadcast -/

theorem Stop.lift_ok {α : Type} {r : Except RTIException α} {a : α} (done : Stop.lift r = .ok a) :
    r = .ok a := by
  cases r with
  | ok b =>
    cases done
    rfl
  | error e => cases done

section interactions

variable {server : SecurityServer} {region : RegionHandle → RTIRegion}
  {update : Option RegionHandle}

/-- Every response of a broadcast carries the date of the list, which the list keeps. -/
structure CarriesDate (l next : InteractionBroadcastList V) (sent : InteractionResponses V) :
    Prop where
  kept : next.message.date = l.message.date
  answered : sent ≠ []
  dated : ∀ r ∈ sent, r.2.date = l.message.date

theorem addFederate_message (l : InteractionBroadcastList V) (fed : FederateHandle) :
    (l.addFederate fed).message = l.message := by
  unfold InteractionBroadcastList.addFederate
  split <;> rfl

theorem addFederatesIfOverlap_message {l next : InteractionBroadcastList V}
    {subscribers : List Subscriber}
    (done : l.addFederatesIfOverlap region update subscribers = .ok next) :
    next.message = l.message := by
  refine foldlM_keeps (p := fun next => next.message = l.message) ?_ rfl done
  intro s a s' same success
  obtain ⟨overlap, _, added⟩ := bind_success success
  cases overlap with
  | false =>
    cases added
    exact same
  | true =>
    cases added
    rw [addFederate_message, same]

theorem broadcastInteractionMessage_dated {i : Interaction} {l next : InteractionBroadcastList V}
    {sent : InteractionResponses V}
    (done : i.broadcastInteractionMessage server region l update = .ok (next, sent)) :
    CarriesDate l next sent := by
  unfold Interaction.broadcastInteractionMessage at done
  obtain ⟨listed, added, told⟩ := bind_success done
  cases told
  have message := addFederatesIfOverlap_message (Stop.lift_ok added)
  have date : listed.message.date = l.message.date := by rw [message]
  refine ⟨date, List.cons_ne_nil _ _, ?_⟩
  intro r member
  rw [List.mem_singleton.mp member]
  exact date

theorem passToSuperclasses_dated {root : RootObject} (fuel : Nat) :
    ∀ {current : InteractionClassHandle} {l : InteractionBroadcastList V}
      {sent : InteractionResponses V},
      root.passToSuperclasses region update fuel current l = .ok sent →
        ∀ r ∈ sent, r.2.date = l.message.date := by
  induction fuel with
  | zero =>
    intro current l sent done r member
    cases done
    cases member
  | succ fuel ih =>
    intro current l sent done r member
    unfold RootObject.passToSuperclasses at done
    split at done
    · cases done
      cases member
    · obtain ⟨i, _, broadcast⟩ := bind_success done
      obtain ⟨⟨next, here⟩, own, passed⟩ := bind_success broadcast
      obtain ⟨above, later, all⟩ := bind_success passed
      cases all
      have carries := broadcastInteractionMessage_dated own
      rcases List.mem_append.mp member with first | rest
      · exact carries.dated r first
      · rw [ih later r rest, carries.kept]

/-- A broadcast has a message, and all have the date it was sent with. -/
theorem broadcastInteraction_dated {root : RootObject}
    {checkSizeData : InteractionClassHandle → ParameterHandle → V → Except Stop Unit}
    {date : Option Date} {fed : FederateHandle} {parameters : List ParameterHandle}
    {values : List V} {tag : String} {interaction : InteractionClassHandle}
    {sent : InteractionResponses V}
    (done : root.broadcastInteraction region
      (fun i => i.sendDated (checkSizeData i.handle) root.server region date fed parameters values
        update tag) interaction update = .ok sent) :
    sent ≠ [] ∧ ∀ r ∈ sent, r.2.date = date := by
  unfold RootObject.broadcastInteraction at done
  obtain ⟨i, _, broadcast⟩ := bind_success done
  obtain ⟨⟨list, here⟩, own, passed⟩ := bind_success broadcast
  obtain ⟨above, later, all⟩ := bind_success passed
  cases all
  unfold Interaction.sendDated at own
  dsimp only at own
  split at own
  · cases own
  · obtain ⟨_, _, told⟩ := bind_success own
    have carries := broadcastInteractionMessage_dated told
    refine ⟨fun none => carries.answered (List.append_eq_nil_iff.mp none).1, ?_⟩
    intro r member
    rcases List.mem_append.mp member with first | rest
    · exact carries.dated r first
    · rw [passToSuperclasses_dated _ later r rest]
      exact carries.kept

end interactions

/-! ### Updates -/

/-- A Reflect_Attribute_Values with this date. -/
def AttributeMessage.ReflectsAt (date : Option Date) : AttributeMessage V → Prop
  | .rav message => message.date = date
  | .raoa _ => False

section updates

variable {server : SecurityServer} {region : RegionHandle → RTIRegion} {date : Option Date}

theorem trimRAV_reflects {c : ObjectClass} {l next : ObjectClassBroadcastList V}
    (reflects : l.message.ReflectsAt date) (done : l.trimRAV c = .ok next) :
    next.message.ReflectsAt date := by
  obtain ⟨message, found, trimmed⟩ := bind_success done
  cases trimmed
  unfold ObjectClassBroadcastList.getMsgRAV at found
  split at found
  · rename_i held
    cases found
    rw [held] at reflects
    exact reflects
  · cases found

theorem addSubscribers_message {c : ObjectClass} {o : Object}
    {l next : ObjectClassBroadcastList V} (done : l.addSubscribers region c o = .ok next) :
    next.message = l.message := by
  refine foldlM_keeps (p := fun next => next.message = l.message) ?_ rfl done
  intro s a s' same success
  split at success
  · cases success
    exact same
  · obtain ⟨oa, _, added⟩ := bind_success success
    refine foldlM_keeps (p := fun next => next.message = l.message) ?_ same added
    intro t subscriber t' before each
    obtain ⟨overlap, _, listed⟩ := bind_success each
    cases overlap with
    | false =>
      cases listed
      exact before
    | true =>
      obtain ⟨lines, _, put⟩ := bind_success listed
      cases put
      exact before

theorem messageFor_reflects {l : ObjectClassBroadcastList V} (line : ObjectBroadcastLine)
    (reflects : l.message.ReflectsAt date) : (l.messageFor line).ReflectsAt date := by
  unfold ObjectClassBroadcastList.messageFor
  split
  · exact reflects
  · cases held : l.message with
    | rav message =>
      rw [held] at reflects
      exact reflects
    | raoa message =>
      rw [held] at reflects
      cases reflects

theorem broadcastClassMessage_dated {c : ObjectClass} {o : Object}
    {l next : ObjectClassBroadcastList V} {sent : List (FederateHandle × AttributeMessage V)}
    (reflects : l.message.ReflectsAt date)
    (done : c.broadcastClassMessage server region l (some o) = .ok (next, sent)) :
    next.message.ReflectsAt date ∧ ∀ r ∈ sent, r.2.ReflectsAt date := by
  unfold ObjectClass.broadcastClassMessage at done
  split at done
  · obtain ⟨trimmed, trim, broadcast⟩ := bind_success done
    obtain ⟨listed, added, told⟩ := bind_success broadcast
    cases told
    have kept : listed.message.ReflectsAt date := by
      rw [addSubscribers_message (Stop.lift_ok added)]
      exact trimRAV_reflects reflects trim
    refine ⟨kept, fun r member => ?_⟩
    obtain ⟨line, _, rfl⟩ := List.mem_map.mp member
    exact messageFor_reflects line kept
  · rename_i held
    rw [held] at reflects
    cases reflects

theorem broadcastToSuperclasses_dated {root : RootObject} {o : Object} (fuel : Nat) :
    ∀ {current : ObjectClassHandle} {l : ObjectClassBroadcastList V}
      {sent : List (FederateHandle × AttributeMessage V)}, l.message.ReflectsAt date →
      root.broadcastToSuperclasses region (some o) fuel current (some l) = .ok sent →
        ∀ r ∈ sent, r.2.ReflectsAt date := by
  induction fuel with
  | zero =>
    intro current l sent reflects done r member
    cases done
    cases member
  | succ fuel ih =>
    intro current l sent reflects done r member
    unfold RootObject.broadcastToSuperclasses at done
    split at done
    · cases done
      cases member
    · split at done
      · cases done
      · obtain ⟨⟨next, here⟩, own, passed⟩ := bind_success done
        obtain ⟨above, later, all⟩ := bind_success passed
        cases all
        obtain ⟨kept, dated⟩ := broadcastClassMessage_dated reflects own
        rcases List.mem_append.mp member with first | rest
        · exact dated r first
        · exact ih kept later r rest

/-- Every message of an update has the date the update was made with. -/
theorem updateAttributeValues_dated {root : RootObject}
    {checkSizeData : ObjectClassHandle → AttributeHandle → V → Except Stop Unit}
    {fed : FederateHandle} {object : Object} {attributes : List AttributeHandle}
    {values : List V} {tag : String} {sent : List (FederateHandle × AttributeMessage V)}
    (done : root.updateAttributeValues region
      (fun c => c.updateDated (checkSizeData c.handle) root.server region date fed object
        attributes values tag) object = .ok sent) : ∀ r ∈ sent, r.2.ReflectsAt date := by
  obtain ⟨c, _, broadcast⟩ := bind_success done
  obtain ⟨⟨list, here⟩, own, passed⟩ := bind_success broadcast
  obtain ⟨above, later, all⟩ := bind_success passed
  cases all
  obtain ⟨_, _, told⟩ := bind_success own
  obtain ⟨kept, dated⟩ : list.message.ReflectsAt date ∧ ∀ r ∈ here, r.2.ReflectsAt date := by
    refine broadcastClassMessage_dated ?_ told
    rfl
  intro r member
  rcases List.mem_append.mp member with first | rest
  · exact dated r first
  · exact broadcastToSuperclasses_dated _ kept later r rest

end updates

end Certi
