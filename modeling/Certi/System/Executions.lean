import Certi.LibCERTI.SocketServer
import Certi.RTIG.Frames

/-!
# The RTIG with all its federations

`RTIG/RTIG.cc`, `FederationsList.cc` and the handlers of `MessageProcessor.cc`
that create, join and destroy a federation: the connections, the federations by
their handles, and the messages that come over the connections, from whoever.
Nothing in a message but the origin that it claims says who sent it. The
federations share the connections and the process; the answers to the requests
that create and destroy a federation are left out.
-/
namespace Certi

open Runs Keyed

/-! ## Messages -/

/-- The federate in the message, for the services that come as messages. -/
def Event.sender : Event → Option FederateHandle
  | .join .. | .kill _ => none
  | .resign fed | .setTimeRegulating fed .. | .messageNull fed _ | .setTimeConstrained fed _
  | .registerSynchronization fed .. | .synchronizationPointAchieved fed _
  | .requestFederationSave fed .. | .federateSaveBegun fed | .federateSaveStatus fed _
  | .publishObject fed .. | .subscribeObject fed .. | .subscribeAttributesWR fed ..
  | .unsubscribeAttributesWR fed .. | .publishInteraction fed .. | .subscribeInteraction fed ..
  | .subscribeInteractionWR fed .. | .createRegion fed .. | .associateRegion fed ..
  | .registerObject fed .. | .registerObjectWithRegion fed .. | .deleteObject fed _
  | .ownership _ fed .. => some fed

structure ServiceRequest where
  event : Event
  federate : FederateHandle
  sent : event.sender = some federate

structure Origin where
  federation : FederationHandle
  federate : FederateHandle
  deriving DecidableEq, Repr

/-- A FOM is `none` where the constructor of the federation throws. -/
inductive RtigRequest where
  | createFederation (origin : Origin) (name : String) (fom : Option Fom) (withMom : Bool)
  | joinFederation (origin : Origin) (federation federate : String) (modulesOpen : Bool)
  | destroyFederation (name : String)
  | closeConnexion (origin : Origin)
  | service (federation : FederationHandle) (request : ServiceRequest)

/-- The origin that `processIncomingMessage` has checked: all but that of a destruction. -/
def RtigRequest.origin? : RtigRequest → Option Origin
  | .createFederation origin .. | .joinFederation origin .. | .closeConnexion origin => some origin
  | .destroyFederation _ => none
  | .service federation request => some ⟨federation, request.federate⟩

inductive RtigEvent where
  | opened (socket : Descriptor)
  | message (socket : Descriptor) (request : RtigRequest)
  | lost (socket : Descriptor)

inductive RtigError where
  | exception (e : RTIException)
  | federationExecutionDoesNotExist
  | federationExecutionAlreadyExists
  | federatesCurrentlyJoined
  deriving DecidableEq, Repr

/-- What the RTIG has a federation do, what is written to which connection, and what is thrown. -/
structure RtigAnswer where
  served : Option (FederationHandle × Event) := none
  sent : List (Descriptor × NetworkMessage) := []
  error : Option RtigError := none

/-! ## The RTIG -/

structure Execution where
  handle : FederationHandle
  name : String
  federation : Federation

structure Rtig where
  sockets : SocketServer
  /-- `my_federationHandles`; a handle that is freed is not provided again. -/
  highest : FederationHandle
  executions : List Execution
  haveXml : Bool
  /-- The process has been ended by a null dereference, or by one of its federations. -/
  crashed : Bool

/-- The last value of a handle. -/
def maximumHandle : FederationHandle := 2 ^ 32 - 1

/-- The connection that a join finds is bound to nobody yet. -/
def SocketServer.isFree (s : SocketServer) (socket : Descriptor) : Bool :=
  match s.getWithSocket socket with
  | .ok t => t.federation = 0 && t.federate = 0
  | .error _ => false

/-- Each message to the reliable link of its federate, where that is open. -/
def SocketServer.write (s : SocketServer) (federation : FederationHandle) (responses : Responses) :
    List (Descriptor × NetworkMessage) :=
  responses.filterMap fun response =>
    match s.getSocketLink federation response.1 with
    | .ok (some link) => some (link, response.2)
    | _ => none

namespace Rtig

def create (udpSocket : Descriptor) (haveXml : Bool) : Rtig :=
  { sockets := ⟨udpSocket, []⟩
    highest := 1
    executions := []
    haveXml := haveXml
    crashed := false }

variable (s : Rtig)

def searchFederation (handle : FederationHandle) : Option Execution :=
  lookup Execution.handle handle s.executions

def getFederationHandle (name : String) : Option Execution :=
  s.executions.find? fun x => x.name = name

def refuse (e : RtigError) : Rtig × RtigAnswer := (s, { error := some e })

/-- A federation does what it is asked. -/
def serve (handle : FederationHandle) (e : Event) : Rtig × RtigAnswer :=
  match s.searchFederation handle with
  | none => s.refuse .federationExecutionDoesNotExist
  | some x =>
    let (federation, sent, error) := rtig x.federation e
    ({ s with
        executions := adjust Execution.handle handle (fun x => { x with federation := federation })
          s.executions
        crashed := federation.crashed },
      { served := some (handle, e)
        sent := s.sockets.write handle sent
        error := error.map .exception })

/-- The handle is provided before anything is checked. -/
def createFederation (name : String) (fom : Option Fom) (withMom : Bool) : Rtig × RtigAnswer :=
  if s.highest = maximumHandle then s.refuse (.exception .rtiInternalError)
  else
    let provided := { s with highest := s.highest + 1 }
    if name = "" then provided.refuse (.exception .rtiInternalError)
    else if (s.getFederationHandle name).isSome then
      provided.refuse .federationExecutionAlreadyExists
    else
      match fom with
      | none => provided.refuse (.exception .couldNotOpenFED)
      | some fom =>
        ({ provided with
            executions := s.executions ++
              [⟨s.highest, name, Federation.create fom withMom s.haveXml⟩] }, {})

/-- The references are set once nothing else can fail. -/
def joinFederation (socket : Descriptor) (name federate : String) (modulesOpen : Bool) :
    Rtig × RtigAnswer :=
  if name = "" || federate = "" then s.refuse (.exception .rtiInternalError)
  else
    match s.getFederationHandle name with
    | none => s.refuse .federationExecutionDoesNotExist
    | some x =>
      let e := Event.join federate ⟨modulesOpen, s.sockets.isFree socket⟩
      let sockets := if (rtig x.federation e).2.2 = none then
          (s.sockets.setReferences socket x.handle x.federation.nextFederate).1
        else s.sockets
      { s with sockets := sockets }.serve x.handle e

/-- `empty` throws where a federate is joined. -/
def destroyFederation (name : String) : Rtig × RtigAnswer :=
  match s.getFederationHandle name with
  | none => s.refuse .federationExecutionDoesNotExist
  | some x =>
    if x.federation.federates.isEmpty then
      ({ s with executions := drop Execution.handle x.handle s.executions }, {})
    else s.refuse .federatesCurrentlyJoined

/-- In an emergency the federate of the connection is killed, after its link is closed; what
`killFederate` throws is caught. -/
def closeConnection (socket : Descriptor) (emergency : Bool) : Rtig × RtigAnswer :=
  let closed := { s with sockets := (s.sockets.close socket).1 }
  match s.sockets.getWithSocket socket with
  | .error _ => (closed, {})
  | .ok t =>
    if emergency then
      let (killed, answer) := closed.serve t.federation (.kill t.federate)
      (killed, { answer with error := none })
    else (closed, {})

/-- `MessageProcessor`. -/
def process (socket : Descriptor) : RtigRequest → Rtig × RtigAnswer
  | .createFederation _ name fom withMom => s.createFederation name fom withMom
  | .joinFederation _ federation federate modulesOpen =>
    s.joinFederation socket federation federate modulesOpen
  | .destroyFederation name => s.destroyFederation name
  | .closeConnexion _ => s.closeConnection socket false
  | .service federation request => s.serve federation request.event

/-- `processIncomingMessage`. -/
def processIncomingMessage (socket : Descriptor) (request : RtigRequest) : Rtig × RtigAnswer :=
  match request.origin? with
  | none => s.process socket request
  | some origin =>
    match s.sockets.checkMessage socket origin.federation origin.federate with
    | .returned => s.process socket request
    | .thrown e => s.refuse (.exception e)
    | .crashed => ({ s with crashed := true }, { error := some (.exception .networkError) })

end Rtig

/-- The RTIG; once its process is over, a request finds no connection. -/
def rtigServer : Machine Rtig RtigEvent RtigAnswer := fun s e =>
  if s.crashed then (s, { error := some (.exception .networkError) })
  else
    match e with
    | .opened socket => ({ s with sockets := s.sockets.opened socket }, {})
    | .message socket request => s.processIncomingMessage socket request
    | .lost socket => s.closeConnection socket true

/-- What the operating system answers for: `accept` gives a descriptor that is not in use, and
messages come over connections that are open. -/
def Rtig.Possible (s : Rtig) : RtigEvent → Prop
  | .opened socket => socket ≠ 0 ∧ socket ≠ s.sockets.udpSocket ∧
    ∀ t ∈ s.sockets.tuples, t.reliableLink ≠ some socket
  | .message socket _ | .lost socket => ∃ t ∈ s.sockets.tuples, t.reliableLink = some socket

instance (s : Rtig) : ∀ e, Decidable (s.Possible e)
  | .opened socket => inferInstanceAs (Decidable (socket ≠ 0 ∧ socket ≠ s.sockets.udpSocket ∧
      ∀ t ∈ s.sockets.tuples, t.reliableLink ≠ some socket))
  | .message socket _ =>
    inferInstanceAs (Decidable (∃ t ∈ s.sockets.tuples, t.reliableLink = some socket))
  | .lost socket =>
    inferInstanceAs (Decidable (∃ t ∈ s.sockets.tuples, t.reliableLink = some socket))

/-! ## What is seen from outside -/

def NetworkMessage.welcomes : NetworkMessage → Option FederateHandle
  | .joinFederationExecution federate _ => some federate
  | _ => none

/-- The federation and the handle that the answer to a join gives. -/
def RtigAnswer.joined (answer : RtigAnswer) : Option (FederationHandle × FederateHandle) :=
  match answer.served, answer.sent.findSome? fun written => written.2.welcomes with
  | some (handle, _), some fed => some (handle, fed)
  | _, _ => none

/-- For whom each connection speaks: whoever has last been answered over it that he has joined. -/
def hear (speaks : Descriptor → Option (FederationHandle × FederateHandle))
    (entry : RtigEvent × RtigAnswer) : Descriptor → Option (FederationHandle × FederateHandle) :=
  match entry.1 with
  | .opened _ => speaks
  | .lost socket | .message socket (.closeConnexion _) =>
    if entry.2.error = none then Function.update speaks socket none else speaks
  | .message socket (.joinFederation ..) =>
    match entry.2.joined with
    | some pair => Function.update speaks socket (some pair)
    | none => speaks
  | .message .. => speaks

def speaker (past : List (RtigEvent × RtigAnswer)) :
    Descriptor → Option (FederationHandle × FederateHandle) :=
  past.foldl hear fun _ => none

/-- What a federation has been asked for. -/
def addressed (handle : FederationHandle) (past : List (RtigEvent × RtigAnswer)) : List Event :=
  past.filterMap fun entry =>
    match entry.2.served with
    | some (h, e) => if h = handle then some e else none
    | none => none

/-- A connection, open or closed, is bound to the federate. -/
def SocketServer.Refers (s : SocketServer) (handle : FederationHandle) (fed : FederateHandle) :
    Prop :=
  ∃ t ∈ s.tuples, t.federation = handle ∧ t.federate = fed

/-- Each federation is as if it were alone: its state is that of a run of its own, and it knows
the connections of its federates. -/
structure Rtig.Isolated (past : List (RtigEvent × RtigAnswer)) (s : Rtig) : Prop where
  handles : (s.executions.map Execution.handle).Nodup
  names : (s.executions.map Execution.name).Nodup
  own : ∀ x ∈ s.executions, ∃ fom withMom, x.federation =
    rtig.exec (Federation.create fom withMom s.haveXml) (addressed x.handle past)
  references : ∀ x ∈ s.executions, ∀ fed,
    fed ∈ x.federation.root.server.references ↔ s.sockets.Refers x.handle fed

/-- Nobody but a federate itself acts for it, and nobody else gets what is sent to it: a service
is asked for over the connection over which the federate has joined, it is killed with that
connection, and its messages are written there. Over that connection it is heard. -/
structure Rtig.Authentic (past : List (RtigEvent × RtigAnswer)) (s : Rtig) (e : RtigEvent) :
    Prop where
  asked : ∀ handle event fed, (rtigServer s e).2.served = some (handle, event) →
    event.sender = some fed →
      ∃ socket request, e = .message socket request ∧ speaker past socket = some (handle, fed)
  killed : ∀ handle fed, (rtigServer s e).2.served = some (handle, .kill fed) →
    ∃ socket, e = .lost socket ∧ speaker past socket = some (handle, fed)
  delivered : ∀ x ∈ s.executions, ∀ event,
    (rtigServer s e).2.served = some (x.handle, event) → ∀ link m,
      (link, m) ∈ (rtigServer s e).2.sent ↔ ∃ fed, (fed, m) ∈ (rtig x.federation event).2.1 ∧
        speaker (past ++ [(e, (rtigServer s e).2)]) link = some (x.handle, fed)
  silent : (rtigServer s e).2.served = none → (rtigServer s e).2.sent = []
  heard : s.crashed = false → ∀ socket, ∀ x ∈ s.executions, ∀ request : ServiceRequest,
    e = .message socket (.service x.handle request) →
      speaker past socket = some (x.handle, request.federate) →
        (rtigServer s e).2.served = some (x.handle, request.event)

/-! ## The connections -/

/-- The federate that the connection is bound to. -/
def SocketTuple.pair (t : SocketTuple) : Option (FederationHandle × FederateHandle) :=
  if t.federation = 0 then none else some (t.federation, t.federate)

theorem SocketTuple.pair_eq {t : SocketTuple} {handle : FederationHandle} {fed : FederateHandle} :
    t.pair = some (handle, fed) → t.federation = handle ∧ t.federate = fed := by
  unfold pair
  split
  · exact fun none => by cases none
  · exact fun same => by cases same; exact ⟨rfl, rfl⟩

namespace SocketServer

variable {s : SocketServer} {socket : Descriptor} {t : SocketTuple} {handle : FederationHandle}
  {fed : FederateHandle}

/-- The open connections are told apart by their descriptors, and the bound ones by their pairs;
the descriptors of the best effort links are no connection's. -/
structure Wired (s : SocketServer) : Prop where
  inUse : ∀ t ∈ s.tuples, ∀ link, t.reliableLink = some link → link ≠ 0 ∧ link ≠ s.udpSocket
  bestEffort : ∀ t ∈ s.tuples, ∀ link, t.bestEffortLink = some link →
    link = 0 ∨ link = s.udpSocket
  links : s.tuples.Pairwise fun t t' => ∀ link,
    ¬(t.reliableLink = some link ∧ t'.reliableLink = some link)
  pairs : s.tuples.Pairwise fun t t' =>
    ¬t.Unbound → ¬(t.federation = t'.federation ∧ t.federate = t'.federate)
  whole : ∀ t ∈ s.tuples, t.federation = 0 ↔ t.federate = 0

/-- The tuple of an open connection is the only one with its descriptor. -/
theorem hasSocket_iff (wired : s.Wired) (used : socket ≠ 0 ∧ socket ≠ s.udpSocket)
    (member : t ∈ s.tuples) : t.hasSocket socket = true ↔ t.reliableLink = some socket := by
  simp only [SocketTuple.hasSocket, Bool.or_eq_true, decide_eq_true_eq]
  constructor
  · rintro (reliable | bestEffort)
    · exact reliable
    · rcases wired.bestEffort t member socket bestEffort with zero | udp
      · exact absurd zero used.1
      · exact absurd udp used.2
  · exact Or.inl

theorem hasSocket_single (wired : s.Wired) (used : socket ≠ 0 ∧ socket ≠ s.udpSocket) :
    s.tuples.Pairwise fun t t' => ¬(t.hasSocket socket = true ∧ t'.hasSocket socket = true) := by
  refine wired.links.imp_of_mem fun {t t'} member member' apart both => ?_
  rw [hasSocket_iff wired used member, hasSocket_iff wired used member'] at both
  exact apart socket both

theorem getWithSocket_iff (wired : s.Wired) (used : socket ≠ 0 ∧ socket ≠ s.udpSocket) :
    s.getWithSocket socket = .ok t ↔ t ∈ s.tuples ∧ t.reliableLink = some socket := by
  rw [getWithSocket_ok, First.find?_iff_mem (hasSocket_single wired used)]
  exact and_congr_right fun member => hasSocket_iff wired used member

theorem getWithReferences_iff (wired : s.Wired) (bound : handle ≠ 0) :
    s.getWithReferences handle fed = .ok t ↔
      t ∈ s.tuples ∧ t.federation = handle ∧ t.federate = fed := by
  have single : s.tuples.Pairwise fun t t' =>
      ¬(t.hasReferences handle fed = true ∧ t'.hasReferences handle fed = true) := by
    refine wired.pairs.imp fun {t t'} apart both => ?_
    simp only [SocketTuple.hasReferences, Bool.and_eq_true, decide_eq_true_eq] at both
    obtain ⟨⟨rfl, rfl⟩, federation, federate⟩ := both
    exact apart (fun unbound => bound unbound.1) ⟨federation.symm, federate.symm⟩
  rw [getWithReferences_ok, First.find?_iff_mem single]
  simp [SocketTuple.hasReferences]

theorem mem_write (wired : s.Wired) (bound : handle ≠ 0) {responses : Responses}
    {link : Descriptor} {m : NetworkMessage} :
    (link, m) ∈ s.write handle responses ↔ ∃ fed, (fed, m) ∈ responses ∧
      ∃ t ∈ s.tuples, t.federation = handle ∧ t.federate = fed ∧ t.reliableLink = some link := by
  unfold write
  rw [List.mem_filterMap]
  constructor
  · rintro ⟨⟨fed, m'⟩, listed, written⟩
    unfold getSocketLink at written
    cases found : s.getWithReferences handle fed with
    | error e =>
      rw [found] at written
      cases written
    | ok t =>
      obtain ⟨member, federation, federate⟩ := (getWithReferences_iff wired bound).mp found
      simp only [found, Except.map] at written
      cases reliable : t.reliableLink with
      | none =>
        rw [reliable] at written
        cases written
      | some link' =>
        rw [reliable] at written
        cases written
        exact ⟨fed, listed, t, member, federation, federate, reliable⟩
  · rintro ⟨fed, listed, t, member, federation, federate, reliable⟩
    refine ⟨(fed, m), listed, ?_⟩
    have found := (getWithReferences_iff wired bound).mpr ⟨member, federation, federate⟩
    simp [getSocketLink, found, Except.map, reliable]

theorem opened_wired (wired : s.Wired) (used : socket ≠ 0 ∧ socket ≠ s.udpSocket)
    (fresh : ∀ t ∈ s.tuples, t.reliableLink ≠ some socket) : (s.opened socket).Wired where
  inUse := by
    intro t member link reliable
    rcases List.mem_cons.mp member with rfl | old
    · cases reliable
      exact used
    · exact wired.inUse t old link reliable
  bestEffort := by
    intro t member link bestEffort
    rcases List.mem_cons.mp member with rfl | old
    · cases bestEffort
      exact .inl rfl
    · exact wired.bestEffort t old link bestEffort
  links := by
    refine List.pairwise_cons.mpr ⟨fun t member link both => ?_, wired.links⟩
    obtain ⟨here, there⟩ := both
    cases here
    exact fresh t member there
  pairs := by
    refine List.pairwise_cons.mpr ⟨fun t _ bound => ?_, wired.pairs⟩
    exact absurd ⟨rfl, rfl⟩ bound
  whole := by
    intro t member
    rcases List.mem_cons.mp member with rfl | old
    · exact Iff.rfl
    · exact wired.whole t old

/-- The tuple of a connection that is joined over. -/
def bind (s : SocketServer) (handle : FederationHandle) (fed : FederateHandle) (t : SocketTuple) :
    SocketTuple :=
  { t with
    federation := handle
    federate := fed
    bestEffortLink := t.bestEffortLink.map fun _ => s.udpSocket }

/-- One connection is changed. -/
def atLink (s : SocketServer) (socket : Descriptor) (change : SocketTuple → SocketTuple) :
    SocketServer :=
  { s with tuples := s.tuples.map fun t =>
      if t.reliableLink = some socket then change t else t }

theorem adjust_atLink (wired : s.Wired) (used : socket ≠ 0 ∧ socket ≠ s.udpSocket)
    (change : SocketTuple → SocketTuple) :
    { s with tuples := First.adjust (·.hasSocket socket) change s.tuples } =
      s.atLink socket change := by
  unfold atLink
  rw [First.adjust_eq_map (hasSocket_single wired used)]
  congr 1
  refine List.map_congr_left fun t member => ?_
  simp only [hasSocket_iff wired used member]

theorem setReferences_eq (wired : s.Wired) (member : t ∈ s.tuples)
    (reliable : t.reliableLink = some socket) (unbound : t.Unbound) :
    (s.setReferences socket handle fed).1 = s.atLink socket (s.bind handle fed) := by
  have used := wired.inUse t member socket reliable
  have found := (getWithSocket_iff wired used).mpr ⟨member, reliable⟩
  rw [← adjust_atLink wired used]
  simp [setReferences, found, unbound.1, unbound.2]
  rfl

theorem close_eq (wired : s.Wired) (member : t ∈ s.tuples)
    (reliable : t.reliableLink = some socket) :
    (s.close socket).1 = s.atLink socket fun t =>
      { t with reliableLink := none, bestEffortLink := none } := by
  have used := wired.inUse t member socket reliable
  have found := (getWithSocket_iff wired used).mpr ⟨member, reliable⟩
  have kept : (decide (t.federation = 0) && decide (t.federate ≠ 0)) = false := by
    by_cases invalid : t.federation = 0
    · simp [invalid, (wired.whole t member).mp invalid]
    · simp [invalid]
  rw [← adjust_atLink wired used]
  simp only [close, found, kept, Bool.false_eq_true, if_false]

theorem bind_wired (wired : s.Wired) (valid : handle ≠ 0 ∧ fed ≠ 0)
    (fresh : ¬s.Refers handle fed) :
    (s.atLink socket (s.bind handle fed)).Wired where
  inUse := by
    intro t' listed link reliable'
    obtain ⟨t₀, old, rfl⟩ := List.mem_map.mp listed
    refine wired.inUse t₀ old link ?_
    split at reliable' <;> exact reliable'
  bestEffort := by
    intro t' listed link bestEffort
    obtain ⟨t₀, old, rfl⟩ := List.mem_map.mp listed
    split at bestEffort
    · right
      obtain ⟨_, _, same⟩ := Option.map_eq_some_iff.mp bestEffort
      exact same.symm
    · exact wired.bestEffort t₀ old link bestEffort
  links := by
    refine List.pairwise_map.mpr (wired.links.imp fun {t t'} apart link both => ?_)
    refine apart link ⟨?_, ?_⟩
    · have here := both.1
      split at here <;> exact here
    · have there := both.2
      split at there <;> exact there
  pairs := by
    refine List.pairwise_map.mpr ((wired.links.and wired.pairs).imp_of_mem ?_)
    intro t t' listed listed' apart bound same
    by_cases here : t.reliableLink = some socket
    · by_cases there : t'.reliableLink = some socket
      · exact apart.1 socket ⟨here, there⟩
      · rw [if_pos here, if_neg there] at same
        exact fresh ⟨t', listed', same.1.symm, same.2.symm⟩
    · rw [if_neg here] at bound same
      by_cases there : t'.reliableLink = some socket
      · rw [if_pos there] at same
        exact fresh ⟨t, listed, same⟩
      · rw [if_neg there] at same
        exact apart.2 bound same
  whole := by
    intro t' listed
    obtain ⟨t₀, old, rfl⟩ := List.mem_map.mp listed
    split
    · exact iff_of_false valid.1 valid.2
    · exact wired.whole t₀ old

theorem close_wired (wired : s.Wired) :
    (s.atLink socket fun t => { t with reliableLink := none, bestEffortLink := none }).Wired where
  inUse := by
    intro t listed link reliable
    obtain ⟨t₀, old, rfl⟩ := List.mem_map.mp listed
    split at reliable
    · cases reliable
    · exact wired.inUse t₀ old link reliable
  bestEffort := by
    intro t listed link bestEffort
    obtain ⟨t₀, old, rfl⟩ := List.mem_map.mp listed
    split at bestEffort
    · cases bestEffort
    · exact wired.bestEffort t₀ old link bestEffort
  links := by
    refine List.pairwise_map.mpr (wired.links.imp fun {t t'} apart link both => ?_)
    refine apart link ⟨?_, ?_⟩
    · have here := both.1
      split at here
      · cases here
      · exact here
    · have there := both.2
      split at there
      · cases there
      · exact there
  pairs := by
    refine List.pairwise_map.mpr (wired.pairs.imp fun {t t'} apart bound same => ?_)
    refine apart (fun unbound => bound ?_) ⟨?_, ?_⟩
    · split <;> exact unbound
    · have federation := same.1
      split at federation <;> split at federation <;> exact federation
    · have federate := same.2
      split at federate <;> split at federate <;> exact federate
  whole := by
    intro t listed
    obtain ⟨t₀, old, rfl⟩ := List.mem_map.mp listed
    split <;> exact wired.whole t₀ old

theorem refers_opened (bound : handle ≠ 0) :
    (s.opened socket).Refers handle fed ↔ s.Refers handle fed := by
  unfold Refers opened
  simp only [List.mem_cons, exists_eq_or_imp]
  exact or_iff_right fun new => bound new.1.symm

theorem refers_close : (s.atLink socket fun t =>
    { t with reliableLink := none, bestEffortLink := none }).Refers handle fed ↔
      s.Refers handle fed := by
  unfold Refers atLink
  simp only [List.mem_map, exists_exists_and_eq_and]
  refine exists_congr fun t => and_congr_right fun _ => ?_
  split <;> exact Iff.rfl

theorem refers_bind (member : t ∈ s.tuples) (reliable : t.reliableLink = some socket)
    (unbound : ∀ t ∈ s.tuples, t.reliableLink = some socket → t.Unbound)
    {handle' : FederationHandle} {fed' : FederateHandle} (bound : handle' ≠ 0) :
    (s.atLink socket (s.bind handle fed)).Refers handle' fed' ↔
      s.Refers handle' fed' ∨ (handle' = handle ∧ fed' = fed) := by
  unfold Refers atLink
  simp only [List.mem_map, exists_exists_and_eq_and]
  constructor
  · rintro ⟨t', listed, same⟩
    split at same
    · exact .inr ⟨same.1.symm, same.2.symm⟩
    · exact .inl ⟨t', listed, same⟩
  · rintro (⟨t', listed, same⟩ | ⟨rfl, rfl⟩)
    · refine ⟨t', listed, ?_⟩
      have other : t'.reliableLink ≠ some socket := fun here =>
        bound (same.1.symm.trans (unbound t' listed here).1)
      rw [if_neg other]
      exact same
    · refine ⟨t, member, ?_⟩
      rw [if_pos reliable]
      exact ⟨rfl, rfl⟩

/-! ## For whom the connections speak -/

/-- What those outside know is what the connections are bound to. -/
structure Tells (s : SocketServer)
    (speaks : Descriptor → Option (FederationHandle × FederateHandle)) : Prop where
  tells : ∀ t ∈ s.tuples, ∀ link, t.reliableLink = some link → speaks link = t.pair
  told : ∀ link pair, speaks link = some pair →
    ∃ t ∈ s.tuples, t.reliableLink = some link ∧ t.pair = some pair

variable {speaks : Descriptor → Option (FederationHandle × FederateHandle)}

theorem Tells.opened (tells : s.Tells speaks)
    (fresh : ∀ t ∈ s.tuples, t.reliableLink ≠ some socket) :
    (s.opened socket).Tells speaks where
  tells := by
    intro t member link reliable
    rcases List.mem_cons.mp member with rfl | old
    · cases reliable
      cases speaking : speaks socket with
      | none => rfl
      | some pair =>
        obtain ⟨t, listed, here, _⟩ := tells.told socket pair speaking
        exact absurd here (fresh t listed)
    · exact tells.tells t old link reliable
  told := by
    intro link pair speaking
    obtain ⟨t, listed, same⟩ := tells.told link pair speaking
    exact ⟨t, List.mem_cons_of_mem _ listed, same⟩

theorem Tells.close (tells : s.Tells speaks) :
    (s.atLink socket fun t => { t with reliableLink := none, bestEffortLink := none }).Tells
      (Function.update speaks socket none) where
  tells := by
    intro t listed link reliable
    obtain ⟨t₀, old, rfl⟩ := List.mem_map.mp listed
    split at reliable
    · cases reliable
    · rename_i other
      have apart : link ≠ socket := by
        rintro rfl
        exact other reliable
      rw [Function.update_of_ne apart, if_neg other]
      exact tells.tells t₀ old link reliable
  told := by
    intro link pair speaking
    by_cases here : link = socket
    · rw [here, Function.update_self] at speaking
      cases speaking
    · rw [Function.update_of_ne here] at speaking
      obtain ⟨t, listed, reliable, same⟩ := tells.told link pair speaking
      have other : t.reliableLink ≠ some socket := by
        rw [reliable]
        exact fun equal => here (Option.some.inj equal)
      refine ⟨t, List.mem_map.mpr ⟨t, listed, ?_⟩, reliable, same⟩
      rw [if_neg other]

theorem Tells.bind (tells : s.Tells speaks) (member : t ∈ s.tuples)
    (reliable : t.reliableLink = some socket) (valid : handle ≠ 0) :
    (s.atLink socket (s.bind handle fed)).Tells
      (Function.update speaks socket (some (handle, fed))) where
  tells := by
    intro t' listed link open'
    obtain ⟨t₀, old, rfl⟩ := List.mem_map.mp listed
    by_cases here : t₀.reliableLink = some socket
    · rw [if_pos here] at open' ⊢
      obtain rfl : socket = link := Option.some.inj (here.symm.trans open')
      rw [Function.update_self]
      simp [SocketTuple.pair, SocketServer.bind, valid]
    · rw [if_neg here] at open' ⊢
      have apart : link ≠ socket := fun same => here (same ▸ open')
      rw [Function.update_of_ne apart]
      exact tells.tells t₀ old link open'
  told := by
    intro link pair speaking
    by_cases here : link = socket
    · rw [here, Function.update_self] at speaking
      refine ⟨_, List.mem_map.mpr ⟨t, member, rfl⟩, ?_⟩
      rw [if_pos reliable, ← speaking, here]
      exact ⟨reliable, by simp [SocketTuple.pair, SocketServer.bind, valid]⟩
    · rw [Function.update_of_ne here] at speaking
      obtain ⟨t', listed, reliable', same⟩ := tells.told link pair speaking
      have other : t'.reliableLink ≠ some socket := by
        rw [reliable']
        exact fun equal => here (Option.some.inj equal)
      refine ⟨t', List.mem_map.mpr ⟨t', listed, ?_⟩, reliable', same⟩
      rw [if_neg other]

/-- What is written for one federate over its open connection. -/
theorem write_single (wired : s.Wired) (bound : handle ≠ 0) (member : t ∈ s.tuples)
    (federation : t.federation = handle) (federate : t.federate = fed)
    (reliable : t.reliableLink = some socket) {responses : Responses}
    (single : ∀ response ∈ responses, response.1 = fed) :
    s.write handle responses = responses.map fun response => (socket, response.2) := by
  have found := (getWithReferences_iff wired bound).mpr ⟨member, federation, federate⟩
  unfold write
  rw [← List.filterMap_eq_map]
  refine List.filterMap_congr fun response listed => ?_
  simp [getSocketLink, single response listed, found, Except.map, reliable]

/-- What is written for a federate goes to the connection that speaks for it. -/
theorem Tells.mem_write (tells : s.Tells speaks) (wired : s.Wired) (bound : handle ≠ 0)
    {responses : Responses} {link : Descriptor} {m : NetworkMessage} :
    (link, m) ∈ s.write handle responses ↔
      ∃ fed, (fed, m) ∈ responses ∧ speaks link = some (handle, fed) := by
  rw [SocketServer.mem_write wired bound]
  refine exists_congr fun fed => and_congr_right fun _ => ?_
  constructor
  · rintro ⟨t, member, rfl, rfl, reliable⟩
    rw [tells.tells t member link reliable, SocketTuple.pair, if_neg bound]
  · intro speaking
    obtain ⟨t, member, reliable, same⟩ := tells.told link _ speaking
    obtain ⟨federation, federate⟩ := SocketTuple.pair_eq same
    exact ⟨t, member, federation, federate, reliable⟩

end SocketServer

/-! ## What a federation knows of its connections -/

namespace Federation

variable {e : Event}

/-- Only a join counts federates or gives references. -/
theorem perform_references (f : Federation) (other : ∀ name conditions, e ≠ .join name conditions) :
    (f.perform e).state.root.server.references = f.root.server.references ∧
      (f.perform e).state.nextFederate = f.nextFederate := by
  rcases e.sorts with ⟨name, conditions, rfl⟩ | ⟨fed, rfl⟩ | ⟨fed, rfl⟩ | internal | onRoot
  · exact absurd rfl (other name conditions)
  · rcases remove_cases f fed with refused | ⟨_, removed⟩
    · rw [perform, refused]
      exact ⟨rfl, rfl⟩
    · rw [perform, removed]
      exact ⟨rfl, rfl⟩
  · rcases kill_cases f fed with refused | ⟨_, result, _, _⟩
    · rw [perform, refused]
      exact ⟨rfl, rfl⟩
    · have same := sameMembers_of_timeless (removeRegulator_timeless (f.closeLink fed) fed)
      have server := (RootObject.killFederate_frame (p := fun _ => True)
        (f.closeLink fed).root fed).2.2.2
      rw [perform, result]
      refine ⟨?_, same.nextFederate⟩
      change ((f.closeLink fed).root.killFederate fed).1.server.references = _
      rw [server]
      rfl
  · have same := perform_internal f internal
    exact ⟨by rw [same.root], same.nextFederate⟩
  · have same := perform_onRoot f onRoot
    exact ⟨by rw [same.server], by rw [same.rest]⟩

theorem rtig_references (f : Federation) (other : ∀ name conditions, e ≠ .join name conditions) :
    (rtig f e).1.root.server.references = f.root.server.references ∧
      (rtig f e).1.nextFederate = f.nextFederate := by
  unfold rtig
  split
  · exact ⟨rfl, rfl⟩
  · exact perform_references f other

/-- What a join that is not refused tells the newcomer, and nobody else. -/
structure Welcomed (f : Federation) (conditions : JoinConditions)
    (r : Federation × Responses × Option RTIException) : Prop where
  error : r.2.2 = none
  free : conditions.linkFree = true
  references : r.1.root.server.references = f.nextFederate :: f.root.server.references
  nextFederate : r.1.nextFederate = f.nextFederate + 1
  sent : ∀ response ∈ r.2.1, response.1 = f.nextFederate
  welcomes : r.2.1.findSome? (fun response => response.2.welcomes) = some f.nextFederate

theorem rtig_join (f : Federation) (name : String) (conditions : JoinConditions) :
    f.Welcomed conditions (rtig f (.join name conditions)) ∨
      ((rtig f (.join name conditions)).2.2 ≠ none ∧
        (rtig f (.join name conditions)).1.root.server.references = f.root.server.references ∧
        f.nextFederate ≤ (rtig f (.join name conditions)).1.nextFederate ∧
        (rtig f (.join name conditions)).2.1 = []) := by
  cases crashed : f.crashed with
  | true =>
    rw [rtig_crashed crashed]
    exact .inr ⟨by simp, rfl, le_refl _, rfl⟩
  | false =>
    rw [rtig_perform crashed]
    simp only [perform, add]
    split
    · exact .inr ⟨by simp [Outcome.refused], rfl, le_refl _, rfl⟩
    · split
      · exact .inr ⟨by simp [Outcome.refused], rfl, Nat.le_succ _, rfl⟩
      · split
        · exact .inr ⟨by simp [Outcome.refused], rfl, Nat.le_succ _, rfl⟩
        · rename_i bound
          left
          refine ⟨rfl, by simpa using bound, rfl, rfl, fun response listed => ?_, ?_⟩
          · simp only [Outcome.done, List.mem_append, List.mem_map, List.mem_singleton] at listed
            rcases listed with (⟨_, _, rfl⟩ | ⟨_, _, rfl⟩) | rfl <;> rfl
          · have nobody : ∀ {α : Type} (l : List α),
                l.findSome? (fun _ => (none : Option FederateHandle)) = none := fun l =>
              List.findSome?_eq_none_iff.mpr fun _ _ => rfl
            simp [Outcome.done, List.findSome?_append, List.findSome?_map, Function.comp_def,
              NetworkMessage.welcomes, nobody]

end Federation

/-! ## One event -/

theorem speaker_append (past : List (RtigEvent × RtigAnswer)) (entry : RtigEvent × RtigAnswer) :
    speaker (past ++ [entry]) = hear (speaker past) entry := by
  simp [speaker]

theorem addressed_served {past : List (RtigEvent × RtigAnswer)} {e : RtigEvent}
    {answer : RtigAnswer} {h : FederationHandle} {event : Event}
    (served : answer.served = some (h, event)) (handle : FederationHandle) :
    addressed handle (past ++ [(e, answer)]) =
      addressed handle past ++ if h = handle then [event] else [] := by
  simp only [addressed, List.filterMap_append, List.filterMap_cons, served, List.filterMap_nil]
  congr 1
  by_cases same : h = handle <;> simp [same]

theorem addressed_quiet {past : List (RtigEvent × RtigAnswer)} {e : RtigEvent}
    {answer : RtigAnswer} (served : answer.served = none) (handle : FederationHandle) :
    addressed handle (past ++ [(e, answer)]) = addressed handle past := by
  simp [addressed, List.filterMap_append, served]

namespace Rtig

variable {s s' : Rtig} {past : List (RtigEvent × RtigAnswer)} {e : RtigEvent}
  {answer : RtigAnswer}

/-- The federations are isolated, and no handle or pair is given twice. -/
structure Kept (past : List (RtigEvent × RtigAnswer)) (s : Rtig) : Prop where
  wired : s.sockets.Wired
  tells : s.sockets.Tells (speaker past)
  isolated : s.Isolated past
  next : 0 < s.highest
  range : ∀ x ∈ s.executions, 0 < x.handle ∧ x.handle < s.highest
  bound : ∀ handle fed, s.sockets.Refers handle fed → handle < s.highest
  given : ∀ x ∈ s.executions, ∀ fed, s.sockets.Refers x.handle fed →
    fed < x.federation.nextFederate
  unasked : ∀ handle, s.highest ≤ handle → addressed handle past = []

/-- Nothing is asked of a federation, and the connections and federations stay. -/
theorem Kept.quiet (kept : s.Kept past) (served : answer.served = none)
    (deaf : hear (speaker past) (e, answer) = speaker past)
    (highest : s.highest ≤ s'.highest)
    (same : s' = { s with highest := s'.highest, crashed := s'.crashed }) :
    s'.Kept (past ++ [(e, answer)]) := by
  rw [same]
  exact
    { wired := kept.wired
      tells := by
        rw [speaker_append, deaf]
        exact kept.tells
      isolated :=
        { handles := kept.isolated.handles
          names := kept.isolated.names
          own := fun x listed => by
            obtain ⟨fom, withMom, own⟩ := kept.isolated.own x listed
            exact ⟨fom, withMom, by rw [addressed_quiet served]; exact own⟩
          references := kept.isolated.references }
      next := Nat.lt_of_lt_of_le kept.next highest
      range := fun x listed =>
        ⟨(kept.range x listed).1, Nat.lt_of_lt_of_le (kept.range x listed).2 highest⟩
      bound := fun handle fed refers => Nat.lt_of_lt_of_le (kept.bound handle fed refers) highest
      given := kept.given
      unasked := fun handle beyond => by
        rw [addressed_quiet served]
        exact kept.unasked handle (Nat.le_trans highest beyond) }

/-- A connection comes or goes. -/
theorem Kept.rewire (kept : s.Kept past) (served : answer.served = none) {sockets : SocketServer}
    (wired : sockets.Wired) (tells : sockets.Tells (hear (speaker past) (e, answer)))
    (refers : ∀ handle, handle ≠ 0 → ∀ fed,
      sockets.Refers handle fed ↔ s.sockets.Refers handle fed) :
    { s with sockets := sockets }.Kept (past ++ [(e, answer)]) where
  wired := wired
  tells := by
    rw [speaker_append]
    exact tells
  isolated :=
    { handles := kept.isolated.handles
      names := kept.isolated.names
      own := fun x listed => by
        obtain ⟨fom, withMom, own⟩ := kept.isolated.own x listed
        exact ⟨fom, withMom, by rw [addressed_quiet served]; exact own⟩
      references := fun x listed fed =>
        (kept.isolated.references x listed fed).trans
          (refers x.handle (Nat.ne_of_gt (kept.range x listed).1) fed).symm }
  next := kept.next
  range := kept.range
  bound := fun handle fed here => by
    by_cases zero : handle = 0
    · rw [zero]
      exact kept.next
    · exact kept.bound handle fed ((refers handle zero fed).mp here)
  given := fun x listed fed here =>
    kept.given x listed fed
      ((refers x.handle (Nat.ne_of_gt (kept.range x listed).1) fed).mp here)
  unasked := fun handle beyond => by
    rw [addressed_quiet served]
    exact kept.unasked handle beyond

/-- A federation does what it is asked, over connections that are perhaps changed with it. -/
theorem Kept.serve (kept : s.Kept past) {sockets : SocketServer} (wired : sockets.Wired)
    (tells : sockets.Tells (hear (speaker past) (e, answer))) {x : Execution}
    (listed : x ∈ s.executions) {event : Event} (served : answer.served = some (x.handle, event))
    (references : ∀ fed, fed ∈ (rtig x.federation event).1.root.server.references ↔
      sockets.Refers x.handle fed)
    (others : ∀ handle, handle ≠ 0 → handle ≠ x.handle → ∀ fed,
      sockets.Refers handle fed ↔ s.sockets.Refers handle fed)
    (given : ∀ fed, sockets.Refers x.handle fed → fed < (rtig x.federation event).1.nextFederate)
    (crashed : Bool) :
    { s with
      sockets := sockets
      executions := adjust Execution.handle x.handle
        (fun y => { y with federation := (rtig x.federation event).1 }) s.executions
      crashed := crashed }.Kept (past ++ [(e, answer)]) := by
  have positive := (kept.range x listed).1
  have others' : ∀ y ∈ s.executions, y.handle ≠ x.handle → ∀ fed,
      sockets.Refers y.handle fed ↔ s.sockets.Refers y.handle fed := fun y member apart fed =>
    others y.handle (Nat.ne_of_gt (kept.range y member).1) apart fed
  have single : ∀ y ∈ s.executions, y.handle = x.handle → y = x := fun y member same =>
    List.inj_on_of_nodup_map kept.isolated.handles member listed same
  have projected : ∀ {β : Type} (g : Execution → β),
      (∀ y, g { y with federation := (rtig x.federation event).1 } = g y) →
      (adjust Execution.handle x.handle
        (fun y => { y with federation := (rtig x.federation event).1 }) s.executions).map g =
        s.executions.map g := fun g keeps => map_adjust keeps s.executions
  refine
    { wired := wired
      tells := by
        rw [speaker_append]
        exact tells
      isolated := ⟨?_, ?_, fun y' member => ?_, fun y' member fed => ?_⟩
      next := kept.next
      range := fun y' member => ?_
      bound := fun handle fed here => ?_
      given := fun y' member fed here => ?_
      unasked := fun handle beyond => ?_ }
  · exact (projected Execution.handle fun _ => rfl) ▸ kept.isolated.handles
  · exact (projected Execution.name fun _ => rfl) ▸ kept.isolated.names
  · rcases mem_adjust.mp member with ⟨old, apart⟩ | ⟨y, old, here, rfl⟩
    · obtain ⟨fom, withMom, own⟩ := kept.isolated.own y' old
      refine ⟨fom, withMom, ?_⟩
      rw [addressed_served served, if_neg (Ne.symm apart), List.append_nil]
      exact own
    · obtain rfl := single y old here
      obtain ⟨fom, withMom, own⟩ := kept.isolated.own y old
      refine ⟨fom, withMom, ?_⟩
      change (rtig y.federation event).1 = _
      rw [addressed_served served, if_pos rfl, Machine.exec_append, ← own]
      rfl
  · rcases mem_adjust.mp member with ⟨old, apart⟩ | ⟨y, old, here, rfl⟩
    · exact (kept.isolated.references y' old fed).trans (others' y' old apart fed).symm
    · obtain rfl := single y old here
      exact references fed
  · rcases mem_adjust.mp member with ⟨old, _⟩ | ⟨y, old, _, rfl⟩
    · exact kept.range y' old
    · exact kept.range y old
  · by_cases zero : handle = 0
    · rw [zero]
      exact kept.next
    · by_cases same : handle = x.handle
      · rw [same]
        exact (kept.range x listed).2
      · exact kept.bound handle fed ((others handle zero same fed).mp here)
  · rcases mem_adjust.mp member with ⟨old, apart⟩ | ⟨y, old, same, rfl⟩
    · exact kept.given y' old fed ((others' y' old apart fed).mp here)
    · obtain rfl := single y old same
      exact given fed here
  · rw [addressed_served served, kept.unasked handle beyond, if_neg, List.append_nil]
    exact Nat.ne_of_lt (Nat.lt_of_lt_of_le (kept.range x listed).2 beyond)

theorem searchFederation_eq (kept : s.Kept past) {x : Execution} (listed : x ∈ s.executions) :
    s.searchFederation x.handle = some x := lookup_of_nodup kept.isolated.handles listed

/-- A federation that exists is asked over the connections as they are. -/
theorem serve_eq (kept : s.Kept past) {x : Execution} (listed : x ∈ s.executions) (event : Event)
    (sockets : SocketServer) : { s with sockets := sockets }.serve x.handle event =
      ({ s with
          sockets := sockets
          executions := adjust Execution.handle x.handle
            (fun y => { y with federation := (rtig x.federation event).1 }) s.executions
          crashed := (rtig x.federation event).1.crashed },
        { served := some (x.handle, event)
          sent := sockets.write x.handle (rtig x.federation event).2.1
          error := (rtig x.federation event).2.2.map .exception }) := by
  unfold serve
  rw [show ({ s with sockets := sockets } : Rtig).searchFederation x.handle = some x from
    searchFederation_eq kept listed]

theorem serve_unknown {handle : FederationHandle} (unknown : s.searchFederation handle = none)
    (event : Event) (sockets : SocketServer) : { s with sockets := sockets }.serve handle event =
      { s with sockets := sockets }.refuse .federationExecutionDoesNotExist := by
  unfold serve
  rw [show ({ s with sockets := sockets } : Rtig).searchFederation handle = none from unknown]

theorem getFederationHandle_mem {name : String} {x : Execution}
    (found : s.getFederationHandle name = some x) : x ∈ s.executions ∧ x.name = name :=
  ⟨List.mem_of_find?_eq_some found, by simpa using List.find?_some found⟩

/-- A message that is refused changes nothing. -/
theorem Kept.refuse (kept : s.Kept past) (socket : Descriptor) (request : RtigRequest)
    (error : RtigError) :
    (s.refuse error).1.Kept
      (past ++ [(RtigEvent.message socket request, (s.refuse error).2)]) := by
  refine kept.quiet rfl ?_ (le_refl _) rfl
  cases request <;> rfl

theorem Kept.createFederation (kept : s.Kept past) {socket : Descriptor} {origin : Origin}
    (name : String) (fom : Option Fom) (withMom : Bool) :
    (s.createFederation name fom withMom).1.Kept
      (past ++ [(RtigEvent.message socket (.createFederation origin name fom withMom),
        (s.createFederation name fom withMom).2)]) := by
  have refused : ∀ error, ({ s with highest := s.highest + 1 }.refuse error).1.Kept
      (past ++ [(RtigEvent.message socket (.createFederation origin name fom withMom),
        ({ s with highest := s.highest + 1 }.refuse error).2)]) := fun error =>
    kept.quiet rfl rfl (Nat.le_succ _) rfl
  unfold Rtig.createFederation
  dsimp only
  split
  · exact kept.quiet rfl rfl (le_refl _) rfl
  · split
    · exact refused _
    · split
      · exact refused _
      · rename_i fresh
        split
        · exact refused _
        · rename_i fom
          have absent : ∀ x ∈ s.executions, x.name ≠ name := by
            intro x listed same
            apply fresh
            unfold getFederationHandle
            rw [List.find?_isSome]
            exact ⟨x, listed, by simpa using same⟩
          have unbound : ∀ fed, ¬s.sockets.Refers s.highest fed := fun fed refers =>
            Nat.lt_irrefl _ (kept.bound s.highest fed refers)
          refine
            { wired := kept.wired
              tells := by
                rw [speaker_append]
                exact kept.tells
              isolated := ⟨?_, ?_, fun x listed => ?_, fun x listed fed => ?_⟩
              next := Nat.succ_pos _
              range := fun x listed => ?_
              bound := fun handle fed refers => Nat.lt_succ_of_lt (kept.bound handle fed refers)
              given := fun x listed fed refers => ?_
              unasked := fun handle beyond => ?_ }
          · rw [List.map_append, List.nodup_append]
            refine ⟨kept.isolated.handles, by simp, fun handle old new added => ?_⟩
            obtain ⟨x, listed, rfl⟩ := List.mem_map.mp old
            rw [List.mem_singleton.mp added]
            exact Nat.ne_of_lt (kept.range x listed).2
          · rw [List.map_append, List.nodup_append]
            refine ⟨kept.isolated.names, by simp, fun n old new added => ?_⟩
            obtain ⟨x, listed, rfl⟩ := List.mem_map.mp old
            rw [List.mem_singleton.mp added]
            exact absent x listed
          · rw [addressed_quiet rfl]
            rcases List.mem_append.mp listed with old | new
            · exact kept.isolated.own x old
            · rw [List.mem_singleton.mp new]
              refine ⟨fom, withMom, ?_⟩
              rw [kept.unasked s.highest (le_refl _)]
              rfl
          · rcases List.mem_append.mp listed with old | new
            · exact kept.isolated.references x old fed
            · rw [List.mem_singleton.mp new]
              exact iff_of_false List.not_mem_nil (unbound fed)
          · rcases List.mem_append.mp listed with old | new
            · exact ⟨(kept.range x old).1, Nat.lt_succ_of_lt (kept.range x old).2⟩
            · rw [List.mem_singleton.mp new]
              exact ⟨kept.next, Nat.lt_succ_self _⟩
          · rcases List.mem_append.mp listed with old | new
            · exact kept.given x old fed refers
            · rw [List.mem_singleton.mp new] at refers
              exact absurd refers (unbound fed)
          · rw [addressed_quiet rfl]
            exact kept.unasked handle (Nat.le_of_succ_le beyond)

theorem Kept.destroyFederation (kept : s.Kept past) {socket : Descriptor} (name : String) :
    (s.destroyFederation name).1.Kept
      (past ++ [(RtigEvent.message socket (.destroyFederation name),
        (s.destroyFederation name).2)]) := by
  unfold Rtig.destroyFederation
  split
  · exact kept.quiet rfl rfl (le_refl _) rfl
  · split
    · rename_i x _ _
      have fewer : ∀ y ∈ drop Execution.handle x.handle s.executions, y ∈ s.executions :=
        fun y listed => (mem_drop.mp listed).1
      have short : (drop Execution.handle x.handle s.executions).Sublist s.executions :=
        List.filter_sublist
      exact
        { wired := kept.wired
          tells := by
            rw [speaker_append]
            exact kept.tells
          isolated :=
            { handles := kept.isolated.handles.sublist (short.map _)
              names := kept.isolated.names.sublist (short.map _)
              own := fun y listed => by
                rw [addressed_quiet rfl]
                exact kept.isolated.own y (fewer y listed)
              references := fun y listed => kept.isolated.references y (fewer y listed) }
          next := kept.next
          range := fun y listed => kept.range y (fewer y listed)
          bound := kept.bound
          given := fun y listed => kept.given y (fewer y listed)
          unasked := fun handle beyond => by
            rw [addressed_quiet rfl]
            exact kept.unasked handle beyond }
    · exact kept.quiet rfl rfl (le_refl _) rfl

theorem Kept.service (kept : s.Kept past) {socket : Descriptor} (federation : FederationHandle)
    (request : ServiceRequest) :
    (s.serve federation request.event).1.Kept
      (past ++ [(RtigEvent.message socket (.service federation request),
        (s.serve federation request.event).2)]) := by
  cases found : s.searchFederation federation with
  | none =>
    rw [show s.serve federation request.event = _ from
      serve_unknown found request.event s.sockets]
    exact kept.refuse socket _ _
  | some x =>
    have listed : x ∈ s.executions := lookup_mem found
    obtain rfl : x.handle = federation := lookup_key found
    have served : s.serve x.handle request.event = _ :=
      serve_eq kept listed request.event s.sockets
    have other : ∀ name conditions, request.event ≠ .join name conditions := by
      intro name conditions same
      have sent := request.sent
      rw [same] at sent
      cases sent
    obtain ⟨references, next⟩ := Federation.rtig_references x.federation other
    rw [served]
    refine kept.serve kept.wired ?_ listed rfl (fun fed => ?_) (fun _ _ _ _ => Iff.rfl)
      (fun fed refers => ?_) _
    · exact kept.tells
    · rw [references]
      exact kept.isolated.references x listed fed
    · rw [next]
      exact kept.given x listed fed refers

theorem Kept.closeConnection (kept : s.Kept past) {socket : Descriptor} {t : SocketTuple}
    (member : t ∈ s.sockets.tuples) (reliable : t.reliableLink = some socket) (emergency : Bool)
    (deaf : ∀ answer : RtigAnswer, answer.error = none →
      hear (speaker past) (e, answer) = Function.update (speaker past) socket none) :
    (s.closeConnection socket emergency).1.Kept
      (past ++ [(e, (s.closeConnection socket emergency).2)]) := by
  have used := kept.wired.inUse t member socket reliable
  have found := (SocketServer.getWithSocket_iff kept.wired used).mpr ⟨member, reliable⟩
  have wired : (s.sockets.atLink socket fun t =>
      { t with reliableLink := none, bestEffortLink := none }).Wired :=
    SocketServer.close_wired kept.wired
  have tells : ∀ answer : RtigAnswer, answer.error = none → SocketServer.Tells
      (s.sockets.atLink socket fun t => { t with reliableLink := none, bestEffortLink := none })
      (hear (speaker past) (e, answer)) := by
    intro answer fine
    rw [deaf answer fine]
    exact kept.tells.close
  unfold Rtig.closeConnection
  simp only [found, SocketServer.close_eq kept.wired member reliable]
  cases emergency with
  | false =>
    exact kept.rewire rfl wired (tells _ rfl) fun _ _ _ => SocketServer.refers_close
  | true =>
    simp only [if_true]
    cases known : s.searchFederation t.federation with
    | none =>
      rw [serve_unknown known]
      exact kept.rewire rfl wired (tells _ rfl) fun _ _ _ => SocketServer.refers_close
    | some x =>
      have listed : x ∈ s.executions := lookup_mem known
      have same : x.handle = t.federation := lookup_key known
      rw [← same, serve_eq kept listed]
      obtain ⟨references, next⟩ := Federation.rtig_references x.federation
        (e := .kill t.federate) fun _ _ impossible => by cases impossible
      refine kept.serve wired (tells _ rfl) listed rfl (fun fed => ?_)
        (fun _ _ _ _ => SocketServer.refers_close) (fun fed refers => ?_) _
      · rw [references, SocketServer.refers_close]
        exact kept.isolated.references x listed fed
      · rw [next]
        exact kept.given x listed fed (SocketServer.refers_close.mp refers)

/-- A federation that exists has given its handles in order. -/
theorem Kept.numbered (kept : s.Kept past) {x : Execution} (listed : x ∈ s.executions) :
    x.federation.Numbered := by
  obtain ⟨fom, withMom, own⟩ := kept.isolated.own x listed
  rw [own]
  exact rtig.exec_always (p := Federation.Numbered)
    (fun f e numbered => Federation.rtig_numbered numbered e)
    (create_numbered fom withMom s.haveXml) _

theorem Kept.joinFederation (kept : s.Kept past) {socket : Descriptor} {t : SocketTuple}
    (member : t ∈ s.sockets.tuples) (reliable : t.reliableLink = some socket) {origin : Origin}
    (name federate : String) (modulesOpen : Bool) :
    (s.joinFederation socket name federate modulesOpen).1.Kept
      (past ++ [(RtigEvent.message socket (.joinFederation origin name federate modulesOpen),
        (s.joinFederation socket name federate modulesOpen).2)]) := by
  unfold Rtig.joinFederation
  split
  · exact kept.refuse socket _ _
  · cases found : s.getFederationHandle name with
    | none => exact kept.refuse socket _ _
    | some x =>
      have listed := (getFederationHandle_mem found).1
      have positive := Nat.ne_of_gt (kept.range x listed).1
      dsimp only
      rcases Federation.rtig_join x.federation federate
        ⟨modulesOpen, s.sockets.isFree socket⟩ with welcomed | ⟨refused, references, next, unsent⟩
      · rw [if_pos welcomed.error]
        have used := kept.wired.inUse t member socket reliable
        have located := (SocketServer.getWithSocket_iff kept.wired used).mpr ⟨member, reliable⟩
        have unbound : t.Unbound := by
          have free := welcomed.free
          simp only [SocketServer.isFree, located, Bool.and_eq_true, decide_eq_true_eq] at free
          exact free
        have alone : ∀ t' ∈ s.sockets.tuples, t'.reliableLink = some socket → t'.Unbound := by
          intro t' there reliable'
          have same := (SocketServer.getWithSocket_iff kept.wired used).mpr ⟨there, reliable'⟩
          rw [located] at same
          cases same
          exact unbound
        have fresh : ¬s.sockets.Refers x.handle x.federation.nextFederate := fun refers =>
          Nat.lt_irrefl _ (kept.given x listed _ refers)
        have counted := Nat.ne_of_gt (kept.numbered listed).positive
        have wired : (s.sockets.atLink socket
            (s.sockets.bind x.handle x.federation.nextFederate)).Wired :=
          SocketServer.bind_wired kept.wired ⟨positive, counted⟩ fresh
        have refers : ∀ handle, handle ≠ 0 → ∀ fed, SocketServer.Refers (s.sockets.atLink socket
            (s.sockets.bind x.handle x.federation.nextFederate)) handle fed ↔
              s.sockets.Refers handle fed ∨
                (handle = x.handle ∧ fed = x.federation.nextFederate) := fun handle bound fed =>
          SocketServer.refers_bind member reliable alone bound
        rw [SocketServer.setReferences_eq kept.wired member reliable unbound,
          serve_eq kept listed]
        refine kept.serve wired ?_ listed rfl (fun fed => ?_) (fun handle bound apart fed => ?_)
          (fun fed here => ?_) _
        · -- the newcomer reads its handle in the answer
          have sent := SocketServer.write_single wired positive
            (List.mem_map.mpr ⟨t, member, if_pos reliable⟩) rfl rfl reliable welcomed.sent
          have told : ∀ (event : Event) (error : Option RtigError), RtigAnswer.joined
              ⟨some (x.handle, event), (s.sockets.atLink socket
                (s.sockets.bind x.handle x.federation.nextFederate)).write x.handle
                  (rtig x.federation
                    (.join federate ⟨modulesOpen, s.sockets.isFree socket⟩)).2.1, error⟩ =
              some (x.handle, x.federation.nextFederate) := by
            intro event error
            simp only [RtigAnswer.joined, sent, List.findSome?_map, Function.comp_def]
            rw [welcomed.welcomes]
          simp only [hear, told]
          exact kept.tells.bind member reliable positive
        · rw [welcomed.references, List.mem_cons, refers x.handle positive fed,
            kept.isolated.references x listed fed]
          simp only [true_and]
          exact or_comm
        · rw [refers handle bound fed]
          exact or_iff_left fun same => apart same.1
        · rw [welcomed.nextFederate]
          rcases (refers x.handle positive fed).mp here with old | ⟨_, rfl⟩
          · exact Nat.lt_succ_of_lt (kept.given x listed fed old)
          · exact Nat.lt_succ_self _
      · rw [if_neg refused, serve_eq kept listed]
        refine kept.serve kept.wired ?_ listed rfl (fun fed => ?_) (fun _ _ _ _ => Iff.rfl)
          (fun fed here => ?_) _
        · rw [unsent]
          exact kept.tells
        · rw [references]
          exact kept.isolated.references x listed fed
        · exact Nat.lt_of_lt_of_le (kept.given x listed fed here) next

theorem Kept.process (kept : s.Kept past) {socket : Descriptor} {t : SocketTuple}
    (member : t ∈ s.sockets.tuples) (reliable : t.reliableLink = some socket)
    (request : RtigRequest) :
    (s.process socket request).1.Kept
      (past ++ [(RtigEvent.message socket request, (s.process socket request).2)]) := by
  cases request with
  | createFederation origin name fom withMom => exact kept.createFederation name fom withMom
  | joinFederation origin name federate modulesOpen =>
    exact kept.joinFederation member reliable name federate modulesOpen
  | destroyFederation name => exact kept.destroyFederation name
  | closeConnexion origin =>
    exact kept.closeConnection member reliable false fun answer fine => by simp [hear, fine]
  | service federation request => exact kept.service federation request

theorem rtigServer_kept (kept : s.Kept past) (possible : s.Possible e) :
    (rtigServer s e).1.Kept (past ++ [(e, (rtigServer s e).2)]) := by
  unfold rtigServer
  split
  · refine kept.quiet rfl ?_ (le_refl _) rfl
    cases e with
    | opened socket => rfl
    | lost socket => rfl
    | message socket request => cases request <;> rfl
  · cases e with
    | opened socket =>
      obtain ⟨valid, other, fresh⟩ := possible
      exact kept.rewire rfl (SocketServer.opened_wired kept.wired ⟨valid, other⟩ fresh)
        (kept.tells.opened fresh) fun handle bound fed => SocketServer.refers_opened bound
    | lost socket =>
      obtain ⟨t, member, reliable⟩ := possible
      exact kept.closeConnection member reliable true fun answer fine => by simp [hear, fine]
    | message socket request =>
      obtain ⟨t, member, reliable⟩ := possible
      have processed := kept.process member reliable request
      dsimp only
      unfold processIncomingMessage
      split
      · exact processed
      · split
        · exact processed
        · exact kept.refuse socket request _
        · refine kept.quiet rfl ?_ (le_refl _) rfl
          cases request <;> rfl

/-- A federation is asked by a message that has been checked, by a join, or by a loss. -/
inductive Asked (s : Rtig) : RtigEvent → FederationHandle → Event → Prop
  | service (socket : Descriptor) (handle : FederationHandle) (request : ServiceRequest)
      (checked : s.sockets.checkMessage socket handle request.federate = .returned) :
      Asked s (.message socket (.service handle request)) handle request.event
  | join (e : RtigEvent) (handle : FederationHandle) (name : String)
      (conditions : Federation.JoinConditions) : Asked s e handle (.join name conditions)
  | lost (socket : Descriptor) (t : SocketTuple)
      (found : s.sockets.getWithSocket socket = .ok t) :
      Asked s (.lost socket) t.federation (.kill t.federate)

/-- Nothing is asked of a federation and nothing sent, or one that exists is asked and its messages
are sent. -/
def Answers (s : Rtig) (e : RtigEvent) (r : Rtig × RtigAnswer) : Prop :=
  (r.2.served = none ∧ r.2.sent = []) ∨
    ∃ handle event x, r.2.served = some (handle, event) ∧ s.Asked e handle event ∧
      s.searchFederation handle = some x ∧
      r.2.sent = r.1.sockets.write handle (rtig x.federation event).2.1

theorem serve_answers {handle : FederationHandle} {event : Event}
    (asked : s.Asked e handle event) (sockets : SocketServer) :
    s.Answers e ({ s with sockets := sockets }.serve handle event) := by
  unfold serve
  split
  · exact .inl ⟨rfl, rfl⟩
  · rename_i x found
    exact .inr ⟨handle, event, x, rfl, asked, found, rfl⟩

theorem rtigServer_answers (s : Rtig) (e : RtigEvent) : s.Answers e (rtigServer s e) := by
  have silent : ∀ (s' : Rtig) (error : Option RtigError),
      s.Answers e (s', { error := error }) := fun _ _ => .inl ⟨rfl, rfl⟩
  unfold rtigServer
  split
  · exact silent _ _
  · cases e with
    | opened socket => exact silent _ _
    | lost socket =>
      simp only [closeConnection, if_true]
      split
      · exact silent _ _
      · rename_i t found
        rcases serve_answers (.lost socket t found) (s.sockets.close socket).1 with
          quiet | ⟨handle, event, x, served⟩
        · exact .inl quiet
        · exact .inr ⟨handle, event, x, served⟩
    | message socket request =>
      simp only [processIncomingMessage]
      cases request with
      | createFederation origin name fom withMom =>
        simp only [RtigRequest.origin?, process]
        split
        · unfold createFederation
          dsimp only
          repeat' split
          all_goals exact silent _ _
        · exact silent _ _
        · exact silent _ _
      | joinFederation origin name federate modulesOpen =>
        simp only [RtigRequest.origin?, process]
        split
        · unfold joinFederation
          split
          · exact silent _ _
          · split
            · exact silent _ _
            · exact serve_answers (.join _ _ _ _) _
        · exact silent _ _
        · exact silent _ _
      | destroyFederation name =>
        simp only [RtigRequest.origin?, process, destroyFederation]
        repeat' split
        all_goals exact silent _ _
      | closeConnexion origin =>
        simp only [RtigRequest.origin?, process, closeConnection, Bool.false_eq_true, if_false]
        repeat' split
        all_goals exact silent _ _
      | service federation request =>
        simp only [RtigRequest.origin?, process]
        split
        · rename_i checked
          exact serve_answers (.service socket federation request checked) s.sockets
        · exact silent _ _
        · exact silent _ _

/-- Nobody speaks or hears for another. -/
theorem Kept.authentic (kept : s.Kept past) (possible : s.Possible e) : s.Authentic past e := by
  have answers : ∀ {handle event}, (rtigServer s e).2.served = some (handle, event) →
      s.Asked e handle event ∧ ∃ x, s.searchFederation handle = some x ∧ handle ≠ 0 ∧
        (rtigServer s e).2.sent =
          (rtigServer s e).1.sockets.write handle (rtig x.federation event).2.1 := by
    intro handle event served
    rcases rtigServer_answers s e with ⟨none, _⟩ | ⟨h, event', x, same, asked, found, sent⟩
    · rw [served] at none
      cases none
    · rw [served] at same
      cases same
      have known := (kept.range x (lookup_mem found)).1
      rw [lookup_key found] at known
      exact ⟨asked, x, found, Nat.ne_of_gt known, sent⟩
  refine ⟨?_, ?_, ?_, ?_, ?_⟩
  · intro handle event fed served sender
    obtain ⟨asked, x, _, positive, _⟩ := answers served
    cases asked with
    | service socket handle request checked =>
      have same : request.federate = fed := Option.some.inj (request.sent.symm.trans sender)
      refine ⟨socket, _, rfl, ?_⟩
      rcases SocketServer.checkMessage_accepts checked with
        anonymous | ⟨t, member, reliable, federation, federate⟩
      · exact absurd anonymous.1 positive
      · rw [kept.tells.tells t member socket reliable, SocketTuple.pair, federation, federate,
          if_neg positive, same]
    | join => cases sender
    | lost => cases sender
  · intro handle fed served
    obtain ⟨asked, x, _, positive, _⟩ := answers served
    generalize same : Event.kill fed = event at asked
    cases asked with
    | service socket handle request checked =>
      have sent := request.sent
      rw [← same] at sent
      cases sent
    | join => cases same
    | lost socket t found =>
      cases same
      obtain ⟨t', member, reliable⟩ := possible
      have used := kept.wired.inUse t' member socket reliable
      obtain ⟨listed, here⟩ := (SocketServer.getWithSocket_iff kept.wired used).mp found
      refine ⟨socket, rfl, ?_⟩
      rw [kept.tells.tells t listed socket here, SocketTuple.pair, if_neg positive]
  · intro x listed event served link m
    obtain ⟨_, x', found, positive, sent⟩ := answers served
    rw [searchFederation_eq kept listed] at found
    cases found
    have after := rtigServer_kept kept possible
    rw [sent]
    exact after.tells.mem_write after.wired positive
  · intro quiet
    rcases rtigServer_answers s e with ⟨_, unsent⟩ | ⟨_, _, _, same, _⟩
    · exact unsent
    · rw [quiet] at same
      cases same
  · rintro running socket x listed request rfl speaks
    have positive := Nat.ne_of_gt (kept.range x listed).1
    obtain ⟨t, member, reliable, same⟩ := kept.tells.told socket _ speaks
    obtain ⟨federation, federate⟩ := SocketTuple.pair_eq same
    have found := (SocketServer.getWithReferences_iff kept.wired positive).mpr
      ⟨member, federation, federate⟩
    have checked : s.sockets.checkMessage socket x.handle request.federate = .returned := by
      simp [SocketServer.checkMessage, SocketServer.getSocketLink, positive, found, Except.map,
        reliable]
    unfold rtigServer
    rw [if_neg (by simp [running])]
    simp only [processIncomingMessage, RtigRequest.origin?, checked]
    have served := serve_eq kept listed request.event s.sockets
    change (s.serve x.handle request.event).2.served = _
    rw [show s.serve x.handle request.event = _ from served]

theorem create_kept (udpSocket : Descriptor) (haveXml : Bool) :
    (create udpSocket haveXml).Kept [] where
  wired :=
    { inUse := fun t member => by cases member
      bestEffort := fun t member => by cases member
      links := List.Pairwise.nil
      pairs := List.Pairwise.nil
      whole := fun t member => by cases member }
  tells :=
    { tells := fun t member => by cases member
      told := fun link pair speaks => by cases speaks }
  isolated :=
    { handles := List.nodup_nil
      names := List.nodup_nil
      own := fun x listed => by cases listed
      references := fun x listed => by cases listed }
  next := Nat.one_pos
  range := fun x listed => by cases listed
  bound := fun handle fed refers => by
    obtain ⟨t, member, _⟩ := refers
    cases member
  given := fun x listed => by cases listed
  unasked := fun handle beyond => rfl

end Rtig

/-! ## Whole runs -/

/-- Two federations with a federate each, both of which have the handle 1. -/
def twoFederations : List RtigEvent :=
  let nobody : Origin := ⟨0, 0⟩
  [.opened 5, .opened 6, .message 5 (.createFederation nobody "A" (some smallFom) false),
    .message 6 (.createFederation nobody "B" (some smallFom) false),
    .message 5 (.joinFederation nobody "A" "a" true),
    .message 6 (.joinFederation nobody "B" "b" true)]

end Certi
