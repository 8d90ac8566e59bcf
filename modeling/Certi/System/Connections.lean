import Certi.RTIA.TimeManagement
import Certi.RTIG.Run

/-!
# RTIAs connected to the RTIG

One federation of the RTIG and the RTIAs that have opened a connection to it,
each with the messages that are under way in both directions, in the order they
were sent. A step is a call of a federate, an RTIA that takes up a message, the
RTIG that handles one, or the loss of a connection: every interleaving of these
is a run. `RTIA/Communications.cc` keeps messages that arrive before an awaited
one in a waiting list and takes them up first, so an RTIA has one list of
messages to take up.
-/
namespace Certi

open Runs Keyed

abbrev Link := Nat

/-- What an RTIA asks the RTIG for. `fed` is the handle it writes into the message, 0 when it is
no member of a federation. -/
inductive Request where
  | join (name : String) (modulesOpen : Bool)
  | time (fed : FederateHandle) (m : ToRtig)
  deriving DecidableEq

/-- A refusal is a message of the type of the request, with nothing in it but the exception. -/
inductive Incoming where
  | answer (m : NetworkMessage)
  | dated (m : QueuedMessage)
  | refusal (q : Request)
  deriving DecidableEq

/-- The call of the federate that waits for an answer of the RTIG. -/
inductive Call where
  | join | resign
  deriving DecidableEq

structure Station where
  link : Link
  /-- The federate to which the RTIG has bound the connection (`SocketTuple`). -/
  references : Option FederateHandle
  tm : TimeManagement
  waiting : Option Call
  requests : List Request
  inbox : List Incoming
  deriving DecidableEq

/-! ## An RTIA -/

/-- The calls that `RTIA_federate.cc` hands to the time management. -/
def RtiaEvent.isService : RtiaEvent → Bool
  | .timeAdvanceRequest _ | .timeAdvanceRequestAvailable _ | .nextEventRequest _
  | .nextEventRequestAvailable _ | .setLookahead _ | .setTimeConstrained _
  | .setTimeRegulating _ _ | .setAsynchronousDelivery _ | .sendDated _ | .deleteDated _
  | .tick => true
  | .join _ _ | .resign | .arrive _ | .messageNull _ _ | .regulatorOn _ _
  | .regulatorOff _ => false

namespace NetworkMessage

/-- The queue of a message that does not concern the clocks; no message of these types is
dated. -/
def queued : NetworkMessage → QueuedMessage
  | .initiateFederateSave .. | .federationSaved | .federationNotSaved => ⟨0, .beginCommand, none⟩
  | .removeObject .. => ⟨0, .removeObject, none⟩
  | .discoverObject .. => ⟨0, .other, none⟩
  | _ => ⟨0, .lastCommand, none⟩

end NetworkMessage

/-- The case of `RTIA::processNetworkMessage`, if there is one. It does not look at the exception
of a message, and a regulator is off where nothing says that it is on. -/
def Incoming.event : Incoming → Option RtiaEvent
  | .answer (.messageNull fed date) => some (.messageNull fed date)
  | .answer (.setTimeRegulating fed true date) => some (.regulatorOn fed date)
  | .answer (.setTimeRegulating fed false _) => some (.regulatorOff fed)
  | .answer (.joinFederationExecution ..) | .answer (.resignFederationExecution _) => none
  | .answer m => some (.arrive m.queued)
  | .dated m => some (.arrive m)
  | .refusal (.time fed (.setTimeRegulating ..)) => some (.regulatorOff fed)
  | .refusal _ => none

def Incoming.isJoinAnswer : Incoming → Bool
  | .answer (.joinFederationExecution ..) | .refusal (.join ..) => true
  | _ => false

def Incoming.isResignAnswer : Incoming → Bool
  | .answer (.resignFederationExecution _) | .refusal (.time _ .resign) => true
  | _ => false

/-- The first NULL messages, as many as there are regulators; `none` while one is missing. -/
def takeClocks : Nat → List Incoming → Option (List (FederateHandle × Date) × List Incoming)
  | 0, inbox => some ([], inbox)
  | _ + 1, [] => none
  | n + 1, .answer (.messageNull fed date) :: rest =>
    (takeClocks n rest).map fun taken => ((fed, date) :: taken.1, taken.2)
  | n + 1, m :: rest => (takeClocks (n + 1) rest).map fun taken => (taken.1, m :: taken.2)

namespace Station

variable (st : Station)

/-- The handle in the messages of the RTIA. -/
def speaksFor : FederateHandle := if st.tm.isMember then st.tm.myFederateNumber else 0

/-- The RTIA handles an event and sends what that takes. -/
def perform (e : RtiaEvent) : Station × RtiaAnswer :=
  let (tm, answer) := rtia st.tm e
  ({ st with
      tm := tm
      requests := st.requests ++ answer.sent.map (Request.time st.speaksFor) }, answer)

/-- No call is pending and the process is alive. -/
def ready : Bool := st.waiting.isNone && !st.tm.ended

def call (e : RtiaEvent) : Station × RtiaAnswer :=
  if st.ready && e.isService then st.perform e else (st, {})

def join (name : String) (modulesOpen : Bool) : Station :=
  if st.ready && !st.tm.isMember then
    { st with
      waiting := some .join
      requests := st.requests ++ [.join name modulesOpen] }
  else st

def resign : Station × RtiaAnswer :=
  if st.ready && st.tm.isMember then
    let (resigned, answer) := st.perform .resign
    ({ resigned with waiting := some .resign }, answer)
  else (st, {})

/-- The end of `joinFederationExecution`: `none` while the answer or a clock is missing. -/
def finishJoin : Option (Station × RtiaAnswer) :=
  match st.inbox.find? Incoming.isJoinAnswer with
  | none => none
  | some (.answer (.joinFederationExecution fed n)) =>
    (takeClocks n (st.inbox.eraseP Incoming.isJoinAnswer)).map fun taken =>
      { st with waiting := none, inbox := taken.2 }.perform (.join fed taken.1)
  | some _ =>
    some ({ st with waiting := none, inbox := st.inbox.eraseP Incoming.isJoinAnswer }, {})

def finishResign : Station :=
  if st.inbox.any Incoming.isResignAnswer then
    { st with waiting := none, inbox := st.inbox.eraseP Incoming.isResignAnswer }
  else st

/-- A message of a type that the RTIA has no case for ends it. -/
def process (m : Incoming) : Station × RtiaAnswer :=
  match m.event with
  | some e => st.perform e
  | none =>
    ({ st with tm := { st.tm with ended := true } }, { error := some .rtiInternalError })

/-- The RTIA takes up a message from the RTIG: the one it waits for, or the first. -/
def receive : Station × RtiaAnswer :=
  if st.tm.ended then (st, {})
  else
    match st.waiting with
    | some .join => st.finishJoin.getD (st, {})
    | some .resign => (st.finishResign, {})
    | none =>
      match st.inbox with
      | [] => (st, {})
      | m :: rest => { st with inbox := rest }.process m

/-- More messages come from the RTIG. -/
def add (more : List Incoming) : Station := { st with inbox := st.inbox ++ more }

def refuse (q : Request) : Station := st.add [.refusal q]

def bind (fed : FederateHandle) : Station := { st with references := some fed }

/-- The messages for the federate of the connection. -/
def post (sent : Responses) : Station :=
  st.add ((sent.filter fun response => st.references = some response.1).map fun response =>
    .answer response.2)

def hand (m : QueuedMessage) (recipients : List FederateHandle) : Station :=
  if recipients.any (fun h => st.references = some h) then st.add [.dated m] else st

/-- The RTIG has read the first request. -/
def pop : Station := { st with requests := st.requests.tail }

end Station

/-! ## The whole -/

structure Network where
  federation : Federation
  stations : List Station
  nextLink : Link

/-- `connect` starts an RTIA. Who gets a dated message, and in which order type, is up to the
object model: the two are arguments of the step that forwards it. -/
inductive NetworkEvent where
  | connect (granted : TypeGrantedState)
  | join (link : Link) (name : String) (modulesOpen : Bool)
  | resign (link : Link)
  | call (link : Link) (e : RtiaEvent)
  | receive (link : Link)
  | route (link : Link) (recipients : List FederateHandle) (payload : Payload)
  | lose (link : Link)

/-- What the RTIG is asked to do; `free` says whether the connection is bound to nobody. A dated
message it only forwards. -/
def Request.event (free : Bool) : Request → Option Event
  | .join name modulesOpen => some (.join name ⟨modulesOpen, free⟩)
  | .time fed (.messageNull date) => some (.messageNull fed date)
  | .time fed (.setTimeRegulating on date) => some (.setTimeRegulating fed on date)
  | .time fed (.setTimeConstrained on) => some (.setTimeConstrained fed on)
  | .time fed .resign => some (.resign fed)
  | .time _ (.sendDated _) | .time _ (.deleteDated _) => none

def Request.isJoin : Request → Bool
  | .join .. => true
  | .time .. => false

/-- `MessageProcessor` swallows the exceptions of a NULL message. -/
def Request.isAnswered : Request → Bool
  | .time _ (.messageNull _) => false
  | _ => true

/-- The message that a federate of the RTIG is forwarded. -/
def Request.forwarded (payload : Payload) : Request → Option (FederateHandle × QueuedMessage)
  | .time fed (.sendDated date) | .time fed (.deleteDated date) =>
    some (fed, ⟨0, payload, some date⟩)
  | _ => none

namespace Network

variable (net : Network)

def station? (link : Link) : Option Station := lookup Station.link link net.stations

/-- One RTIA does something. -/
def atStation (link : Link) (action : Station → Station × RtiaAnswer) : Network × RtiaAnswer :=
  match net.station? link with
  | none => (net, {})
  | some st =>
    ({ net with stations := adjust Station.link link (fun st => (action st).1) net.stations },
      (action st).2)

def refuse (link : Link) (q : Request) : Network :=
  { net with stations := adjust Station.link link (·.refuse q) net.stations }

def post (sent : Responses) : Network :=
  { net with stations := net.stations.map (·.post sent) }

/-- The connection is bound to the federate that has joined over it. -/
def bind (link : Link) (fed : FederateHandle) : Network :=
  { net with stations := adjust Station.link link (·.bind fed) net.stations }

/-- The federation handles a request that has come over the connection. -/
def serve (link : Link) (q : Request) (e : Event) : Network :=
  let (federation, sent, error) := rtig net.federation e
  let served := { net with federation := federation }
  match error with
  | none =>
    let bound := if q.isJoin then served.bind link net.federation.nextFederate else served
    bound.post sent
  | some _ =>
    let posted := served.post sent
    if q.isAnswered then posted.refuse link q else posted

/-- A dated message goes to those of the recipients that are members, but not to its sender. -/
def forward (fed : FederateHandle) (m : QueuedMessage) (recipients : List FederateHandle) :
    Network :=
  let others := recipients.filter fun h => h ≠ fed && net.federation.isJoined h
  { net with stations := net.stations.map (·.hand m others) }

/-- The RTIG handles the first request that has come over a connection. -/
def route (link : Link) (recipients : List FederateHandle) (payload : Payload) : Network :=
  match net.station? link with
  | none => net
  | some st =>
    match st.requests with
    | [] => net
    | q :: _ =>
      let taken := { net with stations := adjust Station.link link Station.pop net.stations }
      match q.event st.references.isNone, q.forwarded payload with
      | some e, _ => taken.serve link q e
      | none, some (fed, m) =>
        if net.federation.isJoined fed then taken.forward fed m recipients
        else taken.refuse link q
      | none, none => taken

/-- The RTIG finds a connection broken, with whatever was under way over it. -/
def lose (link : Link) : Network :=
  match net.station? link with
  | none => net
  | some st =>
    let left := { net with stations := drop Station.link link net.stations }
    match st.references with
    | none => left
    | some fed =>
      let (federation, sent, _) := rtig net.federation (.kill fed)
      { left with federation := federation }.post sent

def connect (granted : TypeGrantedState) : Network :=
  { net with
    stations := net.stations ++ [⟨net.nextLink, none, .create granted, none, [], []⟩]
    nextLink := net.nextLink + 1 }

/-- A federation that nobody has connected to. -/
def create (fom : Fom) (withMom haveXml : Bool) : Network :=
  { federation := .create fom withMom haveXml
    stations := []
    nextLink := 0 }

end Network

/-- A step of the network, with the answer of the RTIA that has taken it. -/
def network : Machine Network NetworkEvent RtiaAnswer := fun net e =>
  match e with
  | .connect granted => (net.connect granted, {})
  | .join link name modulesOpen => net.atStation link fun st => (st.join name modulesOpen, {})
  | .resign link => net.atStation link Station.resign
  | .call link e => net.atStation link (·.call e)
  | .receive link => net.atStation link Station.receive
  | .route link recipients payload => (net.route link recipients payload, {})
  | .lose link => (net.lose link, {})

end Certi
