import Certi.Lib.Runs
import Certi.RTIA.Files

/-!
# Time management of one RTIA

`RTIA/TimeManagement.cc` as it is built without the NULL PRIME protocol, with
what `RTIA_network.cc`, `RTIA_federate.cc`, `ObjectManagement.cc` and
`FederationManagement.cc` do to its state: the services of the federate, the
messages of the RTIG, and `tick`. Periodic reports to the MOM are left out.
-/
namespace Certi

open Runs

/-- `TypeAvancee`, in the words of the source. -/
inductive TypeAvancee where
  | pasDAvancee | tar | ner | tara | nera
  deriving DecidableEq, Repr

inductive TypeGrantedState where
  | afterTarOrNer | afterTarOrNerWithZeroLk | afterTaraOrNera
  deriving DecidableEq, Repr

/-- `epsilon2`, which stands for a lookahead of zero while a request is pending. -/
def epsilon2 : Date := ((1 / 10000 : FederationTime) : Date)

structure TimeManagement extends LBTS where
  queues : Queues
  lastNullMessageDate : Date
  avanceeEnCours : TypeAvancee
  dateAvancee : Date
  typeGrantedState : TypeGrantedState
  heureCourante : Date
  lookaheadCourant : Date
  isRegulating : Bool
  isConstrained : Bool
  asynchronousDelivery : Bool
  isMember : Bool
  /-- An exception reached `main`: the process is over. -/
  ended : Bool
  deriving DecidableEq

/-- What the RTIA tells the RTIG about time, and the dated messages it sends for the federate. -/
inductive ToRtig where
  | messageNull (date : Date)
  | setTimeRegulating (on : Bool) (date : Date)
  | setTimeConstrained (on : Bool)
  | sendDated (date : Date)
  | deleteDated (date : Date)
  | resign
  deriving DecidableEq

/-- What the federate is called with; the constructors say which queue a message came from. -/
inductive Callback where
  | command (m : QueuedMessage)
  | fifo (m : QueuedMessage)
  | tso (m : QueuedMessage)
  | timeAdvanceGrant (date : Date)
  deriving DecidableEq

structure RtiaAnswer where
  sent : List ToRtig := []
  callbacks : List Callback := []
  more : Bool := false
  error : Option RTIException := none
  deriving DecidableEq

namespace TimeManagement

/-- `_type_granted_state` has no initial value in the source: it is the argument. -/
def create (granted : TypeGrantedState) : TimeManagement :=
  { LBTS.create with
    queues := ⟨[], [], []⟩
    lastNullMessageDate := 0
    avanceeEnCours := .pasDAvancee
    dateAvancee := 0
    typeGrantedState := granted
    heureCourante := 0
    lookaheadCourant := 0
    isRegulating := false
    isConstrained := false
    asynchronousDelivery := false
    isMember := false
    ended := false }

variable (tm : TimeManagement)

/-! ## Services of the federate -/

def refuse (e : RTIException) : TimeManagement × RtiaAnswer := (tm, { error := some e })

/-- The later check overwrites the exception of the first. -/
def requestError (date : Date) : Option RTIException :=
  if date < tm.heureCourante then some .federationTimeAlreadyPassed
  else if tm.avanceeEnCours ≠ .pasDAvancee then some .timeAdvanceAlreadyInProgress
  else none

/-- The date of a NULL message is a promise: the time plus the lookahead. None is sent that
promises no more than the last one. -/
def sendNullMessage (date : Date) : TimeManagement × List ToRtig :=
  if tm.lastNullMessageDate < date + tm.lookaheadCourant then
    ({ tm with lastNullMessageDate := date + tm.lookaheadCourant },
      [.messageNull (date + tm.lookaheadCourant)])
  else (tm, [])

def sendNullIfRegulating (date : Date) : TimeManagement × List ToRtig :=
  if tm.isRegulating then tm.sendNullMessage date else (tm, [])

/-- TAR and NER take a lookahead of zero for `epsilon2` until the grant. -/
def assumeLookahead : TimeManagement :=
  if tm.lookaheadCourant = 0 then
    { tm with lookaheadCourant := epsilon2, typeGrantedState := .afterTarOrNerWithZeroLk }
  else { tm with typeGrantedState := .afterTarOrNer }

def await (kind : TypeAvancee) (date : Date) : TimeManagement :=
  { tm with avanceeEnCours := kind, dateAvancee := date }

def timeAdvanceRequest (date : Date) : TimeManagement × RtiaAnswer :=
  match tm.requestError date with
  | some e => tm.refuse e
  | none =>
    let (tm, sent) := tm.assumeLookahead.sendNullIfRegulating date
    (tm.await .tar date, { sent := sent })

def timeAdvanceRequestAvailable (date : Date) : TimeManagement × RtiaAnswer :=
  match tm.requestError date with
  | some e => tm.refuse e
  | none =>
    let (tm, sent) :=
      { tm with typeGrantedState := .afterTaraOrNera }.sendNullIfRegulating date
    (tm.await .tara date, { sent := sent })

def nextEventRequest (date : Date) : TimeManagement × RtiaAnswer :=
  match tm.requestError date with
  | some e => tm.refuse e
  | none => (tm.assumeLookahead.await .ner date, {})

/-- The source returns when there is no exception, and goes on when there is one. -/
def nextEventRequestAvailable (date : Date) : TimeManagement × RtiaAnswer :=
  match tm.requestError date with
  | none => (tm, {})
  | some e =>
    ({ tm with typeGrantedState := .afterTaraOrNera }.await .nera date, { error := some e })

/-- An epsilon2 that the federate asks for would be taken for zero; that check is the later. -/
def setLookahead (lookahead : Date) : TimeManagement × RtiaAnswer :=
  if lookahead = epsilon2 then tm.refuse .rtiInternalError
  else if lookahead < 0 then tm.refuse .invalidLookahead
  else
    let (tm, sent) :=
      { tm with lookaheadCourant := lookahead }.sendNullIfRegulating tm.heureCourante
    (tm, { sent := sent })

def setTimeConstrained (on : Bool) : TimeManagement × RtiaAnswer :=
  if tm.isConstrained = on ∨ tm.avanceeEnCours ≠ .pasDAvancee then tm.refuse .rtiInternalError
  else ({ tm with isConstrained := on }, { sent := [.setTimeConstrained on] })

/-- The requested time is ignored and the lookahead not checked. -/
def setTimeRegulating (on : Bool) (lookahead : Date) : TimeManagement × RtiaAnswer :=
  if tm.isRegulating = on ∨ tm.avanceeEnCours ≠ .pasDAvancee then tm.refuse .rtiInternalError
  else
    ({ tm with isRegulating := on, lookaheadCourant := lookahead },
      { sent := [.setTimeRegulating on (tm.heureCourante + lookahead)] })

def setAsynchronousDelivery (on : Bool) : TimeManagement × RtiaAnswer :=
  if tm.asynchronousDelivery = on then
    tm.refuse (if on then .asynchronousDeliveryAlreadyEnabled
      else .asynchronousDeliveryAlreadyDisabled)
  else ({ tm with asynchronousDelivery := on }, {})

def stopperAvanceTemps : TimeManagement := { tm with avanceeEnCours := .pasDAvancee }

/-- The base is the requested date while a request is pending. -/
def testValidTime (date : Date) : Bool :=
  let base := if tm.avanceeEnCours = .pasDAvancee then tm.heureCourante else tm.dateAvancee
  if tm.typeGrantedState = .afterTarOrNerWithZeroLk then base < date
  else base + tm.lookaheadCourant ≤ date

/-- `ObjectManagement::updateAttributeValues` and `sendInteraction` with a date. -/
def sendDated (date : Date) : TimeManagement × RtiaAnswer :=
  if tm.testValidTime date then (tm, { sent := [.sendDated date] })
  else tm.refuse .invalidFederationTime

/-- `ObjectManagement::deleteObjectInstance` with a date, which it does not check. -/
def deleteDated (date : Date) : TimeManagement × RtiaAnswer := (tm, { sent := [.deleteDated date] })

/-- `FederationManagement::resignFederationExecution`. -/
def resign : TimeManagement × RtiaAnswer :=
  if tm.isMember then
    let stopped := tm.stopperAvanceTemps
    let (tm, answer) := if stopped.isRegulating then stopped.setTimeRegulating false 0
      else (stopped, {})
    ({ tm with isMember := false }, { sent := answer.sent ++ [.resign] })
  else tm.refuse .federateNotExecutionMember

/-- An exception in the processing of a network message reaches `main`. -/
def orEnd (result : Except RTIException LBTS) : TimeManagement × RtiaAnswer :=
  match result with
  | .ok l => ({ tm with toLBTS := l }, {})
  | .error e => ({ tm with ended := true }, { error := some e })

/-- The clocks that a join is answered with, one NULL message each; the federate is a member
when all are in. -/
def insertClocks : TimeManagement → List (FederateHandle × Date) → TimeManagement × RtiaAnswer
  | tm, [] => ({ tm with isMember := true }, {})
  | tm, (h, date) :: rest =>
    match tm.toLBTS.insert h date with
    | .ok l => insertClocks { tm with toLBTS := l } rest
    | .error e => tm.refuse e

/-- `FederationManagement::joinFederationExecution` once the RTIG has accepted. Nothing of an
earlier membership is reset. -/
def join (self : FederateHandle) (clocks : List (FederateHandle × Date)) :
    TimeManagement × RtiaAnswer :=
  if tm.isMember then tm.refuse .federateAlreadyExecutionMember
  else { tm with toLBTS := tm.toLBTS.setFederate self }.insertClocks clocks

/-! ## Messages of the RTIG -/

def insertByOrder (m : QueuedMessage) (order : OrderType) : TimeManagement :=
  if order = .timestamp ∧ tm.isConstrained then
    { tm with queues := tm.queues.insertTsoMessage m }
  else { tm with queues := tm.queues.insertFifoMessage m }

/-- `RTIA::processNetworkMessage` for a message that is queued. -/
def processNetworkMessage (m : QueuedMessage) : TimeManagement × RtiaAnswer :=
  match m.payload with
  | .beginCommand => ({ tm with queues := tm.queues.insertBeginCommand m }, {})
  | .lastCommand => ({ tm with queues := tm.queues.insertLastCommand m }, {})
  | _ =>
    match m.order with
    | .ok order => (tm.insertByOrder m order, {})
    | .error e => ({ tm with ended := true }, { error := some e })

/-! ## Ticks -/

/-- The end of an advance, which gives a lookahead of zero back. -/
def timeAdvanceGrant (date : Date) : TimeManagement × RtiaAnswer :=
  ({ tm with
      lookaheadCourant := if tm.lookaheadCourant = epsilon2 then 0 else tm.lookaheadCourant
      heureCourante := date
      avanceeEnCours := .pasDAvancee },
    { callbacks := [.timeAdvanceGrant date] })

def deliver (given : QueuedMessage × Bool × Queues) (callback : QueuedMessage → Callback) :
    TimeManagement × RtiaAnswer :=
  ({ tm with queues := given.2.2 }, { callbacks := [callback given.1], more := given.2.1 })

/-- A grant at the bound itself is for the requests that end in "available". -/
def mayGrant (date : Date) (available : TypeAvancee) : Bool :=
  date < tm.lbts || (date ≤ tm.lbts && tm.avanceeEnCours = available)

def timeAdvance : TimeManagement × RtiaAnswer :=
  if tm.isConstrained then
    let low := if tm.lbts < tm.dateAvancee then tm.lbts else tm.dateAvancee
    match tm.queues.giveTsoMessage low with
    | some given => tm.deliver given .tso
    | none =>
      if tm.mayGrant tm.dateAvancee .tara then tm.timeAdvanceGrant tm.dateAvancee else (tm, {})
  else tm.timeAdvanceGrant tm.dateAvancee

/-- The earliest of the requested date and the first message in time stamp order. -/
def dateMin : Date :=
  match tm.queues.nextTsoDate with
  | some date => if date < tm.dateAvancee then date else tm.dateAvancee
  | none => tm.dateAvancee

/-- The delivery or grant at the date that has become the requested one. -/
def reach : TimeManagement × RtiaAnswer :=
  match tm.queues.giveTsoMessage tm.dateAvancee with
  | some given => tm.deliver given .tso
  | none => tm.timeAdvanceGrant tm.dateAvancee

def withSent (sent : List ToRtig) (result : TimeManagement × RtiaAnswer) :
    TimeManagement × RtiaAnswer :=
  (result.1, { result.2 with sent := sent ++ result.2.sent })

def nextEventAdvance : TimeManagement × RtiaAnswer :=
  if tm.isConstrained then
    let date := tm.dateMin
    if tm.mayGrant date .nera then
      let (tm, sent) := { tm with dateAvancee := date }.sendNullIfRegulating date
      withSent sent tm.reach
    else
      let (tm, sent) := tm.sendNullIfRegulating tm.lbts
      (tm, { sent := sent })
  else
    let (tm, sent) := tm.sendNullIfRegulating tm.dateAvancee
    withSent sent (tm.timeAdvanceGrant tm.dateAvancee)

def advance : TimeManagement × RtiaAnswer :=
  match tm.avanceeEnCours with
  | .tar | .tara => tm.timeAdvance
  | .ner | .nera => tm.nextEventAdvance
  | .pasDAvancee => (tm, {})

/-- Messages in receive order wait for a request of a constrained federate. -/
def mayGiveFifo : Bool :=
  tm.asynchronousDelivery || tm.avanceeEnCours ≠ .pasDAvancee || !tm.isConstrained

def tick : TimeManagement × RtiaAnswer :=
  match tm.queues.giveCommandMessage with
  | some given => tm.deliver given .command
  | none =>
    match if tm.mayGiveFifo then tm.queues.giveFifoMessage else none with
    | some given => tm.deliver given .fifo
    | none => tm.advance

end TimeManagement

/-! ## Runs -/

inductive RtiaEvent where
  | timeAdvanceRequest (date : Date)
  | timeAdvanceRequestAvailable (date : Date)
  | nextEventRequest (date : Date)
  | nextEventRequestAvailable (date : Date)
  | setLookahead (lookahead : Date)
  | setTimeConstrained (on : Bool)
  | setTimeRegulating (on : Bool) (lookahead : Date)
  | setAsynchronousDelivery (on : Bool)
  | sendDated (date : Date)
  | deleteDated (date : Date)
  | join (self : FederateHandle) (clocks : List (FederateHandle × Date))
  | resign
  | arrive (m : QueuedMessage)
  | messageNull (fed : FederateHandle) (date : Date)
  | regulatorOn (fed : FederateHandle) (date : Date)
  | regulatorOff (fed : FederateHandle)
  | tick
  deriving DecidableEq

/-- What the RTIA does with one event. -/
def TimeManagement.perform (tm : TimeManagement) : RtiaEvent → TimeManagement × RtiaAnswer
  | .timeAdvanceRequest date => tm.timeAdvanceRequest date
  | .timeAdvanceRequestAvailable date => tm.timeAdvanceRequestAvailable date
  | .nextEventRequest date => tm.nextEventRequest date
  | .nextEventRequestAvailable date => tm.nextEventRequestAvailable date
  | .setLookahead lookahead => tm.setLookahead lookahead
  | .setTimeConstrained on => tm.setTimeConstrained on
  | .setTimeRegulating on lookahead => tm.setTimeRegulating on lookahead
  | .setAsynchronousDelivery on => tm.setAsynchronousDelivery on
  | .sendDated date => tm.sendDated date
  | .deleteDated date => tm.deleteDated date
  | .join self clocks => tm.join self clocks
  | .resign => tm.resign
  | .arrive m => tm.processNetworkMessage m
  | .messageNull fed date => tm.orEnd (tm.toLBTS.update fed date)
  | .regulatorOn fed date => tm.orEnd (tm.toLBTS.insert fed date)
  | .regulatorOff fed => tm.orEnd (tm.toLBTS.remove fed)
  | .tick => tm.tick

/-- The RTIA; once its process is over, nobody answers. -/
def rtia : Machine TimeManagement RtiaEvent RtiaAnswer := fun tm e =>
  if tm.ended then (tm, { error := some .networkError }) else tm.perform e

theorem rtia_perform {tm : TimeManagement} {e : RtiaEvent} (running : tm.ended = false) :
    rtia tm e = tm.perform e := by
  simp [rtia, running]

theorem rtia_ended {tm : TimeManagement} {e : RtiaEvent} (stopped : tm.ended = true) :
    rtia tm e = (tm, { error := some .networkError }) := by
  simp [rtia, stopped]

end Certi
