import Certi.Lib.First
import Certi.Lib.Runs
import Certi.LibCERTI.Types

/-!
# The connections of the RTIG

`libCERTI/SocketServer.cc`: the list of tuples that bind a federate to its
links, and the check of the origin of a message that `RTIG.cc` makes before it
processes it. A link is the descriptor that its `returnSocket` gives. Sending,
polling and the `assert` in `SocketUDP::attach` are left out.
-/
namespace Certi

open Runs

abbrev FederationHandle := Nat
abbrev Descriptor := Nat

structure SocketTuple where
  federation : FederationHandle
  federate : FederateHandle
  reliableLink : Option Descriptor
  bestEffortLink : Option Descriptor
  deriving DecidableEq, Repr

structure SocketServer where
  /-- The descriptor every attached best effort link shares (`ServerSocketUDP`). -/
  udpSocket : Descriptor
  tuples : List SocketTuple
  deriving DecidableEq, Repr

namespace SocketTuple

/-- One of the links answers to the descriptor. -/
def hasSocket (socket : Descriptor) (t : SocketTuple) : Bool :=
  t.reliableLink = some socket || t.bestEffortLink = some socket

def hasReferences (federation : FederationHandle) (federate : FederateHandle)
    (t : SocketTuple) : Bool :=
  t.federation = federation && t.federate = federate

/-- No federate has joined over the connection. -/
def Unbound (t : SocketTuple) : Prop := t.federation = 0 ∧ t.federate = 0

def IsOpen (t : SocketTuple) : Prop := t.reliableLink.isSome = true

end SocketTuple

namespace SocketServer

variable (s : SocketServer)

def getWithReferences (federation : FederationHandle) (federate : FederateHandle) :
    Except RTIException SocketTuple :=
  match s.tuples.find? (·.hasReferences federation federate) with
  | some t => .ok t
  | none => .error .federateNotExecutionMember

/-- `getSocketLink` for the reliable transport; a null link after the connection is closed. -/
def getSocketLink (federation : FederationHandle) (federate : FederateHandle) :
    Except RTIException (Option Descriptor) :=
  (s.getWithReferences federation federate).map SocketTuple.reliableLink

def getWithSocket (socket : Descriptor) : Except RTIException SocketTuple :=
  match s.tuples.find? (·.hasSocket socket) with
  | some t => .ok t
  | none => .error .rtiInternalError

/-- `open`, once `accept` has given the descriptor; the best effort link has none yet. -/
def opened (socket : Descriptor) : SocketServer :=
  { s with tuples := ⟨0, 0, some socket, some 0⟩ :: s.tuples }

/-- How a call ends: it returns, throws, or dereferences a null link. -/
inductive Ending where
  | returned
  | thrown (e : RTIException)
  | crashed
  deriving DecidableEq, Repr

def setReferences (socket : Descriptor) (federation : FederationHandle)
    (federate : FederateHandle) : SocketServer × Ending :=
  match s.getWithSocket socket with
  | .error e => (s, .thrown e)
  | .ok t =>
    if t.federation ≠ 0 || t.federate ≠ 0 then (s, .thrown .rtiInternalError)
    else
      ({ s with tuples := First.adjust (·.hasSocket socket) (fun t =>
          { t with
            federation := federation
            federate := federate
            bestEffortLink := t.bestEffortLink.map fun _ => s.udpSocket }) s.tuples },
        .returned)

/-- `close`. The tuple is meant to go when it has no references, but the test asks for an
invalid federation and a federate. -/
def close (socket : Descriptor) : SocketServer × Ending :=
  match s.getWithSocket socket with
  | .error e => (s, .thrown e)
  | .ok t =>
    if t.federation = 0 && t.federate ≠ 0 then
      ({ s with tuples := s.tuples.filter (fun t => t.reliableLink ≠ some socket) }, .returned)
    else
      ({ s with tuples := First.adjust (·.hasSocket socket) (fun t =>
          { t with reliableLink := none, bestEffortLink := none }) s.tuples }, .returned)

/-- `checkMessage`: the link of the origin that the message claims must be the socket. -/
def checkMessage (socket : Descriptor) (federation : FederationHandle)
    (federate : FederateHandle) : Ending :=
  if federation = 0 && federate = 0 then .returned
  else
    match s.getSocketLink federation federate with
    | .error _ => .thrown .securityError
    | .ok none => .crashed
    | .ok (some link) => if link ≠ socket then .thrown .securityError else .returned

end SocketServer

/-! ## Runs -/

inductive ConnectionEvent where
  | opened (socket : Descriptor)
  | setReferences (socket : Descriptor) (federation : FederationHandle)
      (federate : FederateHandle)
  | closed (socket : Descriptor)
  | message (socket : Descriptor) (federation : FederationHandle) (federate : FederateHandle)
  deriving DecidableEq, Repr

open SocketServer

/-- What the socket server does with one event. -/
def sockets : Machine SocketServer ConnectionEvent Ending := fun s e =>
  match e with
  | .opened socket => (s.opened socket, .returned)
  | .setReferences socket federation federate => s.setReferences socket federation federate
  | .closed socket => s.close socket
  | .message socket federation federate => (s, s.checkMessage socket federation federate)

/-- The pair is bound to the socket, which is open. -/
def SocketServer.Bound (s : SocketServer) (socket : Descriptor) (federation : FederationHandle)
    (federate : FederateHandle) : Prop :=
  ∃ t ∈ s.tuples, t.reliableLink = some socket ∧ t.federation = federation ∧
    t.federate = federate

/-- Two connections are not both open and bound to one pair. -/
def SocketTuple.Apart (t t' : SocketTuple) : Prop :=
  t.IsOpen → t'.IsOpen → ¬t.Unbound → ¬(t.federation = t'.federation ∧ t.federate = t'.federate)

/-- What is asked of one event: a message never meets a null link and passes only without an
identity or with that of its socket; afterwards a pair is bound to one open connection at
most, and a closed connection nobody joined over has left no entry. -/
structure Authentic (s : SocketServer) (e : ConnectionEvent) : Prop where
  total : ∀ socket federation federate, e = .message socket federation federate →
    (sockets s e).2 ≠ .crashed
  accepts : ∀ socket federation federate, e = .message socket federation federate →
    (sockets s e).2 = .returned →
      (federation = 0 ∧ federate = 0) ∨ s.Bound socket federation federate
  unique : (sockets s e).1.tuples.Pairwise SocketTuple.Apart
  clean : ∀ t ∈ (sockets s e).1.tuples, t.Unbound → t.IsOpen

/-- The condition on one event: references that are set are bound to no other open
connection, a connection that is closed has been joined over, and the pair of a message does
not belong to a closed connection. -/
def Careful (s : SocketServer) : ConnectionEvent → Prop
  | .opened _ => True
  | .setReferences socket federation federate =>
    ∀ t, s.getWithSocket socket = .ok t → t.Unbound → (federation = 0 ∧ federate = 0) ∨
      ∀ t' ∈ s.tuples, t'.IsOpen → ¬(t'.federation = federation ∧ t'.federate = federate)
  | .closed socket => ∀ t, s.getWithSocket socket = .ok t → ¬t.Unbound
  | .message _ federation federate => (federation = 0 ∧ federate = 0) ∨
    ∀ t, s.getWithReferences federation federate = .ok t → t.IsOpen

/-! ## One event -/

/-- Both links of a tuple are there or neither, and what the events keep when they are careful. -/
structure Connected (s : SocketServer) : Prop where
  links : ∀ t ∈ s.tuples, t.reliableLink.isSome = t.bestEffortLink.isSome
  unique : s.tuples.Pairwise SocketTuple.Apart
  clean : ∀ t ∈ s.tuples, t.Unbound → t.IsOpen

namespace SocketServer

variable {s : SocketServer} {socket : Descriptor} {federation : FederationHandle}
  {federate : FederateHandle} {t : SocketTuple}

theorem apart_symm {t t' : SocketTuple} (apart : t.Apart t') : t'.Apart t := by
  intro isOpen' isOpen bound same
  refine apart isOpen isOpen' (fun unbound => bound ?_) ⟨same.1.symm, same.2.symm⟩
  exact ⟨same.1.trans unbound.1, same.2.trans unbound.2⟩

theorem getWithSocket_ok : s.getWithSocket socket = .ok t ↔
    s.tuples.find? (·.hasSocket socket) = some t := by
  unfold getWithSocket
  cases s.tuples.find? (·.hasSocket socket) <;> simp

theorem getWithReferences_ok : s.getWithReferences federation federate = .ok t ↔
    s.tuples.find? (·.hasReferences federation federate) = some t := by
  unfold getWithReferences
  cases s.tuples.find? (·.hasReferences federation federate) <;> simp

/-- A tuple found by a descriptor is open. -/
theorem isOpen_of_getWithSocket (connected : Connected s)
    (found : s.getWithSocket socket = .ok t) : t.IsOpen := by
  rw [getWithSocket_ok] at found
  have paired := connected.links t (List.mem_of_find?_eq_some found)
  have linked := List.find?_some found
  simp only [SocketTuple.hasSocket, Bool.or_eq_true, decide_eq_true_eq] at linked
  rcases linked with reliable | bestEffort
  · simp [SocketTuple.IsOpen, reliable]
  · rw [SocketTuple.IsOpen, paired, bestEffort]
    rfl

/-- An accepted message carries no identity or that of its socket. -/
theorem checkMessage_accepts (accepted : s.checkMessage socket federation federate = .returned) :
    (federation = 0 ∧ federate = 0) ∨ s.Bound socket federation federate := by
  unfold checkMessage at accepted
  split at accepted
  · rename_i anonymous
    left
    simpa using anonymous
  · right
    unfold getSocketLink at accepted
    cases found : s.getWithReferences federation federate with
    | error e => simp [found, Except.map] at accepted
    | ok t =>
      have located := getWithReferences_ok.mp found
      have references := List.find?_some located
      simp only [SocketTuple.hasReferences, Bool.and_eq_true, decide_eq_true_eq] at references
      cases link : t.reliableLink with
      | none => simp [found, Except.map, link] at accepted
      | some descriptor =>
        by_cases same : descriptor = socket
        · subst same
          exact ⟨t, List.mem_of_find?_eq_some located, link, references⟩
        · simp [found, Except.map, link, same] at accepted

/-- A message crashes the check exactly when its pair is found at a closed connection. -/
theorem checkMessage_total : s.checkMessage socket federation federate ≠ .crashed ↔
    (federation = 0 ∧ federate = 0) ∨
      ∀ t, s.getWithReferences federation federate = .ok t → t.IsOpen := by
  unfold checkMessage getSocketLink
  by_cases anonymous : federation = 0 ∧ federate = 0
  · simp [anonymous]
  · have named : (decide (federation = 0) && decide (federate = 0)) = false := by
      simpa using anonymous
    cases found : s.getWithReferences federation federate with
    | error e => simp [named, Except.map]
    | ok t =>
      cases link : t.reliableLink with
      | none => simp [named, anonymous, Except.map, link, SocketTuple.IsOpen]
      | some descriptor =>
        by_cases same : descriptor = socket <;>
          simp [named, Except.map, link, same, SocketTuple.IsOpen]

theorem opened_connected (connected : Connected s) (socket : Descriptor) :
    Connected (s.opened socket) := by
  refine ⟨?_, ?_, ?_⟩
  · intro t member
    rcases List.mem_cons.mp member with rfl | old
    · rfl
    · exact connected.links t old
  · apply List.pairwise_cons.mpr
    refine ⟨fun t _ => ?_, connected.unique⟩
    intro _ _ bound
    exact absurd ⟨rfl, rfl⟩ bound
  · intro t member unbound
    rcases List.mem_cons.mp member with rfl | old
    · rfl
    · exact connected.clean t old unbound

/-- Setting references keeps every connection apart exactly when they are new. -/
theorem setReferences_spec (connected : Connected s) (socket : Descriptor)
    (federation : FederationHandle) (federate : FederateHandle) :
    (∀ t ∈ (s.setReferences socket federation federate).1.tuples,
      t.reliableLink.isSome = t.bestEffortLink.isSome) ∧
    (∀ t ∈ (s.setReferences socket federation federate).1.tuples, t.Unbound → t.IsOpen) ∧
    ((s.setReferences socket federation federate).1.tuples.Pairwise SocketTuple.Apart ↔
      Careful s (.setReferences socket federation federate)) := by
  cases found : s.getWithSocket socket with
  | error e =>
    have unchanged : (s.setReferences socket federation federate).1 = s := by
      simp [setReferences, found]
    rw [unchanged]
    refine ⟨connected.links, connected.clean, iff_of_true connected.unique fun t located => ?_⟩
    rw [found] at located
    cases located
  | ok t =>
    by_cases unbound : t.Unbound
    · have isOpen := isOpen_of_getWithSocket connected found
      have set : (s.setReferences socket federation federate).1.tuples =
          First.adjust (·.hasSocket socket) (fun t =>
            { t with
              federation := federation
              federate := federate
              bestEffortLink := t.bestEffortLink.map fun _ => s.udpSocket }) s.tuples := by
        simp [setReferences, found, unbound.1, unbound.2]
      obtain ⟨others, before, after, apart, apart'⟩ := First.adjust_others
        (f := fun t : SocketTuple =>
          { t with
            federation := federation
            federate := federate
            bestEffortLink := t.bestEffortLink.map fun _ => s.udpSocket })
        apart_symm (getWithSocket_ok.mp found)
      rw [set]
      refine ⟨fun b member => ?_, fun b member free => ?_, ?_⟩
      · rcases (after b).mp member with rfl | other
        · have paired := connected.links t ((before t).mpr (.inl rfl))
          simpa using paired
        · exact connected.links b ((before b).mpr (.inr other))
      · rcases (after b).mp member with rfl | other
        · exact isOpen
        · exact connected.clean b ((before b).mpr (.inr other)) free
      · rw [apart']
        have rest := (apart.mp connected.unique).2
        simp only [rest, and_true, Careful, found, Except.ok.injEq, forall_eq', unbound,
          forall_const, and_self]
        constructor
        · intro separate
          by_cases anonymous : federation = 0 ∧ federate = 0
          · exact .inl anonymous
          · right
            intro t' member open' same
            rcases (before t').mp member with rfl | other
            · exact anonymous ⟨same.1.symm.trans unbound.1, same.2.symm.trans unbound.2⟩
            · exact separate t' other isOpen open' anonymous ⟨same.1.symm, same.2.symm⟩
        · intro fresh b other _ openB bound same
          rcases fresh with anonymous | fresh
          · exact bound anonymous
          · exact fresh b ((before b).mpr (.inr other)) openB ⟨same.1.symm, same.2.symm⟩
    · have unchanged : (s.setReferences socket federation federate).1 = s := by
        have taken : (decide (t.federation ≠ 0) || decide (t.federate ≠ 0)) = true := by
          simp only [Bool.or_eq_true, decide_eq_true_eq]
          tauto
        simp only [setReferences, found, taken, if_true]
      rw [unchanged]
      refine ⟨connected.links, connected.clean, iff_of_true connected.unique fun t' located free => ?_⟩
      rw [found] at located
      cases located
      exact absurd free unbound

/-- Closing a connection leaves an entry without links exactly when nobody has joined over it. -/
theorem close_spec (connected : Connected s) (socket : Descriptor) :
    (∀ t ∈ (s.close socket).1.tuples, t.reliableLink.isSome = t.bestEffortLink.isSome) ∧
    (s.close socket).1.tuples.Pairwise SocketTuple.Apart ∧
    ((∀ t ∈ (s.close socket).1.tuples, t.Unbound → t.IsOpen) ↔ Careful s (.closed socket)) := by
  cases found : s.getWithSocket socket with
  | error e =>
    have unchanged : (s.close socket).1 = s := by simp [close, found]
    rw [unchanged]
    refine ⟨connected.links, connected.unique, iff_of_true connected.clean fun t located => ?_⟩
    rw [found] at located
    cases located
  | ok t =>
    by_cases erased : t.federation = 0 ∧ t.federate ≠ 0
    · have kept : (s.close socket).1.tuples =
          s.tuples.filter (fun t => t.reliableLink ≠ some socket) := by
        simp [close, found, erased.1, erased.2]
      rw [kept]
      have bound : ¬t.Unbound := fun unbound => erased.2 unbound.2
      refine ⟨fun b member => ?_, connected.unique.sublist List.filter_sublist, ?_⟩
      · exact connected.links b (List.mem_of_mem_filter member)
      · simp only [Careful, found, Except.ok.injEq, forall_eq', bound, not_false_eq_true, iff_true]
        intro b member
        exact connected.clean b (List.mem_of_mem_filter member)
    · have kept : (s.close socket).1.tuples = First.adjust (·.hasSocket socket)
          (fun t => { t with reliableLink := none, bestEffortLink := none }) s.tuples := by
        have test : (decide (t.federation = 0) && decide (t.federate ≠ 0)) = false := by
          simpa using erased
        simp only [close, found, test, Bool.false_eq_true, if_false]
      obtain ⟨others, before, after, apart, apart'⟩ := First.adjust_others
        (f := fun t : SocketTuple => { t with reliableLink := none, bestEffortLink := none })
        apart_symm (getWithSocket_ok.mp found)
      rw [kept]
      refine ⟨fun b member => ?_, ?_, ?_⟩
      · rcases (after b).mp member with rfl | other
        · rfl
        · exact connected.links b ((before b).mpr (.inr other))
      · rw [apart']
        refine ⟨fun b _ isOpen => ?_, (apart.mp connected.unique).2⟩
        cases isOpen
      · simp only [Careful, found, Except.ok.injEq, forall_eq']
        constructor
        · intro clean unbound
          have isOpen := clean _ ((after _).mpr (.inl rfl)) unbound
          cases isOpen
        · intro bound b member unbound
          rcases (after b).mp member with rfl | other
          · exact absurd unbound bound
          · exact connected.clean b ((before b).mpr (.inr other)) unbound

/-- One event is authentic exactly when it is careful. -/
theorem authentic_iff (connected : Connected s) (e : ConnectionEvent) :
    Authentic s e ↔ Careful s e := by
  cases e with
  | opened socket =>
    have next := opened_connected connected socket
    simp only [Careful, iff_true]
    exact ⟨by simp, by simp, next.unique, next.clean⟩
  | setReferences socket federation federate =>
    obtain ⟨_, clean, apart⟩ := setReferences_spec connected socket federation federate
    constructor
    · exact fun authentic => apart.mp authentic.unique
    · exact fun careful => ⟨by simp, by simp, apart.mpr careful, clean⟩
  | closed socket =>
    obtain ⟨_, apart, clean⟩ := close_spec connected socket
    constructor
    · exact fun authentic => clean.mp authentic.clean
    · exact fun careful => ⟨by simp, by simp, apart, clean.mpr careful⟩
  | message socket federation federate =>
    constructor
    · exact fun authentic => checkMessage_total.mp (authentic.total socket federation federate rfl)
    · intro careful
      refine ⟨?_, ?_, connected.unique, connected.clean⟩
      · rintro _ _ _ ⟨⟩
        exact checkMessage_total.mpr careful
      · rintro _ _ _ ⟨⟩ accepted
        exact checkMessage_accepts accepted

theorem sockets_connected (connected : Connected s) {e : ConnectionEvent}
    (authentic : Authentic s e) : Connected (sockets s e).1 := by
  refine ⟨?_, authentic.unique, authentic.clean⟩
  cases e with
  | opened socket => exact (opened_connected connected socket).links
  | setReferences socket federation federate =>
    exact (setReferences_spec connected socket federation federate).1
  | closed socket => exact (close_spec connected socket).1
  | message socket federation federate => exact connected.links

end SocketServer

/-! ## Whole runs -/

/-- A run is authentic throughout exactly when each of its events is careful. -/
theorem messages_authentic_iff (udpSocket : Descriptor) (es : List ConnectionEvent) :
    sockets.Meets Authentic ⟨udpSocket, []⟩ es ↔ sockets.Meets Careful ⟨udpSocket, []⟩ es := by
  refine sockets.meets_congr (p := Connected) (fun s e connected => authentic_iff connected e)
    (fun s e connected authentic => sockets_connected connected authentic) ?_ es
  exact ⟨by simp, List.Pairwise.nil, by simp⟩

/-- A message in the name of a federate whose connection is closed is checked against a null
link. -/
theorem forged_message_crashes :
    ¬ ∀ (udpSocket : Descriptor) (es : List ConnectionEvent),
      sockets.Meets Authentic ⟨udpSocket, []⟩ es := by
  intro always
  have authentic := always 4 [.opened 5, .setReferences 5 1 1, .opened 6, .closed 5,
    .message 6 1 1]
  obtain ⟨_, _, _, _, last, _⟩ := authentic
  exact last.total 6 1 1 rfl (by decide)

end Certi
