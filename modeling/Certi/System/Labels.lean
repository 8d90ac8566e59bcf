import Certi.RTIG.Registering
import Certi.System.Agreement

/-!
# The labels an RTIA keeps of its own

`RTIA/FederationManagement.cc` keeps the labels that its federate has still to
achieve beside the RTIG's record of them. The RTIA enters a label when its
federate asks to register it and when it is announced, and nothing but an
achievement takes it out, also when the registration is refused. One RTIA is
followed here with the messages that are under way between it and the RTIG,
which answers everybody else in between. What the RTIA has read but not yet
handed to its federate counts as under way.
-/
namespace Certi

open Runs Keyed Responses Federation

/-! ## The RTIA -/

/-- What an RTIA asks the RTIG for, with the handle it writes into the message. -/
inductive LabelRequest where
  | join (name : String) (modulesOpen : Bool)
  | resign (fed : FederateHandle)
  | registerSynchronization (fed : FederateHandle) (label tag : String)
      (set : Option (List FederateHandle))
  | synchronizationPointAchieved (fed : FederateHandle) (label : String)
  deriving DecidableEq

/-- A refusal is a message of the type of the request. -/
inductive LabelNotice where
  | answer (m : NetworkMessage)
  | refusal (q : LabelRequest)
  deriving DecidableEq

structure FederationManagement where
  isMember : Bool
  federateHandle : FederateHandle
  synchronizationLabels : Finset String
  deriving DecidableEq

namespace FederationManagement

variable (fm : FederationManagement)

/-- The state of the RTIA, what it sends, and what it throws. -/
abbrev Served := FederationManagement × Option LabelRequest × Option RTIException

/-- The label is entered before anything else is looked at. -/
def registerSynchronization (label tag : String) (set : Option (List FederateHandle)) : Served :=
  let entered := { fm with synchronizationLabels := insert label fm.synchronizationLabels }
  if !fm.isMember then (entered, none, some .federateNotExecutionMember)
  else if label ∈ fm.synchronizationLabels then (entered, none, some .federationAlreadyPaused)
  else (entered, some (.registerSynchronization fm.federateHandle label tag set), none)

/-- `synchronizationPointAchieved`: the label is erased before the membership is looked at. -/
def unregisterSynchronization (label : String) : Served :=
  let erased := { fm with synchronizationLabels := fm.synchronizationLabels.erase label }
  if !fm.isMember then (erased, none, some .federateNotExecutionMember)
  else if label ∈ fm.synchronizationLabels then
    (erased, some (.synchronizationPointAchieved fm.federateHandle label), none)
  else (erased, none, some .unknownLabel)

def announceSynchronizationPoint (label : String) : FederationManagement :=
  { fm with synchronizationLabels := insert label fm.synchronizationLabels }

def joinFederationExecution (name : String) (modulesOpen : Bool) : Served :=
  if fm.isMember then (fm, none, some .federateAlreadyExecutionMember)
  else (fm, some (.join name modulesOpen), none)

def resignFederationExecution : Served :=
  if fm.isMember then (fm, some (.resign fm.federateHandle), none)
  else (fm, none, some .federateNotExecutionMember)

def joined (fed : FederateHandle) : FederationManagement :=
  { fm with
    isMember := true
    federateHandle := fed }

/-- The labels stay. -/
def resigned : FederationManagement :=
  { fm with
    isMember := false
    federateHandle := 0 }

end FederationManagement

/-- `RTIA_federate.cc` takes the overload without a set for an empty one, and passes the size of
the set on as an unsigned short. -/
def overload (set : List FederateHandle) : Option (List FederateHandle) :=
  if set.length > 0 then some (set.take (set.length % 2 ^ 16)) else none

/-! ## The RTIA and the RTIG -/

/-- What the RTIG is asked to do; `free` says whether the connection is bound to nobody. -/
def LabelRequest.event (free : Bool) : LabelRequest → Event
  | .join name modulesOpen => .join name ⟨modulesOpen, free⟩
  | .resign fed => .resign fed
  | .registerSynchronization fed label tag set => .registerSynchronization fed label tag set
  | .synchronizationPointAchieved fed label => .synchronizationPointAchieved fed label

def LabelRequest.isJoin : LabelRequest → Bool
  | .join .. => true
  | _ => false

def LabelNotice.isJoinAnswer : LabelNotice → Bool
  | .answer (.joinFederationExecution ..) | .refusal (.join ..) => true
  | _ => false

def LabelNotice.isResignAnswer : LabelNotice → Bool
  | .answer (.resignFederationExecution _) | .refusal (.resign _) => true
  | _ => false

/-- What comes over the connection of one federate alone. -/
def Event.isOwn (h : FederateHandle) : Event → Bool
  | .registerSynchronization fed .. | .synchronizationPointAchieved fed _ | .resign fed
  | .kill fed => fed = h
  | _ => false

/-- One RTIA, its connection, and the federation of the RTIG. -/
structure Linked where
  federation : Federation
  /-- The federate to which the RTIG has bound the connection. -/
  references : Option FederateHandle
  fm : FederationManagement
  /-- The call of the federate that waits for an answer of the RTIG. -/
  waiting : Option Call
  alive : Bool
  requests : List LabelRequest
  inbox : List LabelNotice

inductive LabelEvent where
  | join (name : String) (modulesOpen : Bool)
  | resign
  | registerSynchronization (label tag : String) (set : List FederateHandle)
  | synchronizationPointAchieved (label : String)
  | receive
  | handle
  | others (e : Event)
  | lose

/-- The messages of the RTIG to one federate. -/
def sentTo (references : Option FederateHandle) (sent : Responses) : List LabelNotice :=
  (sent.filter fun response => references = some response.1).map fun response =>
    .answer response.2

namespace Linked

variable (s : Linked)

/-- No call is pending and the process is alive. -/
def ready : Bool := s.alive && s.waiting.isNone

/-- A call of the federate; `wait` is what the RTIA then waits for, if it has asked. -/
def call (service : FederationManagement.Served) (wait : Option Call) :
    Linked × Option RTIException :=
  if s.ready then
    ({ s with
        fm := service.1
        waiting := if service.2.1.isSome then wait else none
        requests := s.requests ++ service.2.1.toList }, service.2.2)
  else (s, none)

def finishJoin : Linked :=
  match s.inbox.find? LabelNotice.isJoinAnswer with
  | none => s
  | some m =>
    { s with
      waiting := none
      inbox := s.inbox.eraseP LabelNotice.isJoinAnswer
      fm := match m with
        | .answer (.joinFederationExecution fed _) => s.fm.joined fed
        | _ => s.fm }

/-- Whatever the answer to a resignation says, the federate is no member any more. -/
def finishResign : Linked :=
  if s.inbox.any LabelNotice.isResignAnswer then
    { s with
      waiting := none
      inbox := s.inbox.eraseP LabelNotice.isResignAnswer
      fm := s.fm.resigned }
  else s

/-- A refusal nobody waits for is a message of a type that the RTIA has no case for: it ends. -/
def process (m : LabelNotice) : Linked :=
  match m with
  | .answer (.announceSynchronizationPoint label _) =>
    { s with fm := s.fm.announceSynchronizationPoint label }
  | .answer _ => s
  | .refusal _ => { s with alive := false }

def receive : Linked :=
  if !s.alive then s
  else
    match s.waiting with
    | some .join => s.finishJoin
    | some .resign => s.finishResign
    | none =>
      match s.inbox with
      | [] => s
      | m :: rest => { s with inbox := rest }.process m

/-- The RTIG handles the first request; once it has ended it handles none. -/
def handle : Linked :=
  if s.federation.crashed then s
  else
    match s.requests with
    | [] => s
    | q :: rest =>
      let (federation, sent, error) := rtig s.federation (q.event s.references.isNone)
      let references :=
        if q.isJoin && error.isNone then some s.federation.nextFederate else s.references
      let refusal := match error with
        | none | some .outOfRange => []
        | some _ => [.refusal q]
      { s with
        federation := federation
        references := references
        requests := rest
        inbox := s.inbox ++ sentTo references sent ++ refusal }

/-- The RTIG handles an event of somebody else, or another service of this federate. -/
def others (e : Event) : Linked :=
  if s.references.any e.isOwn then s
  else
    let (federation, sent, _) := rtig s.federation e
    { s with
      federation := federation
      inbox := s.inbox ++ sentTo s.references sent }

/-- The RTIG finds the connection broken, with whatever was under way over it. -/
def lose : Linked :=
  { s with
    federation := match s.references with
      | none => s.federation
      | some h => (rtig s.federation (.kill h)).1
    alive := false
    requests := []
    inbox := [] }

/-- An RTIA connected to a federation that has just been created. -/
def create (fom : Fom) (withMom haveXml : Bool) : Linked :=
  { federation := .create fom withMom haveXml
    references := none
    fm := ⟨false, 0, ∅⟩
    waiting := none
    alive := true
    requests := []
    inbox := [] }

end Linked

/-- A step, with what the RTIA throws at its federate. -/
def linked : Machine Linked LabelEvent (Option RTIException) := fun s e =>
  match e with
  | .join name modulesOpen => s.call (s.fm.joinFederationExecution name modulesOpen) (some .join)
  | .resign => s.call s.fm.resignFederationExecution (some .resign)
  | .registerSynchronization label tag set =>
    s.call (s.fm.registerSynchronization label tag (overload set)) none
  | .synchronizationPointAchieved label => s.call (s.fm.unregisterSynchronization label) none
  | .receive => (s.receive, none)
  | .handle => (s.handle, none)
  | .others e => (s.others e, none)
  | .lose => (s.lose, none)

/-! ## The statement -/

namespace Linked

variable (s : Linked)

/-- The RTIG records that the federate has still to achieve the label. -/
def recorded (label : String) : Bool := s.references.any fun h => s.federation.holds h label

/-- With no message under way the RTIA has the labels that the RTIG records, and lets its
federate register every other one. -/
structure LabelsAgree : Prop where
  same : ∀ label, label ∈ s.fm.synchronizationLabels ↔ s.recorded label = true
  retried : ∀ label tag set, s.recorded label = false →
    (s.fm.registerSynchronization label tag set).2.2 ≠ some .federationAlreadyPaused

def AgreesWhenQuiet : Prop :=
  s.alive = true → s.requests = [] → s.inbox = [] → s.LabelsAgree

end Linked

/-- What a request that has been sent does to a label. -/
def LabelRequest.moves (label : String) (held : Bool) : LabelRequest → Bool
  | .registerSynchronization _ l _ _ => held || decide (l = label)
  | .synchronizationPointAchieved _ l => held && decide (l ≠ label)
  | .join .. | .resign _ => held

/-- Whether the label is held once all that has been asked for is done. -/
def movedBy (requests : List LabelRequest) (label : String) (held : Bool) : Bool :=
  requests.foldl (LabelRequest.moves label) held

/-- An announcement of the label is under way. -/
def announces (label : String) (inbox : List LabelNotice) : Bool :=
  inbox.any fun m => match m with
    | .answer (.announceSynchronizationPoint l _) => l = label
    | _ => false

/-- A point that is announced to a federate is not one whose achievement it has sent already. -/
def Federation.Timely (f : Federation) (h g : FederateHandle) (label : String)
    (set : Option (List FederateHandle)) (requests : List LabelRequest) : Prop :=
  f.mayRegister g set = true → f.Registrable label → h ∈ f.toldOf set →
    movedBy requests label true = true

/-- The condition on a request of the RTIA that the RTIG handles before those that follow it: a
registration leaves the label with the requester, and nothing is left with one that resigns. -/
def Federation.Serves (f : Federation) (later : List LabelRequest) : LabelRequest → Prop
  | .registerSynchronization fed label _ set =>
    f.RegistersWhole fed label set ∧
      (f.holds fed label = true ∨ f.mayRegister fed set = true ∧ f.Registrable label ∧
        fed ∈ f.labelledFor fed set) ∧
      f.Timely fed fed label set later
  | .resign fed => ∀ record ∈ f.federate? fed, record.syncLabels = ∅
  | .join .. | .synchronizationPointAchieved .. => True

/-- The condition on what the RTIG does for others. -/
def Federation.Spares (f : Federation) (h : Option FederateHandle)
    (requests : List LabelRequest) : Event → Prop
  | .registerSynchronization fed label _ set =>
    f.RegistersWhole fed label set ∧ ∀ own ∈ h, f.Timely own fed label set requests
  | _ => True

/-- The condition on a step: a label is registered by members, achieved by members after it was
announced, and registered at the RTIG all or nothing. -/
def Linked.Orderly (s : Linked) : LabelEvent → Prop
  | .registerSynchronization label _ _ =>
    s.ready = true → s.fm.isMember = true ∨ label ∈ s.fm.synchronizationLabels
  | .synchronizationPointAchieved label =>
    s.ready = true → label ∈ s.fm.synchronizationLabels →
      s.fm.isMember = true ∧ label ≠ "" ∧ announces label s.inbox = false
  | .handle =>
    s.federation.crashed = false →
      ∀ q ∈ s.requests.head?, s.federation.Serves s.requests.tail q
  | .others e =>
    s.federation.crashed = false → s.references.any e.isOwn = false →
      s.federation.Spares s.references s.requests e
  | .join .. | .resign | .receive | .lose => True

/-! ## Reading messages -/

section Messages

variable {label l : String} {h : FederateHandle} {requests : List LabelRequest}

@[simp] theorem movedBy_nil (held : Bool) : movedBy [] l held = held := rfl

@[simp] theorem movedBy_cons (q : LabelRequest) (held : Bool) :
    movedBy (q :: requests) l held = movedBy requests l (q.moves l held) := rfl

theorem movedBy_append (more : List LabelRequest) (held : Bool) :
    movedBy (requests ++ more) l held = movedBy more l (movedBy requests l held) :=
  List.foldl_append

@[simp] theorem announces_nil : announces l [] = false := rfl

@[simp] theorem announces_append (inbox more : List LabelNotice) :
    announces l (inbox ++ more) = (announces l inbox || announces l more) :=
  List.any_append

/-- The answer that a call waits for announces nothing. -/
theorem announces_eraseP {p : LabelNotice → Bool}
    (silent : ∀ m, p m = true → announces l [m] = false) (inbox : List LabelNotice) :
    announces l (inbox.eraseP p) = announces l inbox := by
  induction inbox with
  | nil => rfl
  | cons m rest ih =>
    have split : announces l (m :: rest) = (announces l [m] || announces l rest) :=
      announces_append [m] rest
    by_cases taken : p m = true
    · rw [List.eraseP_cons_of_pos taken, split, silent m taken, Bool.false_or]
    · have kept : announces l (m :: rest.eraseP p) =
          (announces l [m] || announces l (rest.eraseP p)) := announces_append [m] _
      rw [List.eraseP_cons_of_neg taken, kept, split, ih]

theorem isJoinAnswer_silent (m : LabelNotice) (answer : m.isJoinAnswer = true) :
    announces l [m] = false := by
  unfold LabelNotice.isJoinAnswer at answer
  split at answer
  · rfl
  · rfl
  · cases answer

theorem isResignAnswer_silent (m : LabelNotice) (answer : m.isResignAnswer = true) :
    announces l [m] = false := by
  unfold LabelNotice.isResignAnswer at answer
  split at answer
  · rfl
  · rfl
  · cases answer

/-- The announcements among the messages to a federate. -/
theorem announces_sentTo (h : FederateHandle) (sent : Responses) :
    announces l (sentTo (some h) sent) = decide (h ∈ announced l sent) := by
  rw [Bool.eq_iff_iff, decide_eq_true_iff]
  unfold announces sentTo announced
  rw [List.any_eq_true, List.mem_filterMap]
  constructor
  · rintro ⟨m, listed, announcing⟩
    obtain ⟨⟨g, answer⟩, member, rfl⟩ := List.mem_map.mp listed
    obtain ⟨belongs, own⟩ := List.mem_filter.mp member
    have same : h = g := Option.some.inj (of_decide_eq_true own)
    refine ⟨(g, answer), belongs, ?_⟩
    cases answer with
    | announceSynchronizationPoint l' tag =>
      have equal : l' = l := of_decide_eq_true announcing
      simp [equal, same]
    | _ => simp at announcing
  · rintro ⟨⟨g, answer⟩, belongs, told⟩
    cases answer with
    | announceSynchronizationPoint l' tag =>
      dsimp only at told
      split at told
      · rename_i equal
        have same : g = h := Option.some.inj told
        refine ⟨.answer (.announceSynchronizationPoint l' tag), ?_, by simp [equal]⟩
        refine List.mem_map.mpr ⟨_, List.mem_filter.mpr ⟨belongs, ?_⟩, rfl⟩
        simp [same]
      · cases told
    | _ => cases told

theorem announces_of_untold {sent : Responses} (untold : announced l sent = []) :
    announces l (sentTo (some h) sent) = false := by
  rw [announces_sentTo, untold]
  simp

@[simp] theorem announces_unbound (sent : Responses) : announces l (sentTo none sent) = false := by
  simp [sentTo]

end Messages

/-! ## What the RTIG does to the labels of a federate -/

namespace Federation

variable {f f' : Federation} {h g : FederateHandle} {label l : String}

theorem holds_congr (same : f'.syncView = f.syncView) (h : FederateHandle) (l : String) :
    f'.holds h l = f.holds h l := by
  rw [holds_eq, holds_eq, same]

theorem holds_drop (federates : f'.syncView.holders = drop Prod.fst g f.syncView.holders)
    (h : FederateHandle) (l : String) :
    f'.holds h l = (decide (h ≠ g) && f.holds h l) := by
  rw [holds_eq, holds_eq, federates]
  by_cases same : h = g
  · have absent : lookup Prod.fst h (drop Prod.fst g f.syncView.holders) = none :=
      lookup_eq_none.mpr fun holder member equal => (mem_drop.mp member).2 (equal.trans same)
    rw [absent]
    simp [same]
  · have found : lookup Prod.fst h (drop Prod.fst g f.syncView.holders) =
        lookup Prod.fst h f.syncView.holders := by
      unfold lookup drop
      rw [List.find?_filter]
      congr 1
      funext holder
      by_cases here : holder.1 = h <;> simp [here, same]
    simp [found, same]

theorem add_holds (below : h < f.nextFederate) (name : String) (conditions : JoinConditions)
    (l : String) : (f.add name conditions).state.holds h l = f.holds h l := by
  have inserted : (f.inserted name).federate? h = f.federate? h := by
    have other : f.nextFederate ≠ h := Nat.ne_of_gt below
    simp [Federation.inserted, federate?, lookup, other]
  have labelled : (f.labelled name).federate? h = f.federate? h := by
    have keeps : ∀ fed : Federate, fed.handle = f.nextFederate →
        ({ fed with syncLabels := (f.synchronizationLabels.map Prod.fst).toFinset } :
          Federate).handle = f.nextFederate := fun _ same => same
    have found := lookup_adjust keeps h (f.inserted name).federates
    unfold Federation.labelled federate? adjustFederate at *
    rw [found, inserted]
    cases there : lookup Federate.handle h f.federates with
    | none => rfl
    | some fed =>
      have other : fed.handle ≠ f.nextFederate := by
        rw [lookup_key there]
        exact Nat.ne_of_lt below
      simp [other]
  rcases add_outcomes f name conditions with result | result | result | result <;> rw [result]
  · rfl
  · exact congrArg (Option.any _) inserted
  · exact congrArg (Option.any _) labelled
  · exact congrArg (Option.any _) labelled

theorem holds_achieved (federates : f'.federates = (f.achieved g label).federates)
    (h : FederateHandle) (l : String) :
    f'.holds h l = (f.holds h l && decide (¬(h = g ∧ l = label))) := by
  have keeps : ∀ fed : Federate, fed.handle = g →
      ({ fed with syncLabels := fed.syncLabels.erase label } : Federate).handle = g :=
    fun _ same => same
  have found := lookup_adjust keeps h f.federates
  unfold holds federate?
  rw [federates]
  unfold Federation.achieved adjustFederate
  dsimp only
  rw [found]
  cases there : lookup Federate.handle h f.federates with
  | none => simp
  | some fed =>
    have handle : fed.handle = h := lookup_key there
    by_cases same : h = g
    · simp [handle, same, Bool.and_comm]
    · simp [handle, same]

/-- A federate is refused only what it does not hold. -/
theorem unregister_free {e : RTIException} (named : label ≠ "")
    (refused : f.unregisterSynchronization g label = .refused f e) : f.holds g label = false := by
  by_contra held
  rw [Bool.not_eq_false] at held
  have joined := holds_joined held
  obtain ⟨fed, found⟩ := Option.isSome_iff_exists.mp joined
  have holds : label ∈ fed.syncLabels := by
    rw [holds_of_found found] at held
    exact of_decide_eq_true held
  have member : f.check g = true := by
    rw [check, joined, Bool.or_true]
  have taken : (f.unregisterSynchronization g label).state.federates =
      (f.achieved g label).federates := by
    unfold unregisterSynchronization asMember withFederate
    rw [if_pos member, if_neg named, found]
    dsimp only
    rw [if_neg (not_not.mpr holds)]
    split
    · rfl
    · unfold answering
      split <;> rfl
  have gone := holds_achieved taken g label
  rw [refused] at gone
  simp [Outcome.refused, held] at gone

/-- A federate that achieves a label with a name holds it no longer, accepted or not. -/
theorem unregister_holds (named : h = g → label ≠ "") (l : String) :
    (f.unregisterSynchronization g label).state.holds h l =
      (f.holds h l && decide (¬(h = g ∧ l = label))) := by
  rcases unregister_cases f g label with ⟨e, refused⟩ | ⟨_, ⟨_, result⟩ | ⟨_, result⟩⟩
  · rw [refused]
    by_cases same : h = g ∧ l = label
    · have free := unregister_free (named same.1) refused
      rw [same.1, same.2]
      simp [Outcome.refused, free]
    · simp [Outcome.refused, same]
  · rw [result]
    exact holds_achieved rfl h l
  · rw [result]
    unfold answering
    split <;> exact holds_achieved rfl h l

/-- An announcement of a registration goes to those it is told to. -/
theorem Registers.announced {tag : String} {set : Option (List FederateHandle)}
    {outcome : Outcome Federation} (registers : f.Registers g label tag set outcome) (l : String) :
    Responses.announced l outcome.sent = if label = l then f.toldOf set else [] := by
  rw [registers.sent, announced_append, announced_broadcast]
  simp [Responses.announced]

/-- Nobody else is given a label without being told, and nobody who could have let go of it. -/
theorem register_others {tag : String} {set : Option (List FederateHandle)}
    (positive : 0 < h) (other : g ≠ h) (whole : f.RegistersWhole g label set) (l : String) :
    (f.processRegisterSynchronization g label tag set).state.holds h l =
      (f.holds h l || announces l
        (sentTo (some h) (f.processRegisterSynchronization g label tag set).sent)) := by
  rcases processRegister_cases f g label tag set with
    ⟨_, result⟩ | ⟨_, ⟨_, registers⟩ | ⟨stopped, _⟩⟩
  · rw [result, announces_of_untold (by simp [Outcome.done, Responses.announced])]
    simp [Outcome.done]
  · have given : h ∈ f.labelledFor g set ↔ h ∈ f.toldOf set := by
      cases set with
      | none => simp [labelledFor, toldOf, Nat.ne_of_gt positive]
      | some set =>
        change h ∈ (if set = [] then [] else [g]) ++ set ↔ h ∈ set
        split <;> simp [Ne.symm other]
    rw [registers.held, announces_sentTo, registers.announced]
    by_cases same : l = label
    · simp [same, given]
    · simp [same, Ne.symm same]
  · exact absurd whole stopped

theorem unregister_untold (f : Federation) (g : FederateHandle) (label l : String) :
    announced l (f.unregisterSynchronization g label).sent = [] := by
  rcases unregister_cases f g label with ⟨e, refused⟩ | ⟨_, ⟨_, result⟩ | ⟨_, result⟩⟩
  · rw [refused]
    rfl
  · rw [result]
    rfl
  · rw [result]
    unfold answering respondToAll
    dsimp only
    split
    · rename_i responses success
      split at success
      · cases success
        simp [announced]
      · cases success
    · rfl

/-- A newcomer alone is told of the labels that are pending. -/
theorem add_untold (below : h < f.nextFederate) (name : String) (conditions : JoinConditions)
    (l : String) : h ∉ announced l (f.add name conditions).sent := by
  intro told
  have newcomer : ∀ told : h ∈ announced l (f.synchronizationLabels.map fun label =>
      (f.nextFederate, NetworkMessage.announceSynchronizationPoint label.1 label.2)),
      h = f.nextFederate := fun told => ((announced_labels l _ _).1 h told).1
  rcases add_outcomes f name conditions with result | result | result | result <;>
    rw [result] at told
  · cases told
  · cases told
  · cases told
  · have labels : h ∈ announced l (f.synchronizationLabels.map fun label =>
        (f.nextFederate, NetworkMessage.announceSynchronizationPoint label.1 label.2)) := by
      simpa [announced, Outcome.done] using told
    exact absurd (newcomer labels) (Nat.ne_of_lt below)

theorem removed_holds (other : h ≠ g) (l : String) :
    (f.remove g).state.holds h l = f.holds h l := by
  rcases remove_cases f g with refused | ⟨_, removed⟩
  · rw [refused]
    rfl
  · have dropped := holds_drop (congrArg SyncView.holders (drop_syncView f g)) h l
    rw [removed]
    simpa [Outcome.done, other] using dropped

theorem killed_holds (other : h ≠ g) (l : String) :
    (f.kill g).state.holds h l = f.holds h l := by
  rcases kill_cases f g with refused | ⟨_, result, _, _⟩
  · rw [refused]
    rfl
  · have unregulated := syncView_of_timeless (removeRegulator_timeless (f.closeLink g) g)
    generalize ((f.closeLink g).removeRegulator g).state = k at unregulated result
    have kept : k.holds h l = f.holds h l := holds_congr unregulated h l
    have dropped := holds_drop (congrArg SyncView.holders (drop_syncView k g)) h l
    rw [result, ← kept]
    have same : holds { k with
        federates := drop Federate.handle g k.federates
        root := ((f.closeLink g).root.killFederate g).1 } h l =
      holds { k with federates := drop Federate.handle g k.federates } h l := rfl
    rw [same, dropped]
    simp [other]

/-- What the RTIG does for others leaves a federate the labels it has, and gives it those that
it is told of. -/
theorem perform_others {e : Event} {requests : List LabelRequest} (positive : 0 < h)
    (below : h < f.nextFederate) (other : e.isOwn h = false)
    (spares : f.Spares (some h) requests e) (l : String) :
    (f.perform e).state.holds h l =
        (f.holds h l || announces l (sentTo (some h) (f.perform e).sent)) ∧
      (announces l (sentTo (some h) (f.perform e).sent) = true → movedBy requests l true = true) := by
  have silent : ∀ untold : h ∉ announced l (f.perform e).sent,
      (f.perform e).state.holds h l = f.holds h l →
      (f.perform e).state.holds h l =
          (f.holds h l || announces l (sentTo (some h) (f.perform e).sent)) ∧
        (announces l (sentTo (some h) (f.perform e).sent) = true →
          movedBy requests l true = true) := by
    intro untold same
    rw [announces_sentTo, decide_eq_false untold, same]
    simp
  have about := perform_about f e
  have unsaid : ∀ untold : Topic.synchronization ∉ e.topics,
      h ∉ announced l (f.perform e).sent := by
    intro untold
    rw [announced_of_about about untold]
    exact List.not_mem_nil
  cases e with
  | join name conditions =>
    exact silent (add_untold below name conditions l) (add_holds below name conditions l)
  | resign g =>
    have apart : g ≠ h := of_decide_eq_false other
    exact silent (unsaid (by simp [Event.topics])) (removed_holds (Ne.symm apart) l)
  | kill g =>
    have apart : g ≠ h := of_decide_eq_false other
    exact silent (unsaid (by simp [Event.topics])) (killed_holds (Ne.symm apart) l)
  | registerSynchronization g label tag set =>
    have apart : g ≠ h := of_decide_eq_false other
    refine ⟨register_others positive apart spares.1 l, fun told => ?_⟩
    rw [announces_sentTo, decide_eq_true_iff] at told
    change h ∈ announced l (f.processRegisterSynchronization g label tag set).sent at told
    rcases processRegister_cases f g label tag set with
      ⟨_, result⟩ | ⟨admitted, ⟨_, registers⟩ | ⟨stopped, _⟩⟩
    · rw [result] at told
      simp [Outcome.done, announced] at told
    · rw [registers.announced] at told
      split at told
      · rename_i same
        rw [← same]
        exact spares.2 h rfl admitted.1 admitted.2 told
      · cases told
    · exact absurd spares.1 stopped
  | synchronizationPointAchieved g label =>
    have apart : g ≠ h := of_decide_eq_false other
    refine silent ?_ ?_
    · change h ∉ announced l (f.unregisterSynchronization g label).sent
      rw [unregister_untold]
      exact List.not_mem_nil
    · have kept : (f.unregisterSynchronization g label).state.holds h l = _ :=
        unregister_holds (fun same => absurd same.symm apart) l
      simpa [perform, Ne.symm apart] using kept
  | _ =>
    refine silent (unsaid (by simp [Event.topics])) ?_
    exact holds_congr (perform_syncView f (by simp [Event.topics]) (by simp [Event.topics])) h l

end Federation

/-- The handle that a request speaks for. -/
def LabelRequest.SpeaksFor (h : Option FederateHandle) : LabelRequest → Prop
  | .join .. => True
  | .resign fed | .registerSynchronization fed .. => h = some fed
  | .synchronizationPointAchieved fed label => h = some fed ∧ label ≠ ""

namespace Federation

variable {f : Federation} {h : FederateHandle} {l : String}

/-- What the RTIG does for the federate itself is what the request says, and what it announces
by it the federate still holds in the end. -/
theorem perform_own {q : LabelRequest} {later : List LabelRequest} (below : h < f.nextFederate)
    (speaks : q.SpeaksFor (some h)) (serves : f.Serves later q) :
    movedBy later l ((f.perform (q.event false)).state.holds h l) =
      (movedBy later l (q.moves l (f.holds h l)) ||
        announces l (sentTo (some h) (f.perform (q.event false)).sent)) := by
  cases q with
  | join name modulesOpen =>
    change movedBy later l ((f.add name ⟨modulesOpen, false⟩).state.holds h l) =
      (_ || announces l (sentTo (some h) (f.add name ⟨modulesOpen, false⟩).sent))
    rw [add_holds below, announces_sentTo,
      decide_eq_false (add_untold below name ⟨modulesOpen, false⟩ l), Bool.or_false]
    rfl
  | resign fed =>
    obtain rfl : h = fed := Option.some.inj speaks
    change movedBy later l ((f.remove h).state.holds h l) = _
    have untold : announced l (f.perform (.resign h)).sent = [] :=
      announced_of_about (perform_about f _) (by simp [Event.topics])
    have nothing : f.holds h l = false := by
      unfold holds
      cases found : f.federate? h with
      | none => rfl
      | some record => simp [serves record found]
    have gone : (f.remove h).state.holds h l = false := by
      rcases remove_cases f h with refused | ⟨_, removed⟩
      · rw [refused]
        exact nothing
      · have dropped := holds_drop (congrArg SyncView.holders (drop_syncView f h)) h l
        rw [removed]
        simpa [Outcome.done] using dropped
    rw [LabelRequest.event, announces_of_untold untold, gone, Bool.or_false,
      LabelRequest.moves, nothing]
  | registerSynchronization fed label tag set =>
    obtain rfl : h = fed := Option.some.inj speaks
    obtain ⟨whole, kept, timely⟩ := serves
    change movedBy later l ((f.processRegisterSynchronization h label tag set).state.holds h l) =
      (_ || announces l (sentTo (some h) (f.processRegisterSynchronization h label tag set).sent))
    rcases processRegister_cases f h label tag set with
      ⟨refused, result⟩ | ⟨admitted, ⟨_, registers⟩ | ⟨stopped, _⟩⟩
    · have held : f.holds h label = true :=
        kept.resolve_right fun admitted => refused ⟨admitted.1, admitted.2.1⟩
      rw [result, announces_of_untold (by simp [Outcome.done, announced]), Bool.or_false,
        LabelRequest.moves]
      by_cases same : label = l
      · rw [← same, held]
        simp [Outcome.done, held]
      · simp [Outcome.done, same]
    · have given : (f.processRegisterSynchronization h label tag set).state.holds h l =
          (f.holds h l || decide (label = l)) := by
        rw [registers.held]
        by_cases same : l = label
        · rcases kept with held | ⟨_, _, member⟩
          · simp [same, held]
          · simp [same, member]
        · simp [same, Ne.symm same]
      rw [given, announces_sentTo, registers.announced]
      by_cases told : label = l ∧ h ∈ f.toldOf set
      · have final := timely admitted.1 admitted.2 told.2
        rw [← told.1, if_pos rfl, decide_eq_true told.2, Bool.or_true, decide_eq_true rfl,
          Bool.or_true, final]
      · have untold : h ∉ if label = l then f.toldOf set else [] := by
          split
          · exact fun member => told ⟨‹_›, member⟩
          · exact List.not_mem_nil
        rw [decide_eq_false untold, Bool.or_false]
        rfl
    · exact absurd whole stopped
  | synchronizationPointAchieved fed label =>
    obtain ⟨own, named⟩ := speaks
    obtain rfl : h = fed := Option.some.inj own
    change movedBy later l ((f.unregisterSynchronization h label).state.holds h l) =
      (_ || announces l (sentTo (some h) (f.unregisterSynchronization h label).sent))
    rw [unregister_holds (fun _ => named), announces_of_untold (unregister_untold f h label l),
      Bool.or_false, LabelRequest.moves]
    by_cases same : l = label
    · simp [same]
    · simp [same, Ne.symm same]

end Federation

/-! ## Runs -/

namespace Linked

variable {s : Linked}

/-- The labels of the RTIA once all that is under way to it has been taken up. -/
def seen (s : Linked) (l : String) : Bool :=
  decide (l ∈ s.fm.synchronizationLabels) || announces l s.inbox

/-- The labels of the federate once all that is under way to the RTIG has been handled. -/
def expected (s : Linked) (l : String) : Bool := movedBy s.requests l (s.recorded l)

/-- The RTIA speaks for the federate its connection is bound to, and both ends come to have the
same labels. -/
structure InTouch (s : Linked) : Prop where
  bound : ∀ h, s.references = some h → 0 < h ∧ h < s.federation.nextFederate
  speaks : ∀ q ∈ s.requests, q.SpeaksFor s.references
  member : s.fm.isMember = true → s.references = some s.fm.federateHandle
  welcomed : ∀ fed n, .answer (.joinFederationExecution fed n) ∈ s.inbox → s.references = some fed
  labels : ∀ l, s.seen l = s.expected l

structure Sound (s : Linked) : Prop where
  numbered : s.federation.Numbered
  touch : s.alive = true → s.InTouch

/-! ### Calls -/

/-- A call that moves the labels of the RTIA as the request it sends will move the record. -/
theorem Sound.call (sound : s.Sound) {service : FederationManagement.Served} {wait : Option Call}
    (same : service.1.isMember = s.fm.isMember ∧
      service.1.federateHandle = s.fm.federateHandle)
    (speaks : s.ready = true → s.InTouch → ∀ q ∈ service.2.1, q.SpeaksFor s.references)
    (labels : s.ready = true → ∀ l,
      (decide (l ∈ service.1.synchronizationLabels) || announces l s.inbox) =
        movedBy service.2.1.toList l (s.seen l)) : (s.call service wait).1.Sound := by
  unfold Linked.call
  by_cases ready : s.ready = true
  · rw [if_pos ready]
    refine ⟨sound.numbered, fun alive => ?_⟩
    have touch := sound.touch alive
    refine ⟨touch.bound, fun q listed => ?_, fun member => ?_, touch.welcomed, fun l => ?_⟩
    · rcases List.mem_append.mp listed with old | new
      · exact touch.speaks q old
      · exact speaks ready touch q (Option.mem_toList.mp new)
    · dsimp only at member ⊢
      rw [same.1] at member
      rw [same.2]
      exact touch.member member
    · change (decide (l ∈ service.1.synchronizationLabels) || announces l s.inbox) =
        movedBy (s.requests ++ service.2.1.toList) l (s.recorded l)
      rw [movedBy_append, labels ready l, touch.labels l]
      rfl
  · rw [if_neg ready]
    exact sound

theorem join_sound (sound : s.Sound) (name : String) (modulesOpen : Bool) :
    (linked s (.join name modulesOpen)).1.Sound := by
  refine sound.call ?_ (fun ready touch q sent => ?_) fun _ l => ?_ <;>
    unfold FederationManagement.joinFederationExecution at * <;> split at *
  · exact ⟨rfl, rfl⟩
  · exact ⟨rfl, rfl⟩
  · cases sent
  · cases sent
    exact trivial
  · rfl
  · rfl

theorem resign_sound (sound : s.Sound) : (linked s .resign).1.Sound := by
  refine sound.call ?_ (fun ready touch q sent => ?_) fun _ l => ?_ <;>
    unfold FederationManagement.resignFederationExecution at * <;> split at *
  · exact ⟨rfl, rfl⟩
  · exact ⟨rfl, rfl⟩
  · cases sent
    exact touch.member ‹_›
  · cases sent
  · rfl
  · rfl

theorem register_sound (sound : s.Sound) {label tag : String} {set : List FederateHandle}
    (orderly : s.Orderly (.registerSynchronization label tag set)) :
    (linked s (.registerSynchronization label tag set)).1.Sound := by
  -- entering a label that is there changes nothing, and no other is entered without a request
  have entered : ∀ l, (decide (l ∈ insert label s.fm.synchronizationLabels) ||
      announces l s.inbox) = (s.seen l || decide (label = l)) := by
    intro l
    unfold seen
    by_cases same : label = l
    · simp [same]
    · simp [same, Ne.symm same]
  refine sound.call ?_ (fun ready touch q sent => ?_) fun ready l => ?_ <;>
    unfold FederationManagement.registerSynchronization at *
  · split
    · exact ⟨rfl, rfl⟩
    · split <;> exact ⟨rfl, rfl⟩
  · split at sent
    · cases sent
    · rename_i member
      split at sent
      · cases sent
      · cases sent
        rw [Bool.not_eq_true, Bool.not_eq_false'] at member
        exact touch.member member
  · have known : label ∈ s.fm.synchronizationLabels →
        (s.seen l || decide (label = l)) = s.seen l := by
      intro there
      unfold seen
      by_cases same : label = l
      · rw [← same, decide_eq_true there]
        rfl
      · simp [same]
    split
    · rename_i outside
      have there := (orderly ready).resolve_left (by simp_all)
      exact (entered l).trans (known there)
    · split
      · exact (entered l).trans (known ‹_›)
      · exact entered l

theorem achieve_sound (sound : s.Sound) {label : String}
    (orderly : s.Orderly (.synchronizationPointAchieved label)) :
    (linked s (.synchronizationPointAchieved label)).1.Sound := by
  refine sound.call ?_ (fun ready touch q sent => ?_) fun ready l => ?_ <;>
    unfold FederationManagement.unregisterSynchronization at *
  · split
    · exact ⟨rfl, rfl⟩
    · split <;> exact ⟨rfl, rfl⟩
  · split at sent
    · cases sent
    · rename_i member
      split at sent
      · rename_i there
        cases sent
        rw [Bool.not_eq_true, Bool.not_eq_false'] at member
        exact ⟨touch.member member, (orderly ready there).2.1⟩
      · cases sent
  · by_cases there : label ∈ s.fm.synchronizationLabels
    · obtain ⟨member, _, taken⟩ := orderly ready there
      rw [if_neg (by simp [member]), if_pos there]
      change (decide (l ∈ s.fm.synchronizationLabels.erase label) || announces l s.inbox) =
        (s.seen l && decide (label ≠ l))
      unfold seen
      by_cases same : label = l
      · simp [← same, taken]
      · simp [same, Ne.symm same]
    · have untouched : s.fm.synchronizationLabels.erase label = s.fm.synchronizationLabels :=
        Finset.erase_eq_of_notMem there
      split
      · dsimp only
        rw [untouched]
        rfl
      · dsimp only
        rw [untouched]
        rfl

/-! ### Messages -/

/-- Taking messages out of the inbox, with what they do to the labels of the RTIA. -/
theorem InTouch.take (touch : s.InTouch) {fm : FederationManagement} {waiting : Option Call}
    {alive : Bool} {inbox : List LabelNotice} (fewer : inbox ⊆ s.inbox)
    (member : fm.isMember = true → s.references = some fm.federateHandle)
    (labels : ∀ l, (decide (l ∈ fm.synchronizationLabels) || announces l inbox) = s.seen l) :
    InTouch { s with
      fm := fm
      waiting := waiting
      alive := alive
      inbox := inbox } :=
  ⟨touch.bound, touch.speaks, member, fun fed n listed => touch.welcomed fed n (fewer listed),
    fun l => (labels l).trans (touch.labels l)⟩

theorem finishJoin_sound (numbered : s.federation.Numbered) (touch : s.InTouch) :
    s.finishJoin.Sound := by
  unfold finishJoin
  split
  · exact ⟨numbered, fun _ => touch⟩
  · rename_i m found
    have listed := List.mem_of_find?_eq_some found
    refine ⟨numbered, fun _ => ?_⟩
    have silent := fun l => announces_eraseP (l := l) isJoinAnswer_silent s.inbox
    cases m with
    | answer answer =>
      cases answer with
      | joinFederationExecution fed n =>
        refine touch.take List.eraseP_subset (fun _ => touch.welcomed fed n listed) fun l => ?_
        rw [silent l]
        rfl
      | _ =>
        refine touch.take List.eraseP_subset touch.member fun l => ?_
        rw [silent l]
        rfl
    | refusal q =>
      refine touch.take List.eraseP_subset touch.member fun l => ?_
      rw [silent l]
      rfl

theorem finishResign_sound (numbered : s.federation.Numbered) (touch : s.InTouch) :
    s.finishResign.Sound := by
  unfold finishResign
  split
  · refine ⟨numbered, fun _ => touch.take List.eraseP_subset ?_ fun l => ?_⟩
    · intro member
      cases member
    · rw [announces_eraseP isResignAnswer_silent s.inbox]
      rfl
  · exact ⟨numbered, fun _ => touch⟩

/-- The first message of the inbox. -/
theorem process_sound (numbered : s.federation.Numbered) (touch : s.InTouch) {m : LabelNotice}
    {rest : List LabelNotice} (inbox : s.inbox = m :: rest) :
    ({ s with inbox := rest }.process m).Sound := by
  have fewer : rest ⊆ s.inbox := by
    rw [inbox]
    exact List.subset_cons_self m rest
  have split : ∀ l, s.seen l =
      (decide (l ∈ s.fm.synchronizationLabels) || (announces l [m] || announces l rest)) := by
    intro l
    rw [← announces_append]
    unfold seen
    rw [inbox]
    rfl
  cases m with
  | refusal q => exact ⟨numbered, fun alive => by cases alive⟩
  | answer answer =>
    cases answer with
    | announceSynchronizationPoint label tag =>
      refine ⟨numbered, fun _ => touch.take fewer touch.member fun l => ?_⟩
      rw [split l]
      by_cases same : label = l
      · simp [FederationManagement.announceSynchronizationPoint, announces, same]
      · simp [FederationManagement.announceSynchronizationPoint, announces, same, Ne.symm same]
    | _ =>
      refine ⟨numbered, fun _ => touch.take fewer touch.member fun l => ?_⟩
      rw [split l]
      simp [announces]

theorem receive_sound (sound : s.Sound) : s.receive.Sound := by
  unfold receive
  split
  · exact sound
  · rename_i alive
    have touch := sound.touch (by simpa using alive)
    split
    · exact finishJoin_sound sound.numbered touch
    · exact finishResign_sound sound.numbered touch
    · split
      · exact sound
      · exact process_sound sound.numbered touch ‹_›

/-- A step of the RTIG that keeps the two ends in step. -/
theorem InTouch.post (touch : s.InTouch) {federation : Federation}
    {requests : List LabelRequest} {more : List LabelNotice}
    (next : s.federation.nextFederate ≤ federation.nextFederate) (later : requests ⊆ s.requests)
    (welcomed : ∀ fed n, .answer (.joinFederationExecution fed n) ∈ more →
      s.references = some fed)
    (labels : ∀ l, movedBy requests l (s.references.any fun h => federation.holds h l) =
      (s.expected l || announces l more)) :
    InTouch { s with
      federation := federation
      requests := requests
      inbox := s.inbox ++ more } := by
  refine ⟨fun h bound => ⟨(touch.bound h bound).1, ?_⟩, ?_, touch.member, ?_, fun l => ?_⟩
  · exact Nat.lt_of_lt_of_le (touch.bound h bound).2 next
  · exact fun q listed => touch.speaks q (later listed)
  · intro fed n listed
    rcases List.mem_append.mp listed with old | new
    · exact touch.welcomed fed n old
    · exact welcomed fed n new
  · have both := labels l
    rw [← touch.labels l] at both
    change (decide (l ∈ s.fm.synchronizationLabels) || announces l (s.inbox ++ more)) = _
    rw [announces_append, ← Bool.or_assoc]
    exact both.symm

/-- Only a newcomer is welcomed, so nobody whose connection is bound. -/
theorem unwelcomed (touch : s.InTouch) (e : Event) {fed : FederateHandle} {n : Nat} :
    LabelNotice.answer (.joinFederationExecution fed n) ∉
      sentTo s.references (s.federation.perform e).sent := by
  intro listed
  obtain ⟨⟨h, m⟩, member, same⟩ := List.mem_map.mp listed
  obtain ⟨sent, own⟩ := List.mem_filter.mp member
  cases same
  have newcomer := perform_welcomes s.federation e sent
  have bound := (touch.bound h (of_decide_eq_true own)).2
  rw [newcomer] at bound
  exact Nat.lt_irrefl _ bound

theorem others_sound (sound : s.Sound) {e : Event} (orderly : s.Orderly (.others e)) :
    (s.others e).Sound := by
  unfold others
  split
  · exact sound
  · rename_i foreign
    rw [Bool.not_eq_true] at foreign
    refine ⟨rtig_numbered sound.numbered e, fun alive => ?_⟩
    have touch := sound.touch alive
    cases crashed : s.federation.crashed with
    | true =>
      rw [rtig_crashed crashed]
      refine touch.post (Nat.le_refl _) (List.Subset.refl _) (by simp [sentTo]) fun l => ?_
      simp [sentTo, expected, recorded]
    | false =>
      rw [rtig_perform crashed]
      refine touch.post (perform_next _ e) (List.Subset.refl _)
        (fun fed n listed => absurd listed (unwelcomed touch e)) fun l => ?_
      cases bound : s.references with
      | none => simp [expected, recorded, bound]
      | some h =>
        have spares := orderly crashed foreign
        rw [bound] at spares foreign
        have inside := touch.bound h bound
        obtain ⟨held, timely⟩ := perform_others inside.1 inside.2 (by simpa using foreign) spares l
        unfold expected recorded
        rw [bound, Option.any_some, Option.any_some, held]
        cases told : announces l (sentTo (some h) (s.federation.perform e).sent) with
        | false => simp
        | true => simp [timely told]

/-! ### Requests -/

/-- A newcomer holds the labels that are pending. -/
theorem holds_newcomer {f : Federation} (numbered : f.Numbered) (name l : String) :
    (f.labelled name).holds f.nextFederate l =
      decide (l ∈ f.synchronizationLabels.map Prod.fst) := by
  have absent : lookup Federate.handle f.nextFederate f.federates = none := by
    refine lookup_eq_none.mpr fun fed member equal => ?_
    have below := (numbered.bounds fed member).2
    rw [equal] at below
    exact Nat.lt_irrefl _ below
  have keeps : ∀ fed : Federate, fed.handle = f.nextFederate →
      ({ fed with syncLabels := (f.synchronizationLabels.map Prod.fst).toFinset } :
        Federate).handle = f.nextFederate := fun _ same => same
  have found := lookup_adjust keeps f.nextFederate (f.inserted name).federates
  unfold holds federate? labelled adjustFederate
  rw [found]
  unfold lookup at absent
  simp [inserted, lookup, absent]

/-- A bound connection admits no second join. -/
theorem add_bound (f : Federation) (name : String) (modulesOpen : Bool) :
    (f.add name ⟨modulesOpen, false⟩).error.isNone = false := by
  unfold add
  dsimp only
  split
  · rfl
  · split
    · rfl
    · rfl

/-- Over a connection that is bound to nobody only joins are asked for. -/
theorem movedBy_joins {rest : List LabelRequest} (speaks : ∀ q ∈ rest, q.SpeaksFor none)
    (l : String) (held : Bool) : movedBy rest l held = held := by
  induction rest generalizing held with
  | nil => rfl
  | cons q rest ih =>
    have first := speaks q List.mem_cons_self
    rw [movedBy_cons, ih fun q member => speaks q (List.mem_cons_of_mem _ member)]
    cases q with
    | join name modulesOpen => rfl
    | resign fed => rfl
    | registerSynchronization fed label tag set => cases first
    | synchronizationPointAchieved fed label => cases first.1

/-- The RTIG binds the connection to a newcomer, with whom it has started anew. -/
theorem welcome_touch (touch : s.InTouch) (numbered : s.federation.Numbered)
    (free : s.references = none) {name : String} {modulesOpen : Bool} {rest : List LabelRequest}
    (requests : s.requests = .join name modulesOpen :: rest)
    (accepted : (s.federation.add name ⟨modulesOpen, true⟩).error = none) :
    InTouch { s with
      federation := (s.federation.add name ⟨modulesOpen, true⟩).state
      references := some s.federation.nextFederate
      requests := rest
      inbox := s.inbox ++ sentTo (some s.federation.nextFederate)
        (s.federation.add name ⟨modulesOpen, true⟩).sent } := by
  have joins : ∀ q ∈ rest, q.SpeaksFor none := by
    intro q member
    rw [← free]
    exact touch.speaks q (by rw [requests]; exact List.mem_cons_of_mem _ member)
  have nothing : ∀ l, s.seen l = false := by
    intro l
    rw [touch.labels, expected, recorded, free, requests]
    exact movedBy_joins joins l false
  rcases add_outcomes s.federation name ⟨modulesOpen, true⟩ with result | result | result | result
  · rw [result] at accepted
    cases accepted
  · rw [result] at accepted
    cases accepted
  · rw [result] at accepted
    cases accepted
  · rw [result]
    refine ⟨fun h bound => ?_, fun q member => ?_, fun member => ?_, fun fed n listed => ?_,
      fun l => ?_⟩
    · cases bound
      exact ⟨numbered.positive, Nat.lt_succ_self _⟩
    · have speaks := joins q member
      cases q with
      | join name modulesOpen => trivial
      | resign fed => cases speaks
      | registerSynchronization fed label tag set => cases speaks
      | synchronizationPointAchieved fed label => cases speaks.1
    · have bound := touch.member member
      rw [free] at bound
      cases bound
    · rcases List.mem_append.mp listed with old | new
      · have bound := touch.welcomed fed n old
        rw [free] at bound
        cases bound
      · simp only [sentTo, Outcome.done, List.mem_map, List.mem_filter] at new
        obtain ⟨⟨h, m⟩, ⟨sent, own⟩, same⟩ := new
        cases same
        simp only [List.mem_append, List.mem_map, List.mem_singleton, Prod.mk.injEq, reduceCtorEq,
          and_false, exists_false, false_or, NetworkMessage.joinFederationExecution.injEq] at sent
        rw [sent.2.1]
    · have told := announced_labels l s.federation.nextFederate s.federation.synchronizationLabels
      have held : (s.federation.labelled name).holds s.federation.nextFederate l = _ :=
        holds_newcomer numbered name l
      have here := nothing l
      unfold seen at here ⊢
      unfold expected recorded
      rw [Option.any_some, movedBy_joins joins]
      dsimp only
      rw [announces_append, ← Bool.or_assoc, here, Bool.false_or, announces_sentTo]
      refine Eq.trans ?_ held.symm
      rw [decide_eq_decide]
      have same : announced l (Outcome.done { s.federation.labelled name with
            root := { s.federation.root with
              server := s.federation.root.server.setReferences s.federation.nextFederate } }
          (s.federation.regulators.map (fun clock =>
              (s.federation.nextFederate, .messageNull clock.1 clock.2)) ++
            s.federation.synchronizationLabels.map (fun label =>
              (s.federation.nextFederate, .announceSynchronizationPoint label.1 label.2)) ++
            [(s.federation.nextFederate, .joinFederationExecution s.federation.nextFederate
              s.federation.regulators.length)])).sent =
          announced l (s.federation.synchronizationLabels.map fun label =>
            (s.federation.nextFederate, .announceSynchronizationPoint label.1 label.2)) := by
        simp [announced, Outcome.done]
      rw [same]
      exact ⟨fun member => (told.1 _ member).2, told.2⟩

/-- What follows the messages for the federate. -/
theorem refusal_silent (q : LabelRequest) (error : Option RTIException) :
    ∃ more : List LabelNotice, (match error with
      | none | some .outOfRange => []
      | some _ => [.refusal q]) = more ∧ (∀ l, announces l more = false) ∧
      ∀ fed n, LabelNotice.answer (.joinFederationExecution fed n) ∉ more := by
  refine ⟨_, rfl, fun l => ?_, fun fed n => ?_⟩
  · split <;> rfl
  · split <;> simp

theorem handle_sound (sound : s.Sound) (orderly : s.Orderly .handle) : s.handle.Sound := by
  unfold handle
  split
  · exact sound
  · rename_i running
    rw [Bool.not_eq_true] at running
    split
    · exact sound
    · rename_i q rest listed
      refine ⟨rtig_numbered sound.numbered _, fun alive => ?_⟩
      have touch := sound.touch alive
      have serves := orderly running q (by rw [listed]; rfl)
      have speaks := touch.speaks q (by rw [listed]; exact List.mem_cons_self)
      have fewer : rest ⊆ s.requests := by
        rw [listed]
        exact List.subset_cons_self q rest
      rw [listed, List.tail_cons] at serves
      rw [rtig_perform running]
      dsimp only
      obtain ⟨refusal, is, silent, unwelcome⟩ :=
        refusal_silent q (s.federation.perform (q.event s.references.isNone)).error
      rw [is, List.append_assoc]
      have answers : ∀ fed n, LabelNotice.answer (.joinFederationExecution fed n) ∈
          sentTo s.references (s.federation.perform (q.event s.references.isNone)).sent ++ refusal →
          s.references = some fed := by
        intro fed n member
        rcases List.mem_append.mp member with sent | more
        · exact absurd sent (unwelcomed touch _)
        · exact absurd more (unwelcome fed n)
      rcases Option.eq_none_or_eq_some s.references with free | ⟨h, bound⟩
      · rw [free] at speaks
        cases q with
        | join name modulesOpen =>
          have event : (LabelRequest.join name modulesOpen).event s.references.isNone =
              .join name ⟨modulesOpen, true⟩ := by
            rw [free]
            rfl
          rw [event] at is answers ⊢
          cases failed : (s.federation.perform (.join name ⟨modulesOpen, true⟩)).error with
          | none =>
            rw [failed] at is
            rw [← is, List.append_nil]
            exact welcome_touch touch sound.numbered free listed failed
          | some e =>
            refine touch.post (perform_next _ _) fewer answers fun l => ?_
            unfold expected recorded
            rw [announces_append, silent l, free, listed, movedBy_cons]
            simp [LabelRequest.moves]
        | resign fed => cases speaks
        | registerSynchronization fed label tag set => cases speaks
        | synchronizationPointAchieved fed label => cases speaks.1
      · have stays : (if (q.isJoin && (s.federation.perform
            (q.event s.references.isNone)).error.isNone) = true
            then some s.federation.nextFederate else s.references) = s.references := by
          cases q with
          | join name modulesOpen =>
            rw [bound]
            exact if_neg (by simp [LabelRequest.event, perform, add_bound])
          | _ => rfl
        rw [stays]
        refine touch.post (perform_next _ _) fewer answers fun l => ?_
        have own := perform_own (l := l) (touch.bound h bound).2 (bound ▸ speaks) serves
        rw [announces_append, silent l, Bool.or_false]
        unfold expected recorded
        rw [bound, listed, movedBy_cons]
        exact own

/-! ### The invariant -/

theorem lose_sound (sound : s.Sound) : s.lose.Sound := by
  refine ⟨?_, fun alive => by cases alive⟩
  unfold lose
  dsimp only
  split
  · exact sound.numbered
  · exact rtig_numbered sound.numbered _

theorem linked_sound (sound : s.Sound) {e : LabelEvent} (orderly : s.Orderly e) :
    (linked s e).1.Sound := by
  cases e with
  | join name modulesOpen => exact join_sound sound name modulesOpen
  | resign => exact resign_sound sound
  | registerSynchronization label tag set => exact register_sound sound orderly
  | synchronizationPointAchieved label => exact achieve_sound sound orderly
  | receive => exact receive_sound sound
  | handle => exact handle_sound sound orderly
  | others e => exact others_sound sound orderly
  | lose => exact lose_sound sound

theorem create_sound (fom : Fom) (withMom haveXml : Bool) :
    (create fom withMom haveXml).Sound :=
  ⟨create_numbered fom withMom haveXml, fun _ =>
    ⟨fun _ bound => (by cases bound), fun _ listed => (by cases listed),
      fun member => (by cases member), fun _ _ listed => (by cases listed), fun _ => rfl⟩⟩

theorem Sound.agrees (sound : s.Sound) : s.AgreesWhenQuiet := by
  intro alive sent taken
  have labels := (sound.touch alive).labels
  unfold seen expected at labels
  rw [sent, taken] at labels
  have same : ∀ label, label ∈ s.fm.synchronizationLabels ↔ s.recorded label = true := by
    intro label
    rw [← movedBy_nil (l := label) (s.recorded label), ← labels label, announces_nil,
      Bool.or_false, decide_eq_true_iff]
  refine ⟨same, fun label tag set free => ?_⟩
  have absent : label ∉ s.fm.synchronizationLabels := by
    rw [same, free]
    exact Bool.false_ne_true
  unfold FederationManagement.registerSynchronization
  dsimp only
  rw [if_neg absent]
  split <;> simp

end Linked

/-- A registration at the RTIG is all or nothing exactly if it is refused at once or nobody is in
its way; and in every run that meets the condition an RTIA has, whenever nothing is under way,
exactly the labels that the RTIG records for its federate. -/
theorem registration_atomic_labels_agree (f : Federation) (h : FederateHandle)
    (label tag : String) (set : Option (List FederateHandle)) (fom : Fom)
    (withMom haveXml : Bool) (es : List LabelEvent) :
    (f.RegistersAtomically h label tag set ↔ f.RegistersWhole h label set) ∧
      (linked.Meets Linked.Orderly (Linked.create fom withMom haveXml) es →
        (linked.exec (Linked.create fom withMom haveXml) es).AgreesWhenQuiet) :=
  ⟨registersAtomically_iff f h label tag set, fun ok =>
    (Machine.exec_invariant linked (p := Linked.Sound)
      (fun _ _ sound orderly => Linked.linked_sound sound orderly)
      (Linked.create_sound fom withMom haveXml) ok).agrees⟩

instance Federation.decidableTimely (f : Federation) (h g : FederateHandle) (label : String)
    (set : Option (List FederateHandle)) (requests : List LabelRequest) :
    Decidable (f.Timely h g label set requests) :=
  inferInstanceAs (Decidable (_ → (label ≠ "" ∧ f.isPending label = false) → _ → _))

instance Federation.decidableServes (f : Federation) (later : List LabelRequest) :
    ∀ q, Decidable (f.Serves later q)
  | .registerSynchronization fed label _ set =>
    inferInstanceAs (Decidable (f.RegistersWhole fed label set ∧
      (_ ∨ f.mayRegister fed set = true ∧ f.Registrable label ∧ _) ∧
      f.Timely fed fed label set later))
  | .resign fed => inferInstanceAs (Decidable (∀ record ∈ f.federate? fed, _))
  | .join .. | .synchronizationPointAchieved .. => .isTrue trivial

instance Federation.decidableSpares (f : Federation) (h : Option FederateHandle)
    (requests : List LabelRequest) : ∀ e, Decidable (f.Spares h requests e)
  | .registerSynchronization fed label _ set =>
    inferInstanceAs (Decidable (f.RegistersWhole fed label set ∧
      ∀ own ∈ h, f.Timely own fed label set requests))
  | .join .. | .resign .. | .kill .. | .setTimeRegulating .. | .messageNull ..
  | .setTimeConstrained .. | .synchronizationPointAchieved .. | .requestFederationSave ..
  | .federateSaveBegun .. | .federateSaveStatus .. | .publishObject .. | .subscribeObject ..
  | .subscribeAttributesWR .. | .unsubscribeAttributesWR .. | .publishInteraction ..
  | .subscribeInteraction .. | .subscribeInteractionWR .. | .createRegion ..
  | .associateRegion .. | .registerObject .. | .registerObjectWithRegion .. | .deleteObject ..
  | .ownership .. => .isTrue trivial

instance Linked.decidableOrderly (s : Linked) : ∀ e, Decidable (s.Orderly e)
  | .registerSynchronization .. => inferInstanceAs (Decidable (_ → _))
  | .synchronizationPointAchieved _ => inferInstanceAs (Decidable (_ → _ → _ ∧ _ ∧ _))
  | .handle => inferInstanceAs (Decidable (_ → ∀ q ∈ s.requests.head?, _))
  | .others _ => inferInstanceAs (Decidable (_ → _ → _))
  | .join .. | .resign | .receive | .lose => .isTrue trivial

/-- A federate joins, another one does, and the first registers a point for both. -/
def registering : List LabelEvent :=
  [.join "a" true, .handle, .receive, .others (joinAs "b"),
    .registerSynchronization "s" "" [], .handle, .receive, .receive]

theorem registration_atomic_labels_agree_registering :
    linked.Meets Linked.Orderly (Linked.create smallFom false false) registering ∧
      (linked.exec (Linked.create smallFom false false) registering).AgreesWhenQuiet := by
  have ok : linked.Meets Linked.Orderly (Linked.create smallFom false false) registering := by
    decide +kernel
  exact ⟨ok, (registration_atomic_labels_agree (rtig.exec (create smallFom false false) [])
    1 "s" "" none smallFom false false registering).2 ok⟩

/-- A federate names itself in the set: it is given the label, the point stays in the table, and
it is told of a failure. A federate that has achieved a point registers it once more while
another has not: the refusal leaves the label with its RTIA. -/
theorem registration_half_done :
    ¬(rtig.exec (create smallFom false false) [joinAs "a", joinAs "b"]).RegistersAtomically
        1 "s" "" (some [1, 2]) ∧
      ¬(linked.exec (Linked.create smallFom false false) (registering ++
        [.synchronizationPointAchieved "s", .handle, .registerSynchronization "s" "" [], .handle,
          .receive])).AgreesWhenQuiet := by
  refine ⟨?_, fun agrees => ?_⟩
  · rw [registersAtomically_iff]
    decide +kernel
  · have same := (agrees (by decide +kernel) (by decide +kernel) (by decide +kernel)).same "s"
    exact absurd same (by decide +kernel)

end Certi
