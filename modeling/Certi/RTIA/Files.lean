import Mathlib.Data.List.Sort
import Certi.LibCERTI.LBTS

/-!
# The message queues of an RTIA

`RTIA/Files.cc`: one queue each for commands, for messages in receive order and
for messages in time stamp order. Only the last is sorted, and a message is put
behind those of its own date.
-/
namespace Certi

inductive OrderType where
  | receive | timestamp
  deriving DecidableEq, Repr

/-- What decides the queue of a message from the RTIG: the order of each updated attribute in the
class of the object, and of the interaction class, where the root object of the RTIA has them.
`other` stands for the messages that are never dated. -/
inductive Payload where
  | reflectAttributeValues (orders : Option (List (Option OrderType)))
  | receiveInteraction (order : Option OrderType)
  | removeObject
  | other
  | beginCommand
  | lastCommand
  deriving DecidableEq, Repr

/-- A message from the RTIG; `id` stands for the contents that no queue looks at. -/
structure QueuedMessage where
  id : Nat
  payload : Payload
  date : Option Date
  deriving DecidableEq

namespace QueuedMessage

def isDated (m : QueuedMessage) : Bool := m.date.isSome

/-- The date of an undated message is that of a default `FedTime`. -/
def getDate (m : QueuedMessage) : Date := m.date.getD 0

/-- A dated update has time stamp order when all its attributes have it; the loop stops at the
first that has not. -/
def updateOrder : List (Option OrderType) → Except RTIException OrderType
  | [] => .ok .timestamp
  | none :: _ => .error .attributeNotDefined
  | some order :: rest => if order = .timestamp then updateOrder rest else .ok .receive

/-- The order that `RTIA::processNetworkMessage` finds; nothing is looked up for a message
without a date. -/
def order (m : QueuedMessage) : Except RTIException OrderType :=
  match m.payload with
  | .reflectAttributeValues orders =>
    if m.isDated then
      match orders with
      | some orders => updateOrder orders
      | none => .error .objectNotKnown
    else .ok .receive
  | .receiveInteraction order =>
    if m.isDated then
      match order with
      | some order => .ok order
      | none => .error .interactionClassNotDefined
    else .ok .receive
  | .removeObject => if m.isDated then .ok .timestamp else .ok .receive
  | .other | .beginCommand | .lastCommand => .ok .receive

end QueuedMessage

structure Queues where
  fifos : List QueuedMessage
  tsos : List QueuedMessage
  commands : List QueuedMessage
  deriving DecidableEq

namespace Queues

def insertFifoMessage (q : Queues) (m : QueuedMessage) : Queues :=
  { q with fifos := q.fifos ++ [m] }

def insertTsoMessage (q : Queues) (m : QueuedMessage) : Queues :=
  { q with tsos := q.tsos.orderedInsert (fun new old => new.getDate < old.getDate) m }

def insertBeginCommand (q : Queues) (m : QueuedMessage) : Queues :=
  { q with commands := m :: q.commands }

def insertLastCommand (q : Queues) (m : QueuedMessage) : Queues :=
  { q with commands := q.commands ++ [m] }

/-- The message, whether another one can be given, and what is left. -/
def giveFifoMessage (q : Queues) : Option (QueuedMessage × Bool × Queues) :=
  match q.fifos with
  | [] => none
  | m :: rest => some (m, !rest.isEmpty, { q with fifos := rest })

def giveCommandMessage (q : Queues) : Option (QueuedMessage × Bool × Queues) :=
  match q.commands with
  | [] => none
  | m :: rest => some (m, !rest.isEmpty, { q with commands := rest })

def giveTsoMessage (q : Queues) (date : Date) : Option (QueuedMessage × Bool × Queues) :=
  match q.tsos with
  | [] => none
  | m :: rest =>
    if m.getDate ≤ date then
      some (m, rest.head?.any fun next => next.getDate ≤ date, { q with tsos := rest })
    else none

def nextTsoDate (q : Queues) : Option Date := q.tsos.head?.map QueuedMessage.getDate

/-- The queue for messages in time stamp order is in that order. -/
def Sorted (q : Queues) : Prop :=
  q.tsos.Pairwise fun earlier later => earlier.getDate ≤ later.getDate

@[simp] theorem insertTsoMessage_fifos (q : Queues) (m : QueuedMessage) :
    (q.insertTsoMessage m).fifos = q.fifos := rfl

@[simp] theorem insertTsoMessage_commands (q : Queues) (m : QueuedMessage) :
    (q.insertTsoMessage m).commands = q.commands := rfl

theorem insertTsoMessage_perm (q : Queues) (m : QueuedMessage) :
    (q.insertTsoMessage m).tsos.Perm (m :: q.tsos) := List.perm_orderedInsert _ m q.tsos

theorem mem_insertTsoMessage {q : Queues} {m n : QueuedMessage} :
    n ∈ (q.insertTsoMessage m).tsos ↔ n = m ∨ n ∈ q.tsos := List.mem_orderedInsert _

theorem orderedInsert_sorted (m : QueuedMessage) {tsos : List QueuedMessage}
    (sorted : tsos.Pairwise fun earlier later => earlier.getDate ≤ later.getDate) :
    (tsos.orderedInsert (fun new old => new.getDate < old.getDate) m).Pairwise
      fun earlier later => earlier.getDate ≤ later.getDate := by
  induction tsos with
  | nil => simp
  | cons head rest ih =>
    have headFirst := (List.pairwise_cons.mp sorted).1
    have restSorted := (List.pairwise_cons.mp sorted).2
    rw [List.orderedInsert_cons]
    split
    · rename_i before
      have above : ∀ n ∈ head :: rest, m.getDate ≤ n.getDate := by
        intro n member
        cases List.mem_cons.mp member with
        | inl same => rw [same]; exact le_of_lt before
        | inr later => exact le_trans (le_of_lt before) (headFirst n later)
      exact List.pairwise_cons.mpr ⟨above, sorted⟩
    · rename_i behind
      have above : ∀ n ∈ rest.orderedInsert (fun new old => new.getDate < old.getDate) m,
          head.getDate ≤ n.getDate := by
        intro n member
        cases (List.mem_orderedInsert _).mp member with
        | inl same => rw [same]; exact not_lt.mp behind
        | inr later => exact headFirst n later
      exact List.pairwise_cons.mpr ⟨above, ih restSorted⟩

theorem Sorted.insertTsoMessage {q : Queues} (sorted : q.Sorted) (m : QueuedMessage) :
    (q.insertTsoMessage m).Sorted := orderedInsert_sorted m sorted

/-- A message is given from the front, and is due. -/
theorem giveTsoMessage_some {q q' : Queues} {date : Date} {m : QueuedMessage} {more : Bool}
    (given : q.giveTsoMessage date = some (m, more, q')) :
    q.tsos = m :: q'.tsos ∧ m.getDate ≤ date ∧ q'.fifos = q.fifos ∧ q'.commands = q.commands := by
  unfold giveTsoMessage at given
  split at given
  · cases given
  · rename_i head rest queue
    split at given
    · rename_i due
      simp only [Option.some.injEq, Prod.mk.injEq] at given
      obtain ⟨rfl, -, rfl⟩ := given
      exact ⟨queue, due, rfl, rfl⟩
    · cases given

theorem giveFifoMessage_some {q q' : Queues} {m : QueuedMessage} {more : Bool}
    (given : q.giveFifoMessage = some (m, more, q')) :
    q.fifos = m :: q'.fifos ∧ q'.tsos = q.tsos ∧ q'.commands = q.commands := by
  unfold giveFifoMessage at given
  split at given
  · cases given
  · rename_i queue
    cases given
    exact ⟨queue, rfl, rfl⟩

theorem giveCommandMessage_some {q q' : Queues} {m : QueuedMessage} {more : Bool}
    (given : q.giveCommandMessage = some (m, more, q')) :
    q.commands = m :: q'.commands ∧ q'.tsos = q.tsos ∧ q'.fifos = q.fifos := by
  unfold giveCommandMessage at given
  split at given
  · cases given
  · rename_i queue
    cases given
    exact ⟨queue, rfl, rfl⟩

theorem giveFifoMessage_none {q : Queues} (given : q.giveFifoMessage = none) : q.fifos = [] := by
  unfold giveFifoMessage at given
  split at given
  · assumption
  · cases given

theorem giveCommandMessage_none {q : Queues} (given : q.giveCommandMessage = none) :
    q.commands = [] := by
  unfold giveCommandMessage at given
  split at given
  · assumption
  · cases given

/-- When nothing is given, nothing in a sorted queue is due. -/
theorem giveTsoMessage_none {q : Queues} {date : Date} (sorted : q.Sorted)
    (given : q.giveTsoMessage date = none) : ∀ m ∈ q.tsos, date < m.getDate := by
  unfold giveTsoMessage at given
  split at given
  · rename_i empty
    simp [empty]
  · rename_i head rest queue
    split at given
    · cases given
    · rename_i late
      have first : date < head.getDate := not_le.mp late
      unfold Sorted at sorted
      rw [queue] at sorted ⊢
      have headFirst := (List.pairwise_cons.mp sorted).1
      intro m member
      cases List.mem_cons.mp member with
      | inl same => rw [same]; exact first
      | inr later => exact lt_of_lt_of_le first (headFirst m later)

end Queues

end Certi
