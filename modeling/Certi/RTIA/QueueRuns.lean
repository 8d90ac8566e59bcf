import Certi.Lib.Runs
import Certi.RTIA.Files

/-!
# The queue in time stamp order over whole runs

Any sequence of insertions, of messages given and of questions for the next date.
What has been given and what still waits is, date by date, what was inserted, in
the order of insertion.
-/
namespace Certi

open Runs

inductive TsoCall where
  | insertTsoMessage (m : QueuedMessage)
  | giveTsoMessage (date : Date)
  | nextTsoDate

/-- What a call hands out: a message with the flag for a remaining one, or a date. -/
inductive TsoAnswer where
  | nothing
  | message (m : QueuedMessage) (more : Bool)
  | date (d : Option Date)

def tsoQueue : Machine Queues TsoCall TsoAnswer := fun q call =>
  match call with
  | .insertTsoMessage m => (q.insertTsoMessage m, .nothing)
  | .giveTsoMessage date =>
    match q.giveTsoMessage date with
    | some (m, more, q') => (q', .message m more)
    | none => (q, .nothing)
  | .nextTsoDate => (q, .date q.nextTsoDate)

def TsoCall.inserted : TsoCall → List QueuedMessage
  | insertTsoMessage m => [m]
  | giveTsoMessage _ | nextTsoDate => []

def TsoAnswer.given : TsoAnswer → List QueuedMessage
  | message m _ => [m]
  | nothing | date _ => []

/-- The messages inserted, oldest first. -/
def tsoInserted (past : List (TsoCall × TsoAnswer)) : List QueuedMessage :=
  past.flatMap fun entry => entry.1.inserted

/-- The messages given, oldest first. -/
def tsoGiven (past : List (TsoCall × TsoAnswer)) : List QueuedMessage :=
  past.flatMap fun entry => entry.2.given

def dated (date : Date) (messages : List QueuedMessage) : List QueuedMessage :=
  messages.filter fun m => m.getDate = date

theorem dated_append (date : Date) (l l' : List QueuedMessage) :
    dated date (l ++ l') = dated date l ++ dated date l' := List.filter_append l l'

namespace Queues

/-- What the next call finds out, whatever it is. -/
structure AnswersWell (q : Queues) : Prop where
  due : ∀ date, q.giveTsoMessage date = none ↔ ∀ m ∈ q.tsos, date < m.getDate
  earliest : ∀ date m more q', q.giveTsoMessage date = some (m, more, q') →
    q.tsos = m :: q'.tsos ∧ m.getDate ≤ date ∧ (∀ n ∈ q.tsos, m.getDate ≤ n.getDate) ∧
      q'.fifos = q.fifos ∧ q'.commands = q.commands
  remaining : ∀ date m more q', q.giveTsoMessage date = some (m, more, q') →
    (more = true ↔ (q'.giveTsoMessage date).isSome = true)
  next : ∀ date, q.nextTsoDate = some date ↔
    (∃ m ∈ q.tsos, m.getDate = date) ∧ ∀ n ∈ q.tsos, date ≤ n.getDate

theorem Sorted.head_le {q : Queues} (sorted : q.Sorted) {m : QueuedMessage}
    {rest : List QueuedMessage} (queue : q.tsos = m :: rest) :
    ∀ n ∈ q.tsos, m.getDate ≤ n.getDate := by
  unfold Sorted at sorted
  rw [queue] at sorted ⊢
  intro n member
  cases List.mem_cons.mp member with
  | inl same => rw [same]
  | inr later => exact (List.pairwise_cons.mp sorted).1 n later

theorem giveTsoMessage_more {q q' : Queues} {date : Date} {m : QueuedMessage} {more : Bool}
    (given : q.giveTsoMessage date = some (m, more, q')) :
    more = true ↔ (q'.giveTsoMessage date).isSome = true := by
  unfold giveTsoMessage at given
  split at given
  · cases given
  · rename_i head rest queue
    split at given
    · cases given
      cases rest with
      | nil => simp [giveTsoMessage]
      | cons second rest => by_cases due : second.getDate ≤ date <;> simp [giveTsoMessage, due]
    · cases given

theorem Sorted.nextTsoDate_iff {q : Queues} (sorted : q.Sorted) (date : Date) :
    q.nextTsoDate = some date ↔
      (∃ m ∈ q.tsos, m.getDate = date) ∧ ∀ n ∈ q.tsos, date ≤ n.getDate := by
  unfold nextTsoDate
  cases queue : q.tsos with
  | nil => simp
  | cons m rest =>
    have least := sorted.head_le queue
    rw [queue] at least
    simp only [List.head?_cons, Option.map_some, Option.some.injEq]
    constructor
    · rintro rfl
      exact ⟨⟨m, List.mem_cons_self, rfl⟩, least⟩
    · intro ⟨⟨n, member, same⟩, lower⟩
      exact le_antisymm (same ▸ least n member) (lower m List.mem_cons_self)

theorem Sorted.answersWell {q : Queues} (sorted : q.Sorted) : q.AnswersWell where
  due date := by
    constructor
    · exact giveTsoMessage_none sorted
    · intro late
      unfold giveTsoMessage
      cases queue : q.tsos with
      | nil => rfl
      | cons m rest =>
        have first := late m (queue ▸ List.mem_cons_self)
        exact if_neg (not_le.mpr first)
  earliest date m more q' given := by
    obtain ⟨queue, due, fifos, commands⟩ := giveTsoMessage_some given
    exact ⟨queue, due, sorted.head_le queue, fifos, commands⟩
  remaining _ _ _ _ given := giveTsoMessage_more given
  next := sorted.nextTsoDate_iff

/-! ## Insertion, date by date -/

/-- A message goes behind those of its own date. -/
theorem dated_orderedInsert (m : QueuedMessage) (date : Date) {tsos : List QueuedMessage}
    (sorted : tsos.Pairwise fun earlier later => earlier.getDate ≤ later.getDate) :
    dated date (tsos.orderedInsert (fun new old => new.getDate < old.getDate) m) =
      dated date tsos ++ dated date [m] := by
  induction tsos with
  | nil => rfl
  | cons head rest ih =>
    obtain ⟨headFirst, restSorted⟩ := List.pairwise_cons.mp sorted
    rw [List.orderedInsert_cons]
    split
    · rename_i before
      by_cases same : m.getDate = date
      · have later : ∀ n ∈ head :: rest, ¬ n.getDate = date := by
          intro n member
          have behind : head.getDate ≤ n.getDate := by
            cases List.mem_cons.mp member with
            | inl same => rw [same]
            | inr later => exact headFirst n later
          intro equal
          rw [same.trans equal.symm] at before
          exact absurd behind (not_le.mpr before)
        have none : dated date (head :: rest) = [] := by
          simpa [dated, List.filter_eq_nil_iff] using later
        rw [none]
        simp only [dated, List.nil_append] at none ⊢
        rw [List.filter_cons, none]
        simp [same]
      · simp [dated, same]
    · by_cases same : head.getDate = date
      · simpa [dated, same] using ih restSorted
      · simpa [dated, same] using ih restSorted

end Queues

/-! ## Runs -/

/-- The queue is sorted, and date by date nothing is lost, added or overtaken. -/
structure TsoLawful (past : List (TsoCall × TsoAnswer)) (q : Queues) : Prop where
  sorted : q.Sorted
  stable : ∀ date, dated date (tsoGiven past ++ q.tsos) = dated date (tsoInserted past)

theorem tsoInserted_snoc (past : List (TsoCall × TsoAnswer)) (call : TsoCall)
    (answer : TsoAnswer) :
    tsoInserted (past ++ [(call, answer)]) = tsoInserted past ++ call.inserted := by
  simp [tsoInserted]

theorem tsoGiven_snoc (past : List (TsoCall × TsoAnswer)) (call : TsoCall) (answer : TsoAnswer) :
    tsoGiven (past ++ [(call, answer)]) = tsoGiven past ++ answer.given := by
  simp [tsoGiven]

theorem TsoLawful.step {past : List (TsoCall × TsoAnswer)} {q : Queues}
    (lawful : TsoLawful past q) (call : TsoCall) :
    TsoLawful (past ++ [(call, (tsoQueue q call).2)]) (tsoQueue q call).1 := by
  have before := lawful.stable
  cases call with
  | insertTsoMessage m =>
    refine ⟨lawful.sorted.insertTsoMessage m, fun date => ?_⟩
    have inserted : dated date (q.insertTsoMessage m).tsos = dated date q.tsos ++ dated date [m] :=
      Queues.dated_orderedInsert m date lawful.sorted
    have old := before date
    rw [dated_append] at old
    rw [tsoInserted_snoc, tsoGiven_snoc]
    change dated date ((tsoGiven past ++ []) ++ (q.insertTsoMessage m).tsos) =
      dated date (tsoInserted past ++ [m])
    rw [List.append_nil, dated_append, dated_append, inserted, ← List.append_assoc, old]
  | giveTsoMessage date =>
    cases given : q.giveTsoMessage date with
    | none =>
      have result : tsoQueue q (.giveTsoMessage date) = (q, .nothing) := by simp [tsoQueue, given]
      rw [result]
      refine ⟨lawful.sorted, fun d => ?_⟩
      rw [tsoInserted_snoc, tsoGiven_snoc]
      simpa [TsoCall.inserted, TsoAnswer.given] using before d
    | some answer =>
      obtain ⟨m, more, q'⟩ := answer
      have result : tsoQueue q (.giveTsoMessage date) = (q', .message m more) := by
        simp [tsoQueue, given]
      have queue := (Queues.giveTsoMessage_some given).1
      have sorted : q'.Sorted := by
        have whole := lawful.sorted
        unfold Queues.Sorted at whole ⊢
        rw [queue] at whole
        exact (List.pairwise_cons.mp whole).2
      rw [result]
      refine ⟨sorted, fun d => ?_⟩
      have old := before d
      rw [queue] at old
      rw [tsoInserted_snoc, tsoGiven_snoc]
      simpa [TsoCall.inserted, TsoAnswer.given] using old
  | nextTsoDate =>
    refine ⟨lawful.sorted, fun date => ?_⟩
    rw [tsoInserted_snoc, tsoGiven_snoc]
    simpa [tsoQueue, TsoCall.inserted, TsoAnswer.given] using before date

/-- Lists that agree date by date hold the same messages. -/
theorem perm_of_dated {l l' : List QueuedMessage} (same : ∀ date, dated date l = dated date l') :
    l.Perm l' := by
  rw [List.perm_iff_count]
  intro m
  have within : ∀ l : List QueuedMessage, (dated m.getDate l).count m = l.count m := by
    intro l
    exact List.count_filter (by simp)
  rw [← within l, ← within l', same]

end Certi
