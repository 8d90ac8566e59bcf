import Certi.RTIA.Steps

/-!
# Delivery in time stamp order

Over a whole run of an RTIA: what has been delivered, what waits in the queue
and what has been granted. The invariant joins the sorted queue to the pending
date and the current time; a message that arrives late is the only way to break
the order.
-/
namespace Certi

open Runs TimeManagement

/-- The messages in time stamp order delivered so far, oldest first. -/
def tsoDelivered (past : List (RtiaEvent × RtiaAnswer)) : List QueuedMessage :=
  past.flatMap fun entry => entry.2.tsos

/-- The date of a request that was accepted. -/
def acceptedRequest (entry : RtiaEvent × RtiaAnswer) : Option Date :=
  match entry.1 with
  | .timeAdvanceRequest date | .timeAdvanceRequestAvailable date | .nextEventRequest date =>
    if entry.2.error = none then some date else none
  | _ => none

/-- The date of the last request that was accepted. -/
def lastRequested (past : List (RtiaEvent × RtiaAnswer)) : Option Date :=
  (past.filterMap acceptedRequest).getLast?

/-- The messages a run puts into the queue in time stamp order. -/
def queuedBy (tm : TimeManagement) : List RtiaEvent → List QueuedMessage
  | [] => []
  | e :: es => tm.queued e ++ queuedBy (rtia tm e).1 es

/-- The federate stays constrained once it is, advances by the three requests whose dates are
checked, and no message in time stamp order arrives that is dated before the current time or
before one that has been delivered. -/
def Timely (s : List (RtiaEvent × RtiaAnswer) × TimeManagement) : RtiaEvent → Prop
  | .arrive m => ∀ n ∈ s.2.queued (.arrive m),
      s.2.heureCourante ≤ n.getDate ∧ ∀ d ∈ tsoDelivered s.1, d.getDate ≤ n.getDate
  | .setTimeConstrained on => on = true
  | .nextEventRequestAvailable _ => False
  | _ => True

instance : ∀ s e, Decidable (Timely s e)
  | s, .arrive m => inferInstanceAs (Decidable (∀ n ∈ s.2.queued (.arrive m),
      s.2.heureCourante ≤ n.getDate ∧ ∀ d ∈ tsoDelivered s.1, d.getDate ≤ n.getDate))
  | _, .setTimeConstrained on => inferInstanceAs (Decidable (on = true))
  | _, .nextEventRequestAvailable _ => .isFalse id
  | _, .timeAdvanceRequest _ | _, .timeAdvanceRequestAvailable _ | _, .nextEventRequest _
  | _, .setLookahead _ | _, .setTimeRegulating _ _ | _, .setAsynchronousDelivery _
  | _, .sendDated _ | _, .deleteDated _ | _, .join _ _ | _, .resign | _, .messageNull _ _
  | _, .regulatorOn _ _ | _, .regulatorOff _ | _, .tick => .isTrue trivial

/-! ## The invariant -/

/-- Between ticks: the queue is sorted and not behind the current time, a pending date has been
asked for, and every message that was queued has been delivered or waits. -/
structure Timed (past : List (RtiaEvent × RtiaAnswer)) (arrived : List QueuedMessage)
    (tm : TimeManagement) : Prop where
  sorted : tm.queues.Sorted
  ahead : ∀ m ∈ tm.queues.tsos, tm.heureCourante ≤ m.getDate
  free : tm.isConstrained = false → tm.queues.tsos = []
  pending : tm.avanceeEnCours ≠ .pasDAvancee → tm.heureCourante ≤ tm.dateAvancee ∧
    ∃ date, lastRequested past = some date ∧ tm.dateAvancee ≤ date
  ordered : (tsoDelivered past).Pairwise fun earlier later => earlier.getDate ≤ later.getDate
  behind : ∀ d ∈ tsoDelivered past, ∀ m ∈ tm.queues.tsos, d.getDate ≤ m.getDate
  kept : (tsoDelivered past ++ tm.queues.tsos).Perm arrived

/-- What a tick does is within the request, and a grant leaves nothing behind. -/
structure WithinRequest (past : List (RtiaEvent × RtiaAnswer)) (tm : TimeManagement)
    (r : TimeManagement × RtiaAnswer) : Prop where
  delivered : ∀ m ∈ r.2.tsos, tm.avanceeEnCours ≠ .pasDAvancee ∧ m.getDate ≤ tm.dateAvancee ∧
    ∃ date, lastRequested past = some date ∧ tm.dateAvancee ≤ date
  granted : ∀ date ∈ r.2.grants, (∀ m ∈ r.1.queues.tsos, date < m.getDate) ∧
    tm.heureCourante ≤ date

section

variable {past : List (RtiaEvent × RtiaAnswer)} {arrived : List QueuedMessage}
  {tm : TimeManagement} {e : RtiaEvent} {r : TimeManagement × RtiaAnswer}

theorem tsoDelivered_snoc (past : List (RtiaEvent × RtiaAnswer)) (e : RtiaEvent)
    (answer : RtiaAnswer) :
    tsoDelivered (past ++ [(e, answer)]) = tsoDelivered past ++ answer.tsos := by
  simp [tsoDelivered]

theorem lastRequested_same (past : List (RtiaEvent × RtiaAnswer)) {answer : RtiaAnswer}
    (none : acceptedRequest (e, answer) = none) :
    lastRequested (past ++ [(e, answer)]) = lastRequested past := by
  simp [lastRequested, none]

theorem lastRequested_new (past : List (RtiaEvent × RtiaAnswer)) {answer : RtiaAnswer}
    {date : Date} (some : acceptedRequest (e, answer) = some date) :
    lastRequested (past ++ [(e, answer)]) = .some date := by
  simp [lastRequested, some]

/-- Nothing the invariant speaks of has changed. -/
theorem Timed.quiet (timed : Timed past arrived tm) (quiet : Quiet tm r)
    (none : acceptedRequest (e, r.2) = none) : Timed (past ++ [(e, r.2)]) arrived r.1 := by
  have delivered : tsoDelivered (past ++ [(e, r.2)]) = tsoDelivered past := by
    rw [tsoDelivered_snoc, quiet.tsos, List.append_nil]
  have requested := lastRequested_same past none
  obtain ⟨tsos, heure, avancee, date, constrained⟩ := quiet.steady
  exact
    { sorted := by unfold Queues.Sorted; rw [tsos]; exact timed.sorted
      ahead := by rw [tsos, heure]; exact timed.ahead
      free := by rw [tsos, constrained]; exact timed.free
      pending := by rw [avancee, heure, date, requested]; exact timed.pending
      ordered := by rw [delivered]; exact timed.ordered
      behind := by rw [delivered, tsos]; exact timed.behind
      kept := by rw [delivered, tsos]; exact timed.kept }

theorem Timed.requests (timed : Timed past arrived tm) {date : Date}
    (requests : Requests tm r date) (some : acceptedRequest (e, r.2) = some date) :
    Timed (past ++ [(e, r.2)]) arrived r.1 := by
  have none : r.2.tsos = [] := by simp [RtiaAnswer.tsos, requests.callbacks]
  have delivered : tsoDelivered (past ++ [(e, r.2)]) = tsoDelivered past := by
    rw [tsoDelivered_snoc, none, List.append_nil]
  have last := lastRequested_new past some
  exact
    { sorted := by unfold Queues.Sorted; rw [requests.tsos]; exact timed.sorted
      ahead := by rw [requests.tsos, requests.heure]; exact timed.ahead
      free := by rw [requests.tsos, requests.mode]; exact timed.free
      pending := by
        intro _
        rw [requests.heure, requests.requested]
        exact ⟨requests.ahead, date, last, le_refl date⟩
      ordered := by rw [delivered]; exact timed.ordered
      behind := by rw [delivered, requests.tsos]; exact timed.behind
      kept := by rw [delivered, requests.tsos]; exact timed.kept }

theorem Timed.delivers (timed : Timed past arrived tm) {m : QueuedMessage}
    (delivers : Delivers tm r m) (none : acceptedRequest (e, r.2) = none) :
    Timed (past ++ [(e, r.2)]) arrived r.1 := by
  have delivered : tsoDelivered (past ++ [(e, r.2)]) = tsoDelivered past ++ [m] := by
    rw [tsoDelivered_snoc, delivers.answer.1]
  have requested := lastRequested_same past none
  have front : tm.queues.tsos = m :: r.1.queues.tsos := delivers.tsos
  have queue := timed.sorted
  unfold Queues.Sorted at queue
  rw [front] at queue
  have first := (List.pairwise_cons.mp queue).1
  have member : m ∈ tm.queues.tsos := by rw [front]; exact List.mem_cons_self
  obtain ⟨askedAhead, date, asked, within⟩ := timed.pending delivers.pending
  exact
    { sorted := (List.pairwise_cons.mp queue).2
      ahead := by
        intro n later
        rw [delivers.heure]
        exact timed.ahead n (by rw [front]; exact List.mem_cons_of_mem m later)
      free := by
        intro free
        rw [delivers.mode] at free
        cases free
      pending := by
        intro _
        rw [delivers.heure, requested]
        cases delivers.date with
        | inl same => rw [same]; exact ⟨askedAhead, date, asked, within⟩
        | inr earlier =>
          rw [earlier.1]
          exact ⟨timed.ahead m member, date, asked, le_trans (le_of_lt earlier.2) within⟩
      ordered := by
        rw [delivered]
        refine List.pairwise_append.mpr ⟨timed.ordered, List.pairwise_singleton _ m, ?_⟩
        intro d before n last
        rw [List.mem_singleton.mp last]
        exact timed.behind d before m member
      behind := by
        intro d before n later
        rw [delivered] at before
        cases List.mem_append.mp before with
        | inl earlier =>
          exact timed.behind d earlier n (by rw [front]; exact List.mem_cons_of_mem m later)
        | inr last =>
          rw [List.mem_singleton.mp last]
          exact first n later
      kept := by
        rw [delivered, List.append_assoc, List.singleton_append, ← front]
        exact timed.kept }

/-- A tick that grants leaves only later messages. -/
theorem Timed.afterGrant (timed : Timed past arrived tm) (grants : Grants tm r) :
    ∀ m ∈ tm.queues.tsos, tm.dateAvancee < m.getDate := by
  cases constrained : tm.isConstrained with
  | true => exact Queues.giveTsoMessage_none timed.sorted (grants.due constrained)
  | false =>
    intro m member
    rw [timed.free constrained] at member
    cases member

theorem Timed.grants (timed : Timed past arrived tm) (grants : Grants tm r)
    (none : acceptedRequest (e, r.2) = none) : Timed (past ++ [(e, r.2)]) arrived r.1 := by
  have delivered : tsoDelivered (past ++ [(e, r.2)]) = tsoDelivered past := by
    rw [tsoDelivered_snoc, grants.answer.1, List.append_nil]
  exact
    { sorted := by unfold Queues.Sorted; rw [grants.tsos]; exact timed.sorted
      ahead := by
        rw [grants.tsos, grants.heure]
        intro m member
        exact le_of_lt (timed.afterGrant grants m member)
      free := by rw [grants.tsos, grants.mode]; exact timed.free
      pending := by
        intro pending
        rw [grants.avancee] at pending
        exact absurd rfl pending
      ordered := by rw [delivered]; exact timed.ordered
      behind := by rw [delivered, grants.tsos]; exact timed.behind
      kept := by rw [delivered, grants.tsos]; exact timed.kept }

theorem Timed.stops (timed : Timed past arrived tm) (stops : Stops tm r) :
    Timed (past ++ [(e, r.2)]) arrived r.1 := by
  have none : r.2.tsos = [] := by simp [RtiaAnswer.tsos, stops.callbacks]
  have delivered : tsoDelivered (past ++ [(e, r.2)]) = tsoDelivered past := by
    rw [tsoDelivered_snoc, none, List.append_nil]
  exact
    { sorted := by unfold Queues.Sorted; rw [stops.tsos]; exact timed.sorted
      ahead := by rw [stops.tsos, stops.heure]; exact timed.ahead
      free := by rw [stops.tsos, stops.mode]; exact timed.free
      pending := fun pending => absurd stops.avancee pending
      ordered := by rw [delivered]; exact timed.ordered
      behind := by rw [delivered, stops.tsos]; exact timed.behind
      kept := by rw [delivered, stops.tsos]; exact timed.kept }

/-- A message that is not late takes its place in the queue. -/
theorem Timed.inserts (timed : Timed past arrived tm) {m : QueuedMessage}
    (constrained : tm.isConstrained = true) (ahead : tm.heureCourante ≤ m.getDate)
    (behind : ∀ d ∈ tsoDelivered past, d.getDate ≤ m.getDate) :
    Timed (past ++ [(.arrive m, ({} : RtiaAnswer))]) (arrived ++ [m])
      { tm with queues := tm.queues.insertTsoMessage m } := by
  have delivered : tsoDelivered (past ++ [(.arrive m, ({} : RtiaAnswer))]) = tsoDelivered past := by
    rw [tsoDelivered_snoc]
    exact List.append_nil _
  have requested : lastRequested (past ++ [(.arrive m, ({} : RtiaAnswer))]) = lastRequested past :=
    lastRequested_same past rfl
  exact
    { sorted := timed.sorted.insertTsoMessage m
      ahead := by
        intro n member
        cases Queues.mem_insertTsoMessage.mp member with
        | inl same => rw [same]; exact ahead
        | inr old => exact timed.ahead n old
      free := fun free => absurd (constrained.symm.trans free) (by decide)
      pending := by rw [requested]; exact timed.pending
      ordered := by rw [delivered]; exact timed.ordered
      behind := by
        rw [delivered]
        intro d before n member
        cases Queues.mem_insertTsoMessage.mp member with
        | inl same => rw [same]; exact behind d before
        | inr old => exact timed.behind d before n old
      kept := by
        rw [delivered]
        have placed := (tm.queues.insertTsoMessage_perm m).append_left (tsoDelivered past)
        have swapped : (tsoDelivered past ++ m :: tm.queues.tsos).Perm
            (m :: (tsoDelivered past ++ tm.queues.tsos)) := List.perm_middle
        have last : (m :: arrived).Perm (arrived ++ [m]) := (List.perm_append_singleton m _).symm
        exact placed.trans (swapped.trans ((timed.kept.cons m).trans last)) }

end

/-! ## Runs -/

theorem timed_create (granted : TypeGrantedState) : Timed [] [] (create granted) where
  sorted := List.Pairwise.nil
  ahead := by
    intro m member
    cases member
  free := fun _ => rfl
  pending := fun pending => absurd rfl pending
  ordered := List.Pairwise.nil
  behind := by
    intro d before
    cases before
  kept := List.Perm.refl []

/-- A request event is refused or accepted. -/
theorem timed_request {past : List (RtiaEvent × RtiaAnswer)} {arrived : List QueuedMessage}
    {tm : TimeManagement} {e : RtiaEvent} {r : TimeManagement × RtiaAnswer} {date : Date}
    (timed : Timed past arrived tm) (cases : (∃ x, r = tm.refuse x) ∨ Requests tm r date)
    (refused : ∀ x, acceptedRequest (e, { error := some x }) = none)
    (accepted : ∀ answer, answer.error = none → acceptedRequest (e, answer) = some date) :
    Timed (past ++ [(e, r.2)]) arrived r.1 := by
  cases cases with
  | inl refusal =>
    obtain ⟨x, rfl⟩ := refusal
    exact timed.quiet (Quiet.refused tm x) (refused x)
  | inr requests => exact timed.requests requests (accepted r.2 requests.accepted)

/-- One timely event keeps the invariant. -/
theorem timed_step {past : List (RtiaEvent × RtiaAnswer)} {arrived : List QueuedMessage}
    {tm : TimeManagement} {e : RtiaEvent} (timed : Timed past arrived tm)
    (timely : Timely (past, tm) e) :
    Timed (past ++ [(e, (rtia tm e).2)]) (arrived ++ tm.queued e) (rtia tm e).1 := by
  by_cases stopped : tm.ended = true
  · have nothing : tm.queued e = [] := by
      cases e <;> simp [queued, stopped]
    rw [rtia_ended stopped, nothing, List.append_nil]
    refine timed.quiet (Quiet.refused tm .networkError) ?_
    cases e <;> rfl
  have running : tm.ended = false := by simpa using stopped
  rw [rtia_perform running]
  by_cases quiet : IsQuiet e
  · have nothing : tm.queued e = [] := by
      cases e with
      | arrive m => cases quiet
      | _ => rfl
    rw [nothing, List.append_nil]
    refine timed.quiet (tm.perform_quiet quiet) ?_
    cases e with
    | timeAdvanceRequest _ | timeAdvanceRequestAvailable _ | nextEventRequest _ => cases quiet
    | _ => rfl
  cases e with
  | timeAdvanceRequest date =>
    rw [queued_other (by simp), List.append_nil]
    exact timed_request timed (tm.timeAdvanceRequest_cases date) (fun _ => rfl)
      (fun _ accepted => if_pos accepted)
  | timeAdvanceRequestAvailable date =>
    rw [queued_other (by simp), List.append_nil]
    exact timed_request timed (tm.timeAdvanceRequestAvailable_cases date) (fun _ => rfl)
      (fun _ accepted => if_pos accepted)
  | nextEventRequest date =>
    rw [queued_other (by simp), List.append_nil]
    exact timed_request timed (tm.nextEventRequest_cases date) (fun _ => rfl)
      (fun _ accepted => if_pos accepted)
  | nextEventRequestAvailable date => cases timely
  | setTimeConstrained on =>
    have isOn : on = true := timely
    subst isOn
    rw [queued_other (by simp), List.append_nil]
    change Timed (past ++ [(_, (tm.setTimeConstrained true).2)]) arrived
      (tm.setTimeConstrained true).1
    cases tm.setTimeConstrained_cases true with
    | inl refusal =>
      rw [refusal]
      exact timed.quiet (Quiet.refused tm .rtiInternalError) rfl
    | inr switched =>
      obtain ⟨-, -, state⟩ := switched
      rw [state]
      have same := timed.quiet (r := (tm, { sent := [.setTimeConstrained true] }))
        (e := .setTimeConstrained true) ⟨Steady.refl tm, rfl, rfl⟩ rfl
      exact
        { sorted := same.sorted
          ahead := same.ahead
          free := by
            intro free
            cases free
          pending := same.pending
          ordered := same.ordered
          behind := same.behind
          kept := same.kept }
  | resign =>
    rw [queued_other (by simp), List.append_nil]
    change Timed (past ++ [(_, tm.resign.2)]) arrived tm.resign.1
    cases tm.resign_cases with
    | inl quiet => exact timed.quiet quiet rfl
    | inr stops => exact timed.stops stops
  | arrive m =>
    change Timed (past ++ [(_, (tm.processNetworkMessage m).2)]) _ (tm.processNetworkMessage m).1
    cases tm.processNetworkMessage_cases m with
    | inl plain =>
      have nothing : tm.queued (.arrive m) = [] := by
        refine if_neg fun stamped => ?_
        rw [plain.2 stamped.2.1] at stamped
        exact absurd stamped.2.2 (by decide)
      rw [nothing, List.append_nil]
      exact timed.quiet plain.1 rfl
    | inr stamped =>
      obtain ⟨order, constrained, state⟩ := stamped
      have placed : tm.queued (.arrive m) = [m] := if_pos ⟨running, order, constrained⟩
      obtain ⟨ahead, behind⟩ := timely m (by rw [placed]; exact List.mem_singleton_self m)
      rw [placed, state]
      exact timed.inserts constrained ahead behind
  | tick =>
    rw [queued_other (by simp), List.append_nil]
    change Timed (past ++ [(_, tm.tick.2)]) arrived tm.tick.1
    obtain quiet | ⟨m, delivers⟩ | grants := tm.tick_cases
    · exact timed.quiet quiet rfl
    · exact timed.delivers delivers rfl
    · exact timed.grants grants rfl
  | _ => exact absurd trivial quiet

/-- Only a tick delivers or grants, and it does so within the request. -/
theorem timed_within {past : List (RtiaEvent × RtiaAnswer)} {arrived : List QueuedMessage}
    {tm : TimeManagement} {e : RtiaEvent} (timed : Timed past arrived tm)
    (timely : Timely (past, tm) e) : WithinRequest past tm (rtia tm e) := by
  have silent : ∀ r : TimeManagement × RtiaAnswer, r.2.tsos = [] → r.2.grants = [] →
      WithinRequest past tm r := by
    intro r tsos grants
    exact ⟨by rw [tsos]; simp, by rw [grants]; simp⟩
  have refusal : ∀ x, WithinRequest past tm (tm.refuse x) := fun x => silent _ rfl rfl
  have request : ∀ (r : TimeManagement × RtiaAnswer) (date : Date),
      (∃ x, r = tm.refuse x) ∨ Requests tm r date → WithinRequest past tm r := by
    intro r date cases
    cases cases with
    | inl refused =>
      obtain ⟨x, rfl⟩ := refused
      exact refusal x
    | inr requests =>
      exact silent r (by simp [RtiaAnswer.tsos, requests.callbacks])
        (by simp [RtiaAnswer.grants, requests.callbacks])
  by_cases stopped : tm.ended = true
  · rw [rtia_ended stopped]
    exact refusal .networkError
  have running : tm.ended = false := by simpa using stopped
  rw [rtia_perform running]
  by_cases quiet : IsQuiet e
  · have still := tm.perform_quiet quiet
    exact silent _ still.tsos still.grants
  cases e with
  | timeAdvanceRequest date => exact request _ date (tm.timeAdvanceRequest_cases date)
  | timeAdvanceRequestAvailable date =>
    exact request _ date (tm.timeAdvanceRequestAvailable_cases date)
  | nextEventRequest date => exact request _ date (tm.nextEventRequest_cases date)
  | nextEventRequestAvailable date => cases timely
  | setTimeConstrained on =>
    change WithinRequest past tm (tm.setTimeConstrained on)
    cases tm.setTimeConstrained_cases on with
    | inl refused => rw [refused]; exact refusal .rtiInternalError
    | inr switched => rw [switched.2.2]; exact silent _ rfl rfl
  | resign =>
    cases tm.resign_cases with
    | inl quiet => exact silent _ quiet.tsos quiet.grants
    | inr stops =>
      exact silent _ (by simp [RtiaAnswer.tsos, perform, stops.callbacks])
        (by simp [RtiaAnswer.grants, perform, stops.callbacks])
  | arrive m =>
    change WithinRequest past tm (tm.processNetworkMessage m)
    cases tm.processNetworkMessage_cases m with
    | inl plain => exact silent _ plain.1.tsos plain.1.grants
    | inr stamped => rw [stamped.2.2]; exact silent _ rfl rfl
  | tick =>
    change WithinRequest past tm tm.tick
    obtain quiet | ⟨m, delivers⟩ | grants := tm.tick_cases
    · exact silent _ quiet.tsos quiet.grants
    · obtain ⟨-, date, asked, within⟩ := timed.pending delivers.pending
      have due : m.getDate ≤ tm.dateAvancee := by
        have here := delivers.due
        cases delivers.date with
        | inl same => rw [same] at here; exact here
        | inr earlier => exact le_of_lt earlier.2
      refine ⟨?_, by rw [delivers.answer.2]; simp⟩
      rw [delivers.answer.1]
      intro n member
      rw [List.mem_singleton.mp member]
      exact ⟨delivers.pending, due, date, asked, within⟩
    · refine ⟨by rw [grants.answer.1]; simp, ?_⟩
      rw [grants.answer.2]
      intro date member
      rw [List.mem_singleton.mp member, grants.tsos]
      exact ⟨timed.afterGrant grants, (timed.pending grants.pending).1⟩
  | _ => exact absurd trivial quiet

/-- The invariant over a timely run, whatever came before. -/
theorem timed_run {past : List (RtiaEvent × RtiaAnswer)} {arrived : List QueuedMessage}
    {tm : TimeManagement} (timed : Timed past arrived tm) {es : List RtiaEvent}
    (timely : rtia.recorded.Meets Timely (past, tm) es) :
    Timed (past ++ rtia.trace tm es) (arrived ++ queuedBy tm es) (rtia.exec tm es) := by
  induction es generalizing past arrived tm with
  | nil => simpa [queuedBy] using timed
  | cons e es ih =>
    have next := ih (timed_step timed timely.1) timely.2
    simpa [queuedBy] using next

/-- An interaction in time stamp order. -/
def interactionAt (id : Nat) (date : Date) : RtiaEvent :=
  .arrive ⟨id, .receiveInteraction (some .timestamp), some date⟩

/-- Two messages that arrive in the wrong order under a request that ends in a grant. -/
def orderlyRun : List RtiaEvent :=
  [.setTimeConstrained true, .regulatorOn 2 9, .timeAdvanceRequest 5, interactionAt 1 4,
    interactionAt 2 3, .tick, .tick, .tick, .nextEventRequest 8, interactionAt 3 6, .tick]

/-- As `Timely`, but a message need only not be dated before the current time. -/
def NotBelowTime (s : List (RtiaEvent × RtiaAnswer) × TimeManagement) : RtiaEvent → Prop
  | .arrive m => ∀ n ∈ s.2.queued (.arrive m), s.2.heureCourante ≤ n.getDate
  | .setTimeConstrained on => on = true
  | .nextEventRequestAvailable _ => False
  | _ => True

instance : ∀ s e, Decidable (NotBelowTime s e)
  | s, .arrive m =>
    inferInstanceAs (Decidable (∀ n ∈ s.2.queued (.arrive m), s.2.heureCourante ≤ n.getDate))
  | _, .setTimeConstrained on => inferInstanceAs (Decidable (on = true))
  | _, .nextEventRequestAvailable _ => .isFalse id
  | _, .timeAdvanceRequest _ | _, .timeAdvanceRequestAvailable _ | _, .nextEventRequest _
  | _, .setLookahead _ | _, .setTimeRegulating _ _ | _, .setAsynchronousDelivery _
  | _, .sendDated _ | _, .deleteDated _ | _, .join _ _ | _, .resign | _, .messageNull _ _
  | _, .regulatorOn _ _ | _, .regulatorOff _ | _, .tick => .isTrue trivial

/-- A message dated 5 is delivered under a request for 10, and then one dated 3 arrives. -/
def lateRun : List RtiaEvent :=
  [.setTimeConstrained true, .regulatorOn 2 5, .timeAdvanceRequest 10, interactionAt 1 5, .tick,
    interactionAt 2 3, .tick]

end Certi
