import Certi.RTIA.Delivery

/-!
# No message is stranded

The queue of a message is chosen from the mode of the moment it arrives, and a
federate that is not constrained is never given a message in time stamp order.
So a message can be given to the federate for as long as the queue in time stamp
order is empty whenever the mode is left.
-/
namespace Certi

open Runs TimeManagement

/-- The precondition that `nextEventAdvance` states for a federate that is not constrained. -/
def TimeManagement.Unstranded (tm : TimeManagement) : Prop :=
  tm.isConstrained = false → tm.queues.tsos = []

/-- A mode that is really left is left with nothing in the queue in time stamp order. -/
def Drained (tm : TimeManagement) : RtiaEvent → Prop
  | .setTimeConstrained false =>
    tm.ended = false → tm.isConstrained = true → tm.avanceeEnCours = .pasDAvancee →
      tm.queues.tsos = []
  | _ => True

instance : ∀ tm e, Decidable (Drained tm e)
  | tm, .setTimeConstrained false => inferInstanceAs (Decidable (tm.ended = false →
      tm.isConstrained = true → tm.avanceeEnCours = .pasDAvancee → tm.queues.tsos = []))
  | _, .setTimeConstrained true => .isTrue trivial
  | _, .timeAdvanceRequest _ | _, .timeAdvanceRequestAvailable _ | _, .nextEventRequest _
  | _, .nextEventRequestAvailable _ | _, .setLookahead _ | _, .setTimeRegulating _ _
  | _, .setAsynchronousDelivery _ | _, .sendDated _ | _, .deleteDated _ | _, .join _ _
  | _, .resign | _, .arrive _ | _, .messageNull _ _ | _, .regulatorOn _ _ | _, .regulatorOff _
  | _, .tick => .isTrue trivial

/-- The messages received, oldest first. -/
def received (past : List (RtiaEvent × RtiaAnswer)) : List QueuedMessage :=
  past.filterMap fun entry => match entry.1 with
    | .arrive m => if entry.2.error = none then some m else none
    | _ => none

/-- The messages that callbacks have given to the federate. -/
def RtiaAnswer.given (answer : RtiaAnswer) : List QueuedMessage :=
  answer.callbacks.filterMap fun
    | .command m | .fifo m | .tso m => some m
    | .timeAdvanceGrant _ => none

def given (past : List (RtiaEvent × RtiaAnswer)) : List QueuedMessage :=
  past.flatMap fun entry => entry.2.given

/-- The federate asks for an advance and for callbacks, and the others let time pass. -/
def Advances : RtiaEvent → Prop
  | .timeAdvanceRequest _ | .tick | .regulatorOff _ => True
  | _ => False

/-- Some course of advances gives the message to the federate. -/
def TimeManagement.Deliverable (tm : TimeManagement) (m : QueuedMessage) : Prop :=
  ∃ es, (∀ e ∈ es, Advances e) ∧ m ∈ given (rtia.trace tm es)

/-- All messages of the queues. -/
def Queues.all (q : Queues) : List QueuedMessage := q.commands ++ q.fifos ++ q.tsos

/-! ## The queue in time stamp order over a run -/

/-- An event that is no departure from the mode keeps the queue of an unconstrained federate
empty. -/
theorem unstranded_step {tm : TimeManagement} {e : RtiaEvent} (unstranded : tm.Unstranded)
    (drained : Drained tm e) : (rtia tm e).1.Unstranded := by
  by_cases stopped : tm.ended = true
  · rw [rtia_ended stopped]
    exact unstranded
  have running : tm.ended = false := by simpa using stopped
  rw [rtia_perform running]
  have quietly : ∀ r : TimeManagement × RtiaAnswer, Quiet tm r → r.1.Unstranded := by
    intro r quiet free
    rw [quiet.steady.constrained] at free
    rw [quiet.steady.tsos]
    exact unstranded free
  by_cases quiet : IsQuiet e
  · exact quietly _ (tm.perform_quiet quiet)
  have request : ∀ (r : TimeManagement × RtiaAnswer) (date : Date),
      (∃ x, r = tm.refuse x) ∨ Requests tm r date → r.1.Unstranded := by
    intro r date cases
    cases cases with
    | inl refused =>
      obtain ⟨x, rfl⟩ := refused
      exact unstranded
    | inr requests =>
      intro free
      rw [requests.mode] at free
      rw [requests.tsos]
      exact unstranded free
  cases e with
  | timeAdvanceRequest date => exact request _ date (tm.timeAdvanceRequest_cases date)
  | timeAdvanceRequestAvailable date =>
    exact request _ date (tm.timeAdvanceRequestAvailable_cases date)
  | nextEventRequest date => exact request _ date (tm.nextEventRequest_cases date)
  | nextEventRequestAvailable date =>
    change (tm.nextEventRequestAvailable date).1.Unstranded
    unfold nextEventRequestAvailable
    split
    · exact unstranded
    · exact unstranded
  | setTimeConstrained on =>
    change (tm.setTimeConstrained on).1.Unstranded
    cases tm.setTimeConstrained_cases on with
    | inl refused => rw [refused]; exact unstranded
    | inr switched =>
      obtain ⟨other, idle, state⟩ := switched
      rw [state]
      intro free
      cases on with
      | true => cases free
      | false => exact drained running other idle
  | resign =>
    cases tm.resign_cases with
    | inl quiet => exact quietly _ quiet
    | inr stops =>
      intro free
      change tm.resign.1.isConstrained = false at free
      change tm.resign.1.queues.tsos = []
      rw [stops.mode] at free
      rw [stops.tsos]
      exact unstranded free
  | arrive m =>
    change (tm.processNetworkMessage m).1.Unstranded
    cases tm.processNetworkMessage_cases m with
    | inl plain => exact quietly _ plain.1
    | inr stamped =>
      obtain ⟨-, constrained, state⟩ := stamped
      rw [state]
      intro free
      exact absurd (constrained.symm.trans free) (by decide)
  | tick =>
    change tm.tick.1.Unstranded
    obtain quiet | ⟨m, delivers⟩ | grants := tm.tick_cases
    · exact quietly _ quiet
    · intro free
      rw [delivers.mode] at free
      cases free
    · intro free
      rw [grants.mode] at free
      rw [grants.tsos]
      exact unstranded free
  | _ => exact absurd trivial quiet

/-- A departure from the mode that leaves nothing stranded had nothing queued. -/
theorem drained_of_unstranded {tm : TimeManagement} {e : RtiaEvent}
    (after : (rtia tm e).1.Unstranded) : Drained tm e := by
  cases e with
  | setTimeConstrained on =>
    cases on with
    | true => trivial
    | false =>
      intro running constrained idle
      rw [rtia_perform running] at after
      have accepted : ¬ (tm.isConstrained = false ∨ tm.avanceeEnCours ≠ .pasDAvancee) := by
        simp [constrained, idle]
      simp only [perform, setTimeConstrained, if_neg accepted] at after
      exact after rfl
  | _ => trivial

/-- A run is drained at every step exactly if no state it reaches is stranded. -/
theorem drained_iff_unstranded {tm : TimeManagement} (start : tm.Unstranded)
    (es : List RtiaEvent) :
    rtia.Meets Drained tm es ↔
      ∀ before after, es = before ++ after → (rtia.exec tm before).Unstranded := by
  constructor
  · intro meets before after split
    rw [split] at meets
    exact rtia.exec_invariant (fun s e kept drained => unstranded_step kept drained) start
      (rtia.meets_append.mp meets).1
  · intro every
    induction es generalizing tm with
    | nil => trivial
    | cons e es ih =>
      have next : (rtia tm e).1.Unstranded := every [e] es rfl
      refine ⟨drained_of_unstranded next, ih next fun before after split => ?_⟩
      exact every (e :: before) after (by rw [split]; rfl)

/-! ## Every message is kept -/

/-- A tick takes the one message it gives out of the queues. -/
structure Takes (tm : TimeManagement) (r : TimeManagement × RtiaAnswer) (m : QueuedMessage) :
    Prop where
  given : r.2.given = [m]
  rest : tm.queues.all.Perm (m :: r.1.queues.all)

/-- The queues are as before. -/
structure Leaves (tm : TimeManagement) (r : TimeManagement × RtiaAnswer) : Prop where
  given : r.2.given = []
  queues : r.1.queues = tm.queues

theorem takes_tso {q q' : Queues} {m : QueuedMessage} (tsos : q.tsos = m :: q'.tsos)
    (fifos : q'.fifos = q.fifos) (commands : q'.commands = q.commands) :
    q.all.Perm (m :: q'.all) := by
  unfold Queues.all
  rw [tsos, fifos, commands]
  exact List.perm_middle

theorem takes_fifo {q q' : Queues} {m : QueuedMessage} (fifos : q.fifos = m :: q'.fifos)
    (tsos : q'.tsos = q.tsos) (commands : q'.commands = q.commands) :
    q.all.Perm (m :: q'.all) := by
  unfold Queues.all
  rw [fifos, tsos, commands, List.append_assoc, List.append_assoc, List.cons_append]
  exact List.perm_middle

theorem takes_command {q q' : Queues} {m : QueuedMessage}
    (commands : q.commands = m :: q'.commands) (tsos : q'.tsos = q.tsos)
    (fifos : q'.fifos = q.fifos) : q.all.Perm (m :: q'.all) := by
  unfold Queues.all
  rw [commands, tsos, fifos]
  exact List.Perm.refl _

theorem advance_takes (tm : TimeManagement) :
    (∃ m, Takes tm tm.advance m) ∨ Leaves tm tm.advance := by
  have delivered : ∀ (given : QueuedMessage × Bool × Queues) (date : Date)
      (r : TimeManagement × RtiaAnswer), tm.queues.giveTsoMessage date = some given →
      r.1.queues = given.2.2 → r.2.callbacks = [.tso given.1] → ∃ m, Takes tm r m := by
    intro given date r found queues callbacks
    obtain ⟨tsos, -, fifos, commands⟩ := Queues.giveTsoMessage_some found
    refine ⟨given.1, by simp [RtiaAnswer.given, callbacks], ?_⟩
    rw [queues]
    exact takes_tso tsos fifos commands
  have advanced : (∃ m, Takes tm tm.timeAdvance m) ∨ Leaves tm tm.timeAdvance := by
    unfold timeAdvance
    split
    · simp only
      split
      · rename_i given found
        exact .inl (delivered given _ _ found rfl rfl)
      · split
        · exact .inr ⟨rfl, rfl⟩
        · exact .inr ⟨rfl, rfl⟩
    · exact .inr ⟨rfl, rfl⟩
  have next : (∃ m, Takes tm tm.nextEventAdvance m) ∨ Leaves tm tm.nextEventAdvance := by
    unfold nextEventAdvance
    split
    · simp only
      split
      · obtain ⟨last, state⟩ :=
          { tm with dateAvancee := tm.dateMin }.sendNullIfRegulating_state tm.dateMin
        simp only [state, reach]
        split
        · rename_i given found
          exact .inl (delivered given _ _ found rfl rfl)
        · exact .inr ⟨rfl, rfl⟩
      · obtain ⟨last, state⟩ := tm.sendNullIfRegulating_state tm.lbts
        simp only [state]
        exact .inr ⟨rfl, rfl⟩
    · obtain ⟨last, state⟩ := tm.sendNullIfRegulating_state tm.dateAvancee
      simp only [state]
      exact .inr ⟨rfl, rfl⟩
  unfold advance
  split
  · exact advanced
  · exact advanced
  · exact next
  · exact next
  · exact .inr ⟨rfl, rfl⟩

theorem tick_takes (tm : TimeManagement) : (∃ m, Takes tm tm.tick m) ∨ Leaves tm tm.tick := by
  unfold tick
  split
  · rename_i given found
    obtain ⟨commands, tsos, fifos⟩ := Queues.giveCommandMessage_some found
    exact .inl ⟨given.1, rfl, takes_command commands tsos fifos⟩
  · split
    · rename_i given found
      split at found
      · obtain ⟨fifos, tsos, commands⟩ := Queues.giveFifoMessage_some found
        exact .inl ⟨given.1, rfl, takes_fifo fifos tsos commands⟩
      · cases found
    · exact advance_takes tm

theorem insertClocks_queues (tm : TimeManagement) (clocks : List (FederateHandle × Date)) :
    Leaves tm (tm.insertClocks clocks) := by
  induction clocks generalizing tm with
  | nil => exact ⟨rfl, rfl⟩
  | cons c rest ih =>
    rw [insertClocks]
    split
    · rename_i l _
      have later := ih { tm with toLBTS := l }
      exact ⟨later.given, later.queues⟩
    · exact ⟨rfl, rfl⟩

/-- Only ticks and arrivals change the queues. -/
theorem perform_leaves (tm : TimeManagement) {e : RtiaEvent} (noTick : e ≠ .tick)
    (noMessage : ∀ m, e ≠ .arrive m) : Leaves tm (tm.perform e) := by
  have ended : ∀ result : Except RTIException LBTS, Leaves tm (tm.orEnd result) := by
    intro result
    cases result with
    | ok l => exact ⟨rfl, rfl⟩
    | error x => exact ⟨rfl, rfl⟩
  by_cases service : IsService e
  · have serves := tm.perform_serves service
    exact ⟨by rw [RtiaAnswer.given, serves.callbacks]; rfl, serves.queues⟩
  cases e with
  | join self clocks =>
    change Leaves tm (tm.join self clocks)
    unfold join
    split
    · exact ⟨rfl, rfl⟩
    · have later :=
        insertClocks_queues { tm with toLBTS := tm.toLBTS.setFederate self } clocks
      exact ⟨later.given, later.queues⟩
  | arrive m => exact absurd rfl (noMessage m)
  | messageNull fed date => exact ended _
  | regulatorOn fed date => exact ended _
  | regulatorOff fed => exact ended _
  | tick => exact absurd rfl noTick
  | _ => exact absurd trivial service

/-- A message that is received is queued behind or among the others. -/
theorem arrive_all (tm : TimeManagement) (m : QueuedMessage) :
    (tm.processNetworkMessage m).2.given = [] ∧
      (∀ n ∈ tm.queues.all, n ∈ (tm.processNetworkMessage m).1.queues.all) ∧
      ((tm.processNetworkMessage m).2.error = none →
        m ∈ (tm.processNetworkMessage m).1.queues.all) := by
  have ordered : ∀ order, (∀ n ∈ tm.queues.all, n ∈ (tm.insertByOrder m order).queues.all) ∧
      m ∈ (tm.insertByOrder m order).queues.all := by
    intro order
    unfold insertByOrder
    split
    · constructor
      · intro n member
        simp only [Queues.all, List.mem_append, Queues.insertTsoMessage_fifos,
          Queues.insertTsoMessage_commands, Queues.mem_insertTsoMessage] at member ⊢
        tauto
      · simp [Queues.all, Queues.mem_insertTsoMessage]
    · constructor
      · intro n member
        simp only [Queues.all, Queues.insertFifoMessage, List.mem_append] at member ⊢
        tauto
      · simp [Queues.all, Queues.insertFifoMessage]
  unfold processNetworkMessage
  split
  · refine ⟨rfl, fun n member => ?_, fun _ => ?_⟩
    · simp only [Queues.all, Queues.insertBeginCommand, List.mem_append, List.mem_cons]
        at member ⊢
      tauto
    · simp [Queues.all, Queues.insertBeginCommand]
  · refine ⟨rfl, fun n member => ?_, fun _ => ?_⟩
    · simp only [Queues.all, Queues.insertLastCommand, List.mem_append] at member ⊢
      tauto
    · simp [Queues.all, Queues.insertLastCommand]
  · split
    · rename_i order _
      exact ⟨rfl, (ordered order).1, fun _ => (ordered order).2⟩
    · refine ⟨rfl, fun n member => member, fun fails => ?_⟩
      cases fails

theorem given_snoc (past : List (RtiaEvent × RtiaAnswer)) (e : RtiaEvent) (answer : RtiaAnswer) :
    given (past ++ [(e, answer)]) = given past ++ answer.given := by
  simp [given]

theorem received_snoc (past : List (RtiaEvent × RtiaAnswer)) (e : RtiaEvent)
    (answer : RtiaAnswer) (m : QueuedMessage) :
    m ∈ received (past ++ [(e, answer)]) ↔
      m ∈ received past ∨ e = .arrive m ∧ answer.error = none := by
  have last : m ∈ received [(e, answer)] ↔ e = .arrive m ∧ answer.error = none := by
    cases e with
    | arrive n =>
      by_cases fine : answer.error = none
      · simp [received, fine, eq_comm]
      · simp [received, fine]
    | _ => simp [received]
  rw [← last]
  simp [received]

/-- What has been received has been given to the federate or is in a queue. -/
theorem received_kept (granted : TypeGrantedState) (es : List RtiaEvent) :
    ∀ m ∈ received (rtia.trace (create granted) es),
      m ∈ given (rtia.trace (create granted) es) ∨
        m ∈ (rtia.exec (create granted) es).queues.all := by
  refine rtia.trace_always
    (p := fun past tm => ∀ m ∈ received past, m ∈ given past ∨ m ∈ tm.queues.all)
    (fun past tm e kept => ?_) (fun m member => by cases member) es
  · intro m arrived
    rw [given_snoc, List.mem_append]
    by_cases stopped : tm.ended = true
    · rw [rtia_ended stopped] at arrived ⊢
      cases (received_snoc past e _ m).mp arrived with
      | inl before => cases kept m before with
        | inl earlier => exact .inl (.inl earlier)
        | inr waits => exact .inr waits
      | inr now => exact absurd now.2 (by simp)
    have running : tm.ended = false := by simpa using stopped
    rw [rtia_perform running] at arrived ⊢
    by_cases isTick : e = .tick
    · subst isTick
      cases (received_snoc past .tick _ m).mp arrived with
      | inr now => cases now.1
      | inl before => cases kept m before with
        | inl earlier => exact .inl (.inl earlier)
        | inr waits =>
          change _ ∨ m ∈ tm.tick.1.queues.all
          cases tick_takes tm with
          | inr leaves => rw [leaves.queues]; exact .inr waits
          | inl taken =>
            obtain ⟨n, takes⟩ := taken
            cases List.mem_cons.mp (takes.rest.mem_iff.mp waits) with
            | inl same =>
              refine .inl (.inr ?_)
              change m ∈ tm.tick.2.given
              rw [takes.given, same]
              exact List.mem_singleton_self n
            | inr stays => exact .inr stays
    by_cases isMessage : ∃ n, e = .arrive n
    · obtain ⟨n, rfl⟩ := isMessage
      obtain ⟨-, stays, enters⟩ := arrive_all tm n
      cases (received_snoc past (.arrive n) _ m).mp arrived with
      | inr now =>
        have same : n = m := by simpa using now.1
        subst same
        exact .inr (enters now.2)
      | inl before => cases kept m before with
        | inl earlier => exact .inl (.inl earlier)
        | inr waits => exact .inr (stays m waits)
    have noMessage : ∀ n, e ≠ .arrive n := fun n same => isMessage ⟨n, same⟩
    rw [(perform_leaves tm isTick noMessage).queues]
    cases (received_snoc past e _ m).mp arrived with
    | inr now => exact absurd now.1 (noMessage m)
    | inl before => cases kept m before with
      | inl earlier => exact .inl (.inl earlier)
      | inr waits => exact .inr waits
/-! ## Every message can be given -/

/-- Nothing holds the federate back: the process runs and the others let time pass. -/
structure Open (tm : TimeManagement) : Prop where
  running : tm.ended = false
  bound : tm.lbts = ⊤
  sorted : tm.queues.Sorted
  unstranded : tm.Unstranded

/-- A tick changes neither the bound nor the mode. -/
theorem tick_frame (tm : TimeManagement) :
    tm.tick.1.toLBTS = tm.toLBTS ∧ tm.tick.1.ended = tm.ended := by
  have advanced : tm.timeAdvance.1.toLBTS = tm.toLBTS ∧ tm.timeAdvance.1.ended = tm.ended := by
    unfold timeAdvance
    split
    · simp only
      split
      · exact ⟨rfl, rfl⟩
      · split
        · exact ⟨rfl, rfl⟩
        · exact ⟨rfl, rfl⟩
    · exact ⟨rfl, rfl⟩
  have next : tm.nextEventAdvance.1.toLBTS = tm.toLBTS ∧
      tm.nextEventAdvance.1.ended = tm.ended := by
    unfold nextEventAdvance
    split
    · simp only
      split
      · obtain ⟨last, state⟩ :=
          { tm with dateAvancee := tm.dateMin }.sendNullIfRegulating_state tm.dateMin
        simp only [state, reach]
        split
        · exact ⟨rfl, rfl⟩
        · exact ⟨rfl, rfl⟩
      · obtain ⟨last, state⟩ := tm.sendNullIfRegulating_state tm.lbts
        rw [state]
        exact ⟨rfl, rfl⟩
    · obtain ⟨last, state⟩ := tm.sendNullIfRegulating_state tm.dateAvancee
      simp only [state]
      exact ⟨rfl, rfl⟩
  unfold tick
  split
  · exact ⟨rfl, rfl⟩
  · split
    · exact ⟨rfl, rfl⟩
    · unfold advance
      split
      · exact advanced
      · exact advanced
      · exact next
      · exact next
      · exact ⟨rfl, rfl⟩

theorem Open.tick {tm : TimeManagement} (opened : Open tm) : Open tm.tick.1 where
  running := by rw [(tick_frame tm).2]; exact opened.running
  bound := by rw [(tick_frame tm).1]; exact opened.bound
  sorted := by
    have sorted := opened.sorted
    unfold Queues.Sorted at sorted ⊢
    obtain quiet | ⟨m, delivers⟩ | grants := tm.tick_cases
    · rw [quiet.steady.tsos]
      exact sorted
    · rw [delivers.tsos] at sorted
      exact (List.pairwise_cons.mp sorted).2
    · rw [grants.tsos]
      exact sorted
  unstranded := by
    have kept := unstranded_step (e := .tick) opened.unstranded trivial
    rw [rtia_perform opened.running] at kept
    exact kept

/-- A federate that waits is called while there is a message for it. -/
theorem tick_calls {tm : TimeManagement} (opened : Open tm)
    (pending : tm.avanceeEnCours ≠ .pasDAvancee) {m : QueuedMessage} (waits : m ∈ tm.queues.all)
    (finite : m.getDate ≠ ⊤) : tm.tick.2.callbacks ≠ [] := by
  unfold tick
  split
  · exact List.cons_ne_nil _ _
  rename_i noCommand
  rw [if_pos (show tm.mayGiveFifo = true by simp [mayGiveFifo, pending])]
  split
  · exact List.cons_ne_nil _ _
  rename_i noFifo
  have inTsos : m ∈ tm.queues.tsos := by
    simpa [Queues.all, Queues.giveCommandMessage_none noCommand,
      Queues.giveFifoMessage_none noFifo] using waits
  have constrained : tm.isConstrained = true := by
    cases mode : tm.isConstrained with
    | true => rfl
    | false =>
      rw [opened.unstranded mode] at inTsos
      cases inTsos
  have finitely : m.getDate < ⊤ := lt_top_iff_ne_top.mpr finite
  have grantable : ∀ date kind, date < ⊤ → tm.mayGrant date kind = true := by
    intro date kind below
    simp [mayGrant, opened.bound, below]
  have advanced : tm.timeAdvance.2.callbacks ≠ [] := by
    unfold timeAdvance
    rw [if_pos constrained, opened.bound, if_neg not_top_lt]
    simp only
    split
    · exact List.cons_ne_nil _ _
    · rename_i nothing
      have late := Queues.giveTsoMessage_none opened.sorted nothing m inTsos
      rw [if_pos (grantable _ _ (lt_trans late finitely))]
      exact List.cons_ne_nil _ _
  have next : tm.nextEventAdvance.2.callbacks ≠ [] := by
    have lowest : tm.dateMin < ⊤ := lt_of_le_of_lt (dateMin_le opened.sorted inTsos) finitely
    unfold nextEventAdvance
    rw [if_pos constrained]
    simp only
    rw [if_pos (grantable _ _ lowest)]
    unfold reach
    split
    · exact List.cons_ne_nil _ _
    · exact List.cons_ne_nil _ _
  unfold advance
  split
  · exact advanced
  · exact advanced
  · exact next
  · exact next
  · rename_i idle
    exact absurd idle pending

/-- A waiting federate that is given no message has none but those in time stamp order. -/
theorem leaves_tsos {tm : TimeManagement} (pending : tm.avanceeEnCours ≠ .pasDAvancee)
    (leaves : Leaves tm tm.tick) {m : QueuedMessage} (waits : m ∈ tm.queues.all) :
    m ∈ tm.queues.tsos := by
  have nothing := leaves.given
  unfold tick at nothing
  split at nothing
  · cases nothing
  rename_i noCommand
  rw [if_pos (show tm.mayGiveFifo = true by simp [mayGiveFifo, pending])] at nothing
  split at nothing
  · cases nothing
  rename_i noFifo
  simpa [Queues.all, Queues.giveCommandMessage_none noCommand,
    Queues.giveFifoMessage_none noFifo] using waits

/-- So it is given a message, or its request ends before the date of those that wait. -/
theorem tick_gives {tm : TimeManagement} (opened : Open tm)
    (pending : tm.avanceeEnCours ≠ .pasDAvancee) {m : QueuedMessage} (waits : m ∈ tm.queues.all)
    (finite : m.getDate ≠ ⊤) :
    (∃ n, Takes tm tm.tick n) ∨
      tm.tick.1.avanceeEnCours = .pasDAvancee ∧ tm.tick.1.queues = tm.queues ∧
        tm.dateAvancee < m.getDate := by
  cases tick_takes tm with
  | inl takes => exact .inl takes
  | inr leaves =>
    have called := tick_calls opened pending waits finite
    obtain quiet | ⟨n, delivers⟩ | grants := tm.tick_cases
    · refine absurd (List.eq_nil_iff_forall_not_mem.mpr fun callback member => ?_) called
      have noMessage := leaves.given
      have noGrant := quiet.grants
      rw [RtiaAnswer.given, List.filterMap_eq_nil_iff] at noMessage
      rw [RtiaAnswer.grants, List.filterMap_eq_nil_iff] at noGrant
      cases callback with
      | timeAdvanceGrant date => exact absurd (noGrant _ member) (by simp)
      | command n => exact absurd (noMessage _ member) (by simp)
      | fifo n => exact absurd (noMessage _ member) (by simp)
      | tso n => exact absurd (noMessage _ member) (by simp)
    · have given := leaves.given
      rw [RtiaAnswer.given, delivers.callbacks] at given
      cases given
    · have inTsos := leaves_tsos pending leaves waits
      have constrained : tm.isConstrained = true := by
        cases mode : tm.isConstrained with
        | true => rfl
        | false =>
          rw [opened.unstranded mode] at inTsos
          cases inTsos
      have late := Queues.giveTsoMessage_none opened.sorted (grants.due constrained) m inTsos
      exact .inr ⟨grants.avancee, leaves.queues, late⟩

/-- An idle federate that asks for an advance to the date of a waiting message is given one. -/
theorem request_gives {tm asked : TimeManagement} (opened : Open tm)
    (idle : tm.avanceeEnCours = .pasDAvancee) {m : QueuedMessage} (waits : m ∈ tm.queues.all)
    (finite : m.getDate ≠ ⊤)
    (asks : asked = (rtia tm (.timeAdvanceRequest (max tm.heureCourante m.getDate))).1) :
    Open asked ∧ asked.queues = tm.queues ∧ ∃ n, Takes asked asked.tick n := by
  rw [rtia_perform opened.running] at asks
  change asked = (tm.timeAdvanceRequest (max tm.heureCourante m.getDate)).1 at asks
  have frame := tm.perform_serves (e := .timeAdvanceRequest (max tm.heureCourante m.getDate))
    trivial
  have same : asked.queues = tm.queues := by
    rw [asks]
    exact frame.queues
  have accepted : Requests tm (tm.timeAdvanceRequest (max tm.heureCourante m.getDate))
      (max tm.heureCourante m.getDate) := by
    cases tm.timeAdvanceRequest_cases (max tm.heureCourante m.getDate) with
    | inr requests => exact requests
    | inl refused =>
      have fine : tm.requestError (max tm.heureCourante m.getDate) = none := by
        unfold requestError
        rw [if_neg (not_lt.mpr (le_max_left _ _)), if_neg (not_not.mpr idle)]
      obtain ⟨x, refusal⟩ := refused
      have failed := congrArg (fun r => r.2.error) refusal
      simp [timeAdvanceRequest, fine, refuse] at failed
  have still : Open asked := by
    refine ⟨?_, ?_, ?_, ?_⟩
    · rw [asks]
      exact frame.ended.trans opened.running
    · rw [asks]
      exact (congrArg LBTS.lbts frame.lbts).trans opened.bound
    · rw [same]
      exact opened.sorted
    · intro free
      rw [asks, accepted.mode] at free
      rw [same]
      exact opened.unstranded free
  refine ⟨still, same, ?_⟩
  have pending : asked.avanceeEnCours ≠ .pasDAvancee := by
    rw [asks]
    exact accepted.pending
  cases tick_gives still pending (m := m) (by rw [same]; exact waits) finite with
  | inl takes => exact takes
  | inr late =>
    have requested : asked.dateAvancee = max tm.heureCourante m.getDate := by
      rw [asks]
      exact accepted.requested
    have below := late.2.2
    rw [requested] at below
    exact absurd (le_max_right tm.heureCourante m.getDate) (not_le.mpr below)

theorem TimeManagement.Deliverable.now {tm : TimeManagement} {e : RtiaEvent} {m : QueuedMessage}
    (advances : Advances e) (gives : m ∈ (rtia tm e).2.given) : tm.Deliverable m := by
  refine ⟨[e], by simpa using advances, ?_⟩
  simpa [given] using gives

theorem TimeManagement.Deliverable.step {tm : TimeManagement} {e : RtiaEvent} {m : QueuedMessage}
    (advances : Advances e) (later : (rtia tm e).1.Deliverable m) : tm.Deliverable m := by
  obtain ⟨es, every, gives⟩ := later
  refine ⟨e :: es, ?_, ?_⟩
  · intro x member
    cases List.mem_cons.mp member with
    | inl same => rw [same]; exact advances
    | inr rest => exact every x rest
  · simp only [Machine.trace_cons, given, List.flatMap_cons, List.mem_append]
    exact .inr gives

/-- Once nothing holds the federate back, ticks and requests empty its queues: each message given
makes them shorter. -/
theorem open_deliverable {m : QueuedMessage} (finite : m.getDate ≠ ⊤) (n : Nat)
    {tm : TimeManagement} (size : tm.queues.all.length = n) (opened : Open tm)
    (waits : m ∈ tm.queues.all) : tm.Deliverable m := by
  induction n using Nat.strongRecOn generalizing tm with
  | ind n ih =>
    have taken : ∀ tm' : TimeManagement, tm'.queues = tm.queues → Open tm' →
        (∃ k, Takes tm' tm'.tick k) → tm'.Deliverable m := by
      intro tm' same opened' takes
      obtain ⟨k, given, rest⟩ := takes
      have ticks : rtia tm' .tick = tm'.tick := rtia_perform opened'.running
      rw [same] at rest
      cases List.mem_cons.mp (rest.mem_iff.mp waits) with
      | inl here =>
        refine Deliverable.now (e := .tick) trivial ?_
        rw [ticks, given, here]
        exact List.mem_singleton_self k
      | inr stays =>
        refine Deliverable.step (e := .tick) trivial ?_
        rw [ticks]
        have shorter := rest.length_eq
        rw [List.length_cons, size] at shorter
        exact ih _ (by omega) rfl opened'.tick stays
    have idly : ∀ tm' : TimeManagement, tm'.queues = tm.queues → Open tm' →
        tm'.avanceeEnCours = .pasDAvancee → tm'.Deliverable m := by
      intro tm' same opened' idle
      obtain ⟨open'', same'', takes⟩ :=
        request_gives opened' idle (by rw [same]; exact waits) finite rfl
      exact Deliverable.step (e := .timeAdvanceRequest _) trivial
        (taken _ (same''.trans same) open'' takes)
    by_cases idle : tm.avanceeEnCours = .pasDAvancee
    · exact idly tm rfl opened idle
    · cases tick_gives opened idle waits finite with
      | inl takes => exact taken tm rfl opened takes
      | inr ends =>
        refine Deliverable.step (e := .tick) trivial ?_
        rw [show rtia tm .tick = tm.tick from rtia_perform opened.running]
        exact idly _ ends.2.1 opened.tick ends.1

/-! ## Letting time pass -/

/-- With no clock left there is no bound. -/
def TimeManagement.Unbounded (tm : TimeManagement) : Prop := tm.clocks = [] → tm.lbts = ⊤

theorem compute_unbounded (l : LBTS) : l.compute.clocks = [] → l.compute.lbts = ⊤ := by
  intro empty
  have none : l.clocks = [] := empty
  simp [LBTS.compute, none, LBTS.leastClock]

theorem orEnd_unbounded {tm : TimeManagement} (kept : tm.Unbounded)
    {result : Except RTIException LBTS}
    (computed : ∀ l, result = .ok l → l.clocks = [] → l.lbts = ⊤) :
    (tm.orEnd result).1.Unbounded := by
  cases result with
  | ok l => exact computed l rfl
  | error x => exact kept

theorem insert_unbounded {l l' : LBTS} {h : FederateHandle} {date : Date}
    (inserted : l.insert h date = .ok l') : l'.clocks = [] → l'.lbts = ⊤ := by
  unfold LBTS.insert at inserted
  split at inserted
  · cases inserted
  · cases inserted
    exact compute_unbounded _

theorem update_unbounded {l l' : LBTS} {h : FederateHandle} {date : Date}
    (updated : l.update h date = .ok l') : l'.clocks = [] → l'.lbts = ⊤ := by
  unfold LBTS.update at updated
  split at updated
  · cases updated
    exact compute_unbounded _
  · split at updated
    · cases updated
      exact compute_unbounded _
    · cases updated

theorem remove_unbounded {l l' : LBTS} {h : FederateHandle} (removed : l.remove h = .ok l') :
    l'.clocks = [] → l'.lbts = ⊤ := by
  unfold LBTS.remove at removed
  split at removed
  · cases removed
    exact compute_unbounded _
  · cases removed

theorem insertClocks_unbounded (tm : TimeManagement) (kept : tm.Unbounded)
    (clocks : List (FederateHandle × Date)) : (tm.insertClocks clocks).1.Unbounded := by
  induction clocks generalizing tm with
  | nil => exact kept
  | cons c rest ih =>
    rw [insertClocks]
    split
    · rename_i l inserted
      exact ih _ (insert_unbounded inserted)
    · exact kept

theorem unbounded_step (tm : TimeManagement) (e : RtiaEvent) (kept : tm.Unbounded) :
    (rtia tm e).1.Unbounded := by
  by_cases stopped : tm.ended = true
  · rw [rtia_ended stopped]
    exact kept
  have running : tm.ended = false := by simpa using stopped
  rw [rtia_perform running]
  have same : ∀ tm' : TimeManagement, tm'.toLBTS = tm.toLBTS → tm'.Unbounded := by
    intro tm' frame
    unfold Unbounded
    rw [frame]
    exact kept
  by_cases service : IsService e
  · exact same _ (tm.perform_serves service).lbts
  cases e with
  | join self clocks =>
    change (tm.join self clocks).1.Unbounded
    unfold join
    split
    · exact kept
    · exact insertClocks_unbounded { tm with toLBTS := tm.toLBTS.setFederate self } kept clocks
  | arrive m =>
    apply same
    change (tm.processNetworkMessage m).1.toLBTS = tm.toLBTS
    unfold processNetworkMessage insertByOrder
    split
    · rfl
    · rfl
    · split
      · split
        · rfl
        · rfl
      · rfl
  | messageNull fed date => exact orEnd_unbounded kept fun _ updated => update_unbounded updated
  | regulatorOn fed date =>
    exact orEnd_unbounded kept fun _ inserted => insert_unbounded inserted
  | regulatorOff fed => exact orEnd_unbounded kept fun _ removed => remove_unbounded removed
  | tick => exact same _ (tick_frame tm).1
  | _ => exact absurd trivial service

/-- When every regulator switches its regulation off, the bound is lifted and nothing else
happens. -/
theorem bound_lifted {m : QueuedMessage} (n : Nat) {tm : TimeManagement}
    (size : tm.clocks.length = n) (running : tm.ended = false) (kept : tm.Unbounded)
    (lifted : ∀ l : LBTS, l.lbts = ⊤ → ({ tm with toLBTS := l } : TimeManagement).Deliverable m) :
    tm.Deliverable m := by
  induction n using Nat.strongRecOn generalizing tm with
  | ind n ih =>
    cases clocks : tm.clocks with
    | nil => exact lifted tm.toLBTS (kept clocks)
    | cons c rest =>
      refine Deliverable.step (e := .regulatorOff c.1) trivial ?_
      have present : tm.toLBTS.existsClock c.1 = true := by simp [LBTS.existsClock, clocks]
      have state : (rtia tm (.regulatorOff c.1)).1 = { tm with
          toLBTS := { tm.toLBTS with clocks := tm.clocks.filter fun k => k.1 ≠ c.1 }.compute } := by
        rw [rtia_perform running]
        simp [perform, LBTS.remove, present, orEnd]
      rw [state]
      have shorter : (tm.clocks.filter fun k => k.1 ≠ c.1).length < n := by
        rw [← size, clocks, List.filter_cons_of_neg (by simp), List.length_cons]
        exact Nat.lt_succ_of_le (List.length_filter_le _ _)
      exact ih _ shorter rfl running (compute_unbounded _) lifted

/-- The sorted queue over any run. -/
theorem sorted_step (tm : TimeManagement) (e : RtiaEvent) (sorted : tm.queues.Sorted) :
    (rtia tm e).1.queues.Sorted := by
  by_cases stopped : tm.ended = true
  · rw [rtia_ended stopped]
    exact sorted
  have running : tm.ended = false := by simpa using stopped
  rw [rtia_perform running]
  by_cases isTick : e = .tick
  · subst isTick
    change tm.tick.1.queues.Sorted
    unfold Queues.Sorted at sorted ⊢
    obtain quiet | ⟨m, delivers⟩ | grants := tm.tick_cases
    · rw [quiet.steady.tsos]
      exact sorted
    · rw [delivers.tsos] at sorted
      exact (List.pairwise_cons.mp sorted).2
    · rw [grants.tsos]
      exact sorted
  by_cases isMessage : ∃ n, e = .arrive n
  · obtain ⟨n, rfl⟩ := isMessage
    change (tm.processNetworkMessage n).1.queues.Sorted
    cases tm.processNetworkMessage_cases n with
    | inl plain =>
      unfold Queues.Sorted
      rw [plain.1.steady.tsos]
      exact sorted
    | inr stamped =>
      rw [stamped.2.2]
      exact sorted.insertTsoMessage n
  · rw [(perform_leaves tm isTick fun n same => isMessage ⟨n, same⟩).queues]
    exact sorted

/-! ## The whole statement -/

/-- The queue in time stamp order is empty in every state of a run in which the federate is not
constrained exactly if the mode is only left with that queue empty; and then every dated message
received at a finite date has been given to the federate or still can be. -/
theorem never_stranded_iff (granted : TypeGrantedState) (es : List RtiaEvent) :
    (rtia.Meets Drained (create granted) es ↔
        ∀ before after, es = before ++ after →
          (rtia.exec (create granted) before).Unstranded) ∧
      (rtia.Meets Drained (create granted) es → (rtia.exec (create granted) es).ended = false →
        ∀ m ∈ received (rtia.trace (create granted) es), m.isDated → m.getDate ≠ ⊤ →
          m ∈ given (rtia.trace (create granted) es) ∨
            (rtia.exec (create granted) es).Deliverable m) := by
  have started : (create granted).Unstranded := fun _ => rfl
  refine ⟨drained_iff_unstranded started es, ?_⟩
  intro drained running m arrived _ finite
  cases received_kept granted es m arrived with
  | inl given => exact .inl given
  | inr waits =>
    have unstranded := rtia.exec_invariant
      (fun s e kept meets => unstranded_step kept meets) started drained
    have sorted := rtia.exec_always sorted_step (s := create granted) List.Pairwise.nil es
    have unbounded := rtia.exec_always unbounded_step (s := create granted) (fun _ => rfl) es
    refine .inr (bound_lifted _ rfl running unbounded fun l lifted => ?_)
    exact open_deliverable finite _ rfl ⟨running, lifted, sorted, unstranded⟩ waits

/-- The mode is entered again, with one message given and one waiting behind the bound. -/
def drainedRun : List RtiaEvent :=
  [.setTimeConstrained true, .regulatorOn 2 (7 : FederationTime),
    interactionAt 1 (5 : FederationTime), .timeAdvanceRequest (6 : FederationTime), .tick, .tick,
    .setTimeConstrained false, .setTimeConstrained true, interactionAt 2 (8 : FederationTime)]

theorem never_stranded_waiting :
    ⟨2, .receiveInteraction (some .timestamp), some 8⟩ ∈
        given (rtia.trace (create .afterTarOrNer) drainedRun) ∨
      (rtia.exec (create .afterTarOrNer) drainedRun).Deliverable
        ⟨2, .receiveInteraction (some .timestamp), some 8⟩ :=
  (never_stranded_iff .afterTarOrNer drainedRun).2 (by decide +kernel) (by decide +kernel) _
    (by decide +kernel) rfl (by decide +kernel)

/-- A message arrives in time stamp order, and the mode is left while nothing is pending. -/
def strandedRun : List RtiaEvent :=
  [.setTimeConstrained true, interactionAt 1 (5 : FederationTime), .setTimeConstrained false]

theorem message_stranded :
    ¬ ∀ (granted : TypeGrantedState) (es : List RtiaEvent),
      (rtia.exec (create granted) es).isConstrained = false →
        (rtia.exec (create granted) es).queues.tsos = [] := by
  intro unstranded
  have here := unstranded .afterTarOrNer strandedRun (by decide +kernel)
  exact absurd here (by decide +kernel)

end Certi
