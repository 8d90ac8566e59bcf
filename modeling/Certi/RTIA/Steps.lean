import Certi.RTIA.TimeManagement

/-!
# What one event does to the time of a federate

Every event either leaves alone what the delivery of dated messages depends on,
or is one of a few: a request, an arrival, a switch of the mode, the delivery of
a message in time stamp order, a grant. What a tick can do is said once, by
`tick_cases`.
-/
namespace Certi

open Runs

/-- The messages in time stamp order that an answer delivers. -/
def RtiaAnswer.tsos (answer : RtiaAnswer) : List QueuedMessage :=
  answer.callbacks.filterMap fun
    | .tso m => some m
    | _ => none

def RtiaAnswer.grants (answer : RtiaAnswer) : List Date :=
  answer.callbacks.filterMap fun
    | .timeAdvanceGrant date => some date
    | _ => none

namespace TimeManagement

/-- What the delivery of dated messages depends on is unchanged. -/
structure Steady (before after : TimeManagement) : Prop where
  tsos : after.queues.tsos = before.queues.tsos
  heure : after.heureCourante = before.heureCourante
  avancee : after.avanceeEnCours = before.avanceeEnCours
  date : after.dateAvancee = before.dateAvancee
  constrained : after.isConstrained = before.isConstrained

theorem Steady.refl (tm : TimeManagement) : Steady tm tm := ⟨rfl, rfl, rfl, rfl, rfl⟩

theorem Steady.trans {first second third : TimeManagement} (h : Steady first second)
    (h' : Steady second third) : Steady first third :=
  ⟨h'.tsos.trans h.tsos, h'.heure.trans h.heure, h'.avancee.trans h.avancee,
    h'.date.trans h.date, h'.constrained.trans h.constrained⟩

/-- A NULL message changes nothing but the date of the last one. -/
theorem sendNullIfRegulating_state (tm : TimeManagement) (date : Date) :
    ∃ last, (tm.sendNullIfRegulating date).1 = { tm with lastNullMessageDate := last } := by
  unfold sendNullIfRegulating sendNullMessage
  split
  · split
    · exact ⟨_, rfl⟩
    · exact ⟨tm.lastNullMessageDate, rfl⟩
  · exact ⟨tm.lastNullMessageDate, rfl⟩

theorem sendNullIfRegulating_steady (tm : TimeManagement) (date : Date) :
    Steady tm (tm.sendNullIfRegulating date).1 := by
  obtain ⟨last, state⟩ := tm.sendNullIfRegulating_state date
  rw [state]
  exact ⟨rfl, rfl, rfl, rfl, rfl⟩

theorem assumeLookahead_steady (tm : TimeManagement) : Steady tm tm.assumeLookahead := by
  unfold assumeLookahead
  split
  · exact ⟨rfl, rfl, rfl, rfl, rfl⟩
  · exact ⟨rfl, rfl, rfl, rfl, rfl⟩

/-! ## Ticks -/

/-- One message in time stamp order is given to the federate. -/
structure Delivers (tm : TimeManagement) (r : TimeManagement × RtiaAnswer) (m : QueuedMessage) :
    Prop where
  callbacks : r.2.callbacks = [.tso m]
  tsos : tm.queues.tsos = m :: r.1.queues.tsos
  heure : r.1.heureCourante = tm.heureCourante
  pending : tm.avanceeEnCours ≠ .pasDAvancee
  avancee : r.1.avanceeEnCours = tm.avanceeEnCours
  constrained : tm.isConstrained = true
  mode : r.1.isConstrained = true
  due : m.getDate ≤ r.1.dateAvancee
  date : r.1.dateAvancee = tm.dateAvancee ∨
    r.1.dateAvancee = m.getDate ∧ m.getDate < tm.dateAvancee
  bound : m.getDate ≤ tm.lbts

/-- The request ends, at the date it has come down to. -/
structure Grants (tm : TimeManagement) (r : TimeManagement × RtiaAnswer) : Prop where
  callbacks : r.2.callbacks = [.timeAdvanceGrant tm.dateAvancee]
  tsos : r.1.queues.tsos = tm.queues.tsos
  heure : r.1.heureCourante = tm.dateAvancee
  pending : tm.avanceeEnCours ≠ .pasDAvancee
  avancee : r.1.avanceeEnCours = .pasDAvancee
  mode : r.1.isConstrained = tm.isConstrained
  due : tm.isConstrained = true → tm.queues.giveTsoMessage tm.dateAvancee = none
  bound : tm.isConstrained = true → tm.dateAvancee ≤ tm.lbts

/-- Neither a message in time stamp order nor a grant. -/
structure Quiet (tm : TimeManagement) (r : TimeManagement × RtiaAnswer) : Prop where
  steady : Steady tm r.1
  tsos : r.2.tsos = []
  grants : r.2.grants = []

theorem Delivers.answer {tm : TimeManagement} {r : TimeManagement × RtiaAnswer}
    {m : QueuedMessage} (delivers : Delivers tm r m) : r.2.tsos = [m] ∧ r.2.grants = [] := by
  simp [RtiaAnswer.tsos, RtiaAnswer.grants, delivers.callbacks]

theorem Grants.answer {tm : TimeManagement} {r : TimeManagement × RtiaAnswer}
    (grants : Grants tm r) : r.2.tsos = [] ∧ r.2.grants = [tm.dateAvancee] := by
  simp [RtiaAnswer.tsos, RtiaAnswer.grants, grants.callbacks]

/-- Bookkeeping before an advance does not change what the advance does. -/
theorem Delivers.after {tm tm' : TimeManagement} {r : TimeManagement × RtiaAnswer}
    {m : QueuedMessage} (delivers : Delivers tm' r m) (steady : Steady tm tm')
    (bound : tm'.lbts = tm.lbts) : Delivers tm r m where
  callbacks := delivers.callbacks
  tsos := by rw [← steady.tsos, delivers.tsos]
  heure := by rw [delivers.heure, steady.heure]
  pending := by rw [← steady.avancee]; exact delivers.pending
  avancee := by rw [delivers.avancee, steady.avancee]
  constrained := by rw [← steady.constrained]; exact delivers.constrained
  mode := delivers.mode
  due := delivers.due
  date := by rw [← steady.date]; exact delivers.date
  bound := by rw [← bound]; exact delivers.bound

theorem giveTsoMessage_congr {q q' : Queues} (same : q'.tsos = q.tsos) (date : Date) :
    q'.giveTsoMessage date = none ↔ q.giveTsoMessage date = none := by
  simp only [Queues.giveTsoMessage, same]
  split
  · simp
  · split <;> simp

theorem mayGrant_bound {tm : TimeManagement} {date : Date} {kind : TypeAvancee}
    (may : tm.mayGrant date kind = true) : date ≤ tm.lbts := by
  simp only [mayGrant, Bool.or_eq_true, decide_eq_true_eq, Bool.and_eq_true] at may
  cases may with
  | inl below => exact le_of_lt below
  | inr at_bound => exact at_bound.1

theorem timeAdvance_cases {tm : TimeManagement} (pending : tm.avanceeEnCours ≠ .pasDAvancee) :
    Quiet tm tm.timeAdvance ∨ (∃ m, Delivers tm tm.timeAdvance m) ∨ Grants tm tm.timeAdvance := by
  unfold timeAdvance
  split
  · rename_i constrained
    generalize lowIs : (if tm.lbts < tm.dateAvancee then tm.lbts else tm.dateAvancee) = low
    have low_le_date : low ≤ tm.dateAvancee := by
      rw [← lowIs]
      split
      · rename_i below
        exact le_of_lt below
      · exact le_refl _
    have low_le_bound : low ≤ tm.lbts := by
      rw [← lowIs]
      split
      · exact le_refl _
      · rename_i above
        exact not_lt.mp above
    simp only
    split
    · rename_i given found
      obtain ⟨queue, due, -, -⟩ := Queues.giveTsoMessage_some found
      refine .inr (.inl ⟨given.1, ?_⟩)
      exact
        { callbacks := rfl
          tsos := queue
          heure := rfl
          pending := pending
          avancee := rfl
          constrained := constrained
          mode := constrained
          due := le_trans due low_le_date
          date := .inl rfl
          bound := le_trans due low_le_bound }
    · rename_i nothing
      split
      · rename_i may
        have below := mayGrant_bound may
        have lowest : low = tm.dateAvancee := by
          rw [← lowIs, if_neg (not_lt.mpr below)]
        exact .inr (.inr
          { callbacks := rfl
            tsos := rfl
            heure := rfl
            pending := pending
            avancee := rfl
            mode := rfl
            due := fun _ => by rw [← lowest]; exact nothing
            bound := fun _ => below })
      · exact .inl ⟨Steady.refl tm, rfl, rfl⟩
  · rename_i free
    exact .inr (.inr
      { callbacks := rfl
        tsos := rfl
        heure := rfl
        pending := pending
        avancee := rfl
        mode := rfl
        due := fun constrained => absurd constrained free
        bound := fun constrained => absurd constrained free })

/-- The requested date comes down to the date of the first message, if that is earlier. -/
theorem dateMin_cases (tm : TimeManagement) :
    tm.dateMin = tm.dateAvancee ∨
      ∃ m rest, tm.queues.tsos = m :: rest ∧ tm.dateMin = m.getDate ∧
        m.getDate < tm.dateAvancee := by
  unfold dateMin Queues.nextTsoDate
  cases queue : tm.queues.tsos with
  | nil => exact .inl rfl
  | cons m rest =>
    simp only [List.head?_cons, Option.map_some]
    split
    · rename_i earlier
      exact .inr ⟨m, rest, rfl, rfl, earlier⟩
    · exact .inl rfl

theorem dateMin_le {tm : TimeManagement} (sorted : tm.queues.Sorted) {m : QueuedMessage}
    (waits : m ∈ tm.queues.tsos) : tm.dateMin ≤ m.getDate := by
  unfold dateMin Queues.nextTsoDate
  unfold Queues.Sorted at sorted
  cases queue : tm.queues.tsos with
  | nil =>
    rw [queue] at waits
    cases waits
  | cons head rest =>
    rw [queue] at sorted waits
    have first : head.getDate ≤ m.getDate := by
      cases List.mem_cons.mp waits with
      | inl same => rw [same]
      | inr later => exact (List.pairwise_cons.mp sorted).1 m later
    simp only [List.head?_cons, Option.map_some]
    split
    · exact first
    · rename_i above
      exact le_trans (not_lt.mp above) first

theorem nextEventAdvance_cases {tm : TimeManagement}
    (pending : tm.avanceeEnCours ≠ .pasDAvancee) :
    Quiet tm tm.nextEventAdvance ∨ (∃ m, Delivers tm tm.nextEventAdvance m) ∨
      Grants tm tm.nextEventAdvance := by
  unfold nextEventAdvance
  split
  · rename_i constrained
    simp only
    split
    · rename_i may
      have below := mayGrant_bound may
      obtain ⟨last, state⟩ :=
        { tm with dateAvancee := tm.dateMin }.sendNullIfRegulating_state tm.dateMin
      rw [state]
      unfold reach
      simp only
      split
      · rename_i given found
        obtain ⟨queue, due, -, -⟩ := Queues.giveTsoMessage_some found
        have date : tm.dateMin = tm.dateAvancee ∨
            tm.dateMin = given.1.getDate ∧ given.1.getDate < tm.dateAvancee := by
          cases tm.dateMin_cases with
          | inl same => exact .inl same
          | inr first =>
            obtain ⟨m, rest, front, same, earlier⟩ := first
            have head : m = given.1 := (List.cons.inj (front.symm.trans queue)).1
            rw [← head]
            exact .inr ⟨same, earlier⟩
        refine .inr (.inl ⟨given.1, ?_⟩)
        exact
          { callbacks := rfl
            tsos := queue
            heure := rfl
            pending := pending
            avancee := rfl
            constrained := constrained
            mode := constrained
            due := due
            date := date
            bound := le_trans due below }
      · rename_i nothing
        have same : tm.dateMin = tm.dateAvancee := by
          cases tm.dateMin_cases with
          | inl same => exact same
          | inr first =>
            obtain ⟨m, rest, front, same, -⟩ := first
            rw [same] at nothing
            simp [Queues.giveTsoMessage, front] at nothing
        rw [same] at nothing below ⊢
        exact .inr (.inr
          { callbacks := rfl
            tsos := rfl
            heure := rfl
            pending := pending
            avancee := rfl
            mode := rfl
            due := fun _ => nothing
            bound := fun _ => below })
    · exact .inl ⟨tm.sendNullIfRegulating_steady tm.lbts, rfl, rfl⟩
  · rename_i free
    obtain ⟨last, state⟩ := tm.sendNullIfRegulating_state tm.dateAvancee
    simp only [state]
    exact .inr (.inr
      { callbacks := rfl
        tsos := rfl
        heure := rfl
        pending := pending
        avancee := rfl
        mode := rfl
        due := fun constrained => absurd constrained free
        bound := fun constrained => absurd constrained free })

/-- A tick delivers a message in time stamp order, ends the request, or does neither. -/
theorem tick_cases (tm : TimeManagement) :
    Quiet tm tm.tick ∨ (∃ m, Delivers tm tm.tick m) ∨ Grants tm tm.tick := by
  unfold tick
  split
  · rename_i given found
    have same := (Queues.giveCommandMessage_some found).2.1
    exact .inl ⟨⟨same, rfl, rfl, rfl, rfl⟩, rfl, rfl⟩
  · split
    · rename_i given found
      have same : given.2.2.tsos = tm.queues.tsos := by
        split at found
        · exact (Queues.giveFifoMessage_some found).2.1
        · cases found
      exact .inl ⟨⟨same, rfl, rfl, rfl, rfl⟩, rfl, rfl⟩
    · unfold advance
      split
      · rename_i kind
        exact timeAdvance_cases (by rw [kind]; decide)
      · rename_i kind
        exact timeAdvance_cases (by rw [kind]; decide)
      · rename_i kind
        exact nextEventAdvance_cases (by rw [kind]; decide)
      · rename_i kind
        exact nextEventAdvance_cases (by rw [kind]; decide)
      · exact .inl ⟨Steady.refl tm, rfl, rfl⟩

/-! ## Other events -/

/-- A request that is accepted; the federate waits for its grant. -/
structure Requests (tm : TimeManagement) (r : TimeManagement × RtiaAnswer) (date : Date) :
    Prop where
  callbacks : r.2.callbacks = []
  accepted : r.2.error = none
  tsos : r.1.queues.tsos = tm.queues.tsos
  heure : r.1.heureCourante = tm.heureCourante
  idle : tm.avanceeEnCours = .pasDAvancee
  pending : r.1.avanceeEnCours ≠ .pasDAvancee
  requested : r.1.dateAvancee = date
  ahead : tm.heureCourante ≤ date
  mode : r.1.isConstrained = tm.isConstrained

theorem requestError_none {tm : TimeManagement} {date : Date}
    (accepted : tm.requestError date = none) :
    tm.avanceeEnCours = .pasDAvancee ∧ tm.heureCourante ≤ date := by
  unfold requestError at accepted
  split at accepted
  · cases accepted
  · rename_i ahead
    split at accepted
    · cases accepted
    · rename_i idle
      exact ⟨not_not.mp idle, not_lt.mp ahead⟩

/-- A refusal changes nothing. -/
theorem Quiet.refused (tm : TimeManagement) (e : RTIException) : Quiet tm (tm.refuse e) :=
  ⟨Steady.refl tm, rfl, rfl⟩

/-- A request puts the pending date on a state in which time stands as before. -/
theorem Requests.ofSteady {tm tm' : TimeManagement} {date : Date} (steady : Steady tm tm')
    (accepted : tm.requestError date = none) {kind : TypeAvancee} (real : kind ≠ .pasDAvancee)
    (sent : List ToRtig) : Requests tm (tm'.await kind date, { sent := sent }) date where
  callbacks := rfl
  accepted := rfl
  tsos := steady.tsos
  heure := steady.heure
  idle := (requestError_none accepted).1
  pending := real
  requested := rfl
  ahead := (requestError_none accepted).2
  mode := steady.constrained

theorem timeAdvanceRequest_cases (tm : TimeManagement) (date : Date) :
    (∃ x, tm.timeAdvanceRequest date = tm.refuse x) ∨
      Requests tm (tm.timeAdvanceRequest date) date := by
  unfold timeAdvanceRequest
  split
  · exact .inl ⟨_, rfl⟩
  · rename_i accepted
    have steady := tm.assumeLookahead_steady.trans
      (tm.assumeLookahead.sendNullIfRegulating_steady date)
    exact .inr (Requests.ofSteady steady accepted (by decide) _)

theorem timeAdvanceRequestAvailable_cases (tm : TimeManagement) (date : Date) :
    (∃ x, tm.timeAdvanceRequestAvailable date = tm.refuse x) ∨
      Requests tm (tm.timeAdvanceRequestAvailable date) date := by
  unfold timeAdvanceRequestAvailable
  split
  · exact .inl ⟨_, rfl⟩
  · rename_i accepted
    have steady : Steady tm { tm with typeGrantedState := .afterTaraOrNera } :=
      ⟨rfl, rfl, rfl, rfl, rfl⟩
    exact .inr (Requests.ofSteady (steady.trans (sendNullIfRegulating_steady _ date)) accepted
      (by decide) _)

theorem nextEventRequest_cases (tm : TimeManagement) (date : Date) :
    (∃ x, tm.nextEventRequest date = tm.refuse x) ∨
      Requests tm (tm.nextEventRequest date) date := by
  unfold nextEventRequest
  split
  · exact .inl ⟨_, rfl⟩
  · rename_i accepted
    exact .inr (Requests.ofSteady tm.assumeLookahead_steady accepted (by decide) [])

theorem setTimeRegulating_quiet (tm : TimeManagement) (on : Bool) (lookahead : Date) :
    Quiet tm (tm.setTimeRegulating on lookahead) := by
  unfold setTimeRegulating
  split
  · exact Quiet.refused tm _
  · exact ⟨⟨rfl, rfl, rfl, rfl, rfl⟩, rfl, rfl⟩

theorem insertClocks_quiet (tm : TimeManagement) (clocks : List (FederateHandle × Date)) :
    Quiet tm (tm.insertClocks clocks) := by
  induction clocks generalizing tm with
  | nil => exact ⟨⟨rfl, rfl, rfl, rfl, rfl⟩, rfl, rfl⟩
  | cons c rest ih =>
    rw [insertClocks]
    split
    · rename_i l _
      have same : Steady tm { tm with toLBTS := l } := ⟨rfl, rfl, rfl, rfl, rfl⟩
      have later := ih { tm with toLBTS := l }
      exact ⟨same.trans later.steady, later.tsos, later.grants⟩
    · exact Quiet.refused tm _

theorem orEnd_quiet (tm : TimeManagement) (result : Except RTIException LBTS) :
    Quiet tm (tm.orEnd result) := by
  unfold orEnd
  split
  · exact ⟨⟨rfl, rfl, rfl, rfl, rfl⟩, rfl, rfl⟩
  · exact ⟨⟨rfl, rfl, rfl, rfl, rfl⟩, rfl, rfl⟩

/-- The event neither asks for an advance or a mode nor brings a message, and is no tick. -/
def IsQuiet : RtiaEvent → Prop
  | .setLookahead _ | .setTimeRegulating _ _ | .setAsynchronousDelivery _ | .sendDated _
  | .deleteDated _ | .join _ _ | .messageNull _ _ | .regulatorOn _ _ | .regulatorOff _ => True
  | _ => False

theorem perform_quiet (tm : TimeManagement) {e : RtiaEvent} (quiet : IsQuiet e) :
    Quiet tm (tm.perform e) := by
  cases e with
  | setLookahead lookahead =>
    change Quiet tm (tm.setLookahead lookahead)
    unfold setLookahead
    split
    · exact Quiet.refused tm _
    · split
      · exact Quiet.refused tm _
      · have steady : Steady tm { tm with lookaheadCourant := lookahead } :=
          ⟨rfl, rfl, rfl, rfl, rfl⟩
        exact ⟨steady.trans (sendNullIfRegulating_steady _ _), rfl, rfl⟩
  | setTimeRegulating on lookahead => exact tm.setTimeRegulating_quiet on lookahead
  | setAsynchronousDelivery on =>
    change Quiet tm (tm.setAsynchronousDelivery on)
    unfold setAsynchronousDelivery
    split
    · exact Quiet.refused tm _
    · exact ⟨⟨rfl, rfl, rfl, rfl, rfl⟩, rfl, rfl⟩
  | sendDated date =>
    change Quiet tm (tm.sendDated date)
    unfold sendDated
    split
    · exact ⟨Steady.refl tm, rfl, rfl⟩
    · exact Quiet.refused tm _
  | deleteDated date => exact ⟨Steady.refl tm, rfl, rfl⟩
  | join self clocks =>
    change Quiet tm (tm.join self clocks)
    unfold join
    split
    · exact Quiet.refused tm _
    · have same : Steady tm { tm with toLBTS := tm.toLBTS.setFederate self } :=
        ⟨rfl, rfl, rfl, rfl, rfl⟩
      have later := insertClocks_quiet { tm with toLBTS := tm.toLBTS.setFederate self } clocks
      exact ⟨same.trans later.steady, later.tsos, later.grants⟩
  | messageNull fed date => exact tm.orEnd_quiet _
  | regulatorOn fed date => exact tm.orEnd_quiet _
  | regulatorOff fed => exact tm.orEnd_quiet _
  | _ => cases quiet

/-- A service of the federate changes neither the queues nor the clocks nor the current time. -/
structure Serves (tm : TimeManagement) (r : TimeManagement × RtiaAnswer) : Prop where
  callbacks : r.2.callbacks = []
  lbts : r.1.toLBTS = tm.toLBTS
  queues : r.1.queues = tm.queues
  heure : r.1.heureCourante = tm.heureCourante
  ended : r.1.ended = tm.ended

def IsService : RtiaEvent → Prop
  | .timeAdvanceRequest _ | .timeAdvanceRequestAvailable _ | .nextEventRequest _
  | .nextEventRequestAvailable _ | .setLookahead _ | .setTimeConstrained _
  | .setTimeRegulating _ _ | .setAsynchronousDelivery _ | .sendDated _ | .deleteDated _
  | .resign => True
  | _ => False

theorem Serves.refused (tm : TimeManagement) (e : RTIException) : Serves tm (tm.refuse e) :=
  ⟨rfl, rfl, rfl, rfl, rfl⟩

theorem setTimeRegulating_serves (tm : TimeManagement) (on : Bool) (lookahead : Date) :
    Serves tm (tm.setTimeRegulating on lookahead) := by
  unfold setTimeRegulating
  split
  · exact Serves.refused tm _
  · exact ⟨rfl, rfl, rfl, rfl, rfl⟩

theorem perform_serves (tm : TimeManagement) {e : RtiaEvent} (service : IsService e) :
    Serves tm (tm.perform e) := by
  have sends : ∀ (start : TimeManagement) (date : Date) (r : TimeManagement × List ToRtig),
      r = start.sendNullIfRegulating date → start.toLBTS = tm.toLBTS →
      start.queues = tm.queues → start.heureCourante = tm.heureCourante →
      start.ended = tm.ended → Serves tm (r.1, { sent := r.2 }) := by
    intro start date r sends lbts queues heure ended
    obtain ⟨last, state⟩ := start.sendNullIfRegulating_state date
    rw [sends, state]
    exact ⟨rfl, lbts, queues, heure, ended⟩
  have assumed : tm.assumeLookahead.toLBTS = tm.toLBTS ∧
      tm.assumeLookahead.queues = tm.queues ∧
      tm.assumeLookahead.heureCourante = tm.heureCourante ∧
      tm.assumeLookahead.ended = tm.ended := by
    unfold assumeLookahead
    split
    · exact ⟨rfl, rfl, rfl, rfl⟩
    · exact ⟨rfl, rfl, rfl, rfl⟩
  obtain ⟨lbts, queues, heure, ended⟩ := assumed
  cases e with
  | timeAdvanceRequest date =>
    change Serves tm (tm.timeAdvanceRequest date)
    unfold timeAdvanceRequest
    split
    · exact Serves.refused tm _
    · have sent := sends _ date _ rfl lbts queues heure ended
      exact ⟨rfl, sent.lbts, sent.queues, sent.heure, sent.ended⟩
  | timeAdvanceRequestAvailable date =>
    change Serves tm (tm.timeAdvanceRequestAvailable date)
    unfold timeAdvanceRequestAvailable
    split
    · exact Serves.refused tm _
    · have sent := sends { tm with typeGrantedState := .afterTaraOrNera } date _ rfl rfl rfl rfl rfl
      exact ⟨rfl, sent.lbts, sent.queues, sent.heure, sent.ended⟩
  | nextEventRequest date =>
    change Serves tm (tm.nextEventRequest date)
    unfold nextEventRequest
    split
    · exact Serves.refused tm _
    · exact ⟨rfl, lbts, queues, heure, ended⟩
  | nextEventRequestAvailable date =>
    change Serves tm (tm.nextEventRequestAvailable date)
    unfold nextEventRequestAvailable
    split
    · exact ⟨rfl, rfl, rfl, rfl, rfl⟩
    · exact ⟨rfl, rfl, rfl, rfl, rfl⟩
  | setLookahead lookahead =>
    change Serves tm (tm.setLookahead lookahead)
    unfold setLookahead
    split
    · exact Serves.refused tm _
    · split
      · exact Serves.refused tm _
      · exact sends { tm with lookaheadCourant := lookahead } _ _ rfl rfl rfl rfl rfl
  | setTimeConstrained on =>
    change Serves tm (tm.setTimeConstrained on)
    unfold setTimeConstrained
    split
    · exact Serves.refused tm _
    · exact ⟨rfl, rfl, rfl, rfl, rfl⟩
  | setTimeRegulating on lookahead => exact tm.setTimeRegulating_serves on lookahead
  | setAsynchronousDelivery on =>
    change Serves tm (tm.setAsynchronousDelivery on)
    unfold setAsynchronousDelivery
    split
    · exact Serves.refused tm _
    · exact ⟨rfl, rfl, rfl, rfl, rfl⟩
  | sendDated date =>
    change Serves tm (tm.sendDated date)
    unfold sendDated
    split
    · exact ⟨rfl, rfl, rfl, rfl, rfl⟩
    · exact Serves.refused tm _
  | deleteDated date => exact ⟨rfl, rfl, rfl, rfl, rfl⟩
  | resign =>
    change Serves tm tm.resign
    unfold resign
    split
    · simp only
      split
      · have off := tm.stopperAvanceTemps.setTimeRegulating_serves false 0
        exact ⟨rfl, off.lbts, off.queues, off.heure, off.ended⟩
      · exact ⟨rfl, rfl, rfl, rfl, rfl⟩
    · exact Serves.refused tm _
  | _ => cases service

/-- Resigning gives a pending request up. -/
structure Stops (tm : TimeManagement) (r : TimeManagement × RtiaAnswer) : Prop where
  callbacks : r.2.callbacks = []
  tsos : r.1.queues.tsos = tm.queues.tsos
  heure : r.1.heureCourante = tm.heureCourante
  avancee : r.1.avanceeEnCours = .pasDAvancee
  mode : r.1.isConstrained = tm.isConstrained

theorem resign_stops {tm : TimeManagement} (member : tm.isMember = true) :
    Stops tm tm.resign := by
  rw [TimeManagement.resign, if_pos member]
  simp only
  split
  · rename_i regulating
    have refusedNot : ¬ (tm.stopperAvanceTemps.isRegulating = false ∨
        tm.stopperAvanceTemps.avanceeEnCours ≠ .pasDAvancee) := by
      simp [stopperAvanceTemps] at regulating ⊢
      exact regulating
    unfold setTimeRegulating
    rw [if_neg refusedNot]
    exact ⟨rfl, rfl, rfl, rfl, rfl⟩
  · exact ⟨rfl, rfl, rfl, rfl, rfl⟩

theorem resign_cases (tm : TimeManagement) : Quiet tm tm.resign ∨ Stops tm tm.resign := by
  by_cases member : tm.isMember = true
  · exact .inr (resign_stops member)
  · rw [TimeManagement.resign, if_neg member]
    exact .inl (Quiet.refused tm _)

/-- The mode changes only while nothing is pending. -/
theorem setTimeConstrained_cases (tm : TimeManagement) (on : Bool) :
    tm.setTimeConstrained on = tm.refuse .rtiInternalError ∨
      (tm.isConstrained = !on ∧ tm.avanceeEnCours = .pasDAvancee ∧
        tm.setTimeConstrained on =
          ({ tm with isConstrained := on }, { sent := [.setTimeConstrained on] })) := by
  unfold setTimeConstrained
  split
  · exact .inl rfl
  · rename_i changes
    obtain ⟨other, idle⟩ := not_or.mp changes
    exact .inr ⟨by cases h : tm.isConstrained <;> cases on <;> simp_all, not_not.mp idle, rfl⟩

/-- The messages an event puts into the queue in time stamp order. -/
def queued (tm : TimeManagement) : RtiaEvent → List QueuedMessage
  | .arrive m =>
    if tm.ended = false ∧ m.order.toOption = some .timestamp ∧ tm.isConstrained then [m] else []
  | _ => []

theorem queued_other {tm : TimeManagement} {e : RtiaEvent} (other : ∀ m, e ≠ .arrive m) :
    tm.queued e = [] := by
  cases e with
  | arrive m => exact absurd rfl (other m)
  | _ => rfl

theorem processNetworkMessage_cases (tm : TimeManagement) (m : QueuedMessage) :
    (Quiet tm (tm.processNetworkMessage m) ∧
      (m.order.toOption = some .timestamp → tm.isConstrained = false)) ∨
      (m.order.toOption = some .timestamp ∧ tm.isConstrained = true ∧
        tm.processNetworkMessage m = ({ tm with queues := tm.queues.insertTsoMessage m }, {})) := by
  have quietly : ∀ (q : Queues), q.tsos = tm.queues.tsos →
      Quiet tm ({ tm with queues := q }, {}) := by
    intro q same
    exact ⟨⟨same, rfl, rfl, rfl, rfl⟩, rfl, rfl⟩
  have ordered : ∀ order, m.order = .ok order →
      (Quiet tm (tm.insertByOrder m order, {}) ∧
        (m.order.toOption = some .timestamp → tm.isConstrained = false)) ∨
      (m.order.toOption = some .timestamp ∧ tm.isConstrained = true ∧
        (tm.insertByOrder m order, ({} : RtiaAnswer)) =
          ({ tm with queues := tm.queues.insertTsoMessage m }, {})) := by
    intro order found
    unfold insertByOrder
    split
    · rename_i stamped
      exact .inr ⟨by rw [found, stamped.1]; rfl, stamped.2, rfl⟩
    · rename_i plain
      refine .inl ⟨quietly _ rfl, fun stamped => ?_⟩
      rw [found] at stamped
      cases stamped
      simpa using plain
  have failed : ∀ e, m.order = .error e →
      Quiet tm ({ tm with ended := true }, { error := some e }) ∧
        (m.order.toOption = some .timestamp → tm.isConstrained = false) := by
    intro e found
    refine ⟨⟨⟨rfl, rfl, rfl, rfl, rfl⟩, rfl, rfl⟩, fun stamped => ?_⟩
    rw [found] at stamped
    cases stamped
  have command : ∀ q : Queues, q.tsos = tm.queues.tsos → m.order = .ok .receive →
      Quiet tm ({ tm with queues := q }, {}) ∧
        (m.order.toOption = some .timestamp → tm.isConstrained = false) := by
    intro q same received
    refine ⟨quietly q same, fun stamped => ?_⟩
    rw [received] at stamped
    cases stamped
  unfold processNetworkMessage
  split
  · rename_i payload
    exact .inl (command _ rfl (by simp [QueuedMessage.order, payload]))
  · rename_i payload
    exact .inl (command _ rfl (by simp [QueuedMessage.order, payload]))
  · split
    · rename_i order found
      exact ordered order found
    · rename_i e found
      exact .inl (failed e found)

end TimeManagement

end Certi
