import Certi.LibCERTI.Clocks
import Certi.RTIA.Steps
import Certi.System.Connections

/-!
# One RTIA and its connection

What a step of an RTIA does to the clocks it holds, to its membership and to
the requests that are under way: the calls of the federate leave the clocks
alone, a message moves them as it says, and a join takes exactly the clocks
that its answer counts.
-/
namespace Certi

open Keyed

namespace TimeManagement

/-! ## What leaves the clocks alone -/

/-- The clocks and the membership are kept, and no resignation is sent. -/
structure KeepsClocks (tm : TimeManagement) (r : TimeManagement × RtiaAnswer) : Prop where
  lbts : r.1.toLBTS = tm.toLBTS
  member : r.1.isMember = tm.isMember
  stays : ToRtig.resign ∉ r.2.sent

variable {tm : TimeManagement}

theorem KeepsClocks.refuse (tm : TimeManagement) (e : RTIException) :
    KeepsClocks tm (tm.refuse e) := ⟨rfl, rfl, by simp [TimeManagement.refuse]⟩

/-- The NULL messages of an RTIA are all it sends when it advances. -/
theorem sendNullIfRegulating_sent (tm : TimeManagement) (date : Date) :
    (tm.sendNullIfRegulating date).2 = [] ∨
      (tm.sendNullIfRegulating date).2 = [.messageNull (date + tm.lookaheadCourant)] := by
  unfold sendNullIfRegulating sendNullMessage
  split
  · split
    · exact .inr rfl
    · exact .inl rfl
  · exact .inl rfl

theorem no_resign_sent (tm : TimeManagement) (date : Date) :
    ToRtig.resign ∉ (tm.sendNullIfRegulating date).2 := by
  rcases tm.sendNullIfRegulating_sent date with sent | sent <;> simp [sent]

theorem sendNullIfRegulating_keeps (tm : TimeManagement) (date : Date) :
    (tm.sendNullIfRegulating date).1.toLBTS = tm.toLBTS ∧
      (tm.sendNullIfRegulating date).1.isMember = tm.isMember := by
  obtain ⟨last, state⟩ := tm.sendNullIfRegulating_state date
  rw [state]
  exact ⟨rfl, rfl⟩

theorem assumeLookahead_keeps (tm : TimeManagement) :
    tm.assumeLookahead.toLBTS = tm.toLBTS ∧ tm.assumeLookahead.isMember = tm.isMember := by
  unfold assumeLookahead
  split <;> exact ⟨rfl, rfl⟩

theorem timeAdvanceRequest_keeps (tm : TimeManagement) (date : Date) :
    KeepsClocks tm (tm.timeAdvanceRequest date) := by
  unfold timeAdvanceRequest
  split
  · exact .refuse tm _
  · obtain ⟨lbts, member⟩ := tm.assumeLookahead_keeps
    obtain ⟨lbts', member'⟩ := tm.assumeLookahead.sendNullIfRegulating_keeps date
    exact ⟨lbts'.trans lbts, member'.trans member, tm.assumeLookahead.no_resign_sent date⟩

theorem timeAdvanceRequestAvailable_keeps (tm : TimeManagement) (date : Date) :
    KeepsClocks tm (tm.timeAdvanceRequestAvailable date) := by
  unfold timeAdvanceRequestAvailable
  split
  · exact .refuse tm _
  · obtain ⟨lbts, member⟩ :=
      { tm with typeGrantedState := .afterTaraOrNera }.sendNullIfRegulating_keeps date
    exact ⟨lbts, member, no_resign_sent _ date⟩

theorem nextEventRequest_keeps (tm : TimeManagement) (date : Date) :
    KeepsClocks tm (tm.nextEventRequest date) := by
  unfold nextEventRequest
  split
  · exact .refuse tm _
  · obtain ⟨lbts, member⟩ := tm.assumeLookahead_keeps
    exact ⟨lbts, member, by simp⟩

theorem nextEventRequestAvailable_keeps (tm : TimeManagement) (date : Date) :
    KeepsClocks tm (tm.nextEventRequestAvailable date) := by
  unfold nextEventRequestAvailable
  split <;> exact ⟨rfl, rfl, by simp⟩

theorem setLookahead_keeps (tm : TimeManagement) (lookahead : Date) :
    KeepsClocks tm (tm.setLookahead lookahead) := by
  unfold setLookahead
  split
  · exact .refuse tm _
  · split
    · exact .refuse tm _
    · obtain ⟨lbts, member⟩ :=
        { tm with lookaheadCourant := lookahead }.sendNullIfRegulating_keeps tm.heureCourante
      exact ⟨lbts, member, no_resign_sent _ _⟩

theorem setTimeConstrained_keeps (tm : TimeManagement) (on : Bool) :
    KeepsClocks tm (tm.setTimeConstrained on) := by
  unfold setTimeConstrained
  split
  · exact .refuse tm _
  · exact ⟨rfl, rfl, by simp⟩

theorem setTimeRegulating_keeps (tm : TimeManagement) (on : Bool) (lookahead : Date) :
    KeepsClocks tm (tm.setTimeRegulating on lookahead) := by
  unfold setTimeRegulating
  split
  · exact .refuse tm _
  · exact ⟨rfl, rfl, by simp⟩

theorem setAsynchronousDelivery_keeps (tm : TimeManagement) (on : Bool) :
    KeepsClocks tm (tm.setAsynchronousDelivery on) := by
  unfold setAsynchronousDelivery
  split
  · exact .refuse tm _
  · exact ⟨rfl, rfl, by simp⟩

theorem sendDated_keeps (tm : TimeManagement) (date : Date) :
    KeepsClocks tm (tm.sendDated date) := by
  unfold sendDated
  split
  · exact ⟨rfl, rfl, by simp⟩
  · exact .refuse tm _

theorem timeAdvance_keeps (tm : TimeManagement) : KeepsClocks tm tm.timeAdvance := by
  unfold timeAdvance
  split
  · dsimp only
    split
    · exact ⟨rfl, rfl, by simp [deliver]⟩
    · split
      · exact ⟨rfl, rfl, by simp [timeAdvanceGrant]⟩
      · exact ⟨rfl, rfl, by simp⟩
  · exact ⟨rfl, rfl, by simp [timeAdvanceGrant]⟩

theorem reach_keeps (tm : TimeManagement) : KeepsClocks tm tm.reach := by
  unfold reach
  split
  · exact ⟨rfl, rfl, by simp [deliver]⟩
  · exact ⟨rfl, rfl, by simp [timeAdvanceGrant]⟩

/-- What follows a NULL message. -/
theorem KeepsClocks.afterNull (tm tm' : TimeManagement) (lbts : tm'.toLBTS = tm.toLBTS)
    (member : tm'.isMember = tm.isMember) {date : Date} {r : TimeManagement × RtiaAnswer}
    (keeps : KeepsClocks (tm'.sendNullIfRegulating date).1 r) :
    KeepsClocks tm (withSent (tm'.sendNullIfRegulating date).2 r) := by
  obtain ⟨lbts', member'⟩ := tm'.sendNullIfRegulating_keeps date
  refine ⟨keeps.lbts.trans (lbts'.trans lbts), keeps.member.trans (member'.trans member), ?_⟩
  simp only [withSent, List.mem_append, not_or]
  exact ⟨tm'.no_resign_sent date, keeps.stays⟩

theorem nextEventAdvance_keeps (tm : TimeManagement) : KeepsClocks tm tm.nextEventAdvance := by
  unfold nextEventAdvance
  split
  · dsimp only
    split
    · exact .afterNull tm { tm with dateAvancee := tm.dateMin } rfl rfl (reach_keeps _)
    · obtain ⟨lbts, member⟩ := tm.sendNullIfRegulating_keeps tm.lbts
      exact ⟨lbts, member, tm.no_resign_sent tm.lbts⟩
  · refine .afterNull tm tm rfl rfl ?_
    exact ⟨rfl, rfl, by simp [timeAdvanceGrant]⟩

theorem tick_keeps (tm : TimeManagement) : KeepsClocks tm tm.tick := by
  unfold tick
  split
  · exact ⟨rfl, rfl, by simp [deliver]⟩
  · split
    · exact ⟨rfl, rfl, by simp [deliver]⟩
    · unfold advance
      split
      · exact tm.timeAdvance_keeps
      · exact tm.timeAdvance_keeps
      · exact tm.nextEventAdvance_keeps
      · exact tm.nextEventAdvance_keeps
      · exact ⟨rfl, rfl, by simp⟩

theorem processNetworkMessage_keeps (tm : TimeManagement) (m : QueuedMessage) :
    KeepsClocks tm (tm.processNetworkMessage m) := by
  unfold processNetworkMessage
  split
  · exact ⟨rfl, rfl, by simp⟩
  · exact ⟨rfl, rfl, by simp⟩
  · split
    · unfold insertByOrder
      split <;> exact ⟨rfl, rfl, by simp⟩
    · exact ⟨rfl, rfl, by simp⟩

/-- A call of the federate leaves the clocks alone. -/
theorem service_keeps (tm : TimeManagement) {e : RtiaEvent} (service : e.isService = true) :
    KeepsClocks tm (rtia tm e) := by
  by_cases ended : tm.ended = true
  · rw [rtia_ended ended]
    exact ⟨rfl, rfl, by simp⟩
  · rw [rtia_perform (Bool.eq_false_iff.mpr ended)]
    cases e with
    | timeAdvanceRequest date => exact tm.timeAdvanceRequest_keeps date
    | timeAdvanceRequestAvailable date => exact tm.timeAdvanceRequestAvailable_keeps date
    | nextEventRequest date => exact tm.nextEventRequest_keeps date
    | nextEventRequestAvailable date => exact tm.nextEventRequestAvailable_keeps date
    | setLookahead lookahead => exact tm.setLookahead_keeps lookahead
    | setTimeConstrained on => exact tm.setTimeConstrained_keeps on
    | setTimeRegulating on lookahead => exact tm.setTimeRegulating_keeps on lookahead
    | setAsynchronousDelivery on => exact tm.setAsynchronousDelivery_keeps on
    | sendDated date => exact tm.sendDated_keeps date
    | deleteDated date => exact ⟨rfl, rfl, by simp [TimeManagement.perform, deleteDated]⟩
    | tick => exact tm.tick_keeps
    | join self clocks => cases service
    | resign => cases service
    | arrive m => cases service
    | messageNull fed date => cases service
    | regulatorOn fed date => cases service
    | regulatorOff fed => cases service

/-! ## What a join takes in -/

/-- The clocks of a join are put behind those that are there, if no regulator has two. -/
theorem insertClocks_distinct {clocks : List (FederateHandle × Date)}
    (distinct : ((tm.clocks ++ clocks).map Prod.fst).Nodup) :
    (tm.insertClocks clocks).1.clocks = tm.clocks ++ clocks ∧
      (tm.insertClocks clocks).1.isMember = true ∧
      (tm.insertClocks clocks).1.myFederateNumber = tm.myFederateNumber ∧
      (tm.insertClocks clocks).2.sent = [] := by
  induction clocks generalizing tm with
  | nil => exact ⟨by simp [insertClocks], rfl, rfl, rfl⟩
  | cons clock rest ih =>
    obtain ⟨h, date⟩ := clock
    have fresh : ¬tm.toLBTS.existsClock h = true := by
      rw [LBTS.existsClock_iff, not_not, clockOf_eq_none]
      intro listed
      rw [List.map_append, List.nodup_append] at distinct
      exact distinct.2.2 h listed h (by simp) rfl
    have later := @ih { tm with toLBTS :=
      { tm.toLBTS with clocks := tm.clocks ++ [(h, date)] }.compute } (by
        simpa [LBTS.compute] using distinct)
    unfold insertClocks LBTS.insert
    rw [if_neg fresh]
    obtain ⟨clocks, member, self, sent⟩ := later
    exact ⟨by simpa [LBTS.compute] using clocks, member, self, sent⟩

end TimeManagement

/-! ## Messages -/

/-- What the RTIA makes of the clock of one regulator when it takes a message up. -/
def Incoming.moves (g : FederateHandle) (clock : Option Date) : Incoming → Option Date
  | .answer m => m.moves g clock
  | .refusal (.time fed (.setTimeRegulating ..)) =>
    (NetworkMessage.setTimeRegulating fed false 0).moves g clock
  | _ => clock

namespace Station

variable {st st' : Station}

/-- The RTIA takes a message up; nothing but its clocks changes that concerns them. -/
structure Takes (st st' : Station) (m : Incoming) : Prop where
  link : st'.link = st.link
  references : st'.references = st.references
  waiting : st'.waiting = st.waiting
  requests : st'.requests = st.requests
  inbox : st'.inbox = st.inbox
  member : st'.tm.isMember = st.tm.isMember
  self : st'.tm.myFederateNumber = st.tm.myFederateNumber
  clock : ∀ g, clockOf st'.tm.clocks g = m.moves g (clockOf st.tm.clocks g)

/-- The table of clocks changes, or the process ends. -/
theorem takes_orEnd {m : Incoming} {e : RtiaEvent} {result : Except RTIException LBTS}
    (alive : st.tm.ended = false) (does : st.tm.perform e = st.tm.orEnd result)
    (self : ∀ l, result = .ok l → l.myFederateNumber = st.tm.myFederateNumber)
    (clock : ∀ g, clockOf (st.tm.toLBTS.settle result).clocks g =
      m.moves g (clockOf st.tm.clocks g)) : Takes st (st.perform e).1 m := by
  unfold perform
  rw [rtia_perform alive, does]
  cases result with
  | ok l => exact ⟨rfl, rfl, rfl, by simp [TimeManagement.orEnd], rfl, rfl, self l rfl, clock⟩
  | error e => exact ⟨rfl, rfl, rfl, by simp [TimeManagement.orEnd], rfl, rfl, rfl, clock⟩

theorem update_self {l l' : LBTS} {h : FederateHandle} {date : Date}
    (updated : l.update h date = .ok l') : l'.myFederateNumber = l.myFederateNumber := by
  unfold LBTS.update at updated
  split at updated
  · cases updated
    rfl
  · split at updated
    · cases updated
      rfl
    · cases updated

theorem insert_self {l l' : LBTS} {h : FederateHandle} {date : Date}
    (inserted : l.insert h date = .ok l') : l'.myFederateNumber = l.myFederateNumber := by
  unfold LBTS.insert at inserted
  split at inserted
  · cases inserted
  · cases inserted
    rfl

theorem remove_self {l l' : LBTS} {h : FederateHandle}
    (removed : l.remove h = .ok l') : l'.myFederateNumber = l.myFederateNumber := by
  unfold LBTS.remove at removed
  split at removed
  · cases removed
    rfl
  · cases removed

theorem takes_arrive {m : Incoming} (alive : st.tm.ended = false) (q : QueuedMessage)
    (still : ∀ g clock, m.moves g clock = clock) : Takes st (st.perform (.arrive q)).1 m := by
  have keeps := st.tm.processNetworkMessage_keeps q
  unfold perform
  rw [rtia_perform alive]
  change Takes st { st with
    tm := (st.tm.processNetworkMessage q).1
    requests := st.requests ++ (st.tm.processNetworkMessage q).2.sent.map _ } m
  have sent : (st.tm.processNetworkMessage q).2.sent = [] := by
    unfold TimeManagement.processNetworkMessage
    split
    · rfl
    · rfl
    · split <;> rfl
  refine ⟨rfl, rfl, rfl, by simp [sent], rfl, keeps.member, ?_, fun g => ?_⟩
  · exact congrArg LBTS.myFederateNumber keeps.lbts
  · rw [still]
    exact congrArg (fun l : LBTS => clockOf l.clocks g) keeps.lbts

theorem process_takes (alive : st.tm.ended = false) (m : Incoming) :
    Takes st (st.process m).1 m := by
  have unknown : (∀ g clock, m.moves g clock = clock) →
      Takes st { st with tm := { st.tm with ended := true } } m := fun still =>
    ⟨rfl, rfl, rfl, rfl, rfl, rfl, rfl, fun g => (still g _).symm⟩
  unfold process
  cases m with
  | answer m =>
    cases m with
    | messageNull fed date =>
      exact takes_orEnd alive rfl (fun _ => update_self) fun _ => LBTS.update_clock
    | setTimeRegulating fed on date =>
      cases on with
      | true => exact takes_orEnd alive rfl (fun _ => insert_self) fun _ => LBTS.insert_clock
      | false =>
        exact takes_orEnd alive rfl (fun _ => remove_self) fun _ => LBTS.remove_clock date
    | joinFederationExecution fed n => exact unknown fun _ _ => rfl
    | resignFederationExecution fed => exact unknown fun _ _ => rfl
    | discoverObject => exact takes_arrive alive _ fun _ _ => rfl
    | removeObject => exact takes_arrive alive _ fun _ _ => rfl
    | timeRegulationEnabled => exact takes_arrive alive _ fun _ _ => rfl
    | announceSynchronizationPoint => exact takes_arrive alive _ fun _ _ => rfl
    | confirmSynchronizationPointRegistration => exact takes_arrive alive _ fun _ _ => rfl
    | federationSynchronized => exact takes_arrive alive _ fun _ _ => rfl
    | initiateFederateSave => exact takes_arrive alive _ fun _ _ => rfl
    | federationSaved => exact takes_arrive alive _ fun _ _ => rfl
    | federationNotSaved => exact takes_arrive alive _ fun _ _ => rfl
  | dated m => exact takes_arrive alive m fun _ _ => rfl
  | refusal q =>
    cases q with
    | join => exact unknown fun _ _ => rfl
    | time fed m =>
      cases m with
      | setTimeRegulating on date =>
        exact takes_orEnd alive rfl (fun _ => remove_self) fun _ => LBTS.remove_clock 0
      | messageNull => exact unknown fun _ _ => rfl
      | setTimeConstrained => exact unknown fun _ _ => rfl
      | sendDated => exact unknown fun _ _ => rfl
      | deleteDated => exact unknown fun _ _ => rfl
      | resign => exact unknown fun _ _ => rfl

end Station

/-! ## The clocks of a join -/

/-- What comes later does not change which clocks are taken. -/
theorem takeClocks_append {n : Nat} {inbox rest more : List Incoming}
    {clocks : List (FederateHandle × Date)} (taken : takeClocks n inbox = some (clocks, rest)) :
    takeClocks n (inbox ++ more) = some (clocks, rest ++ more) := by
  induction n, inbox using takeClocks.induct generalizing clocks rest with
  | case1 inbox =>
    rw [takeClocks] at taken ⊢
    cases taken
    rfl
  | case2 n => cases taken
  | case3 n fed date rest' ih =>
    simp only [takeClocks, List.cons_append, Option.map_eq_some_iff] at taken ⊢
    obtain ⟨⟨cs, left⟩, below, same⟩ := taken
    cases same
    exact ⟨_, ih below, rfl⟩
  | case4 n m rest' other ih =>
    rw [takeClocks.eq_4 n m rest' other, Option.map_eq_some_iff] at taken
    rw [List.cons_append, takeClocks.eq_4 n m _ other, Option.map_eq_some_iff]
    obtain ⟨⟨cs, left⟩, below, same⟩ := taken
    cases same
    exact ⟨_, ih below, rfl⟩

def Incoming.isNull : Incoming → Bool
  | .answer (.messageNull ..) => true
  | _ => false

/-- The NULL messages that a join is answered with are the first, and all are taken. -/
theorem takeClocks_welcome {before after : List Incoming} (none : ∀ m ∈ before, m.isNull = false)
    (clocks : List (FederateHandle × Date)) :
    takeClocks clocks.length
        (before ++ clocks.map (fun clock => .answer (.messageNull clock.1 clock.2)) ++ after) =
      some (clocks, before ++ after) := by
  induction before with
  | nil =>
    induction clocks with
    | nil =>
      rw [List.length_nil, takeClocks]
      rfl
    | cons clock rest ih =>
      simp only [List.length_cons, List.nil_append, List.map_cons, List.cons_append, takeClocks,
        Option.map_eq_some_iff] at ih ⊢
      exact ⟨_, ih, rfl⟩
  | cons m rest ih =>
    have other : ∀ fed date, m = .answer (.messageNull fed date) → False := by
      intro fed date same
      have isNull := none m List.mem_cons_self
      rw [same] at isNull
      cases isNull
    have below := ih fun m' member => none m' (List.mem_cons_of_mem m member)
    cases clocks with
    | nil =>
      rw [List.length_nil, takeClocks]
      simp
    | cons clock more =>
      simp only [List.cons_append, List.length_cons] at below ⊢
      rw [takeClocks.eq_4 _ m _ other, below]
      rfl

namespace Station

variable {st : Station}

/-- What comes later does not change how a join ends, and is taken up after it. -/
theorem finishJoin_add {st' : Station} {answer : RtiaAnswer}
    (ends : st.finishJoin = some (st', answer)) (more : List Incoming) :
    (st.add more).finishJoin = some (st'.add more, answer) := by
  unfold finishJoin at ends ⊢
  cases found : st.inbox.find? Incoming.isJoinAnswer with
  | none =>
    rw [found] at ends
    cases ends
  | some m =>
    have first : (st.add more).inbox.find? Incoming.isJoinAnswer = some m := by
      simp [add, List.find?_append, found]
    have erased : (st.add more).inbox.eraseP Incoming.isJoinAnswer =
        st.inbox.eraseP Incoming.isJoinAnswer ++ more :=
      List.eraseP_append_left (List.find?_some found) more (List.mem_of_find?_eq_some found)
    rw [found] at ends
    rw [first, erased]
    split at ends
    · cases ends
    · rename_i fed n same
      cases same
      obtain ⟨⟨clocks, rest⟩, taken, result⟩ := Option.map_eq_some_iff.mp ends
      simp only [takeClocks_append taken, Option.map_some, Option.some.injEq]
      rw [← (Prod.mk.inj result).1, ← (Prod.mk.inj result).2]
      rfl
    · cases ends
      rfl

end Station

end Certi
