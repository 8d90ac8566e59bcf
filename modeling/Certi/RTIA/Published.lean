import Certi.RTIA.Stranded

/-!
# The bound a regulating federate publishes

A regulating federate publishes the date its regulation was enabled with and
the dates of its NULL messages. Whether a NULL message goes out depends on the
last one ever sent, also on one sent before regulation was last enabled.
-/
namespace Certi

open Runs TimeManagement

/-- The dates sent to the RTIG since regulation was enabled, that of the enabling first. -/
def publish (dates : List Date) : ToRtig → List Date
  | .setTimeRegulating true date => [date]
  | .setTimeRegulating false _ => []
  | .messageNull date => dates ++ [date]
  | _ => dates

def published (past : List (RtiaEvent × RtiaAnswer)) : List Date :=
  (past.flatMap fun entry => entry.2.sent).foldl publish []

/-- The date that a TAR or TARA of a regulating federate asks for, if it is accepted. -/
def TimeManagement.regulatedRequest (tm : TimeManagement) : RtiaEvent → Option Date
  | .timeAdvanceRequest date | .timeAdvanceRequestAvailable date =>
    if tm.ended = false ∧ tm.isRegulating = true ∧ tm.requestError date = none then some date
    else none
  | _ => none

/-- The lookahead a NULL message of the request adds: TAR takes zero for `epsilon2`. -/
def TimeManagement.effectiveLookahead (tm : TimeManagement) : RtiaEvent → Date
  | .timeAdvanceRequest _ => if tm.lookaheadCourant = 0 then epsilon2 else tm.lookaheadCourant
  | _ => tm.lookaheadCourant

/-- A request promises more than the last NULL message ever sent, or a NULL message has been sent
since regulation was enabled, or the enabling has conceded the request already. -/
def Renews (s : List (RtiaEvent × RtiaAnswer) × TimeManagement) (e : RtiaEvent) : Prop :=
  ∀ date ∈ s.2.regulatedRequest e,
    s.2.lastNullMessageDate < date + s.2.effectiveLookahead e ∨
      (published s.1).tail ≠ [] ∨
      ∃ enabled ∈ (published s.1).head?, date + s.2.lookaheadCourant ≤ enabled

instance (s : List (RtiaEvent × RtiaAnswer) × TimeManagement) (e : RtiaEvent) :
    Decidable (Renews s e) :=
  inferInstanceAs (Decidable (∀ date ∈ s.2.regulatedRequest e, _ ∨ _ ∨ _))

/-- No answer of the run enables or disables regulation. -/
def StaysRegulating (past : List (RtiaEvent × RtiaAnswer)) : Prop :=
  ∀ entry ∈ past, ∀ on date, .setTimeRegulating on date ∉ entry.2.sent

/-- The request is conceded by what has been published since regulation was enabled, at once and
for as long as the federate keeps regulating. -/
def KeepsUp (start : TimeManagement) (es : List RtiaEvent) : Prop :=
  ∀ before e during after, es = before ++ e :: (during ++ after) →
    StaysRegulating (rtia.trace (rtia (rtia.exec start before) e).1 during) →
    ∀ date ∈ (rtia.exec start before).regulatedRequest e,
      ∃ sent ∈ published (rtia.trace start (before ++ e :: during)),
        date + (rtia.exec start before).lookaheadCourant ≤ sent

/-! ## What an event publishes -/

/-- The four things an event may do to what is published. -/
inductive Announces (tm : TimeManagement) (r : TimeManagement × RtiaAnswer) : Prop where
  | silent (sent : ∀ dates, r.2.sent.foldl publish dates = dates)
      (regulating : r.1.isRegulating = tm.isRegulating)
      (last : r.1.lastNullMessageDate = tm.lastNullMessageDate)
  | null (date : Date) (sent : r.2.sent = [.messageNull date])
      (regulating : r.1.isRegulating = tm.isRegulating)
      (last : r.1.lastNullMessageDate = date)
  | enables (date : Date) (sent : r.2.sent = [.setTimeRegulating true date])
  | disables (sent : ∀ dates, r.2.sent.foldl publish dates = [])
      (regulating : r.1.isRegulating = false)

theorem Announces.nothing {tm : TimeManagement} {r : TimeManagement × RtiaAnswer}
    (sent : r.2.sent = []) (regulating : r.1.isRegulating = tm.isRegulating)
    (last : r.1.lastNullMessageDate = tm.lastNullMessageDate) : Announces tm r :=
  .silent (fun dates => by rw [sent]; rfl) regulating last

/-- Sending a NULL message, whatever else the event changes and calls. -/
theorem Announces.ofSend {tm tm' : TimeManagement} (start : TimeManagement) {date : Date}
    {answer : RtiaAnswer} {r : TimeManagement × List ToRtig} (sends : r = start.sendNullIfRegulating date)
    (sent : answer.sent = r.2) (regulating : tm'.isRegulating = r.1.isRegulating)
    (last : tm'.lastNullMessageDate = r.1.lastNullMessageDate)
    (same : start.isRegulating = tm.isRegulating ∧
      start.lastNullMessageDate = tm.lastNullMessageDate) : Announces tm (tm', answer) := by
  subst sends
  unfold sendNullIfRegulating sendNullMessage at sent regulating last
  split at sent
  · rename_i on
    rw [if_pos on] at regulating last
    split at sent
    · rename_i more
      rw [if_pos more] at regulating last
      exact .null _ sent (regulating.trans same.1) last
    · rename_i less
      rw [if_neg less] at regulating last
      exact .nothing sent (regulating.trans same.1) (last.trans same.2)
  · rename_i off
    rw [if_neg off] at regulating last
    exact .nothing sent (regulating.trans same.1) (last.trans same.2)

theorem insertClocks_announces (tm : TimeManagement) (clocks : List (FederateHandle × Date)) :
    Announces tm (tm.insertClocks clocks) := by
  induction clocks generalizing tm with
  | nil => exact .nothing rfl rfl rfl
  | cons c rest ih =>
    rw [insertClocks]
    split
    · rename_i l _
      cases ih { tm with toLBTS := l } with
      | silent sent regulating last => exact .silent sent regulating last
      | null date sent regulating last => exact .null date sent regulating last
      | enables date sent => exact .enables date sent
      | disables sent regulating => exact .disables sent regulating
    · exact .nothing rfl rfl rfl

theorem setTimeRegulating_announces (tm : TimeManagement) (on : Bool) (lookahead : Date) :
    Announces tm (tm.setTimeRegulating on lookahead) := by
  unfold setTimeRegulating
  split
  · exact .nothing rfl rfl rfl
  · cases on with
    | true => exact .enables _ rfl
    | false => exact .disables (fun _ => rfl) rfl

theorem assumeLookahead_same (tm : TimeManagement) :
    tm.assumeLookahead.isRegulating = tm.isRegulating ∧
      tm.assumeLookahead.lastNullMessageDate = tm.lastNullMessageDate := by
  unfold assumeLookahead
  split
  · exact ⟨rfl, rfl⟩
  · exact ⟨rfl, rfl⟩

theorem tick_announces (tm : TimeManagement) : Announces tm tm.tick := by
  have advanced : Announces tm tm.timeAdvance := by
    unfold timeAdvance
    split
    · simp only
      split
      · exact .nothing rfl rfl rfl
      · split
        · exact .nothing rfl rfl rfl
        · exact .nothing rfl rfl rfl
    · exact .nothing rfl rfl rfl
  have next : Announces tm tm.nextEventAdvance := by
    unfold nextEventAdvance
    split
    · simp only
      split
      · unfold reach
        split
        · exact .ofSend { tm with dateAvancee := tm.dateMin } rfl
            (List.append_nil _) rfl rfl ⟨rfl, rfl⟩
        · exact .ofSend { tm with dateAvancee := tm.dateMin } rfl
            (List.append_nil _) rfl rfl ⟨rfl, rfl⟩
      · exact .ofSend tm rfl rfl rfl rfl ⟨rfl, rfl⟩
    · exact .ofSend tm rfl (List.append_nil _) rfl rfl ⟨rfl, rfl⟩
  unfold tick
  split
  · exact .nothing rfl rfl rfl
  · split
    · exact .nothing rfl rfl rfl
    · unfold advance
      split
      · exact advanced
      · exact advanced
      · exact next
      · exact next
      · exact .nothing rfl rfl rfl

theorem perform_announces (tm : TimeManagement) (e : RtiaEvent) :
    Announces tm (tm.perform e) := by
  have refused : ∀ x, Announces tm (tm.refuse x) := fun _ => .nothing rfl rfl rfl
  have ended : ∀ result : Except RTIException LBTS, Announces tm (tm.orEnd result) := by
    intro result
    cases result with
    | ok l => exact .nothing rfl rfl rfl
    | error x => exact .nothing rfl rfl rfl
  cases e with
  | timeAdvanceRequest date =>
    change Announces tm (tm.timeAdvanceRequest date)
    unfold timeAdvanceRequest
    split
    · exact refused _
    · exact .ofSend tm.assumeLookahead rfl rfl rfl rfl (assumeLookahead_same tm)
  | timeAdvanceRequestAvailable date =>
    change Announces tm (tm.timeAdvanceRequestAvailable date)
    unfold timeAdvanceRequestAvailable
    split
    · exact refused _
    · exact .ofSend { tm with typeGrantedState := .afterTaraOrNera } rfl rfl rfl rfl
        ⟨rfl, rfl⟩
  | nextEventRequest date =>
    change Announces tm (tm.nextEventRequest date)
    unfold nextEventRequest
    split
    · exact refused _
    · exact .nothing rfl (assumeLookahead_same tm).1 (assumeLookahead_same tm).2
  | nextEventRequestAvailable date =>
    change Announces tm (tm.nextEventRequestAvailable date)
    unfold nextEventRequestAvailable
    split
    · exact .nothing rfl rfl rfl
    · exact .nothing rfl rfl rfl
  | setLookahead lookahead =>
    change Announces tm (tm.setLookahead lookahead)
    unfold setLookahead
    split
    · exact refused _
    · split
      · exact refused _
      · exact .ofSend { tm with lookaheadCourant := lookahead } rfl rfl rfl rfl
          ⟨rfl, rfl⟩
  | setTimeConstrained on =>
    change Announces tm (tm.setTimeConstrained on)
    unfold setTimeConstrained
    split
    · exact refused _
    · exact .silent (fun _ => rfl) rfl rfl
  | setTimeRegulating on lookahead => exact setTimeRegulating_announces tm on lookahead
  | setAsynchronousDelivery on =>
    change Announces tm (tm.setAsynchronousDelivery on)
    unfold setAsynchronousDelivery
    split
    · exact refused _
    · exact .nothing rfl rfl rfl
  | sendDated date =>
    change Announces tm (tm.sendDated date)
    unfold sendDated
    split
    · exact .silent (fun _ => rfl) rfl rfl
    · exact refused _
  | deleteDated date => exact .silent (fun _ => rfl) rfl rfl
  | join self clocks =>
    change Announces tm (tm.join self clocks)
    unfold join
    split
    · exact refused _
    · cases insertClocks_announces { tm with toLBTS := tm.toLBTS.setFederate self } clocks with
      | silent sent regulating last => exact .silent sent regulating last
      | null date sent regulating last => exact .null date sent regulating last
      | enables date sent => exact .enables date sent
      | disables sent regulating => exact .disables sent regulating
  | resign =>
    change Announces tm tm.resign
    unfold resign
    split
    · simp only
      split
      · rename_i on
        have allowed : ¬ (tm.stopperAvanceTemps.isRegulating = false ∨
            tm.stopperAvanceTemps.avanceeEnCours ≠ .pasDAvancee) := by
          simp [stopperAvanceTemps] at on ⊢
          exact on
        unfold setTimeRegulating
        rw [if_neg allowed]
        exact .disables (fun _ => rfl) rfl
      · exact .silent (fun _ => rfl) rfl rfl
    · exact refused _
  | arrive m =>
    change Announces tm (tm.processNetworkMessage m)
    unfold processNetworkMessage insertByOrder
    split
    · exact .nothing rfl rfl rfl
    · exact .nothing rfl rfl rfl
    · split
      · split
        · exact .nothing rfl rfl rfl
        · exact .nothing rfl rfl rfl
      · exact .nothing rfl rfl rfl
  | messageNull fed date => exact ended _
  | regulatorOn fed date => exact ended _
  | regulatorOff fed => exact ended _
  | tick => exact tick_announces tm

/-! ## Runs -/

theorem published_append (past later : List (RtiaEvent × RtiaAnswer)) :
    published (past ++ later) =
      (later.flatMap fun entry => entry.2.sent).foldl publish (published past) := by
  simp [published]

/-- While a federate is regulating, the last NULL message is among those sent since it was
enabled, if there are any. -/
structure Publishes (past : List (RtiaEvent × RtiaAnswer)) (tm : TimeManagement) : Prop where
  enabled : tm.isRegulating = true → published past ≠ []
  last : tm.isRegulating = true → (published past).tail ≠ [] →
    tm.lastNullMessageDate ∈ (published past).tail

theorem publishes_step {past : List (RtiaEvent × RtiaAnswer)} {tm : TimeManagement}
    (publishes : Publishes past tm) (e : RtiaEvent) :
    Publishes (past ++ [(e, (rtia tm e).2)]) (rtia tm e).1 := by
  have announces : Announces tm (rtia tm e) := by
    by_cases stopped : tm.ended = true
    · rw [rtia_ended stopped]
      exact .nothing rfl rfl rfl
    · rw [rtia_perform (by simpa using stopped)]
      exact perform_announces tm e
  have grows : published (past ++ [(e, (rtia tm e).2)]) =
      (rtia tm e).2.sent.foldl publish (published past) := by
    simp [published_append]
  cases announces with
  | silent sent regulating last =>
    rw [sent] at grows
    refine ⟨?_, ?_⟩
    · rw [grows, regulating]
      exact publishes.enabled
    · rw [grows, regulating, last]
      exact publishes.last
  | null date sent regulating last =>
    rw [sent] at grows
    have grown : published (past ++ [(e, (rtia tm e).2)]) = published past ++ [date] := grows
    refine ⟨fun _ => by rw [grown]; simp, fun on _ => ?_⟩
    rw [regulating] at on
    rw [grown, last]
    cases before : published past with
    | nil => exact absurd before (publishes.enabled on)
    | cons first rest => simp
  | enables date sent =>
    rw [sent] at grows
    have grown : published (past ++ [(e, (rtia tm e).2)]) = [date] := grows
    refine ⟨fun _ => by rw [grown]; simp, fun _ more => ?_⟩
    rw [grown] at more
    exact absurd rfl more
  | disables sent regulating =>
    constructor
    · intro on
      rw [regulating] at on
      cases on
    · intro on
      rw [regulating] at on
      cases on

theorem publishes_run (granted : TypeGrantedState) (es : List RtiaEvent) :
    Publishes (rtia.trace (create granted) es) (rtia.exec (create granted) es) := by
  have start : Publishes [] (create granted) := by
    constructor
    · intro on
      cases on
    · intro on
      cases on
  exact rtia.trace_always (p := Publishes) (fun past tm e publishes => publishes_step publishes e) start es

/-- A NULL message goes out with the request exactly if it promises more than the last one. -/
theorem regulatedRequest_sends {tm : TimeManagement} {e : RtiaEvent} {date : Date}
    (request : date ∈ tm.regulatedRequest e) :
    (rtia tm e).2.sent =
      if tm.lastNullMessageDate < date + tm.effectiveLookahead e then
        [.messageNull (date + tm.effectiveLookahead e)]
      else [] := by
  have sends : ∀ (start : TimeManagement) (lookahead : Date),
      start.isRegulating = true → start.lastNullMessageDate = tm.lastNullMessageDate →
      start.lookaheadCourant = lookahead →
      (start.sendNullIfRegulating date).2 =
        if tm.lastNullMessageDate < date + lookahead then [.messageNull (date + lookahead)]
        else [] := by
    intro start lookahead on last same
    unfold sendNullIfRegulating sendNullMessage
    rw [if_pos on, last, same]
    split
    · rfl
    · rfl
  cases e with
  | timeAdvanceRequest asked =>
    simp only [regulatedRequest] at request
    split at request
    · rename_i accepted
      cases request
      obtain ⟨running, on, fine⟩ := accepted
      rw [rtia_perform running]
      simp only [perform, timeAdvanceRequest, fine]
      refine sends tm.assumeLookahead _ ((assumeLookahead_same tm).1.trans on)
        (assumeLookahead_same tm).2 ?_
      unfold assumeLookahead effectiveLookahead
      split
      · rfl
      · rfl
    · cases request
  | timeAdvanceRequestAvailable asked =>
    simp only [regulatedRequest] at request
    split at request
    · rename_i accepted
      cases request
      obtain ⟨running, on, fine⟩ := accepted
      rw [rtia_perform running]
      simp only [perform, timeAdvanceRequestAvailable, fine]
      exact sends { tm with typeGrantedState := .afterTaraOrNera } _ on rfl rfl
    · cases request
  | _ => cases request

theorem regulatedRequest_regulating {tm : TimeManagement} {e : RtiaEvent} {date : Date}
    (request : date ∈ tm.regulatedRequest e) : tm.isRegulating = true := by
  cases e with
  | timeAdvanceRequest asked =>
    simp only [regulatedRequest] at request
    split at request
    · rename_i accepted
      exact accepted.2.1
    · cases request
  | timeAdvanceRequestAvailable asked =>
    simp only [regulatedRequest] at request
    split at request
    · rename_i accepted
      exact accepted.2.1
    · cases request
  | _ => cases request

theorem lookahead_le_effective (tm : TimeManagement) (e : RtiaEvent) :
    tm.lookaheadCourant ≤ tm.effectiveLookahead e := by
  cases e with
  | timeAdvanceRequest date =>
    change _ ≤ if tm.lookaheadCourant = 0 then epsilon2 else tm.lookaheadCourant
    split
    · rename_i zero
      rw [zero]
      decide +kernel
    · exact le_refl _
  | _ => exact le_refl _

/-- The bound is published with the request exactly if the request renews it. -/
theorem renews_iff {past : List (RtiaEvent × RtiaAnswer)} {tm : TimeManagement} {e : RtiaEvent}
    (publishes : Publishes past tm) :
    Renews (past, tm) e ↔ ∀ date ∈ tm.regulatedRequest e,
      ∃ sent ∈ published (past ++ [(e, (rtia tm e).2)]), date + tm.lookaheadCourant ≤ sent := by
  refine forall₂_congr fun date request => ?_
  have grows : published (past ++ [(e, (rtia tm e).2)]) =
      (rtia tm e).2.sent.foldl publish (published past) := by
    simp [published_append]
  have on := regulatedRequest_regulating request
  have enough : date + tm.lookaheadCourant ≤ date + tm.effectiveLookahead e :=
    add_le_add (le_refl date) (lookahead_le_effective tm e)
  rw [regulatedRequest_sends request] at grows
  by_cases more : tm.lastNullMessageDate < date + tm.effectiveLookahead e
  · rw [if_pos more] at grows
    refine ⟨fun _ => ⟨date + tm.effectiveLookahead e, ?_, enough⟩, fun _ => .inl more⟩
    rw [grows]
    simp [publish]
  · rw [if_neg more] at grows
    change published (past ++ [(e, (rtia tm e).2)]) = published past at grows
    rw [grows]
    have conceded : date + tm.lookaheadCourant ≤ tm.lastNullMessageDate :=
      le_trans enough (not_lt.mp more)
    cases dates : published past with
    | nil => exact absurd dates (publishes.enabled on)
    | cons first rest =>
      constructor
      · intro renews
        obtain new | others | ⟨enabled, isFirst, within⟩ := renews
        · exact absurd new more
        · have member := publishes.last on (by rw [dates]; exact others)
          rw [dates] at member
          exact ⟨_, List.mem_cons_of_mem first member, conceded⟩
        · have same : first = enabled := by simpa using isFirst
          exact ⟨first, List.mem_cons_self, by rw [same]; exact within⟩
      · intro found
        obtain ⟨sent, member, within⟩ := found
        cases List.mem_cons.mp member with
        | inl same => exact .inr (.inr ⟨first, by simp, by rw [← same]; exact within⟩)
        | inr later =>
          refine .inr (.inl ?_)
          simp only [List.tail_cons]
          exact List.ne_nil_of_mem later

/-- What has been published stays so while regulation is not switched. -/
theorem published_stays {during : List (RtiaEvent × RtiaAnswer)} (stays : StaysRegulating during)
    (past : List (RtiaEvent × RtiaAnswer)) :
    ∀ date ∈ published past, date ∈ published (past ++ during) := by
  rw [published_append]
  have each : ∀ s ∈ during.flatMap fun entry => entry.2.sent,
      ∀ on date, s ≠ .setTimeRegulating on date := by
    intro s member on date same
    obtain ⟨entry, belongs, sends⟩ := List.mem_flatMap.mp member
    rw [same] at sends
    exact stays entry belongs on date sends
  generalize (during.flatMap fun entry => entry.2.sent) = sent at each
  generalize published past = dates
  induction sent generalizing dates with
  | nil => exact fun _ member => member
  | cons s rest ih =>
    intro date member
    refine ih (fun s' belongs => each s' (List.mem_cons_of_mem s belongs)) _ date ?_
    cases s with
    | messageNull sent => exact List.mem_append_left _ member
    | setTimeRegulating on sent => exact absurd rfl (each _ List.mem_cons_self on sent)
    | _ => exact member

/-- Every accepted TAR or TARA of a regulating federate is conceded by what it has published
exactly if every such request renews what the RTIA has published since regulation was enabled. -/
theorem published_keeps_up_iff (granted : TypeGrantedState) (es : List RtiaEvent) :
    KeepsUp (create granted) es ↔ rtia.recorded.Meets Renews ([], create granted) es := by
  rw [rtia.recorded.meets_iff_each]
  constructor
  · intro keeps before e after split
    rw [rtia.exec_recorded, List.nil_append]
    refine (renews_iff (publishes_run granted before)).mpr fun date request => ?_
    have here := keeps before e [] after split (by intro entry member; cases member) date request
    simpa using here
  · intro renews before e during after split stays date request
    have here := renews before e (during ++ after) split
    rw [rtia.exec_recorded, List.nil_append] at here
    obtain ⟨sent, member, within⟩ :=
      (renews_iff (publishes_run granted before)).mp here date request
    refine ⟨sent, ?_, within⟩
    rw [rtia.trace_append, Machine.trace_cons, ← List.singleton_append, ← List.append_assoc]
    exact published_stays stays _ sent member

/-- Regulation is switched off after an advance to 100, and on again with a lookahead that
promises less than the last NULL message did. -/
def silentRun : List RtiaEvent :=
  [.setTimeRegulating true (10 : FederationTime), .timeAdvanceRequest (100 : FederationTime),
    .tick, .setTimeRegulating false (0 : FederationTime),
    .setTimeRegulating true (1 : FederationTime),
    .timeAdvanceRequest (105 : FederationTime)]

theorem regulation_resumed_silently :
    ¬ ∀ (granted : TypeGrantedState) (es : List RtiaEvent), KeepsUp (create granted) es := by
  intro keeps
  have asked : (105 : Date) ∈ (rtia.exec (create .afterTarOrNer) (silentRun.take 5)).regulatedRequest
      (.timeAdvanceRequest 105) := by
    decide +kernel
  obtain ⟨sent, member, within⟩ := keeps .afterTarOrNer silentRun (silentRun.take 5)
    (.timeAdvanceRequest 105) [] [] rfl (by intro entry none; cases none) 105 asked
  have short : ∀ sent ∈ published (rtia.trace (create .afterTarOrNer) silentRun),
      ¬ 105 + (rtia.exec (create .afterTarOrNer) (silentRun.take 5)).lookaheadCourant ≤ sent := by
    decide +kernel
  exact short sent member within

end Certi
