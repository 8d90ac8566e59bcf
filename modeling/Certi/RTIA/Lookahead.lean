import Mathlib.Tactic.Linarith
import Mathlib.Tactic.NormNum
import Certi.RTIA.Steps

/-!
# The lookahead of the federate

A lookahead of zero is replaced by `epsilon2` while a request for TAR or NER is
pending. Here the lookahead that the federate was last granted by a setter is
noted beside the state of the RTIA, and whether its last request was one of
these two, after which a federate with a lookahead of zero has to send later
than its time.
-/
namespace Certi

open Runs TimeManagement

/-- What the calls of the federate say: the lookahead it set, and whether TAR or NER came last. -/
structure Own where
  lookahead : Date := 0
  strict : Bool := false
  deriving DecidableEq

/-- Resigning switches regulation off, with a lookahead of zero. -/
def Own.note (own : Own) (tm : TimeManagement) (e : RtiaEvent) (answer : RtiaAnswer) : Own :=
  if answer.error ≠ none then own
  else match e with
    | .setLookahead lookahead => { own with lookahead := lookahead }
    | .setTimeRegulating _ lookahead => { own with lookahead := lookahead }
    | .resign => if tm.isRegulating then { own with lookahead := 0 } else own
    | .timeAdvanceRequest _ | .nextEventRequest _ => { own with strict := true }
    | .timeAdvanceRequestAvailable _ | .nextEventRequestAvailable _ => { own with strict := false }
    | _ => own

def owned : Machine (Own × TimeManagement) RtiaEvent RtiaAnswer := fun s e =>
  ((s.1.note s.2 e (rtia s.2 e).2, (rtia s.2 e).1), (rtia s.2 e).2)

namespace TimeManagement

/-- The time that the dates of sent messages are compared with. -/
def sendingTime (tm : TimeManagement) : Date :=
  if tm.avanceeEnCours = .pasDAvancee then tm.heureCourante else tm.dateAvancee

/-- Two ticks call the federate alike and leave the same time. -/
structure TicksAlike (r r' : TimeManagement × RtiaAnswer) : Prop where
  callbacks : r.2.callbacks = r'.2.callbacks
  more : r.2.more = r'.2.more
  heure : r.1.heureCourante = r'.1.heureCourante
  avancee : r.1.avanceeEnCours = r'.1.avanceeEnCours
  date : r.1.dateAvancee = r'.1.dateAvancee
  queues : r.1.queues = r'.1.queues

end TimeManagement

/-- The lookahead is the federate's own: between advances it is the one it set, which no setter
takes for the internal one; and with a lookahead of zero it sends and is granted as if it were
zero, but later than its time after TAR and NER. -/
structure Kept (s : Own × TimeManagement) : Prop where
  between : s.2.avanceeEnCours = .pasDAvancee → s.2.lookaheadCourant = s.1.lookahead
  sound : 0 ≤ s.1.lookahead ∧ s.1.lookahead ≠ epsilon2
  sends : s.1.lookahead = 0 → ∀ date, (s.2.sendDated date).2.error = none ↔
    if s.1.strict then s.2.sendingTime < date else s.2.sendingTime ≤ date
  granted : s.1.lookahead = 0 → TicksAlike s.2.tick { s.2 with lookaheadCourant := 0 }.tick

/-- The state of the last grant tells a zero lookahead exactly after TAR and NER. -/
def Told (strict : Bool) (tm : TimeManagement) : Prop :=
  strict = true ↔ tm.typeGrantedState = .afterTarOrNerWithZeroLk

instance (strict : Bool) (tm : TimeManagement) : Decidable (Told strict tm) :=
  inferInstanceAs (Decidable (_ ↔ _))

/-- The calls that leave the lookahead the federate's own. -/
def LeavesOwn (s : Own × TimeManagement) : RtiaEvent → Prop
  | .setLookahead lookahead => s.2.ended = false → lookahead = 0 → Told s.1.strict s.2
  | .setTimeRegulating on lookahead =>
    s.2.ended = false → s.2.isRegulating ≠ on → s.2.avanceeEnCours = .pasDAvancee →
      0 ≤ lookahead ∧ lookahead ≠ epsilon2 ∧ (lookahead = 0 → Told s.1.strict s.2)
  | .resign => s.2.ended = false → s.2.isMember = true →
      if s.2.isRegulating then Told s.1.strict s.2 else s.2.lookaheadCourant ≠ epsilon2
  | .nextEventRequestAvailable date => s.2.ended = false → s.1.lookahead = 0 →
      if s.2.requestError date = none then
        s.2.typeGrantedState ≠ .afterTarOrNerWithZeroLk
      else s.1.strict = false
  | _ => True

/-! ## What an event does to the lookahead -/

/-- What the lookahead's part of the state depends on is unchanged. -/
structure SameLookahead (before after : TimeManagement) : Prop where
  lookahead : after.lookaheadCourant = before.lookaheadCourant
  avancee : after.avanceeEnCours = before.avanceeEnCours
  type : after.typeGrantedState = before.typeGrantedState

theorem SameLookahead.refl (tm : TimeManagement) : SameLookahead tm tm := ⟨rfl, rfl, rfl⟩

theorem sendNullIfRegulating_lookahead (tm : TimeManagement) (date : Date) :
    SameLookahead tm (tm.sendNullIfRegulating date).1 := by
  obtain ⟨last, state⟩ := tm.sendNullIfRegulating_state date
  rw [state]
  exact ⟨rfl, rfl, rfl⟩

/-- A tick leaves it alone, or ends the advance and gives a lookahead of zero back. -/
structure EndsAdvance (before after : TimeManagement) : Prop where
  lookahead : after.lookaheadCourant =
    if before.lookaheadCourant = epsilon2 then 0 else before.lookaheadCourant
  avancee : after.avanceeEnCours = .pasDAvancee
  type : after.typeGrantedState = before.typeGrantedState

theorem timeAdvance_lookahead (tm : TimeManagement) :
    SameLookahead tm tm.timeAdvance.1 ∨ EndsAdvance tm tm.timeAdvance.1 := by
  unfold timeAdvance
  split
  · simp only
    split
    · exact .inl ⟨rfl, rfl, rfl⟩
    · split
      · exact .inr ⟨rfl, rfl, rfl⟩
      · exact .inl ⟨rfl, rfl, rfl⟩
  · exact .inr ⟨rfl, rfl, rfl⟩

theorem nextEventAdvance_lookahead (tm : TimeManagement) :
    SameLookahead tm tm.nextEventAdvance.1 ∨ EndsAdvance tm tm.nextEventAdvance.1 := by
  unfold nextEventAdvance
  split
  · simp only
    split
    · obtain ⟨last, state⟩ :=
        { tm with dateAvancee := tm.dateMin }.sendNullIfRegulating_state tm.dateMin
      rw [state]
      unfold reach
      simp only
      split
      · exact .inl ⟨rfl, rfl, rfl⟩
      · exact .inr ⟨rfl, rfl, rfl⟩
    · exact .inl (sendNullIfRegulating_lookahead tm tm.lbts)
  · obtain ⟨last, state⟩ := tm.sendNullIfRegulating_state tm.dateAvancee
    simp only [state]
    exact .inr ⟨rfl, rfl, rfl⟩

theorem tick_lookahead (tm : TimeManagement) :
    SameLookahead tm tm.tick.1 ∨ EndsAdvance tm tm.tick.1 := by
  unfold tick
  split
  · exact .inl ⟨rfl, rfl, rfl⟩
  · split
    · exact .inl ⟨rfl, rfl, rfl⟩
    · unfold advance
      split
      · exact timeAdvance_lookahead tm
      · exact timeAdvance_lookahead tm
      · exact nextEventAdvance_lookahead tm
      · exact nextEventAdvance_lookahead tm
      · exact .inl (SameLookahead.refl tm)

theorem insertClocks_lookahead (tm : TimeManagement) (clocks : List (FederateHandle × Date)) :
    SameLookahead tm (tm.insertClocks clocks).1 := by
  induction clocks generalizing tm with
  | nil => exact ⟨rfl, rfl, rfl⟩
  | cons c rest ih =>
    rw [insertClocks]
    split
    · rename_i l _
      have later := ih { tm with toLBTS := l }
      exact ⟨later.lookahead, later.avancee, later.type⟩
    · exact SameLookahead.refl tm

theorem orEnd_lookahead (tm : TimeManagement) (result : Except RTIException LBTS) :
    SameLookahead tm (tm.orEnd result).1 := by
  unfold orEnd
  split
  · exact ⟨rfl, rfl, rfl⟩
  · exact ⟨rfl, rfl, rfl⟩

/-- The events that have nothing to do with it. -/
def Unrelated : RtiaEvent → Prop
  | .setTimeConstrained _ | .setAsynchronousDelivery _ | .sendDated _ | .deleteDated _
  | .join _ _ | .arrive _ | .messageNull _ _ | .regulatorOn _ _ | .regulatorOff _ => True
  | _ => False

theorem perform_lookahead (tm : TimeManagement) {e : RtiaEvent} (unrelated : Unrelated e) :
    SameLookahead tm (tm.perform e).1 := by
  cases e with
  | setTimeConstrained on =>
    cases tm.setTimeConstrained_cases on with
    | inl refused =>
      change SameLookahead tm (tm.setTimeConstrained on).1
      rw [refused]
      exact SameLookahead.refl tm
    | inr switched =>
      change SameLookahead tm (tm.setTimeConstrained on).1
      rw [switched.2.2]
      exact ⟨rfl, rfl, rfl⟩
  | setAsynchronousDelivery on =>
    change SameLookahead tm (tm.setAsynchronousDelivery on).1
    unfold setAsynchronousDelivery
    split
    · exact SameLookahead.refl tm
    · exact ⟨rfl, rfl, rfl⟩
  | sendDated date =>
    change SameLookahead tm (tm.sendDated date).1
    unfold sendDated
    split
    · exact SameLookahead.refl tm
    · exact SameLookahead.refl tm
  | deleteDated date => exact SameLookahead.refl tm
  | join self clocks =>
    change SameLookahead tm (tm.join self clocks).1
    unfold join
    split
    · exact SameLookahead.refl tm
    · have later := insertClocks_lookahead { tm with toLBTS := tm.toLBTS.setFederate self } clocks
      exact ⟨later.lookahead, later.avancee, later.type⟩
  | arrive m =>
    change SameLookahead tm (tm.processNetworkMessage m).1
    unfold processNetworkMessage
    split
    · exact ⟨rfl, rfl, rfl⟩
    · exact ⟨rfl, rfl, rfl⟩
    · split
      · unfold insertByOrder
        split
        · exact ⟨rfl, rfl, rfl⟩
        · exact ⟨rfl, rfl, rfl⟩
      · exact ⟨rfl, rfl, rfl⟩
  | messageNull fed date => exact orEnd_lookahead tm _
  | regulatorOn fed date => exact orEnd_lookahead tm _
  | regulatorOff fed => exact orEnd_lookahead tm _
  | _ => cases unrelated

/-! ## Ticks do not look at it -/

/-- Two states that differ in nothing that a tick reads. -/
structure SameTime (tm tm' : TimeManagement) : Prop where
  lbts : tm'.lbts = tm.lbts
  queues : tm'.queues = tm.queues
  heure : tm'.heureCourante = tm.heureCourante
  avancee : tm'.avanceeEnCours = tm.avanceeEnCours
  date : tm'.dateAvancee = tm.dateAvancee
  constrained : tm'.isConstrained = tm.isConstrained
  asynchronous : tm'.asynchronousDelivery = tm.asynchronousDelivery

section SameTime

variable {tm tm' : TimeManagement} (same : SameTime tm tm')

include same

theorem SameTime.alike {answer answer' : RtiaAnswer} (callbacks : answer.callbacks = answer'.callbacks)
    (more : answer.more = answer'.more) : TicksAlike (tm, answer) (tm', answer') :=
  ⟨callbacks, more, same.heure.symm, same.avancee.symm, same.date.symm, same.queues.symm⟩

theorem SameTime.grant (date : Date) :
    TicksAlike (tm.timeAdvanceGrant date) (tm'.timeAdvanceGrant date) :=
  ⟨rfl, rfl, rfl, rfl, same.date.symm, same.queues.symm⟩

theorem SameTime.deliver (given : QueuedMessage × Bool × Queues)
    (callback : QueuedMessage → Callback) :
    TicksAlike (tm.deliver given callback) (tm'.deliver given callback) :=
  ⟨rfl, rfl, same.heure.symm, same.avancee.symm, same.date.symm, rfl⟩

theorem SameTime.mayGrant (date : Date) (kind : TypeAvancee) :
    tm'.mayGrant date kind = tm.mayGrant date kind := by
  rw [TimeManagement.mayGrant, same.lbts, same.avancee, TimeManagement.mayGrant]

theorem SameTime.sendNull (date date' : Date) :
    SameTime (tm.sendNullIfRegulating date).1 (tm'.sendNullIfRegulating date').1 := by
  obtain ⟨last, state⟩ := tm.sendNullIfRegulating_state date
  obtain ⟨last', state'⟩ := tm'.sendNullIfRegulating_state date'
  rw [state, state']
  exact ⟨same.lbts, same.queues, same.heure, same.avancee, same.date, same.constrained,
    same.asynchronous⟩

theorem SameTime.timeAdvance : TicksAlike tm.timeAdvance tm'.timeAdvance := by
  rw [TimeManagement.timeAdvance, TimeManagement.timeAdvance, same.constrained, same.lbts,
    same.date, same.queues, same.mayGrant]
  by_cases constrained : tm.isConstrained = true
  · rw [if_pos constrained, if_pos constrained]
    simp only
    cases tm.queues.giveTsoMessage (if tm.lbts < tm.dateAvancee then tm.lbts
        else tm.dateAvancee) with
    | some given => exact same.deliver given .tso
    | none =>
      simp only
      by_cases may : tm.mayGrant tm.dateAvancee .tara = true
      · rw [if_pos may, if_pos may]
        exact same.grant _
      · rw [if_neg may, if_neg may]
        exact same.alike rfl rfl
  · rw [if_neg constrained, if_neg constrained]
    exact same.grant _

theorem SameTime.dateMin : tm'.dateMin = tm.dateMin := by
  rw [TimeManagement.dateMin, same.queues, same.date, TimeManagement.dateMin]

theorem SameTime.reach : TicksAlike tm.reach tm'.reach := by
  rw [TimeManagement.reach, TimeManagement.reach, same.queues, same.date]
  cases tm.queues.giveTsoMessage tm.dateAvancee with
  | some given => exact same.deliver given .tso
  | none => exact same.grant _

theorem SameTime.nextEventAdvance : TicksAlike tm.nextEventAdvance tm'.nextEventAdvance := by
  have sent {sent sent' : List ToRtig} {r r' : TimeManagement × RtiaAnswer}
      (alike : TicksAlike r r') : TicksAlike (withSent sent r) (withSent sent' r') :=
    ⟨alike.callbacks, alike.more, alike.heure, alike.avancee, alike.date, alike.queues⟩
  rw [TimeManagement.nextEventAdvance, TimeManagement.nextEventAdvance]
  by_cases constrained : tm.isConstrained = true
  · rw [if_pos constrained, if_pos (same.constrained.trans constrained)]
    simp only [same.dateMin, same.mayGrant]
    by_cases may : tm.mayGrant tm.dateMin .nera = true
    · have moved : SameTime { tm with dateAvancee := tm.dateMin }
          { tm' with dateAvancee := tm.dateMin } :=
        ⟨same.lbts, same.queues, same.heure, same.avancee, rfl, same.constrained,
          same.asynchronous⟩
      rw [if_pos may, if_pos may]
      exact sent (moved.sendNull tm.dateMin tm.dateMin).reach
    · rw [if_neg may, if_neg may]
      exact (same.sendNull tm.lbts tm'.lbts).alike rfl rfl
  · rw [if_neg constrained, if_neg (by rwa [same.constrained])]
    have next := same.sendNull tm.dateAvancee tm.dateAvancee
    simp only [same.date, next.date]
    exact sent (next.grant _)

theorem SameTime.tick : TicksAlike tm.tick tm'.tick := by
  have gives : tm'.mayGiveFifo = tm.mayGiveFifo := by
    rw [mayGiveFifo, same.asynchronous, same.avancee, same.constrained, mayGiveFifo]
  rw [TimeManagement.tick, TimeManagement.tick, same.queues, gives]
  cases tm.queues.giveCommandMessage with
  | some given => exact same.deliver given .command
  | none =>
    simp only
    cases if tm.mayGiveFifo = true then tm.queues.giveFifoMessage else none with
    | some given => exact same.deliver given .fifo
    | none =>
      simp only [TimeManagement.advance, same.avancee]
      cases tm.avanceeEnCours with
      | tar => exact same.timeAdvance
      | tara => exact same.timeAdvance
      | ner => exact same.nextEventAdvance
      | nera => exact same.nextEventAdvance
      | pasDAvancee => exact same.alike rfl rfl

end SameTime

theorem tick_alike (tm : TimeManagement) (lookahead : Date) :
    TicksAlike tm.tick { tm with lookaheadCourant := lookahead }.tick := by
  have same : SameTime tm { tm with lookaheadCourant := lookahead } :=
    ⟨rfl, rfl, rfl, rfl, rfl, rfl, rfl⟩
  exact same.tick

/-! ## Sending -/

theorem sendDated_iff (tm : TimeManagement) (date : Date) :
    (tm.sendDated date).2.error = none ↔
      if tm.typeGrantedState = .afterTarOrNerWithZeroLk then tm.sendingTime < date
      else tm.sendingTime + tm.lookaheadCourant ≤ date := by
  have valid : (tm.sendDated date).2.error = none ↔ tm.testValidTime date = true := by
    rw [sendDated]
    split
    · rename_i passes
      simp [passes]
    · rename_i fails
      simp [refuse, fails]
  rw [valid, testValidTime, sendingTime]
  split
  · simp
  · simp

/-- With a lookahead of zero or `epsilon2`, sending tells the two apart. -/
theorem sends_iff {tm : TimeManagement} {strict : Bool} (zero : tm.lookaheadCourant = 0) :
    (∀ date, (tm.sendDated date).2.error = none ↔
      if strict then tm.sendingTime < date else tm.sendingTime ≤ date) ↔ Told strict tm := by
  simp only [sendDated_iff, zero, add_zero, Told]
  constructor
  · intro sends
    have here := sends tm.sendingTime
    cases strict with
    | true =>
      simp only [if_true, lt_irrefl, iff_false] at here
      by_contra told
      have other : tm.typeGrantedState ≠ .afterTarOrNerWithZeroLk := by simpa using told
      rw [if_neg other] at here
      exact here (le_refl _)
    | false =>
      simp only [Bool.false_eq_true, if_false, le_refl, iff_true] at here
      simp only [Bool.false_eq_true, false_iff]
      intro type
      rw [if_pos type] at here
      exact lt_irrefl _ here
  · intro told date
    cases strict with
    | true => rw [if_pos (told.mp rfl), if_pos rfl]
    | false =>
      have other : tm.typeGrantedState ≠ .afterTarOrNerWithZeroLk := by
        intro type
        cases told.mpr type
      rw [if_neg other, if_neg (by decide)]

/-- After TAR or NER, a positive lookahead that is not told as zero is not zero. -/
theorem sends_epsilon {tm : TimeManagement} (internal : tm.lookaheadCourant = epsilon2)
    (other : tm.typeGrantedState ≠ .afterTarOrNerWithZeroLk) :
    ¬ ∀ date, (tm.sendDated date).2.error = none ↔ tm.sendingTime < date := by
  simp only [sendDated_iff, internal, if_neg other]
  intro sends
  cases time : tm.sendingTime using WithTop.recTopCoe with
  | top =>
    have never := (sends ⊤).mp (by rw [time]; exact le_top)
    rw [time] at never
    exact lt_irrefl _ never
  | coe t =>
    have soon : (t : Date) < ((t + 1 / 20000 : FederationTime) : Date) := by
      rw [WithTop.coe_lt_coe]
      linarith
    have late := (sends ((t + 1 / 20000 : FederationTime) : Date)).mpr (by rw [time]; exact soon)
    rw [time, epsilon2, ← WithTop.coe_add, WithTop.coe_le_coe] at late
    linarith

/-! ## Runs -/

/-- What runs keep: the lookahead is the federate's own, or stands for zero until the grant. -/
structure OwnInvariant (s : Own × TimeManagement) : Prop where
  sound : 0 ≤ s.1.lookahead ∧ s.1.lookahead ≠ epsilon2
  current : s.2.lookaheadCourant = s.1.lookahead ∨
    s.2.avanceeEnCours ≠ .pasDAvancee ∧ s.2.lookaheadCourant = epsilon2 ∧ s.1.lookahead = 0 ∧
      s.2.typeGrantedState = .afterTarOrNerWithZeroLk
  told : s.1.lookahead = 0 → Told s.1.strict s.2

theorem OwnInvariant.idle {s : Own × TimeManagement} (inv : OwnInvariant s)
    (idle : s.2.avanceeEnCours = .pasDAvancee) : s.2.lookaheadCourant = s.1.lookahead := by
  rcases inv.current with same | ⟨pending, -⟩
  · exact same
  · exact absurd idle pending

theorem OwnInvariant.kept {s : Own × TimeManagement} (inv : OwnInvariant s) : Kept s where
  between := inv.idle
  sound := inv.sound
  sends := by
    intro zero
    rcases inv.current with same | ⟨-, -, -, type⟩
    · exact (sends_iff (same.trans zero)).mpr (inv.told zero)
    · intro date
      rw [sendDated_iff, if_pos type, if_pos ((inv.told zero).mpr type)]
  granted := fun _ => tick_alike s.2 0

theorem OwnInvariant.same {own : Own} {tm tm' : TimeManagement} (inv : OwnInvariant (own, tm))
    (same : SameLookahead tm tm') : OwnInvariant (own, tm') where
  sound := inv.sound
  current := by
    rw [same.lookahead, same.avancee, same.type]
    exact inv.current
  told := by
    intro zero
    rw [Told, same.type]
    exact inv.told zero

theorem Kept.told {own : Own} {tm : TimeManagement} (kept : Kept (own, tm))
    (zero : own.lookahead = 0) (current : tm.lookaheadCourant = 0) : Told own.strict tm :=
  (sends_iff current).mp (kept.sends zero)

theorem epsilon2_ne_zero : epsilon2 ≠ 0 := by
  intro zero
  rw [epsilon2, WithTop.coe_eq_zero] at zero
  norm_num at zero

theorem note_unrelated {own : Own} {tm : TimeManagement} {e : RtiaEvent} {answer : RtiaAnswer}
    (unrelated : Unrelated e) : own.note tm e answer = own := by
  cases e with
  | _ => first | (simp [Own.note]; done) | cases unrelated

theorem note_refused (own : Own) (tm : TimeManagement) (e : RtiaEvent) (x : RTIException) :
    own.note tm e (tm.refuse x).2 = own := by
  simp [Own.note, refuse]

/-- An accepted TAR or NER. -/
theorem assumed_invariant {own : Own} {tm tm' : TimeManagement} {kind : TypeAvancee} {date : Date}
    (inv : OwnInvariant (own, tm)) (idle : tm.avanceeEnCours = .pasDAvancee)
    (real : kind ≠ .pasDAvancee) (same : SameLookahead tm.assumeLookahead tm') :
    OwnInvariant ({ own with strict := true }, tm'.await kind date) where
  sound := inv.sound
  current := by
    have current := inv.idle idle
    by_cases zero : tm.lookaheadCourant = 0
    · right
      refine ⟨real, ?_, current.symm.trans zero, ?_⟩
      · rw [await, same.lookahead, assumeLookahead, if_pos zero]
      · rw [await, same.type, assumeLookahead, if_pos zero]
    · left
      rw [await, same.lookahead, assumeLookahead, if_neg zero]
      exact current
  told := by
    intro zero
    have current : tm.lookaheadCourant = 0 := (inv.idle idle).trans zero
    rw [Told, await, same.type, assumeLookahead, if_pos current]
    simp

theorem tick_invariant {own : Own} {tm : TimeManagement} (inv : OwnInvariant (own, tm)) :
    OwnInvariant (own, tm.tick.1) := by
  rcases tick_lookahead tm with same | ends
  · exact inv.same same
  · constructor
    · exact inv.sound
    · left
      rw [ends.lookahead]
      rcases inv.current with current | ⟨-, internal, zero, -⟩
      · have other : tm.lookaheadCourant ≠ epsilon2 := by
          rw [current]
          exact inv.sound.2
        rw [if_neg other]
        exact current
      · rw [if_pos internal]
        exact zero.symm
    · intro zero
      rw [Told, ends.type]
      exact inv.told zero

/-- A setter sets the lookahead and nothing else that matters. -/
theorem set_invariant_iff (own : Own) (tm tm' : TimeManagement) (lookahead : Date)
    (set : tm'.lookaheadCourant = lookahead) (type : tm'.typeGrantedState = tm.typeGrantedState) :
    (Kept ({ own with lookahead := lookahead }, tm') ↔
        0 ≤ lookahead ∧ lookahead ≠ epsilon2 ∧ (lookahead = 0 → Told own.strict tm)) ∧
      (0 ≤ lookahead ∧ lookahead ≠ epsilon2 ∧ (lookahead = 0 → Told own.strict tm) →
        OwnInvariant ({ own with lookahead := lookahead }, tm')) := by
  have told : Told own.strict tm' ↔ Told own.strict tm := by rw [Told, Told, type]
  have keeps : 0 ≤ lookahead ∧ lookahead ≠ epsilon2 ∧ (lookahead = 0 → Told own.strict tm) →
      OwnInvariant ({ own with lookahead := lookahead }, tm') := by
    rintro ⟨positive, other, zero⟩
    exact ⟨⟨positive, other⟩, .inl set, fun none => told.mpr (zero none)⟩
  refine ⟨⟨?_, fun leaves => (keeps leaves).kept⟩, keeps⟩
  intro kept
  refine ⟨kept.sound.1, kept.sound.2, fun none => told.mp ?_⟩
  exact kept.told none (set.trans none)

/-- What an event of a running process leads to, in one half of the step. -/
def Leads (own : Own) (tm : TimeManagement) (e : RtiaEvent) (s : Own × TimeManagement) : Prop :=
  (Kept s ↔ LeavesOwn (own, tm) e) ∧ (LeavesOwn (own, tm) e → OwnInvariant s)

theorem Leads.of_invariant {own : Own} {tm : TimeManagement} {e : RtiaEvent}
    {s : Own × TimeManagement} (inv : OwnInvariant s) (leaves : LeavesOwn (own, tm) e) :
    Leads own tm e s :=
  ⟨iff_of_true inv.kept leaves, fun _ => inv⟩

theorem resign_leads {own : Own} {tm : TimeManagement} (inv : OwnInvariant (own, tm))
    (running : tm.ended = false) :
    Leads own tm .resign (own.note tm .resign tm.resign.2, tm.resign.1) := by
  by_cases member : tm.isMember = true
  · by_cases regulating : tm.isRegulating = true
    · have off : tm.stopperAvanceTemps.setTimeRegulating false 0 =
          ({ tm.stopperAvanceTemps with isRegulating := false, lookaheadCourant := 0 },
            { sent := [.setTimeRegulating false (tm.heureCourante + 0)] }) := by
        rw [setTimeRegulating, if_neg (by simp [stopperAvanceTemps, regulating])]
        rfl
      have resigned : tm.resign =
          ({ tm with
              avanceeEnCours := .pasDAvancee
              isRegulating := false
              lookaheadCourant := 0
              isMember := false },
            { sent := [.setTimeRegulating false (tm.heureCourante + 0), .resign] }) := by
        have regulating' : tm.stopperAvanceTemps.isRegulating = true := regulating
        rw [TimeManagement.resign, if_pos member]
        simp only [regulating', if_true, off]
        rfl
      have noted : own.note tm .resign tm.resign.2 = { own with lookahead := 0 } := by
        simp [Own.note, resigned, regulating]
      have both := set_invariant_iff own tm tm.resign.1 0 (by rw [resigned]) (by rw [resigned])
      have leaves : LeavesOwn (own, tm) .resign ↔ Told own.strict tm := by
        simp only [LeavesOwn, running, member, regulating, true_imp_iff, if_true]
      have zero : ((0 : Date) ≤ 0 ∧ (0 : Date) ≠ epsilon2 ∧ ((0 : Date) = 0 → Told own.strict tm)) ↔
          Told own.strict tm := by
        simp [epsilon2_ne_zero.symm]
      rw [zero] at both
      rw [Leads, noted, leaves]
      exact both
    · have resigned : tm.resign =
          ({ tm with
              avanceeEnCours := .pasDAvancee
              isRegulating := false
              isMember := false }, { sent := [.resign] }) := by
        have off : tm.isRegulating = false := by simpa using regulating
        have regulating' : tm.stopperAvanceTemps.isRegulating = false := off
        rw [TimeManagement.resign, if_pos member]
        simp only [regulating', Bool.false_eq_true, if_false]
        rfl
      have noted : own.note tm .resign tm.resign.2 = own := by
        simp [Own.note, resigned, regulating]
      have leaves : LeavesOwn (own, tm) .resign ↔ tm.lookaheadCourant ≠ epsilon2 := by
        simp only [LeavesOwn, running, member, regulating, true_imp_iff]
        simp
      rw [Leads, noted, leaves, resigned]
      have keeps : tm.lookaheadCourant ≠ epsilon2 → OwnInvariant (own, { tm with
          avanceeEnCours := .pasDAvancee
          isRegulating := false
          isMember := false }) := by
        intro other
        refine ⟨inv.sound, .inl ?_, inv.told⟩
        rcases inv.current with same | ⟨-, internal, -⟩
        · exact same
        · exact absurd internal other
      refine ⟨⟨?_, fun other => (keeps other).kept⟩, keeps⟩
      intro kept internal
      have same := kept.between rfl
      exact inv.sound.2 (same.symm.trans internal)
  · have refused : tm.resign = tm.refuse .federateNotExecutionMember := by
      rw [TimeManagement.resign, if_neg member]
    rw [refused, note_refused]
    apply Leads.of_invariant inv
    intro _ joined
    exact absurd joined member

theorem setLookahead_leads {own : Own} {tm : TimeManagement} (inv : OwnInvariant (own, tm))
    (running : tm.ended = false) (lookahead : Date) :
    Leads own tm (.setLookahead lookahead)
      (own.note tm (.setLookahead lookahead) (tm.setLookahead lookahead).2,
        (tm.setLookahead lookahead).1) := by
  have leaves : LeavesOwn (own, tm) (.setLookahead lookahead) ↔
      (lookahead = 0 → Told own.strict tm) := by
    simp only [LeavesOwn, running, true_imp_iff]
  by_cases internal : lookahead = epsilon2
  · have refused : tm.setLookahead lookahead = tm.refuse .rtiInternalError := by
      rw [setLookahead, if_pos internal]
    rw [refused, note_refused]
    apply Leads.of_invariant inv
    rw [leaves]
    intro zero
    exact absurd (internal.symm.trans zero) epsilon2_ne_zero
  by_cases negative : lookahead < 0
  · have refused : tm.setLookahead lookahead = tm.refuse .invalidLookahead := by
      rw [setLookahead, if_neg internal, if_pos negative]
    rw [refused, note_refused]
    apply Leads.of_invariant inv
    rw [leaves]
    intro zero
    exact absurd negative (by rw [zero]; exact lt_irrefl _)
  · have accepted : tm.setLookahead lookahead =
        (({ tm with lookaheadCourant := lookahead }.sendNullIfRegulating tm.heureCourante).1,
          { sent := ({ tm with lookaheadCourant := lookahead }.sendNullIfRegulating
              tm.heureCourante).2 }) := by
      rw [setLookahead, if_neg internal, if_neg negative]
    have noted : own.note tm (.setLookahead lookahead) (tm.setLookahead lookahead).2 =
        { own with lookahead := lookahead } := by
      simp [Own.note, accepted]
    have same := sendNullIfRegulating_lookahead { tm with lookaheadCourant := lookahead }
      tm.heureCourante
    have both := set_invariant_iff own tm (tm.setLookahead lookahead).1 lookahead
      (by rw [accepted]; exact same.lookahead)
      (by rw [accepted]; exact same.type)
    simp only [not_lt.mp negative, ne_eq, internal, not_false_eq_true, true_and] at both
    rw [Leads, noted, leaves]
    exact both

theorem setTimeRegulating_leads {own : Own} {tm : TimeManagement} (inv : OwnInvariant (own, tm))
    (running : tm.ended = false) (on : Bool) (lookahead : Date) :
    Leads own tm (.setTimeRegulating on lookahead)
      (own.note tm (.setTimeRegulating on lookahead) (tm.setTimeRegulating on lookahead).2,
        (tm.setTimeRegulating on lookahead).1) := by
  by_cases refuses : tm.isRegulating = on ∨ tm.avanceeEnCours ≠ .pasDAvancee
  · have refused : tm.setTimeRegulating on lookahead = tm.refuse .rtiInternalError := by
      rw [setTimeRegulating, if_pos refuses]
    rw [refused, note_refused]
    apply Leads.of_invariant inv
    intro _ other idle
    rcases refuses with same | pending
    · exact absurd same other
    · exact absurd idle pending
  · have accepted : tm.setTimeRegulating on lookahead =
        ({ tm with isRegulating := on, lookaheadCourant := lookahead },
          { sent := [.setTimeRegulating on (tm.heureCourante + lookahead)] }) := by
      rw [setTimeRegulating, if_neg refuses]
    obtain ⟨other, idle⟩ := not_or.mp refuses
    have noted : own.note tm (.setTimeRegulating on lookahead)
        (tm.setTimeRegulating on lookahead).2 = { own with lookahead := lookahead } := by
      simp [Own.note, accepted]
    have leaves : LeavesOwn (own, tm) (.setTimeRegulating on lookahead) ↔
        0 ≤ lookahead ∧ lookahead ≠ epsilon2 ∧ (lookahead = 0 → Told own.strict tm) := by
      simp only [LeavesOwn, running, true_imp_iff, ne_eq, other, not_false_eq_true,
        not_not.mp idle]
    have both := set_invariant_iff own tm (tm.setTimeRegulating on lookahead).1 lookahead
      (by rw [accepted])
      (by rw [accepted])
    rw [Leads, noted, leaves]
    exact both

theorem nextEventRequestAvailable_leads {own : Own} {tm : TimeManagement}
    (inv : OwnInvariant (own, tm)) (running : tm.ended = false) (date : Date) :
    Leads own tm (.nextEventRequestAvailable date)
      (own.note tm (.nextEventRequestAvailable date) (tm.nextEventRequestAvailable date).2,
        (tm.nextEventRequestAvailable date).1) := by
  cases checked : tm.requestError date with
  | none =>
    have ignored : tm.nextEventRequestAvailable date = (tm, {}) := by
      rw [nextEventRequestAvailable, checked]
    have noted : own.note tm (.nextEventRequestAvailable date)
        (tm.nextEventRequestAvailable date).2 = { own with strict := false } := by
      simp [Own.note, ignored]
    have current : tm.lookaheadCourant = own.lookahead := inv.idle (requestError_none checked).1
    have leaves : LeavesOwn (own, tm) (.nextEventRequestAvailable date) ↔
        (own.lookahead = 0 → Told false tm) := by
      simp only [LeavesOwn, running, checked, true_imp_iff, if_true, Told]
      simp
    have keeps : (own.lookahead = 0 → Told false tm) →
        OwnInvariant ({ own with strict := false }, tm) :=
      fun told => ⟨inv.sound, .inl current, told⟩
    rw [Leads, noted, leaves, ignored]
    refine ⟨⟨?_, fun told => (keeps told).kept⟩, keeps⟩
    intro kept zero
    exact kept.told zero (current.trans zero)
  | some x =>
    have goes : tm.nextEventRequestAvailable date =
        ({ tm with typeGrantedState := .afterTaraOrNera }.await .nera date, { error := some x }) := by
      rw [nextEventRequestAvailable, checked]
    have noted : own.note tm (.nextEventRequestAvailable date)
        (tm.nextEventRequestAvailable date).2 = own := by
      simp [Own.note, goes]
    have leaves : LeavesOwn (own, tm) (.nextEventRequestAvailable date) ↔
        (own.lookahead = 0 → own.strict = false) := by
      simp only [LeavesOwn, running, checked, true_imp_iff]
      simp
    have keeps : (own.lookahead = 0 → own.strict = false) →
        OwnInvariant (own, { tm with typeGrantedState := .afterTaraOrNera }.await .nera date) := by
      intro loose
      refine ⟨inv.sound, .inl ?_, ?_⟩
      · rcases inv.current with same | ⟨-, -, zero, type⟩
        · exact same
        · have strict := (inv.told zero).mpr type
          rw [loose zero] at strict
          cases strict
      · intro zero
        simp [Told, await, loose zero]
    rw [Leads, noted, leaves, goes]
    refine ⟨⟨?_, fun loose => (keeps loose).kept⟩, keeps⟩
    intro kept zero
    by_contra strict
    have strict' : own.strict = true := by simpa using strict
    have other : ({ tm with typeGrantedState := .afterTaraOrNera }.await .nera date).typeGrantedState
        ≠ .afterTarOrNerWithZeroLk := by simp [await]
    have sends := kept.sends zero
    simp only [strict', if_true] at sends
    rcases inv.current with same | ⟨-, internal, -, -⟩
    · have current : ({ tm with
          typeGrantedState := .afterTaraOrNera }.await .nera date).lookaheadCourant = 0 :=
        same.trans zero
      have told := kept.told zero current
      exact other (told.mp strict')
    · have current : ({ tm with
          typeGrantedState := .afterTaraOrNera }.await .nera date).lookaheadCourant = epsilon2 :=
        internal
      exact sends_epsilon current other sends

/-- The step: under the invariant, an event leaves the lookahead the federate's own exactly if it
is one of the calls that do. -/
theorem owned_leads {own : Own} {tm : TimeManagement} (inv : OwnInvariant (own, tm))
    (e : RtiaEvent) : Leads own tm e (owned (own, tm) e).1 := by
  rw [owned]
  by_cases stopped : tm.ended = true
  · rw [rtia_ended stopped]
    have noted : own.note tm e { error := some .networkError } = own := by simp [Own.note]
    rw [noted]
    apply Leads.of_invariant inv
    have never : ¬ tm.ended = false := by simp [stopped]
    cases e with
    | setLookahead lookahead => exact fun running => absurd running never
    | setTimeRegulating on lookahead => exact fun running => absurd running never
    | resign => exact fun running => absurd running never
    | nextEventRequestAvailable date => exact fun running => absurd running never
    | _ => trivial
  have running : tm.ended = false := by simpa using stopped
  rw [rtia_perform running]
  by_cases unrelated : Unrelated e
  · rw [note_unrelated unrelated]
    apply Leads.of_invariant (inv.same (perform_lookahead tm unrelated))
    cases e with
    | _ => first | trivial | cases unrelated
  cases e with
  | timeAdvanceRequest date =>
    change Leads own tm _ (own.note tm (.timeAdvanceRequest date) (tm.timeAdvanceRequest date).2,
      (tm.timeAdvanceRequest date).1)
    cases checked : tm.requestError date with
    | some x =>
      have refused : tm.timeAdvanceRequest date = tm.refuse x := by
        rw [timeAdvanceRequest, checked]
      rw [refused, note_refused]
      exact Leads.of_invariant inv trivial
    | none =>
      have accepted : tm.timeAdvanceRequest date =
          ((tm.assumeLookahead.sendNullIfRegulating date).1.await .tar date,
            { sent := (tm.assumeLookahead.sendNullIfRegulating date).2 }) := by
        rw [timeAdvanceRequest, checked]
      have noted : own.note tm (.timeAdvanceRequest date) (tm.timeAdvanceRequest date).2 =
          { own with strict := true } := by
        simp [Own.note, accepted]
      rw [noted, accepted]
      exact Leads.of_invariant (assumed_invariant inv (requestError_none checked).1 (by decide)
        (sendNullIfRegulating_lookahead _ date)) trivial
  | nextEventRequest date =>
    change Leads own tm _ (own.note tm (.nextEventRequest date) (tm.nextEventRequest date).2,
      (tm.nextEventRequest date).1)
    cases checked : tm.requestError date with
    | some x =>
      have refused : tm.nextEventRequest date = tm.refuse x := by
        rw [nextEventRequest, checked]
      rw [refused, note_refused]
      exact Leads.of_invariant inv trivial
    | none =>
      have accepted : tm.nextEventRequest date = (tm.assumeLookahead.await .ner date, {}) := by
        rw [nextEventRequest, checked]
      have noted : own.note tm (.nextEventRequest date) (tm.nextEventRequest date).2 =
          { own with strict := true } := by
        simp [Own.note, accepted]
      rw [noted, accepted]
      exact Leads.of_invariant (assumed_invariant inv (requestError_none checked).1 (by decide)
        (SameLookahead.refl _)) trivial
  | timeAdvanceRequestAvailable date =>
    change Leads own tm _ (own.note tm (.timeAdvanceRequestAvailable date)
      (tm.timeAdvanceRequestAvailable date).2, (tm.timeAdvanceRequestAvailable date).1)
    cases checked : tm.requestError date with
    | some x =>
      have refused : tm.timeAdvanceRequestAvailable date = tm.refuse x := by
        rw [timeAdvanceRequestAvailable, checked]
      rw [refused, note_refused]
      exact Leads.of_invariant inv trivial
    | none =>
      have accepted : tm.timeAdvanceRequestAvailable date =
          (({ tm with typeGrantedState := .afterTaraOrNera }.sendNullIfRegulating
              date).1.await .tara date,
            { sent := ({ tm with typeGrantedState := .afterTaraOrNera }.sendNullIfRegulating
                date).2 }) := by
        rw [timeAdvanceRequestAvailable, checked]
      have noted : own.note tm (.timeAdvanceRequestAvailable date)
          (tm.timeAdvanceRequestAvailable date).2 = { own with strict := false } := by
        simp [Own.note, accepted]
      have same := sendNullIfRegulating_lookahead
        { tm with typeGrantedState := .afterTaraOrNera } date
      have current : tm.lookaheadCourant = own.lookahead := inv.idle (requestError_none checked).1
      rw [noted, accepted]
      refine Leads.of_invariant ⟨inv.sound, .inl (same.lookahead.trans current), ?_⟩ trivial
      intro _
      rw [Told, await, same.type]
      simp
  | tick =>
    have noted : own.note tm .tick tm.tick.2 = own := by simp [Own.note]
    change Leads own tm _ (own.note tm .tick tm.tick.2, tm.tick.1)
    rw [noted]
    exact Leads.of_invariant (tick_invariant inv) trivial
  | setLookahead lookahead => exact setLookahead_leads inv running lookahead
  | setTimeRegulating on lookahead => exact setTimeRegulating_leads inv running on lookahead
  | resign => exact resign_leads inv running
  | nextEventRequestAvailable date => exact nextEventRequestAvailable_leads inv running date
  | _ => exact absurd trivial unrelated

/-- In a run from the creation the lookahead is the federate's own all along, if and only if the
granted state does not begin with a value that tells a zero lookahead, and every call is one that
leaves it so. -/
theorem lookahead_kept_iff (granted : TypeGrantedState) (es : List RtiaEvent) :
    (∀ before, before <+: es → Kept (owned.exec ({}, create granted) before)) ↔
      granted ≠ .afterTarOrNerWithZeroLk ∧ owned.Meets LeavesOwn ({}, create granted) es := by
  have sound : (0 : Date) ≤ 0 ∧ (0 : Date) ≠ epsilon2 := ⟨le_refl _, epsilon2_ne_zero.symm⟩
  by_cases told : granted = .afterTarOrNerWithZeroLk
  · simp only [told, ne_eq, not_true, false_and, iff_false]
    intro always
    have kept := always [] (List.nil_prefix)
    have tells := kept.told rfl rfl
    cases tells.mpr rfl
  · have start : OwnInvariant ({}, create granted) := by
      refine ⟨sound, .inl rfl, fun _ => ?_⟩
      simp [Told, create, told]
    simp only [ne_eq, told, not_false_eq_true, true_and]
    apply owned.throughout_iff_meets_under (p := OwnInvariant) _ _ start start.kept
    · rintro ⟨own, tm⟩ e inv
      exact (owned_leads inv e).1
    · rintro ⟨own, tm⟩ e inv
      exact (owned_leads inv e).2

/-- Enabling time regulation with a negative lookahead is accepted. -/
theorem negative_lookahead_accepted :
    ¬ ∀ (granted : TypeGrantedState) (es : List RtiaEvent) (before : List RtiaEvent),
      before <+: es → Kept (owned.exec ({}, create granted) before) := by
  intro always
  have kept := always .afterTarOrNer [.setTimeRegulating true (-1 : FederationTime)] _
    (List.prefix_refl _)
  have positive := kept.sound.1
  exact absurd positive (by decide +kernel)

end Certi
