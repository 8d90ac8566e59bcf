import Mathlib
import Certi.RTIA.Steps

/-!
# Requests and grants

The four requests for an advance share two checks: nothing is pending, and the
date is not in the past. Three of the services act on them alike. The fourth,
`nextEventRequestAvailable`, has its test the other way round.
-/
namespace Certi

open Runs TimeManagement

/-- The advance that an event asks for. -/
def RtiaEvent.advance : RtiaEvent → Option (TypeAvancee × Date)
  | .timeAdvanceRequest date => some (.tar, date)
  | .timeAdvanceRequestAvailable date => some (.tara, date)
  | .nextEventRequest date => some (.ner, date)
  | .nextEventRequestAvailable date => some (.nera, date)
  | _ => none

/-- A request is accepted exactly when nothing is pending and the date is not in the past; a
refusal has no effect, and an accepted request is pending. -/
structure Answered (kind : TypeAvancee) (date : Date) (tm : TimeManagement)
    (r : TimeManagement × RtiaAnswer) : Prop where
  accepted : r.2.error = none ↔ tm.avanceeEnCours = .pasDAvancee ∧ ¬ date < tm.heureCourante
  refused : r.2.error ≠ none → r.1 = tm ∧ r.2.sent = []
  pending : r.2.error = none → r.1.avanceeEnCours = kind ∧ r.1.dateAvancee = date

/-- A grant is given once, while a request is pending, and ends it. -/
def GrantsPending (tm : TimeManagement) (r : TimeManagement × RtiaAnswer) : Prop :=
  r.2.grants = [] ∨
    ∃ date, r.2.grants = [date] ∧ tm.avanceeEnCours ≠ .pasDAvancee ∧
      r.1.avanceeEnCours = .pasDAvancee

def Conforms (tm : TimeManagement) (e : RtiaEvent) : Prop :=
  (∀ kind date, tm.ended = false → e.advance = some (kind, date) →
    Answered kind date tm (rtia tm e)) ∧
  GrantsPending tm (rtia tm e)

/-! ## Counting -/

/-- The requests that were accepted. -/
def asked (past : List (RtiaEvent × RtiaAnswer)) : Nat :=
  past.countP fun entry => entry.1.advance.isSome && entry.2.error.isNone

def granted (past : List (RtiaEvent × RtiaAnswer)) : Nat :=
  (past.map fun entry => entry.2.grants.length).sum

/-- Resigning gives a pending request up. -/
def Withdraws (tm : TimeManagement) (e : RtiaEvent) : Prop :=
  e = .resign ∧ tm.ended = false ∧ tm.isMember = true ∧ tm.avanceeEnCours ≠ .pasDAvancee

instance (tm : TimeManagement) (e : RtiaEvent) : Decidable (Withdraws tm e) :=
  inferInstanceAs (Decidable (_ ∧ _))

def withdrawn (tm : TimeManagement) : List RtiaEvent → Nat
  | [] => 0
  | e :: es => (if Withdraws tm e then 1 else 0) + withdrawn (rtia tm e).1 es

def TimeManagement.waiting (tm : TimeManagement) : Nat :=
  if tm.avanceeEnCours = .pasDAvancee then 0 else 1

/-- Every accepted request was granted or given up, but for the one that is pending. -/
def Balanced (tm : TimeManagement) (es : List RtiaEvent) : Prop :=
  asked (rtia.trace tm es) + tm.waiting =
    granted (rtia.trace tm es) + withdrawn tm es + (rtia.exec tm es).waiting

instance (tm : TimeManagement) (es : List RtiaEvent) : Decidable (Balanced tm es) :=
  inferInstanceAs (Decidable (_ = _))

/-! ## The fourth copy -/

/-- A `nextEventRequestAvailable` that the checks refuse, and that asks for what is pending. -/
def Pointless (tm : TimeManagement) (date : Date) : Prop :=
  tm.avanceeEnCours = .nera ∧ tm.dateAvancee = date ∧ tm.typeGrantedState = .afterTaraOrNera

def Copied (tm : TimeManagement) : RtiaEvent → Prop
  | .nextEventRequestAvailable date => tm.ended = false → Pointless tm date
  | _ => True

theorem requestError_none_iff (tm : TimeManagement) (date : Date) :
    tm.requestError date = none ↔
      tm.avanceeEnCours = .pasDAvancee ∧ ¬ date < tm.heureCourante := by
  constructor
  · intro accepted
    obtain ⟨idle, ahead⟩ := requestError_none accepted
    exact ⟨idle, not_lt.mpr ahead⟩
  · rintro ⟨idle, ahead⟩
    rw [requestError, if_neg ahead, if_neg (not_not.mpr idle)]

/-- The shape of the three services that are alike. -/
theorem Answered.of_checks {kind : TypeAvancee} {date : Date} {tm : TimeManagement}
    {r : TimeManagement × RtiaAnswer}
    (refused : ∀ e, tm.requestError date = some e → r = tm.refuse e)
    (accepted : tm.requestError date = none →
      r.2.error = none ∧ r.1.avanceeEnCours = kind ∧ r.1.dateAvancee = date) :
    Answered kind date tm r := by
  cases checked : tm.requestError date with
  | some e =>
    rw [refused e checked]
    constructor
    · rw [← requestError_none_iff, checked]
      simp [refuse]
    · intro _
      exact ⟨rfl, rfl⟩
    · intro none
      cases none
  | none =>
    obtain ⟨answer, pending⟩ := accepted checked
    constructor
    · rw [← requestError_none_iff, checked, answer]
    · intro error
      exact absurd answer error
    · intro _
      exact pending

theorem timeAdvanceRequest_answered (tm : TimeManagement) (date : Date) :
    Answered .tar date tm (tm.timeAdvanceRequest date) := by
  apply Answered.of_checks
  · intro e checked
    rw [timeAdvanceRequest, checked]
  · intro checked
    rw [timeAdvanceRequest, checked]
    exact ⟨rfl, rfl, rfl⟩

theorem timeAdvanceRequestAvailable_answered (tm : TimeManagement) (date : Date) :
    Answered .tara date tm (tm.timeAdvanceRequestAvailable date) := by
  apply Answered.of_checks
  · intro e checked
    rw [timeAdvanceRequestAvailable, checked]
  · intro checked
    rw [timeAdvanceRequestAvailable, checked]
    exact ⟨rfl, rfl, rfl⟩

theorem nextEventRequest_answered (tm : TimeManagement) (date : Date) :
    Answered .ner date tm (tm.nextEventRequest date) := by
  apply Answered.of_checks
  · intro e checked
    rw [nextEventRequest, checked]
  · intro checked
    rw [nextEventRequest, checked]
    exact ⟨rfl, rfl, rfl⟩

theorem nextEventRequestAvailable_answered_iff (tm : TimeManagement) (date : Date) :
    Answered .nera date tm (tm.nextEventRequestAvailable date) ↔ Pointless tm date := by
  cases checked : tm.requestError date with
  | none =>
    have idle := (requestError_none checked).1
    have nothing : tm.nextEventRequestAvailable date = (tm, {}) := by
      rw [nextEventRequestAvailable, checked]
    rw [nothing]
    constructor
    · intro answered
      have kind := (answered.pending rfl).1
      rw [idle] at kind
      cases kind
    · rintro ⟨kind, -, -⟩
      rw [idle] at kind
      cases kind
  | some e =>
    have goes : tm.nextEventRequestAvailable date =
        ({ tm with typeGrantedState := .afterTaraOrNera }.await .nera date, { error := some e }) := by
      rw [nextEventRequestAvailable, checked]
    rw [goes]
    constructor
    · intro answered
      have same := (answered.refused (by simp)).1
      have kind := congrArg TimeManagement.avanceeEnCours same
      have requested := congrArg TimeManagement.dateAvancee same
      have type := congrArg TimeManagement.typeGrantedState same
      exact ⟨kind.symm, requested.symm, type.symm⟩
    · rintro ⟨kind, requested, type⟩
      have same : { tm with typeGrantedState := .afterTaraOrNera }.await .nera date = tm := by
        rw [await, ← kind, ← requested, ← type]
      rw [same]
      constructor
      · rw [← requestError_none_iff, checked]
      · intro _
        exact ⟨rfl, rfl⟩
      · intro none
        cases none

/-! ## One event -/

theorem grantsPending_of_none {tm : TimeManagement} {r : TimeManagement × RtiaAnswer}
    (callbacks : r.2.callbacks = []) : GrantsPending tm r := by
  left
  rw [RtiaAnswer.grants, callbacks, List.filterMap_nil]

theorem rtia_grants (tm : TimeManagement) (e : RtiaEvent) : GrantsPending tm (rtia tm e) := by
  by_cases stopped : tm.ended = true
  · rw [rtia_ended stopped]
    exact .inl rfl
  rw [rtia_perform (by simpa using stopped)]
  by_cases quiet : IsQuiet e
  · exact .inl (tm.perform_quiet quiet).grants
  by_cases service : IsService e
  · exact grantsPending_of_none (tm.perform_serves service).callbacks
  cases e with
  | arrive m =>
    change GrantsPending tm (tm.processNetworkMessage m)
    cases tm.processNetworkMessage_cases m with
    | inl plain => exact .inl plain.1.grants
    | inr stamped =>
      rw [stamped.2.2]
      exact .inl rfl
  | tick =>
    change GrantsPending tm tm.tick
    obtain quiet | ⟨m, delivers⟩ | grants := tm.tick_cases
    · exact .inl quiet.grants
    · exact .inl delivers.answer.2
    · exact .inr ⟨_, grants.answer.2, grants.pending, grants.avancee⟩
  | _ => first | exact absurd trivial quiet | exact absurd trivial service

/-- The step: an event conforms exactly if it is no request of the fourth kind, or a pointless
one. -/
theorem conforms_iff (tm : TimeManagement) (e : RtiaEvent) : Conforms tm e ↔ Copied tm e := by
  have grants := rtia_grants tm e
  by_cases stopped : tm.ended = true
  · have copied : Copied tm e := by
      cases e with
      | nextEventRequestAvailable date =>
        intro running
        rw [stopped] at running
        cases running
      | _ => trivial
    refine iff_of_true ⟨?_, grants⟩ copied
    intro kind date running
    rw [stopped] at running
    cases running
  have running : tm.ended = false := by simpa using stopped
  simp only [Conforms, grants, and_true, running, true_imp_iff]
  rw [rtia_perform running]
  have single (kind : TypeAvancee) (date : Date) (r : TimeManagement × RtiaAnswer) :
      (∀ kind' date', some (kind, date) = some (kind', date') → Answered kind' date' tm r) ↔
        Answered kind date tm r := by
    constructor
    · intro every
      exact every kind date rfl
    · rintro answered _ _ ⟨⟩
      exact answered
  cases e with
  | timeAdvanceRequest date =>
    exact (single _ _ _).trans (iff_of_true (timeAdvanceRequest_answered tm date) trivial)
  | timeAdvanceRequestAvailable date =>
    exact (single _ _ _).trans (iff_of_true (timeAdvanceRequestAvailable_answered tm date) trivial)
  | nextEventRequest date =>
    exact (single _ _ _).trans (iff_of_true (nextEventRequest_answered tm date) trivial)
  | nextEventRequestAvailable date =>
    refine (single _ _ _).trans ((nextEventRequestAvailable_answered_iff tm date).trans ?_)
    simp only [Copied, running, true_imp_iff]
  | _ => exact iff_of_true (fun _ _ none => by cases none) trivial

/-- Events other than requests, ticks and resignations leave a pending request alone. -/
theorem rtia_waiting {tm : TimeManagement} {e : RtiaEvent} (other : e.advance = none)
    (stays : ¬ Withdraws tm e) (noGrant : (rtia tm e).2.grants = []) :
    (rtia tm e).1.waiting = tm.waiting := by
  by_cases stopped : tm.ended = true
  · rw [rtia_ended stopped]
  have running : tm.ended = false := by simpa using stopped
  rw [rtia_perform running] at noGrant ⊢
  have quietly : ∀ r : TimeManagement × RtiaAnswer, Quiet tm r → r.1.waiting = tm.waiting := by
    intro r quiet
    rw [waiting, quiet.steady.avancee, waiting]
  by_cases quiet : IsQuiet e
  · exact quietly _ (tm.perform_quiet quiet)
  cases e with
  | setTimeConstrained on =>
    change (tm.setTimeConstrained on).1.waiting = tm.waiting
    cases tm.setTimeConstrained_cases on with
    | inl refused => rw [refused, refuse]
    | inr switched => rw [switched.2.2, waiting, waiting]
  | resign =>
    change tm.resign.1.waiting = tm.waiting
    by_cases member : tm.isMember = true
    · have idle : tm.avanceeEnCours = .pasDAvancee := by
        by_contra pending
        exact stays ⟨rfl, running, member, pending⟩
      cases tm.resign_cases with
      | inl quiet => exact quietly _ quiet
      | inr stops => rw [waiting, waiting, stops.avancee, idle]
    · rw [TimeManagement.resign, if_neg member, refuse]
  | arrive m =>
    change (tm.processNetworkMessage m).1.waiting = tm.waiting
    cases tm.processNetworkMessage_cases m with
    | inl plain => exact quietly _ plain.1
    | inr stamped => rw [stamped.2.2, waiting, waiting]
  | tick =>
    change tm.tick.2.grants = [] at noGrant
    change tm.tick.1.waiting = tm.waiting
    obtain quiet | ⟨m, delivers⟩ | grants := tm.tick_cases
    · exact quietly _ quiet
    · rw [waiting, delivers.avancee, waiting]
    · rw [grants.answer.2] at noGrant
      cases noGrant
  | _ => first | exact absurd trivial quiet | cases other

theorem waiting_withdraws {tm : TimeManagement} {e : RtiaEvent} (withdraws : Withdraws tm e) :
    tm.waiting = 1 ∧ (rtia tm e).1.waiting = 0 ∧ (rtia tm e).2.grants = [] := by
  obtain ⟨rfl, running, member, pending⟩ := withdraws
  have stops := resign_stops member
  rw [rtia_perform running]
  refine ⟨if_neg pending, if_pos stops.avancee, ?_⟩
  change tm.resign.2.grants = []
  rw [RtiaAnswer.grants, stops.callbacks, List.filterMap_nil]

/-- The step of the count. -/
theorem balanced_step {tm : TimeManagement} {e : RtiaEvent} (copied : Copied tm e) :
    asked [(e, (rtia tm e).2)] + tm.waiting =
      granted [(e, (rtia tm e).2)] + (if Withdraws tm e then 1 else 0) +
        (rtia tm e).1.waiting := by
  have single : granted [(e, (rtia tm e).2)] = (rtia tm e).2.grants.length := by simp [granted]
  rw [single]
  cases asks : e.advance with
  | none =>
    have zero : asked [(e, (rtia tm e).2)] = 0 := by simp [asked, asks]
    rw [zero]
    by_cases withdraws : Withdraws tm e
    · obtain ⟨before, after, grants⟩ := waiting_withdraws withdraws
      rw [before, after, grants, if_pos withdraws, List.length_nil]
    · rw [if_neg withdraws]
      rcases rtia_grants tm e with nothing | ⟨date, grants, pending, idle⟩
      · rw [rtia_waiting asks withdraws nothing, nothing, List.length_nil]
      · rw [grants, waiting, waiting, if_neg pending, if_pos idle, List.length_singleton]
  | some advance =>
    have kept : ¬ Withdraws tm e := by
      rintro ⟨rfl, -⟩
      cases asks
    have callbacks : (rtia tm e).2.callbacks = [] := by
      by_cases stopped : tm.ended = true
      · rw [rtia_ended stopped]
      · rw [rtia_perform (by simpa using stopped)]
        apply (tm.perform_serves _).callbacks
        cases e with
        | timeAdvanceRequest date => trivial
        | timeAdvanceRequestAvailable date => trivial
        | nextEventRequest date => trivial
        | nextEventRequestAvailable date => trivial
        | _ => cases asks
    have nothing : (rtia tm e).2.grants = [] := by
      rw [RtiaAnswer.grants, callbacks, List.filterMap_nil]
    rw [nothing, if_neg kept, List.length_nil]
    by_cases stopped : tm.ended = true
    · rw [rtia_ended stopped]
      simp [asked]
    obtain ⟨kind, date⟩ := advance
    have answered := ((conforms_iff tm e).mpr copied).1 kind date (by simpa using stopped) asks
    cases error : (rtia tm e).2.error with
    | none =>
      have one : asked [(e, (rtia tm e).2)] = 1 := by simp [asked, asks, error]
      have idle := (answered.accepted.mp error).1
      have real : kind ≠ .pasDAvancee := by
        rintro rfl
        cases e <;> cases asks
      have pending : (rtia tm e).1.avanceeEnCours ≠ .pasDAvancee := by
        rw [(answered.pending error).1]
        exact real
      rw [one, waiting, waiting, if_pos idle, if_neg pending]
    | some x =>
      have zero : asked [(e, (rtia tm e).2)] = 0 := by simp [asked, asks, error]
      have same := (answered.refused (by simp [error])).1
      rw [zero, same]

theorem asked_cons (entry : RtiaEvent × RtiaAnswer) (past : List (RtiaEvent × RtiaAnswer)) :
    asked (entry :: past) = asked [entry] + asked past := by
  rw [asked, asked, asked, ← List.countP_append, List.singleton_append]

theorem granted_cons (entry : RtiaEvent × RtiaAnswer) (past : List (RtiaEvent × RtiaAnswer)) :
    granted (entry :: past) = granted [entry] + granted past := by
  simp [granted]

/-- The run. -/
theorem balanced_run {tm : TimeManagement} {es : List RtiaEvent} (copied : rtia.Meets Copied tm es) :
    Balanced tm es := by
  induction es generalizing tm with
  | nil => simp [Balanced, asked, granted, withdrawn]
  | cons e es ih =>
    have here := balanced_step copied.1
    have later := ih copied.2
    rw [Balanced] at later ⊢
    rw [Machine.trace_cons, Machine.exec_cons, asked_cons, granted_cons, withdrawn]
    omega

/-- Every event of a run conforms, and the grants balance the accepted requests all along, if and
only if the run has no `nextEventRequestAvailable` but pointless ones. -/
theorem requests_answered_iff (granted : TypeGrantedState) (es : List RtiaEvent) :
    (rtia.Meets Conforms (create granted) es ∧
        ∀ before, before <+: es → Balanced (create granted) before) ↔
      rtia.Meets Copied (create granted) es := by
  constructor
  · rintro ⟨conform, -⟩
    exact Machine.Meets.mono rtia (fun tm e => (conforms_iff tm e).mp) conform
  · intro copied
    refine ⟨Machine.Meets.mono rtia (fun tm e => (conforms_iff tm e).mpr) copied, ?_⟩
    rintro before ⟨after, rfl⟩
    exact balanced_run ((rtia.meets_append.mp copied).1)

/-- A federate that may advance to 10 asks for it and is answered that this is under way;
nothing is, and no grant comes. -/
theorem nextEventRequestAvailable_ignored :
    ¬ ∀ (granted : TypeGrantedState) (es : List RtiaEvent),
      rtia.Meets Conforms (create granted) es ∧
        ∀ before, before <+: es → Balanced (create granted) before := by
  intro always
  obtain ⟨-, balanced⟩ := always .afterTarOrNer [.nextEventRequestAvailable 10, .tick]
  exact absurd (balanced _ (List.prefix_refl _)) (by decide +kernel)

end Certi
