import Certi.System.Stations

/-!
# What a regulating federate promises

The clock that the RTIG holds of a regulator is a promise: whatever the
regulator sends from then on is dated at the clock or later. Its RTIA keeps the
promise by itself but for a few services that do not look at it; `Careful` lists
what it leaves to the federate, and to those that become regulators beside it.
-/
namespace Certi

open Runs

/-! ## The statement -/

namespace ToRtig

/-- What the RTIG makes of the clock of a regulator when it takes up a message of its RTIA. -/
def moves (clock : Option Date) : ToRtig → Option Date
  | messageNull date => clock.map (later date)
  | setTimeRegulating true date => some (clock.getD date)
  | setTimeRegulating false _ => none
  | _ => clock

/-- The date of a message for other federates. -/
def dated : ToRtig → Option Date
  | sendDated date | deleteDated date => some date
  | _ => none

end ToRtig

/-- The clock when all the messages have been taken up. -/
def promised (clock : Option Date) (sent : List ToRtig) : Option Date :=
  sent.foldl ToRtig.moves clock

/-- No message is dated before the clock that it meets, and none is without a clock. -/
def Truthful : Option Date → List ToRtig → Prop
  | _, [] => True
  | clock, m :: rest =>
    (∀ date ∈ m.dated, ∃ promise ∈ clock, promise ≤ date) ∧ Truthful (m.moves clock) rest

namespace TimeManagement

/-- What the services do not check: that who sends with a date is a regulator, the date of a
deletion, the old lookahead, a lookahead of zero and what it leaves behind, what waits for a
federate that becomes constrained, and how far those are who hear of a new regulator. -/
def Careful (tm : TimeManagement) : RtiaEvent → Prop
  | .sendDated _ => tm.isRegulating = true
  | .deleteDated date => tm.isRegulating = true ∧ tm.testValidTime date = true
  | .setLookahead lookahead => tm.isRegulating = true → tm.lookaheadCourant ≤ lookahead
  | .setTimeRegulating on lookahead => on = true →
    0 < lookahead ∧ lookahead ≠ epsilon2 ∧ tm.typeGrantedState ≠ .afterTarOrNerWithZeroLk
  | .setTimeConstrained on => on = true →
    tm.heureCourante < tm.lbts ∧ ∀ m ∈ tm.queues.tsos, tm.heureCourante < m.getDate
  | .nextEventRequestAvailable date => tm.requestError date = none
  | .regulatorOn fed date => fed ≠ tm.myFederateNumber → tm.isConstrained = true →
    tm.heureCourante < date ∧ (tm.isRegulating = true → tm.avanceeEnCours = .ner →
      tm.lastNullMessageDate ≤ date + tm.lookaheadCourant)
  | _ => True

instance (tm : TimeManagement) : ∀ e : RtiaEvent, Decidable (tm.Careful e)
  | .sendDated _ => inferInstanceAs (Decidable (tm.isRegulating = true))
  | .deleteDated date =>
    inferInstanceAs (Decidable (tm.isRegulating = true ∧ tm.testValidTime date = true))
  | .setLookahead lookahead =>
    inferInstanceAs (Decidable (tm.isRegulating = true → tm.lookaheadCourant ≤ lookahead))
  | .setTimeRegulating on lookahead =>
    inferInstanceAs (Decidable (on = true → 0 < lookahead ∧ lookahead ≠ epsilon2 ∧
      tm.typeGrantedState ≠ .afterTarOrNerWithZeroLk))
  | .setTimeConstrained on =>
    inferInstanceAs (Decidable (on = true →
      tm.heureCourante < tm.lbts ∧ ∀ m ∈ tm.queues.tsos, tm.heureCourante < m.getDate))
  | .nextEventRequestAvailable date =>
    inferInstanceAs (Decidable (tm.requestError date = none))
  | .regulatorOn fed date =>
    inferInstanceAs (Decidable (fed ≠ tm.myFederateNumber → tm.isConstrained = true →
      tm.heureCourante < date ∧ (tm.isRegulating = true → tm.avanceeEnCours = .ner →
        tm.lastNullMessageDate ≤ date + tm.lookaheadCourant)))
  | .timeAdvanceRequest _ | .timeAdvanceRequestAvailable _ | .nextEventRequest _
  | .setAsynchronousDelivery _ | .join .. | .resign | .arrive _ | .messageNull ..
  | .regulatorOff _ | .tick => .isTrue trivial

/-- What the RTIG answers for: no message in time stamp order is dated before the bound, and
nothing is left of an earlier membership when a federate joins. -/
def Expected (tm : TimeManagement) : RtiaEvent → Prop
  | .arrive m => ∀ n ∈ tm.queued (.arrive m), tm.lbts ≤ n.getDate
  | .join _ _ => tm.clocks = [] ∧ tm.isConstrained = false
  | _ => True

instance (tm : TimeManagement) : ∀ e : RtiaEvent, Decidable (tm.Expected e)
  | .arrive m => inferInstanceAs (Decidable (∀ n ∈ tm.queued (.arrive m), tm.lbts ≤ n.getDate))
  | .join _ _ => inferInstanceAs (Decidable (tm.clocks = [] ∧ tm.isConstrained = false))
  | .sendDated _ | .deleteDated _ | .setLookahead _ | .setTimeRegulating .. | .setTimeConstrained _
  | .nextEventRequestAvailable _ | .regulatorOn .. | .timeAdvanceRequest _
  | .timeAdvanceRequestAvailable _ | .nextEventRequest _ | .setAsynchronousDelivery _ | .resign
  | .messageNull .. | .regulatorOff _ | .tick => .isTrue trivial

/-! ## The invariants -/

/-- The time that a lookahead is added to. -/
def base (tm : TimeManagement) : Date :=
  if tm.avanceeEnCours = .pasDAvancee then tm.heureCourante else tm.dateAvancee

/-- Nothing that is to come is dated before the current time. -/
structure Behind (tm : TimeManagement) : Prop where
  bound : tm.heureCourante ≤ tm.lbts
  queue : ∀ m ∈ tm.queues.tsos, tm.heureCourante ≤ m.getDate

/-- Everything that is to come is dated after the current time. -/
structure Apart (tm : TimeManagement) : Prop where
  bound : tm.heureCourante < tm.lbts
  queue : ∀ m ∈ tm.queues.tsos, tm.heureCourante < m.getDate

/-- How the time of a federate stands to the clocks of the others. -/
structure Bounded (tm : TimeManagement) : Prop where
  lbts : tm.lbts = LBTS.leastClock tm.myFederateNumber ⊤ tm.clocks
  sorted : tm.queues.Sorted
  kind : tm.avanceeEnCours ≠ .nera
  available : tm.avanceeEnCours = .tara → tm.typeGrantedState = .afterTaraOrNera
  ahead : tm.heureCourante ≤ tm.base
  behind : tm.isConstrained = true → tm.Behind
  /-- A grant of TAR or NER leaves nothing at its own date to come. -/
  apart : tm.isMember = true → tm.isConstrained = true → tm.avanceeEnCours = .pasDAvancee →
    tm.typeGrantedState ≠ .afterTaraOrNera → tm.Apart

/-- The RTIA does not send below the clock, and will not promise more than it keeps. -/
structure Conceded (tm : TimeManagement) (clock : Date) : Prop where
  positive : 0 < tm.lookaheadCourant
  plain : tm.lookaheadCourant ≠ epsilon2
  granted : tm.typeGrantedState ≠ .afterTarOrNerWithZeroLk
  base : clock ≤ tm.base + tm.lookaheadCourant
  recent : clock ≤ tm.heureCourante + tm.lookaheadCourant ∨ clock ≤ tm.lastNullMessageDate
  /-- NER may come down to the next message. -/
  next : tm.avanceeEnCours = .ner → tm.isConstrained = true →
    clock ≤ tm.lbts + tm.lookaheadCourant ∧
      ∀ m ∈ tm.queues.tsos, clock ≤ m.getDate + tm.lookaheadCourant

/-- The RTIA stands by the clock that the RTIG comes to hold of it. -/
inductive Abides (tm : TimeManagement) : Option Date → Prop
  | free (free : tm.isRegulating = false) : Abides tm none
  | regulating (clock : Date) (regulating : tm.isRegulating = true)
      (conceded : tm.Conceded clock) : Abides tm (some clock)

end TimeManagement

/-! ## Sequences of messages -/

theorem promised_append (clock : Option Date) (sent more : List ToRtig) :
    promised clock (sent ++ more) = promised (promised clock sent) more := List.foldl_append

theorem truthful_append {clock : Option Date} {sent more : List ToRtig} :
    Truthful clock (sent ++ more) ↔
      Truthful clock sent ∧ Truthful (promised clock sent) more := by
  induction sent generalizing clock with
  | nil => simp [Truthful, promised]
  | cons m rest ih =>
    simp only [List.cons_append, Truthful, ih, and_assoc]
    rfl

/-- Messages without a date. -/
theorem truthful_undated {sent : List ToRtig} (undated : ∀ m ∈ sent, m.dated = none)
    (clock : Option Date) : Truthful clock sent := by
  induction sent generalizing clock with
  | nil => trivial
  | cons m rest ih =>
    have first := undated m List.mem_cons_self
    have others := ih (fun m' member => undated m' (List.mem_cons_of_mem m member)) (m.moves clock)
    exact ⟨by simp [first], others⟩

/-! ## The bound -/

namespace LBTS

variable {l l' : LBTS} {h : FederateHandle} {date : Date}

/-- A table none of whose clocks is below the bound of another has no lower bound than that. -/
theorem leastClock_mono {self : FederateHandle} {clocks clocks' : List (FederateHandle × Date)}
    (above : ∀ c ∈ clocks', c.1 ≠ self → leastClock self ⊤ clocks ≤ c.2) :
    leastClock self ⊤ clocks ≤ leastClock self ⊤ clocks' := by
  rcases leastClock_attained self ⊤ clocks' with infinite | ⟨h, other, member⟩
  · rw [infinite]
    exact le_top
  · exact above (h, leastClock self ⊤ clocks') member other

theorem le_later (date clock : Date) : clock ≤ later date clock := by
  unfold later
  split
  · exact le_refl clock
  · rename_i above
    exact not_lt.mp above

theorem update_bound (right : l.lbts = leastClock l.myFederateNumber ⊤ l.clocks)
    (updated : l.update h date = .ok l') :
    l'.lbts = leastClock l'.myFederateNumber ⊤ l'.clocks ∧ l.lbts ≤ l'.lbts := by
  have raised : ∀ c, c.2 ≤ (raise date c).2 ∧ (raise date c).1 = c.1 := by
    intro c
    rw [raise_eq]
    exact ⟨le_later date c.2, rfl⟩
  unfold update at updated
  split at updated
  · cases updated
    have above : leastClock l.myFederateNumber ⊤ l.clocks ≤
        leastClock l.myFederateNumber ⊤ (l.clocks.map (raise date)) := by
      apply leastClock_mono
      intro c' member other
      obtain ⟨c, listed, rfl⟩ := List.mem_map.mp member
      rw [(raised c).2] at other
      exact le_trans (leastClock_le listed other) (raised c).1
    exact ⟨rfl, right ▸ above⟩
  · split at updated
    · cases updated
      have above : leastClock l.myFederateNumber ⊤ l.clocks ≤ leastClock l.myFederateNumber ⊤
          (l.clocks.map fun c => if c.1 = h then raise date c else c) := by
        apply leastClock_mono
        intro c' member other
        obtain ⟨c, listed, rfl⟩ := List.mem_map.mp member
        split at other
        · rename_i same
          rw [if_pos same]
          rw [(raised c).2] at other
          exact le_trans (leastClock_le listed other) (raised c).1
        · rename_i differs
          rw [if_neg differs]
          exact leastClock_le listed other
      exact ⟨rfl, right ▸ above⟩
    · cases updated

theorem remove_bound (right : l.lbts = leastClock l.myFederateNumber ⊤ l.clocks)
    (removed : l.remove h = .ok l') :
    l'.lbts = leastClock l'.myFederateNumber ⊤ l'.clocks ∧ l.lbts ≤ l'.lbts := by
  unfold remove at removed
  split at removed
  · cases removed
    have above : leastClock l.myFederateNumber ⊤ l.clocks ≤ leastClock l.myFederateNumber ⊤
        (l.clocks.filter fun c => c.1 ≠ h) := by
      apply leastClock_mono
      intro c member other
      exact leastClock_le (List.mem_of_mem_filter member) other
    exact ⟨rfl, right ▸ above⟩
  · cases removed

/-- A new regulator lowers the bound to its own clock at most. -/
theorem insert_bound (right : l.lbts = leastClock l.myFederateNumber ⊤ l.clocks)
    (inserted : l.insert h date = .ok l') :
    l'.lbts = leastClock l'.myFederateNumber ⊤ l'.clocks ∧
      (l.lbts ≤ l'.lbts ∨ h ≠ l.myFederateNumber ∧ l'.lbts = date) := by
  unfold insert at inserted
  split at inserted
  · cases inserted
  · cases inserted
    refine ⟨rfl, ?_⟩
    simp only [compute]
    rw [right]
    rcases leastClock_attained l.myFederateNumber ⊤ (l.clocks ++ [(h, date)]) with
      infinite | ⟨g, other, member⟩
    · rw [infinite]
      exact .inl le_top
    · rcases List.mem_append.mp member with old | new
      · exact .inl (leastClock_le old other)
      · obtain ⟨rfl, same⟩ := Prod.mk.inj (List.mem_singleton.mp new)
        exact .inr ⟨other, same⟩

end LBTS

namespace TimeManagement

variable {tm : TimeManagement} {clock : Option Date}

/-! ## One tick -/

/-- A NULL message does not depend on what is asked for. -/
theorem sendNullIfRegulating_await (tm : TimeManagement) (kind : TypeAvancee) (date x : Date) :
    (tm.await kind date).sendNullIfRegulating x =
      ((tm.sendNullIfRegulating x).1.await kind date, (tm.sendNullIfRegulating x).2) := by
  unfold sendNullIfRegulating sendNullMessage await
  dsimp only
  split
  · split <;> rfl
  · rfl

/-- Nothing but the queues changes, where no message is added. -/
structure Gives (tm : TimeManagement) (r : TimeManagement × RtiaAnswer) : Prop where
  state : ∃ q, r.1 = { tm with queues := q } ∧ q.tsos.Sublist tm.queues.tsos
  sent : r.2.sent = []

theorem Gives.deliver {callback : QueuedMessage → Callback} {given : QueuedMessage × Bool × Queues}
    (fewer : given.2.2.tsos.Sublist tm.queues.tsos) : Gives tm (tm.deliver given callback) :=
  ⟨⟨_, rfl, fewer⟩, rfl⟩

/-- The request ends where nothing earlier can come any more. -/
structure Ends (tm : TimeManagement) : Prop where
  pending : tm.avanceeEnCours ≠ .pasDAvancee
  bound : tm.isConstrained = true →
    tm.dateAvancee < tm.lbts ∨ tm.dateAvancee ≤ tm.lbts ∧ tm.avanceeEnCours = .tara
  due : tm.isConstrained = true → tm.queues.giveTsoMessage tm.dateAvancee = none

/-- What a tick comes to. A NER first comes down to the next message and promises that. -/
inductive Ticks (tm : TimeManagement) : TimeManagement × RtiaAnswer → Prop where
  | gives {r : TimeManagement × RtiaAnswer} (gives : Gives tm r) : Ticks tm r
  | grants (ends : Ends tm) : Ticks tm (tm.timeAdvanceGrant tm.dateAvancee)
  | waits (pending : tm.avanceeEnCours = .ner) (constrained : tm.isConstrained = true)
      (bound : tm.lbts ≤ tm.dateMin) :
      Ticks tm ((tm.sendNullIfRegulating tm.lbts).1,
        { sent := (tm.sendNullIfRegulating tm.lbts).2 })
  | comes {r : TimeManagement × RtiaAnswer} {date : Date} (pending : tm.avanceeEnCours = .ner)
      (near : tm.isConstrained = true → date = tm.dateMin ∧ date < tm.lbts)
      (far : tm.isConstrained = false → date = tm.dateAvancee)
      (after : let next := ({ tm with dateAvancee := date }.sendNullIfRegulating date).1
        Gives next r ∨ Ends next ∧ r = next.timeAdvanceGrant next.dateAvancee) :
      Ticks tm (withSent ({ tm with dateAvancee := date }.sendNullIfRegulating date).2 r)

theorem timeAdvance_ticks (kind : tm.avanceeEnCours = .tar ∨ tm.avanceeEnCours = .tara) :
    Ticks tm tm.timeAdvance := by
  have pending : tm.avanceeEnCours ≠ .pasDAvancee := by
    rcases kind with tar | tara
    · simp [tar]
    · simp [tara]
  unfold timeAdvance
  split
  · dsimp only
    split
    · rename_i given found
      have queue := (Queues.giveTsoMessage_some found).1
      apply Ticks.gives
      apply Gives.deliver
      rw [queue]
      exact List.sublist_cons_self _ _
    · rename_i nothing
      split
      · rename_i may
        have bound := mayGrant_bound may
        rw [if_neg (not_lt.mpr bound)] at nothing
        simp only [mayGrant, Bool.or_eq_true, decide_eq_true_eq, Bool.and_eq_true] at may
        exact .grants ⟨pending, fun _ => may, fun _ => nothing⟩
      · exact .gives ⟨⟨tm.queues, rfl, List.Sublist.refl _⟩, rfl⟩
  · rename_i free
    exact .grants ⟨pending, fun constrained => absurd constrained free,
      fun constrained => absurd constrained free⟩

theorem nextEventAdvance_ticks (kind : tm.avanceeEnCours = .ner) :
    Ticks tm tm.nextEventAdvance := by
  have pending : tm.avanceeEnCours ≠ .pasDAvancee := by simp [kind]
  unfold nextEventAdvance
  split
  · rename_i constrained
    dsimp only
    split
    · rename_i may
      have below : tm.dateMin < tm.lbts := by
        simp only [mayGrant, kind, reduceCtorEq, decide_false, Bool.and_false, Bool.or_false,
          decide_eq_true_eq] at may
        exact may
      apply Ticks.comes kind (fun _ => ⟨rfl, below⟩) (fun free => by simp [constrained] at free)
      dsimp only
      obtain ⟨last, state⟩ :=
        { tm with dateAvancee := tm.dateMin }.sendNullIfRegulating_state tm.dateMin
      rw [state]
      unfold reach
      dsimp only
      split
      · rename_i given found
        left
        have queue := (Queues.giveTsoMessage_some found).1
        apply Gives.deliver
        change given.2.2.tsos.Sublist tm.queues.tsos
        rw [queue]
        exact List.sublist_cons_self _ _
      · rename_i nothing
        exact .inr ⟨⟨pending, fun _ => .inl below, fun _ => nothing⟩, rfl⟩
    · rename_i mayNot
      have above : tm.lbts ≤ tm.dateMin := by
        simp only [mayGrant, kind, reduceCtorEq, decide_false, Bool.and_false, Bool.or_false,
          decide_eq_true_eq] at mayNot
        exact not_lt.mp mayNot
      exact .waits kind constrained above
  · rename_i free
    apply Ticks.comes kind (fun constrained => absurd constrained free) (fun _ => rfl)
    obtain ⟨last, state⟩ := tm.sendNullIfRegulating_state tm.dateAvancee
    right
    constructor
    · rw [show { tm with dateAvancee := tm.dateAvancee } = tm from rfl, state]
      exact ⟨pending, fun constrained => absurd constrained free,
        fun constrained => absurd constrained free⟩
    · rfl

theorem tick_ticks (kind : tm.avanceeEnCours ≠ .nera) : Ticks tm tm.tick := by
  unfold tick
  split
  · rename_i given found
    have same := (Queues.giveCommandMessage_some found).2.1
    exact .gives (.deliver (by rw [same]))
  · split
    · rename_i given found
      have same : given.2.2.tsos = tm.queues.tsos := by
        split at found
        · exact (Queues.giveFifoMessage_some found).2.1
        · cases found
      exact .gives (.deliver (by rw [same]))
    · unfold advance
      split
      · rename_i tar
        exact timeAdvance_ticks (.inl tar)
      · rename_i tara
        exact timeAdvance_ticks (.inr tara)
      · rename_i ner
        exact nextEventAdvance_ticks ner
      · rename_i nera
        exact absurd nera kind
      · exact .gives ⟨⟨tm.queues, rfl, List.Sublist.refl _⟩, rfl⟩

/-! ## The time of a federate stays bounded -/

namespace Bounded

/-- What the bound does not depend on may change. -/
theorem frame {tm' : TimeManagement} (bounded : tm.Bounded) (lbts : tm'.toLBTS = tm.toLBTS)
    (queues : tm'.queues = tm.queues) (heure : tm'.heureCourante = tm.heureCourante)
    (avancee : tm'.avanceeEnCours = tm.avanceeEnCours) (date : tm'.dateAvancee = tm.dateAvancee)
    (granted : tm'.typeGrantedState = tm.typeGrantedState)
    (constrained : tm'.isConstrained = tm.isConstrained) (member : tm'.isMember = tm.isMember) :
    tm'.Bounded := by
  obtain ⟨l, queues', last, kind, dateA, state, now, lookahead, regulating, mode, asynchronous,
    belongs, ended⟩ := tm'
  simp only at lbts queues heure avancee date granted constrained member
  subst lbts queues heure avancee date granted constrained member
  exact ⟨bounded.lbts, bounded.sorted, bounded.kind, bounded.available, bounded.ahead,
    fun mode => ⟨(bounded.behind mode).bound, (bounded.behind mode).queue⟩,
    fun belongs mode idle state =>
      ⟨(bounded.apart belongs mode idle state).bound,
        (bounded.apart belongs mode idle state).queue⟩⟩

theorem null (bounded : tm.Bounded) (date : Date) : (tm.sendNullIfRegulating date).1.Bounded := by
  obtain ⟨last, state⟩ := tm.sendNullIfRegulating_state date
  rw [state]
  exact bounded.frame rfl rfl rfl rfl rfl rfl rfl rfl

/-- A request for a date that is not past. -/
theorem await {tm' : TimeManagement} (bounded : tm.Bounded) {kind : TypeAvancee} {date : Date}
    (lbts : tm'.toLBTS = tm.toLBTS) (queues : tm'.queues = tm.queues)
    (heure : tm'.heureCourante = tm.heureCourante)
    (constrained : tm'.isConstrained = tm.isConstrained) (asked : kind ≠ .pasDAvancee)
    (other : kind ≠ .nera) (available : kind = .tara → tm'.typeGrantedState = .afterTaraOrNera)
    (ahead : tm.heureCourante ≤ date) : (tm'.await kind date).Bounded where
  lbts := by
    change tm'.lbts = LBTS.leastClock tm'.myFederateNumber ⊤ tm'.clocks
    rw [lbts]
    exact bounded.lbts
  sorted := by
    change tm'.queues.Sorted
    rw [queues]
    exact bounded.sorted
  kind := other
  available := available
  ahead := by
    change tm'.heureCourante ≤ (tm'.await kind date).base
    have pending : (tm'.await kind date).base = date := if_neg asked
    rw [pending, heure]
    exact ahead
  behind := by
    intro mode
    have behind := bounded.behind (constrained ▸ mode)
    constructor
    · change tm'.heureCourante ≤ tm'.lbts
      rw [heure, lbts]
      exact behind.bound
    · change ∀ m ∈ tm'.queues.tsos, tm'.heureCourante ≤ m.getDate
      rw [heure, queues]
      exact behind.queue
  apart := fun _ _ idle => absurd idle asked

/-- The clocks of the others have changed. -/
theorem clocks (bounded : tm.Bounded) {l : LBTS}
    (right : l.lbts = LBTS.leastClock l.myFederateNumber ⊤ l.clocks)
    (above : tm.isConstrained = true → tm.lbts ≤ l.lbts ∨ tm.heureCourante < l.lbts) :
    { tm with toLBTS := l }.Bounded where
  lbts := right
  sorted := bounded.sorted
  kind := bounded.kind
  available := bounded.available
  ahead := bounded.ahead
  behind := by
    intro constrained
    have behind := bounded.behind constrained
    constructor
    · rcases above constrained with higher | after
      · exact le_trans behind.bound higher
      · exact le_of_lt after
    · exact behind.queue
  apart := by
    intro member constrained idle granted
    have apart := bounded.apart member constrained idle granted
    constructor
    · rcases above constrained with higher | after
      · exact lt_of_lt_of_le apart.bound higher
      · exact after
    · exact apart.queue

/-- Messages have left the queues. -/
theorem fewer (bounded : tm.Bounded) {q : Queues} (fewer : q.tsos.Sublist tm.queues.tsos) :
    { tm with queues := q }.Bounded where
  lbts := bounded.lbts
  sorted := List.Pairwise.sublist fewer bounded.sorted
  kind := bounded.kind
  available := bounded.available
  ahead := bounded.ahead
  behind := fun constrained => ⟨(bounded.behind constrained).bound,
    fun m member => (bounded.behind constrained).queue m (fewer.subset member)⟩
  apart := fun belongs constrained idle granted =>
    ⟨(bounded.apart belongs constrained idle granted).bound,
      fun m member =>
        (bounded.apart belongs constrained idle granted).queue m (fewer.subset member)⟩

theorem grant (bounded : tm.Bounded) (ends : Ends tm) :
    (tm.timeAdvanceGrant tm.dateAvancee).1.Bounded where
  lbts := bounded.lbts
  sorted := bounded.sorted
  kind := by simp [timeAdvanceGrant]
  available := by simp [timeAdvanceGrant]
  ahead := by simp [timeAdvanceGrant, TimeManagement.base]
  behind := by
    intro constrained
    constructor
    · rcases ends.bound constrained with below | at_bound
      · exact le_of_lt below
      · exact at_bound.1
    · intro m member
      exact le_of_lt (Queues.giveTsoMessage_none bounded.sorted (ends.due constrained) m member)
  apart := by
    intro _ constrained _ granted
    constructor
    · rcases ends.bound constrained with below | at_bound
      · exact below
      · exact absurd (bounded.available at_bound.2) granted
    · exact Queues.giveTsoMessage_none bounded.sorted (ends.due constrained)

/-- The request comes down to the next message. -/
theorem dateMin_ahead (bounded : tm.Bounded) (constrained : tm.isConstrained = true)
    (pending : tm.avanceeEnCours ≠ .pasDAvancee) : tm.heureCourante ≤ tm.dateMin := by
  rcases tm.dateMin_cases with same | ⟨m, rest, queue, date, _⟩
  · have ahead := bounded.ahead
    rw [TimeManagement.base, if_neg pending] at ahead
    rw [same]
    exact ahead
  · rw [date]
    exact (bounded.behind constrained).queue m (by rw [queue]; exact List.mem_cons_self)

theorem come (bounded : tm.Bounded) {date : Date} (pending : tm.avanceeEnCours ≠ .pasDAvancee)
    (near : tm.isConstrained = true → date = tm.dateMin)
    (far : tm.isConstrained = false → date = tm.dateAvancee) :
    { tm with dateAvancee := date }.Bounded where
  lbts := bounded.lbts
  sorted := bounded.sorted
  kind := bounded.kind
  available := bounded.available
  ahead := by
    have base : { tm with dateAvancee := date }.base = date := if_neg pending
    rw [base]
    cases constrained : tm.isConstrained with
    | true =>
      rw [near constrained]
      exact bounded.dateMin_ahead constrained pending
    | false =>
      have ahead := bounded.ahead
      rw [TimeManagement.base, if_neg pending] at ahead
      rw [far constrained]
      exact ahead
  behind := fun constrained =>
    ⟨(bounded.behind constrained).bound, (bounded.behind constrained).queue⟩
  apart := fun _ _ idle => absurd idle pending

theorem gives (bounded : tm.Bounded) {r : TimeManagement × RtiaAnswer} (gives : Gives tm r) :
    r.1.Bounded := by
  obtain ⟨q, state, fewer⟩ := gives.state
  rw [state]
  exact bounded.fewer fewer

theorem tick (bounded : tm.Bounded) : tm.tick.1.Bounded := by
  have ticks := tick_ticks bounded.kind
  generalize tm.tick = r at ticks
  cases ticks with
  | gives gives => exact bounded.gives gives
  | grants ends => exact bounded.grant ends
  | waits => exact bounded.null tm.lbts
  | comes pending near far after =>
    rename_i r date
    have come := (bounded.come (by simp [pending]) (fun mode => (near mode).1) far).null date
    change r.1.Bounded
    rcases after with gives | ⟨ends, rfl⟩
    · exact come.gives gives
    · exact come.grant ends

end Bounded

/-! ## The promise is kept -/

namespace Conceded

variable {promise : Date}

/-- What the promise does not depend on may change. -/
theorem frame {tm' : TimeManagement} (conceded : tm.Conceded promise)
    (lookahead : tm'.lookaheadCourant = tm.lookaheadCourant)
    (granted : tm'.typeGrantedState ≠ .afterTarOrNerWithZeroLk)
    (last : tm'.lastNullMessageDate = tm.lastNullMessageDate)
    (heure : tm'.heureCourante = tm.heureCourante) (base : tm'.base = tm.base)
    (next : tm'.avanceeEnCours = .ner → tm'.isConstrained = true →
      promise ≤ tm'.lbts + tm'.lookaheadCourant ∧
        ∀ m ∈ tm'.queues.tsos, promise ≤ m.getDate + tm'.lookaheadCourant) :
    tm'.Conceded promise where
  positive := lookahead ▸ conceded.positive
  plain := lookahead ▸ conceded.plain
  granted := granted
  base := by
    rw [base, lookahead]
    exact conceded.base
  recent := by
    rw [heure, lookahead, last]
    exact conceded.recent
  next := next

/-- A NULL message that promises no more than what is kept. -/
theorem null (conceded : tm.Conceded promise) {date : Date} (base : date ≤ tm.base)
    (next : tm.avanceeEnCours = .ner → tm.isConstrained = true →
      date ≤ tm.lbts ∧ ∀ m ∈ tm.queues.tsos, date ≤ m.getDate) :
    ∃ later, promised (some promise) (tm.sendNullMessage date).2 = some later ∧
      (tm.sendNullMessage date).1.Conceded later := by
  unfold sendNullMessage
  split
  · rename_i more
    refine ⟨later (date + tm.lookaheadCourant) promise, rfl, ?_⟩
    have least : ∀ bound : Date, promise ≤ bound → date + tm.lookaheadCourant ≤ bound →
        later (date + tm.lookaheadCourant) promise ≤ bound := by
      intro bound old new
      unfold later
      split
      · exact old
      · exact new
    exact
      { positive := conceded.positive
        plain := conceded.plain
        granted := conceded.granted
        base := least _ conceded.base (by gcongr; exact base)
        recent := by
          unfold later
          split
          · rcases conceded.recent with recent | recent
            · exact .inl recent
            · exact .inr (le_trans recent (le_of_lt more))
          · exact .inr (le_refl _)
        next := by
          intro ner constrained
          obtain ⟨bound, queue⟩ := conceded.next ner constrained
          obtain ⟨near, nearer⟩ := next ner constrained
          constructor
          · exact least _ bound (by dsimp only; gcongr)
          · intro m member
            have early := nearer m member
            exact least _ (queue m member) (by dsimp only; gcongr) }
  · exact ⟨promise, rfl, conceded⟩

theorem fewer (conceded : tm.Conceded promise) {q : Queues}
    (fewer : q.tsos.Sublist tm.queues.tsos) : { tm with queues := q }.Conceded promise := by
  have next : tm.avanceeEnCours = .ner → tm.isConstrained = true →
      promise ≤ tm.lbts + tm.lookaheadCourant ∧
        ∀ m ∈ q.tsos, promise ≤ m.getDate + tm.lookaheadCourant := by
    intro ner constrained
    obtain ⟨bound, queue⟩ := conceded.next ner constrained
    exact ⟨bound, fun m member => queue m (fewer.subset member)⟩
  exact conceded.frame rfl conceded.granted rfl rfl rfl next

theorem grant (conceded : tm.Conceded promise) (pending : tm.avanceeEnCours ≠ .pasDAvancee) :
    (tm.timeAdvanceGrant tm.dateAvancee).1.Conceded promise := by
  have same : (tm.timeAdvanceGrant tm.dateAvancee).1.lookaheadCourant = tm.lookaheadCourant :=
    if_neg conceded.plain
  have base := conceded.base
  rw [TimeManagement.base, if_neg pending] at base
  exact
    { positive := same ▸ conceded.positive
      plain := same ▸ conceded.plain
      granted := conceded.granted
      base := by
        rw [same]
        exact base
      recent := by
        rw [same]
        exact .inl base
      next := by simp [timeAdvanceGrant] }

/-- The federate asks for a date that is not past. -/
theorem await (conceded : tm.Conceded promise) (behind : tm.isConstrained = true → tm.Behind)
    (idle : tm.avanceeEnCours = .pasDAvancee) {kind : TypeAvancee} {date : Date}
    (asked : kind ≠ .pasDAvancee) (ahead : tm.heureCourante ≤ date) :
    (tm.await kind date).Conceded promise := by
  have base := conceded.base
  rw [TimeManagement.base, if_pos idle] at base
  have pending : (tm.await kind date).base = date := if_neg asked
  exact
    { positive := conceded.positive
      plain := conceded.plain
      granted := conceded.granted
      base := by
        rw [pending]
        exact le_trans base (by change _ ≤ date + tm.lookaheadCourant; gcongr)
      recent := .inl base
      next := by
        intro _ constrained
        obtain ⟨bound, queue⟩ := behind constrained
        constructor
        · exact le_trans base (by change _ ≤ tm.lbts + tm.lookaheadCourant; gcongr)
        · intro m member
          have early := queue m member
          exact le_trans base (by change _ ≤ m.getDate + tm.lookaheadCourant; gcongr) }

/-- A NER comes down to the next message. -/
theorem come (conceded : tm.Conceded promise) {date : Date} (pending : tm.avanceeEnCours = .ner)
    (near : tm.isConstrained = true → date = tm.dateMin)
    (far : tm.isConstrained = false → date = tm.dateAvancee) :
    { tm with dateAvancee := date }.Conceded promise := by
  have busy : tm.avanceeEnCours ≠ .pasDAvancee := by simp [pending]
  have base := conceded.base
  rw [TimeManagement.base, if_neg busy] at base
  have here : { tm with dateAvancee := date }.base = date := if_neg busy
  exact
    { positive := conceded.positive
      plain := conceded.plain
      granted := conceded.granted
      base := by
        rw [here]
        cases constrained : tm.isConstrained with
        | true =>
          rw [near constrained]
          rcases tm.dateMin_cases with same | ⟨m, rest, queue, first, _⟩
          · rw [same]
            exact base
          · rw [first]
            exact (conceded.next pending constrained).2 m
              (by rw [queue]; exact List.mem_cons_self)
        | false =>
          rw [far constrained]
          exact base
      recent := conceded.recent
      next := conceded.next }

end Conceded

namespace Abides

theorem null (abides : tm.Abides clock) {date : Date} (base : date ≤ tm.base)
    (next : tm.avanceeEnCours = .ner → tm.isConstrained = true →
      date ≤ tm.lbts ∧ ∀ m ∈ tm.queues.tsos, date ≤ m.getDate) :
    (tm.sendNullIfRegulating date).1.Abides (promised clock (tm.sendNullIfRegulating date).2) := by
  unfold sendNullIfRegulating
  cases abides with
  | free free =>
    simp only [free, Bool.false_eq_true, if_false]
    exact .free free
  | regulating promise regulating conceded =>
    simp only [regulating, if_true]
    obtain ⟨later, same, kept⟩ := conceded.null base next
    rw [same]
    apply Abides.regulating later _ kept
    unfold sendNullMessage
    split <;> exact regulating

theorem gives (abides : tm.Abides clock) {r : TimeManagement × RtiaAnswer} (gives : Gives tm r) :
    r.1.Abides clock := by
  obtain ⟨q, state, fewer⟩ := gives.state
  rw [state]
  cases abides with
  | free free => exact .free free
  | regulating promise regulating conceded =>
    exact .regulating promise regulating (conceded.fewer fewer)

theorem grant (abides : tm.Abides clock) (ends : Ends tm) :
    (tm.timeAdvanceGrant tm.dateAvancee).1.Abides clock := by
  cases abides with
  | free free => exact .free free
  | regulating promise regulating conceded =>
    exact .regulating promise regulating (conceded.grant ends.pending)

theorem come (abides : tm.Abides clock) {date : Date} (pending : tm.avanceeEnCours = .ner)
    (near : tm.isConstrained = true → date = tm.dateMin)
    (far : tm.isConstrained = false → date = tm.dateAvancee) :
    { tm with dateAvancee := date }.Abides clock := by
  cases abides with
  | free free => exact .free free
  | regulating promise regulating conceded =>
    exact .regulating promise regulating (conceded.come pending near far)

end Abides

/-- The federate keeps its time bounded and its promise, and what it sends keeps it too. -/
structure Keeps (clock : Option Date) (r : TimeManagement × RtiaAnswer) : Prop where
  bounded : r.1.Bounded
  truthful : Truthful clock r.2.sent
  abides : r.1.Abides (promised clock r.2.sent)

/-- Nothing is sent. -/
theorem Keeps.silent {r : TimeManagement × RtiaAnswer} (bounded : r.1.Bounded)
    (abides : r.1.Abides clock) (silent : r.2.sent = []) : Keeps clock r where
  bounded := bounded
  truthful := by
    rw [silent]
    trivial
  abides := by
    rw [silent]
    exact abides

theorem sendNullIfRegulating_truthful (tm : TimeManagement) (date : Date) (clock : Option Date) :
    Truthful clock (tm.sendNullIfRegulating date).2 := by
  apply truthful_undated
  intro m member
  rcases tm.sendNullIfRegulating_sent date with sent | sent
  · rw [sent] at member
    cases member
  · rw [sent] at member
    rw [List.mem_singleton.mp member]
    rfl

theorem tick_keeps_promise (bounded : tm.Bounded) (abides : tm.Abides clock) :
    Keeps clock tm.tick := by
  have after := bounded.tick
  have ticks := tick_ticks bounded.kind
  generalize tm.tick = r at after ticks
  cases ticks with
  | gives gives => exact .silent after (abides.gives gives) gives.sent
  | grants ends => exact .silent after (abides.grant ends) rfl
  | waits pending constrained bound =>
    have busy : tm.avanceeEnCours ≠ .pasDAvancee := by simp [pending]
    have early : ∀ m ∈ tm.queues.tsos, tm.lbts ≤ m.getDate :=
      fun m member => le_trans bound (dateMin_le bounded.sorted member)
    have base : tm.lbts ≤ tm.base := by
      rw [TimeManagement.base, if_neg busy]
      rcases tm.dateMin_cases with same | ⟨m, rest, queue, date, earlier⟩
      · exact same ▸ bound
      · rw [date] at bound
        exact le_trans bound (le_of_lt earlier)
    exact ⟨after, tm.sendNullIfRegulating_truthful tm.lbts clock,
      abides.null base fun _ _ => ⟨le_refl _, early⟩⟩
  | comes pending near far next =>
    rename_i r date
    have busy : tm.avanceeEnCours ≠ .pasDAvancee := by simp [pending]
    have come := abides.come pending (fun mode => (near mode).1) far
    have base : date ≤ { tm with dateAvancee := date }.base := by
      rw [TimeManagement.base, if_neg busy]
    have told := come.null base fun _ constrained => by
      obtain ⟨same, below⟩ := near constrained
      exact ⟨le_of_lt below, fun m member => same ▸ dateMin_le bounded.sorted member⟩
    have sent : (withSent ({ tm with dateAvancee := date }.sendNullIfRegulating date).2 r).2.sent =
        ({ tm with dateAvancee := date }.sendNullIfRegulating date).2 := by
      have quiet : r.2.sent = [] := by
        rcases next with gives | ⟨_, rfl⟩
        · exact gives.sent
        · rfl
      simp [withSent, quiet]
    refine ⟨after, ?_, ?_⟩
    · rw [sent]
      exact sendNullIfRegulating_truthful _ date clock
    · rw [sent]
      change r.1.Abides _
      rcases next with gives | ⟨ends, rfl⟩
      · exact told.gives gives
      · exact told.grant ends

/-! ## The services -/

theorem Keeps.refused (bounded : tm.Bounded) (abides : tm.Abides clock) (e : RTIException) :
    Keeps clock (tm.refuse e) := .silent bounded abides rfl

/-- The epsilon2 is for a lookahead of zero only. -/
theorem assumeLookahead_state (tm : TimeManagement) :
    ∃ l s, tm.assumeLookahead = { tm with lookaheadCourant := l, typeGrantedState := s } ∧
      (0 < tm.lookaheadCourant → l = tm.lookaheadCourant ∧ s = .afterTarOrNer) := by
  unfold assumeLookahead
  split
  · rename_i zero
    exact ⟨epsilon2, .afterTarOrNerWithZeroLk, rfl, fun positive =>
      absurd zero (ne_of_gt positive)⟩
  · exact ⟨tm.lookaheadCourant, .afterTarOrNer, rfl, fun _ => ⟨rfl, rfl⟩⟩

/-- A request settles how its grant is to be taken. -/
theorem Abides.assume (abides : tm.Abides clock) {l : Date} {s : TypeGrantedState}
    (same : 0 < tm.lookaheadCourant → l = tm.lookaheadCourant ∧ s ≠ .afterTarOrNerWithZeroLk) :
    { tm with lookaheadCourant := l, typeGrantedState := s }.Abides clock := by
  cases abides with
  | free free => exact .free free
  | regulating promise regulating conceded =>
    obtain ⟨rfl, plain⟩ := same conceded.positive
    exact .regulating promise regulating (conceded.frame rfl plain rfl rfl rfl conceded.next)

theorem Abides.await (abides : tm.Abides clock) (behind : tm.isConstrained = true → tm.Behind)
    (idle : tm.avanceeEnCours = .pasDAvancee) {kind : TypeAvancee} {date : Date}
    (asked : kind ≠ .pasDAvancee) (ahead : tm.heureCourante ≤ date) :
    (tm.await kind date).Abides clock := by
  cases abides with
  | free free => exact .free free
  | regulating promise regulating conceded =>
    exact .regulating promise regulating (conceded.await behind idle asked ahead)

/-- TAR and TARA promise the requested date. -/
theorem Keeps.request (bounded : tm.Bounded) {l : Date} {s : TypeGrantedState}
    (abides : { tm with lookaheadCourant := l, typeGrantedState := s }.Abides clock)
    (idle : tm.avanceeEnCours = .pasDAvancee) {date : Date} (ahead : tm.heureCourante ≤ date)
    {kind : TypeAvancee} (asked : kind = .tar ∨ kind = .tara ∧ s = .afterTaraOrNera) :
    let r := { tm with lookaheadCourant := l, typeGrantedState := s }.sendNullIfRegulating date
    Keeps clock (r.1.await kind date, { sent := r.2 }) := by
  generalize assumed : { tm with lookaheadCourant := l, typeGrantedState := s } = tm' at abides
  have busy : kind ≠ .pasDAvancee := by
    rcases asked with rfl | ⟨rfl, _⟩
    · simp
    · simp
  have noNera : kind ≠ .nera := by
    rcases asked with rfl | ⟨rfl, _⟩
    · simp
    · simp
  have noNer : kind ≠ .ner := by
    rcases asked with rfl | ⟨rfl, _⟩
    · simp
    · simp
  have available : kind = .tara → tm'.typeGrantedState = .afterTaraOrNera := by
    intro tara
    rcases asked with rfl | ⟨_, rfl⟩
    · cases tara
    · rw [← assumed]
  have bounded' : (tm'.await kind date).Bounded := by
    rw [← assumed] at available ⊢
    exact bounded.await rfl rfl rfl rfl busy noNera available ahead
  have abides' : (tm'.await kind date).Abides clock := by
    apply abides.await
    · rw [← assumed]
      exact fun constrained => ⟨(bounded.behind constrained).bound,
        (bounded.behind constrained).queue⟩
    · rw [← assumed]
      exact idle
    · exact busy
    · rw [← assumed]
      exact ahead
  have pending : (tm'.await kind date).base = date := if_neg busy
  have null := abides'.null (le_of_eq pending.symm) fun ner => absurd ner noNer
  have after := bounded'.null date
  rw [sendNullIfRegulating_await] at null after
  exact ⟨after, tm'.sendNullIfRegulating_truthful date clock, null⟩

theorem timeAdvanceRequest_keeps_promise (bounded : tm.Bounded) (abides : tm.Abides clock)
    (date : Date) : Keeps clock (tm.timeAdvanceRequest date) := by
  unfold timeAdvanceRequest
  split
  · exact .refused bounded abides _
  · rename_i accepted
    obtain ⟨idle, ahead⟩ := requestError_none accepted
    obtain ⟨l, s, state, same⟩ := tm.assumeLookahead_state
    rw [state]
    have assumed : { tm with lookaheadCourant := l, typeGrantedState := s }.Abides clock :=
      abides.assume fun positive => by
        obtain ⟨still, rfl⟩ := same positive
        exact ⟨still, by simp⟩
    exact .request bounded assumed idle ahead (.inl rfl)

theorem timeAdvanceRequestAvailable_keeps_promise (bounded : tm.Bounded)
    (abides : tm.Abides clock) (date : Date) :
    Keeps clock (tm.timeAdvanceRequestAvailable date) := by
  unfold timeAdvanceRequestAvailable
  split
  · exact .refused bounded abides _
  · rename_i accepted
    obtain ⟨idle, ahead⟩ := requestError_none accepted
    have assumed : { tm with typeGrantedState := .afterTaraOrNera }.Abides clock :=
      abides.assume fun _ => ⟨rfl, by simp⟩
    exact .request bounded assumed idle ahead (.inr ⟨rfl, rfl⟩)

theorem nextEventRequest_keeps_promise (bounded : tm.Bounded) (abides : tm.Abides clock)
    (date : Date) : Keeps clock (tm.nextEventRequest date) := by
  unfold nextEventRequest
  split
  · exact .refused bounded abides _
  · rename_i accepted
    obtain ⟨idle, ahead⟩ := requestError_none accepted
    obtain ⟨l, s, state, same⟩ := tm.assumeLookahead_state
    rw [state]
    have assumed : { tm with lookaheadCourant := l, typeGrantedState := s }.Abides clock :=
      abides.assume fun positive => by
        obtain ⟨still, rfl⟩ := same positive
        exact ⟨still, by simp⟩
    have behind : tm.isConstrained = true →
        { tm with lookaheadCourant := l, typeGrantedState := s }.Behind :=
      fun constrained => ⟨(bounded.behind constrained).bound, (bounded.behind constrained).queue⟩
    apply Keeps.silent
    · exact bounded.await rfl rfl rfl rfl (by simp) (by simp) (by simp) ahead
    · exact assumed.await behind idle (by simp) ahead
    · rfl

theorem setLookahead_keeps_promise (bounded : tm.Bounded) (abides : tm.Abides clock)
    {lookahead : Date} (careful : tm.isRegulating = true → tm.lookaheadCourant ≤ lookahead) :
    Keeps clock (tm.setLookahead lookahead) := by
  unfold setLookahead
  split
  · exact .refused bounded abides _
  · rename_i plain
    split
    · exact .refused bounded abides _
    · have same : { tm with lookaheadCourant := lookahead }.Bounded :=
        bounded.frame rfl rfl rfl rfl rfl rfl rfl rfl
      have raised : { tm with lookaheadCourant := lookahead }.Abides clock := by
        cases abides with
        | free free => exact .free free
        | regulating promise regulating conceded =>
          have more := careful regulating
          have wider : ∀ date : Date, date + tm.lookaheadCourant ≤ date + lookahead :=
            fun date => by gcongr
          have recent : promise ≤ tm.heureCourante + lookahead ∨
              promise ≤ tm.lastNullMessageDate := by
            rcases conceded.recent with recent | recent
            · exact .inl (le_trans recent (wider _))
            · exact .inr recent
          exact .regulating promise regulating
            { positive := lt_of_lt_of_le conceded.positive more
              plain := plain
              granted := conceded.granted
              base := le_trans conceded.base (wider _)
              recent := recent
              next := fun ner constrained =>
                ⟨le_trans (conceded.next ner constrained).1 (wider _),
                  fun m member => le_trans ((conceded.next ner constrained).2 m member) (wider _)⟩ }
      exact ⟨same.null _, sendNullIfRegulating_truthful _ _ clock,
        raised.null bounded.ahead fun _ constrained =>
          ⟨(bounded.behind constrained).bound, (bounded.behind constrained).queue⟩⟩

theorem setTimeConstrained_keeps_promise (bounded : tm.Bounded) (abides : tm.Abides clock)
    {on : Bool} (careful : on = true →
      tm.heureCourante < tm.lbts ∧ ∀ m ∈ tm.queues.tsos, tm.heureCourante < m.getDate) :
    Keeps clock (tm.setTimeConstrained on) := by
  unfold setTimeConstrained
  split
  · exact .refused bounded abides _
  · rename_i accepted
    obtain ⟨_, still⟩ := not_or.mp accepted
    have idle : tm.avanceeEnCours = .pasDAvancee := not_not.mp still
    have after : { tm with isConstrained := on }.Bounded :=
      { lbts := bounded.lbts
        sorted := bounded.sorted
        kind := bounded.kind
        available := bounded.available
        ahead := bounded.ahead
        behind := fun constrained => ⟨le_of_lt (careful constrained).1,
          fun m member => le_of_lt ((careful constrained).2 m member)⟩
        apart := fun _ constrained _ _ => ⟨(careful constrained).1, (careful constrained).2⟩ }
    have kept : { tm with isConstrained := on }.Abides clock := by
      cases abides with
      | free free => exact .free free
      | regulating promise regulating conceded =>
        have never : tm.avanceeEnCours = .ner → on = true →
            promise ≤ tm.lbts + tm.lookaheadCourant ∧
              ∀ m ∈ tm.queues.tsos, promise ≤ m.getDate + tm.lookaheadCourant := by
          simp [idle]
        exact .regulating promise regulating
          (conceded.frame rfl conceded.granted rfl rfl rfl never)
    exact ⟨after, truthful_undated (by simp [ToRtig.dated]) clock, kept⟩

theorem setTimeRegulating_keeps_promise (bounded : tm.Bounded) (abides : tm.Abides clock)
    {on : Bool} {lookahead : Date} (careful : on = true →
      0 < lookahead ∧ lookahead ≠ epsilon2 ∧ tm.typeGrantedState ≠ .afterTarOrNerWithZeroLk) :
    Keeps clock (tm.setTimeRegulating on lookahead) := by
  unfold setTimeRegulating
  split
  · exact .refused bounded abides _
  · rename_i accepted
    obtain ⟨changes, still⟩ := not_or.mp accepted
    have idle : tm.avanceeEnCours = .pasDAvancee := not_not.mp still
    have after : { tm with isRegulating := on, lookaheadCourant := lookahead }.Bounded :=
      bounded.frame rfl rfl rfl rfl rfl rfl rfl rfl
    refine ⟨after, truthful_undated (by simp [ToRtig.dated]) clock, ?_⟩
    cases on with
    | false => exact .free rfl
    | true =>
      obtain ⟨positive, plain, granted⟩ := careful rfl
      have free : clock = none := by
        cases abides with
        | free => rfl
        | regulating promise regulating => exact absurd regulating changes
      subst free
      have base : { tm with isRegulating := true, lookaheadCourant := lookahead }.base =
          tm.heureCourante := if_pos idle
      exact .regulating (tm.heureCourante + lookahead) rfl
        { positive := positive
          plain := plain
          granted := granted
          base := by rw [base]
          recent := .inl (le_refl _)
          next := by simp [idle] }

theorem sendDated_keeps_promise (bounded : tm.Bounded) (abides : tm.Abides clock) {date : Date}
    (regulating : tm.isRegulating = true) (valid : tm.testValidTime date = true)
    {m : ToRtig} (dated : m.dated = some date) (still : ∀ clock, m.moves clock = clock) :
    Keeps clock (tm, { sent := [m] }) := by
  cases abides with
  | free free =>
    rw [free] at regulating
    cases regulating
  | regulating promise regulating conceded =>
    have late : tm.base + tm.lookaheadCourant ≤ date := by
      simp only [testValidTime, conceded.granted, if_false, decide_eq_true_eq] at valid
      exact valid
    have kept : promised (some promise) [m] = some promise := still (some promise)
    refine ⟨bounded, ⟨?_, trivial⟩, ?_⟩
    · intro d member
      rw [dated] at member
      cases member
      exact ⟨promise, rfl, le_trans conceded.base late⟩
    · rw [kept]
      exact .regulating promise regulating conceded

/-- The federate gives everything up that has to do with time. -/
theorem resign_state (member : tm.isMember = true) : ∃ l,
    tm.resign = ({ tm with
        avanceeEnCours := .pasDAvancee
        isRegulating := false
        lookaheadCourant := l
        isMember := false },
      { sent :=
          (if tm.isRegulating then [.setTimeRegulating false (tm.heureCourante + 0)] else []) ++
          [.resign] }) := by
  rw [resign, if_pos member]
  cases regulating : tm.isRegulating with
  | true => exact ⟨0, by simp [stopperAvanceTemps, setTimeRegulating, regulating]⟩
  | false => exact ⟨tm.lookaheadCourant, by simp [stopperAvanceTemps, regulating]⟩

theorem resign_keeps_promise (bounded : tm.Bounded) (abides : tm.Abides clock) :
    Keeps clock tm.resign := by
  by_cases member : tm.isMember = true
  · obtain ⟨l, state⟩ := tm.resign_state member
    rw [state]
    have free : promised clock ((if tm.isRegulating then
        [.setTimeRegulating false (tm.heureCourante + 0)] else []) ++ [.resign]) = none := by
      cases abides with
      | free free => simp [free, promised, ToRtig.moves]
      | regulating promise regulating => simp [regulating, promised, ToRtig.moves]
    have undated : ∀ m ∈ (if tm.isRegulating then
        [ToRtig.setTimeRegulating false (tm.heureCourante + 0)] else []) ++ [.resign],
        m.dated = none := by
      intro m listed
      split at listed
      · simp only [List.mem_append, List.mem_singleton] at listed
        rcases listed with rfl | rfl <;> rfl
      · simp only [List.nil_append, List.mem_singleton] at listed
        rw [listed]
        rfl
    refine ⟨?_, truthful_undated undated clock, ?_⟩
    · exact
        { lbts := bounded.lbts
          sorted := bounded.sorted
          kind := by simp
          available := by simp
          ahead := le_refl _
          behind := fun constrained => ⟨(bounded.behind constrained).bound,
            (bounded.behind constrained).queue⟩
          apart := by simp }
    · rw [free]
      exact .free rfl
  · rw [resign, if_neg member]
    exact .refused bounded abides _

/-! ## The messages of the RTIG -/

/-- A message is put into a queue, or ends the RTIA. -/
theorem processNetworkMessage_state (tm : TimeManagement) (m : QueuedMessage) : ∃ q b,
    (tm.processNetworkMessage m).1 = { tm with queues := q, ended := b } ∧
      (tm.processNetworkMessage m).2.sent = [] ∧
      (q.tsos = tm.queues.tsos ∨ q = tm.queues.insertTsoMessage m ∧
        m.order.toOption = some .timestamp ∧ tm.isConstrained = true) := by
  unfold processNetworkMessage
  split
  · exact ⟨_, tm.ended, rfl, rfl, .inl rfl⟩
  · exact ⟨_, tm.ended, rfl, rfl, .inl rfl⟩
  · split
    · rename_i order found
      unfold insertByOrder
      split
      · rename_i stamped
        exact ⟨_, tm.ended, rfl, rfl, .inr ⟨rfl, by rw [found, stamped.1]; rfl, stamped.2⟩⟩
      · exact ⟨_, tm.ended, rfl, rfl, .inl rfl⟩
    · exact ⟨tm.queues, true, rfl, rfl, .inl rfl⟩

/-- What is added to the queue is not dated before the bound. -/
theorem Bounded.more (bounded : tm.Bounded) {q : Queues} {b : Bool} (sorted : q.Sorted)
    (timely : tm.isConstrained = true →
      ∀ m ∈ q.tsos, m ∈ tm.queues.tsos ∨ tm.lbts ≤ m.getDate) :
    { tm with queues := q, ended := b }.Bounded where
  lbts := bounded.lbts
  sorted := sorted
  kind := bounded.kind
  available := bounded.available
  ahead := bounded.ahead
  behind := by
    intro constrained
    obtain ⟨bound, queue⟩ := bounded.behind constrained
    constructor
    · exact bound
    · intro m member
      rcases timely constrained m member with old | late
      · exact queue m old
      · exact le_trans bound late
  apart := by
    intro belongs constrained idle granted
    obtain ⟨bound, queue⟩ := bounded.apart belongs constrained idle granted
    constructor
    · exact bound
    · intro m member
      rcases timely constrained m member with old | late
      · exact queue m old
      · exact lt_of_lt_of_le bound late

theorem Abides.more (abides : tm.Abides clock) {q : Queues} {b : Bool}
    (timely : tm.isConstrained = true →
      ∀ m ∈ q.tsos, m ∈ tm.queues.tsos ∨ tm.lbts ≤ m.getDate) :
    { tm with queues := q, ended := b }.Abides clock := by
  cases abides with
  | free free => exact .free free
  | regulating promise regulating conceded =>
    have next : tm.avanceeEnCours = .ner → tm.isConstrained = true →
        promise ≤ tm.lbts + tm.lookaheadCourant ∧
          ∀ m ∈ q.tsos, promise ≤ m.getDate + tm.lookaheadCourant := by
      intro ner constrained
      obtain ⟨bound, queue⟩ := conceded.next ner constrained
      constructor
      · exact bound
      · intro m member
        rcases timely constrained m member with old | late
        · exact queue m old
        · exact le_trans bound (by gcongr)
    exact .regulating promise regulating
      (conceded.frame rfl conceded.granted rfl rfl rfl next)

theorem processNetworkMessage_keeps_promise (bounded : tm.Bounded) (abides : tm.Abides clock)
    (running : tm.ended = false) (m : QueuedMessage)
    (expected : ∀ n ∈ tm.queued (.arrive m), tm.lbts ≤ n.getDate) :
    Keeps clock (tm.processNetworkMessage m) := by
  obtain ⟨q, b, state, silent, queue⟩ := tm.processNetworkMessage_state m
  have sorted : q.Sorted := by
    rcases queue with same | ⟨rfl, _⟩
    · unfold Queues.Sorted
      rw [same]
      exact bounded.sorted
    · exact Queues.Sorted.insertTsoMessage bounded.sorted m
  have timely : tm.isConstrained = true →
      ∀ n ∈ q.tsos, n ∈ tm.queues.tsos ∨ tm.lbts ≤ n.getDate := by
    intro constrained n member
    rcases queue with same | ⟨rfl, stamped, _⟩
    · exact .inl (same ▸ member)
    · rcases Queues.mem_insertTsoMessage.mp member with rfl | old
      · have asked : n ∈ tm.queued (.arrive n) := by
          simp [queued, running, stamped, constrained]
        exact .inr (expected n asked)
      · exact .inl old
  apply Keeps.silent
  · rw [state]
    exact bounded.more sorted timely
  · rw [state]
    exact abides.more timely
  · exact silent

/-- The clocks of the others change; the bound may come down to a new regulator's clock. -/
theorem orEnd_keeps_promise (bounded : tm.Bounded) (abides : tm.Abides clock)
    {result : Except RTIException LBTS}
    (right : ∀ l, result = .ok l → l.lbts = LBTS.leastClock l.myFederateNumber ⊤ l.clocks)
    (above : ∀ l, result = .ok l → tm.isConstrained = true → tm.lbts ≤ l.lbts ∨
      tm.heureCourante < l.lbts ∧ (tm.isRegulating = true → tm.avanceeEnCours = .ner →
        tm.lastNullMessageDate ≤ l.lbts + tm.lookaheadCourant)) :
    Keeps clock (tm.orEnd result) := by
  cases result with
  | error e =>
    apply Keeps.silent
    · exact bounded.frame rfl rfl rfl rfl rfl rfl rfl rfl
    · cases abides with
      | free free => exact .free free
      | regulating promise regulating conceded =>
        exact .regulating promise regulating
          (conceded.frame rfl conceded.granted rfl rfl rfl conceded.next)
    · rfl
  | ok l =>
    apply Keeps.silent
    · apply bounded.clocks (right l rfl)
      intro constrained
      rcases above l rfl constrained with higher | ⟨after, _⟩
      · exact .inl higher
      · exact .inr after
    · cases abides with
      | free free => exact .free free
      | regulating promise regulating conceded =>
        have next : tm.avanceeEnCours = .ner → tm.isConstrained = true →
            promise ≤ l.lbts + tm.lookaheadCourant ∧
              ∀ m ∈ tm.queues.tsos, promise ≤ m.getDate + tm.lookaheadCourant := by
          intro ner constrained
          obtain ⟨bound, queue⟩ := conceded.next ner constrained
          refine ⟨?_, queue⟩
          rcases above l rfl constrained with higher | ⟨after, last⟩
          · exact le_trans bound (by gcongr)
          · rcases conceded.recent with recent | recent
            · exact le_trans recent (by gcongr)
            · exact le_trans recent (last regulating ner)
        exact .regulating promise regulating
          (conceded.frame rfl conceded.granted rfl rfl rfl next)
    · rfl

/-- A join changes nothing but the clocks and the membership. -/
theorem insertClocks_state (tm : TimeManagement) (clocks : List (FederateHandle × Date))
    (right : tm.lbts = LBTS.leastClock tm.myFederateNumber ⊤ tm.clocks) : ∃ l b,
    (tm.insertClocks clocks).1 = { tm with toLBTS := l, isMember := b } ∧
      l.lbts = LBTS.leastClock l.myFederateNumber ⊤ l.clocks ∧
      (tm.insertClocks clocks).2.sent = [] := by
  induction clocks generalizing tm with
  | nil => exact ⟨tm.toLBTS, true, rfl, right, rfl⟩
  | cons c rest ih =>
    obtain ⟨h, date⟩ := c
    unfold insertClocks
    split
    · rename_i l inserted
      obtain ⟨here, _⟩ := LBTS.insert_bound right inserted
      exact ih { tm with toLBTS := l } here
    · exact ⟨tm.toLBTS, tm.isMember, rfl, right, rfl⟩

theorem join_keeps_promise (bounded : tm.Bounded) (abides : tm.Abides clock)
    (self : FederateHandle) (clocks : List (FederateHandle × Date)) (empty : tm.clocks = [])
    (free : tm.isConstrained = false) : Keeps clock (tm.join self clocks) := by
  unfold join
  split
  · exact .refused bounded abides _
  · have infinite : tm.lbts = LBTS.leastClock self ⊤ tm.clocks := by
      rw [bounded.lbts, empty]
      rfl
    obtain ⟨l, b, state, right, silent⟩ := insertClocks_state
      { tm with toLBTS := tm.toLBTS.setFederate self } clocks infinite
    apply Keeps.silent
    · rw [state]
      exact
        { lbts := right
          sorted := bounded.sorted
          kind := bounded.kind
          available := bounded.available
          ahead := bounded.ahead
          behind := by simp [free]
          apart := by simp [free] }
    · rw [state]
      cases abides with
      | free free => exact .free free
      | regulating promise regulating conceded =>
        have next : tm.avanceeEnCours = .ner → tm.isConstrained = true →
            promise ≤ l.lbts + tm.lookaheadCourant ∧
              ∀ m ∈ tm.queues.tsos, promise ≤ m.getDate + tm.lookaheadCourant := by
          simp [free]
        exact .regulating promise regulating
          (conceded.frame rfl conceded.granted rfl rfl rfl next)
    · exact silent

/-! ## Runs -/

/-- One event of a careful federate. -/
theorem perform_keeps_promise (bounded : tm.Bounded) (abides : tm.Abides clock)
    (running : tm.ended = false) {e : RtiaEvent} (careful : tm.Careful e)
    (expected : tm.Expected e) : Keeps clock (tm.perform e) := by
  cases e with
  | timeAdvanceRequest date => exact timeAdvanceRequest_keeps_promise bounded abides date
  | timeAdvanceRequestAvailable date =>
    exact timeAdvanceRequestAvailable_keeps_promise bounded abides date
  | nextEventRequest date => exact nextEventRequest_keeps_promise bounded abides date
  | nextEventRequestAvailable date =>
    have nothing : tm.nextEventRequestAvailable date = (tm, {}) := by
      unfold nextEventRequestAvailable
      rw [show tm.requestError date = none from careful]
    change Keeps clock (tm.nextEventRequestAvailable date)
    rw [nothing]
    exact .silent bounded abides rfl
  | setLookahead lookahead => exact setLookahead_keeps_promise bounded abides careful
  | setTimeConstrained on => exact setTimeConstrained_keeps_promise bounded abides careful
  | setTimeRegulating on lookahead => exact setTimeRegulating_keeps_promise bounded abides careful
  | setAsynchronousDelivery on =>
    change Keeps clock (tm.setAsynchronousDelivery on)
    unfold setAsynchronousDelivery
    split
    · exact .refused bounded abides _
    · apply Keeps.silent
      · exact bounded.frame rfl rfl rfl rfl rfl rfl rfl rfl
      · cases abides with
        | free free => exact .free free
        | regulating promise regulating conceded =>
          exact .regulating promise regulating
            (conceded.frame rfl conceded.granted rfl rfl rfl conceded.next)
      · rfl
  | sendDated date =>
    change Keeps clock (tm.sendDated date)
    unfold sendDated
    split
    · rename_i valid
      exact sendDated_keeps_promise bounded abides careful valid rfl fun _ => rfl
    · exact .refused bounded abides _
  | deleteDated date =>
    exact sendDated_keeps_promise bounded abides careful.1 careful.2 rfl fun _ => rfl
  | join self clocks => exact join_keeps_promise bounded abides self clocks expected.1 expected.2
  | resign => exact resign_keeps_promise bounded abides
  | arrive m => exact processNetworkMessage_keeps_promise bounded abides running m expected
  | messageNull fed date =>
    exact orEnd_keeps_promise bounded abides
      (fun _ updated => (LBTS.update_bound bounded.lbts updated).1)
      fun _ updated _ => .inl (LBTS.update_bound bounded.lbts updated).2
  | regulatorOn fed date =>
    apply orEnd_keeps_promise bounded abides
    · intro l inserted
      exact (LBTS.insert_bound bounded.lbts inserted).1
    · intro l inserted constrained
      rcases (LBTS.insert_bound bounded.lbts inserted).2 with higher | ⟨other, same⟩
      · exact .inl higher
      · rw [same]
        exact .inr (careful other constrained)
  | regulatorOff fed =>
    exact orEnd_keeps_promise bounded abides
      (fun _ removed => (LBTS.remove_bound bounded.lbts removed).1)
      fun _ removed _ => .inl (LBTS.remove_bound bounded.lbts removed).2
  | tick => exact tick_keeps_promise bounded abides

theorem rtia_keeps_promise (bounded : tm.Bounded) (abides : tm.Abides clock) {e : RtiaEvent}
    (careful : tm.Careful e) (expected : tm.Expected e) : Keeps clock (rtia tm e) := by
  cases ended : tm.ended with
  | true =>
    rw [rtia_ended ended]
    exact .silent bounded abides rfl
  | false =>
    rw [rtia_perform ended]
    exact perform_keeps_promise bounded abides ended careful expected

theorem create_bounded (granted : TypeGrantedState) : (create granted).Bounded where
  lbts := rfl
  sorted := List.Pairwise.nil
  kind := by simp [create]
  available := by simp [create]
  ahead := le_refl _
  behind := by simp [create]
  apart := by simp [create]

end TimeManagement

open TimeManagement

/-- What an RTIA has sent, in the order of sending. -/
def sentIn (past : List (RtiaEvent × RtiaAnswer)) : List ToRtig :=
  past.flatMap fun entry => entry.2.sent

/-- A regulator asks for the next event and sends at its promise, also below the date it asked
for. -/
def nextEventRegulator : List RtiaEvent :=
  [.join 1 [(2, (3 : FederationTime))], .setTimeConstrained true,
    .setTimeRegulating true (1 : FederationTime),
    .nextEventRequest (9 : FederationTime), .tick,
    .arrive ⟨0, .removeObject, some (5 : FederationTime)⟩, .messageNull 2 (7 : FederationTime),
    .tick, .sendDated (6 : FederationTime), .tick, .setLookahead (2 : FederationTime),
    .sendDated (8 : FederationTime)]

end Certi
