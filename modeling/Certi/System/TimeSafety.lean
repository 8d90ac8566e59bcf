import Certi.System.Agreement
import Certi.System.Promises

/-!
# No message comes too late

Every RTIA computes a bound from the clocks that it hears of and grants no time
beyond it. That no message in time stamp order then comes from the past takes
the whole network: the regulators keep their promises, the RTIG holds the clocks
they promise, and every RTIA that a message goes to hears of the clock before
the message.
-/
namespace Certi

open Runs Keyed Responses Federation

/-! ## The statement -/

namespace Station

/-- What a constrained federate is still to be given is not dated before its time, and nothing
dated at the time of a grant of TAR or NER is still to come. -/
structure NeverLate (st : Station) : Prop where
  queue : ∀ m ∈ st.tm.queues.tsos, st.tm.heureCourante ≤ m.getDate
  inbox : ∀ m rest, st.inbox = .dated m :: rest → st.tm.heureCourante ≤ m.getDate
  granted : st.tm.avanceeEnCours = .pasDAvancee → st.tm.typeGrantedState ≠ .afterTaraOrNera →
    (∀ m ∈ st.tm.queues.tsos, st.tm.heureCourante < m.getDate) ∧
      ∀ m rest, st.inbox = .dated m :: rest → st.tm.heureCourante < m.getDate

/-- The event that is handled when the RTIA takes up its next message. -/
def nextEvent (st : Station) : Option RtiaEvent :=
  if st.waiting = none then st.inbox.head?.bind Incoming.event else none

end Station

/-- Only members call services of time management, with care, and members hear of new regulators
in time. -/
def Network.Prudent (net : Network) (e : NetworkEvent) : Prop :=
  net.Orderly e ∧
    match e with
    | .call link e => ∀ st ∈ net.station? link, st.ready = true →
      st.tm.isMember = true ∧ st.tm.Careful e
    | .receive link => ∀ st ∈ net.station? link, st.tm.isMember = true →
      ∀ e ∈ st.nextEvent, st.tm.Careful e
    | _ => True

instance (net : Network) (e : NetworkEvent) : Decidable (net.Prudent e) := by
  unfold Network.Prudent
  cases e <;> infer_instance

/-! ## Clocks of the RTIG -/

namespace Federation

variable {f : Federation} {h g : FederateHandle} {date : Date}

/-- The table grows by a new regulator, also where the rest of the service fails. -/
theorem addRegulator_table (f : Federation) (h : FederateHandle) (date : Date) :
    (f.addRegulator h date).state.regulators =
      if f.isJoined h = true ∧ clockOf f.regulators h = none then f.regulators ++ [(h, date)]
      else f.regulators := by
  unfold addRegulator withFederate isJoined
  cases found : f.federate? h with
  | none => simp [Outcome.refused]
  | some fed =>
    simp only [Option.isSome_some, true_and, ← clockOf_isSome]
    cases known : clockOf f.regulators h with
    | some clock => simp [Outcome.refused]
    | none =>
      simp only [Option.isSome_none, Bool.false_eq_true, if_false, if_true]
      split
      · rfl
      · split <;> rfl

theorem removeRegulator_table (f : Federation) (h : FederateHandle) :
    (f.removeRegulator h).state.regulators =
      if f.isJoined h = true then drop Prod.fst h f.regulators else f.regulators := by
  unfold removeRegulator withFederate isJoined
  cases found : f.federate? h with
  | none => simp [Outcome.refused]
  | some fed =>
    simp only [Option.isSome_some, if_true]
    split
    · rename_i absent
      have nothing : ∀ clock ∈ f.regulators, clock.1 ≠ h :=
        lookup_eq_none.mp (Option.isNone_iff_eq_none.mp absent)
      simp only [Outcome.refused, drop]
      rw [List.filter_eq_self.mpr]
      intro clock listed
      simpa using nothing clock listed
    · split
      · rfl
      · unfold answering
        split <;> rfl

theorem updateRegulator_clock (regulated : f.Regulated) (joined : f.isJoined h = true) :
    clockOf (f.updateRegulator h date).state.regulators h =
      (clockOf f.regulators h).map (later date) := by
  unfold updateRegulator withFederate
  obtain ⟨fed, found⟩ := Option.isSome_iff_exists.mp joined
  rw [found]
  dsimp only
  split
  · rename_i unmarked
    have flag := regulated.flag found
    simp only [Bool.not_eq_true'] at unmarked
    rw [unmarked] at flag
    have absent : clockOf f.regulators h = none := by
      simpa using flag.symm
    simp [Outcome.refused, absent]
  · split
    · rename_i missing
      have absent : clockOf f.regulators h = none := by
        simpa [clockOf] using missing
      simp [Outcome.refused, absent]
    · have table : (answering { f with regulators := updateClock h date f.regulators } []
          ({ f with regulators := updateClock h date f.regulators }.respondToAll
            (.messageNull h date) h)).state.regulators = updateClock h date f.regulators := by
        unfold answering
        split <;> rfl
      rw [table, clockOf_updateClock, if_pos rfl]

/-- What a member asks for moves its own clock as it says. -/
theorem request_clock (regulated : f.Regulated) (joined : f.isJoined h = true) {m : ToRtig}
    {free : Bool} {e : Event} (asks : (Request.time h m).event free = some e) :
    clockOf (f.perform e).state.regulators h = m.moves (clockOf f.regulators h) := by
  cases m with
  | messageNull date =>
    cases asks
    exact updateRegulator_clock regulated joined
  | setTimeRegulating on date =>
    cases asks
    cases on with
    | true =>
      change clockOf (f.addRegulator h date).state.regulators h = _
      rw [addRegulator_table]
      cases known : clockOf f.regulators h with
      | none => simp [joined, clockOf_append_new, known, ToRtig.moves]
      | some clock => simp [known, ToRtig.moves]
    | false =>
      change clockOf (f.removeRegulator h).state.regulators h = _
      rw [removeRegulator_table, if_pos joined, clockOf_drop, if_pos rfl]
      rfl
  | setTimeConstrained on =>
    cases asks
    change clockOf (f.setConstrained h on).state.regulators h = _
    unfold setConstrained withFederate
    split
    · dsimp only
      split <;> rfl
    · rfl
  | sendDated date => cases asks
  | deleteDated date => cases asks
  | resign =>
    cases asks
    change clockOf (f.remove h).state.regulators h = _
    rcases remove_cases f h with refused | ⟨_, removed⟩
    · rw [refused]
      rfl
    · rw [removed]
      rfl

/-- The clocks of the others are left alone, and nobody joins. -/
theorem request_others (regulated : f.Regulated) {fed : FederateHandle} {m : ToRtig} {free : Bool}
    {e : Event} (asks : (Request.time fed m).event free = some e) :
    (∀ g ≠ fed, clockOf (f.perform e).state.regulators g = clockOf f.regulators g) ∧
      ∀ g, (f.perform e).state.isJoined g = true → f.isJoined g = true := by
  have internal : e.isInternal = true → ∀ g, (f.perform e).state.isJoined g = true →
      f.isJoined g = true := by
    intro internal g joined
    rw [isJoined_iff] at joined ⊢
    rw [← (perform_internal f internal).handles]
    exact joined
  cases m with
  | messageNull date =>
    cases asks
    refine ⟨fun g other => ?_, internal rfl⟩
    change clockOf (f.updateRegulator fed date).state.regulators g = _
    rcases updateRegulator_cases regulated fed date with ⟨e, refused⟩ | ⟨_, updated⟩
    · rw [refused]
      rfl
    · rw [updated]
      change clockOf (updateClock fed date f.regulators) g = _
      rw [clockOf_updateClock, if_neg (Ne.symm other)]
  | setTimeRegulating on date =>
    cases asks
    refine ⟨fun g other => ?_, internal rfl⟩
    cases on with
    | true =>
      change clockOf (f.addRegulator fed date).state.regulators g = _
      rw [addRegulator_table]
      split
      · simp [clockOf_append_new, Ne.symm other]
      · rfl
    | false =>
      change clockOf (f.removeRegulator fed).state.regulators g = _
      rw [removeRegulator_table]
      split
      · rw [clockOf_drop, if_neg (Ne.symm other)]
      · rfl
  | setTimeConstrained on =>
    cases asks
    refine ⟨fun g _ => ?_, internal rfl⟩
    change clockOf (f.setConstrained fed on).state.regulators g = _
    unfold setConstrained withFederate
    split
    · dsimp only
      split <;> rfl
    · rfl
  | sendDated date => cases asks
  | deleteDated date => cases asks
  | resign =>
    cases asks
    change (∀ g ≠ fed, clockOf (f.remove fed).state.regulators g = _) ∧
      ∀ g, (f.remove fed).state.isJoined g = true → _
    rcases remove_cases f fed with refused | ⟨_, removed⟩
    · rw [refused]
      exact ⟨fun _ _ => rfl, fun _ joined => joined⟩
    · rw [removed]
      refine ⟨fun _ _ => rfl, fun g joined => ?_⟩
      rw [isJoined_iff] at joined ⊢
      simp only [Outcome.done, map_key_drop] at joined
      exact List.mem_of_mem_filter joined

/-- A loss leaves the clocks of the others alone, and nobody joins. -/
theorem kill_others (f : Federation) (fed : FederateHandle) :
    (∀ g ≠ fed, clockOf (f.kill fed).state.regulators g = clockOf f.regulators g) ∧
      ∀ g, (f.kill fed).state.isJoined g = true → f.isJoined g = true := by
  rcases kill_cases f fed with refused | ⟨_, state, _, _⟩
  · rw [refused]
    exact ⟨fun _ _ => rfl, fun _ joined => joined⟩
  · rw [state]
    have same := sameMembers_of_timeless (removeRegulator_timeless (f.closeLink fed) fed)
    constructor
    · intro g other
      change clockOf ((f.closeLink fed).removeRegulator fed).state.regulators g = _
      rw [removeRegulator_table]
      split
      · rw [clockOf_drop, if_neg (Ne.symm other)]
        rfl
      · rfl
    · intro g joined
      rw [isJoined_iff] at joined ⊢
      simp only [map_key_drop] at joined
      have listed := List.mem_of_mem_filter joined
      rw [same.handles] at listed
      exact listed

end Federation

/-! ## What is under way to an RTIA -/

/-- Each dated message comes behind a clock of another regulator that is not after it. -/
def Vouched (self : FederateHandle) (clocks : FederateHandle → Option Date) : List Incoming → Prop
  | [] => True
  | m :: rest =>
    (∀ d, m = .dated d → ∃ g ≠ self, ∃ clock ∈ clocks g, clock ≤ d.getDate) ∧
      Vouched self (fun g => m.moves g (clocks g)) rest

theorem vouched_append {self : FederateHandle} {clocks : FederateHandle → Option Date}
    {inbox more : List Incoming} : Vouched self clocks (inbox ++ more) ↔
      Vouched self clocks inbox ∧
        Vouched self (fun g => inbox.foldl (fun clock m => m.moves g clock) (clocks g)) more := by
  induction inbox generalizing clocks with
  | nil => simp [Vouched]
  | cons m rest ih =>
    simp only [List.cons_append, Vouched, ih, and_assoc]
    rfl

/-- The own clock does not count. -/
theorem vouched_congr {self : FederateHandle} {clocks clocks' : FederateHandle → Option Date}
    {inbox : List Incoming} (same : ∀ g ≠ self, clocks' g = clocks g)
    (vouched : Vouched self clocks inbox) : Vouched self clocks' inbox := by
  induction inbox generalizing clocks clocks' with
  | nil => trivial
  | cons m rest ih =>
    obtain ⟨first, others⟩ := vouched
    constructor
    · intro d dated
      obtain ⟨g, other, clock, listed, early⟩ := first d dated
      exact ⟨g, other, clock, same g other ▸ listed, early⟩
    · exact ih (fun g other => by rw [same g other]) others

theorem vouched_undated (self : FederateHandle) {inbox : List Incoming}
    (undated : ∀ d, Incoming.dated d ∉ inbox) (clocks : FederateHandle → Option Date) :
    Vouched self clocks inbox := by
  induction inbox generalizing clocks with
  | nil => trivial
  | cons m rest ih =>
    constructor
    · intro d dated
      exact absurd (dated ▸ List.mem_cons_self) (undated d)
    · exact ih (fun d member => undated d (List.mem_cons_of_mem m member)) _

/-- What an RTIA has told the RTIG about time. -/
def spoken (requests : List Request) : List ToRtig :=
  requests.filterMap fun
    | .time _ m => some m
    | .join .. => none

theorem spoken_append (requests more : List Request) :
    spoken (requests ++ more) = spoken requests ++ spoken more := List.filterMap_append

theorem spoken_time (fed : FederateHandle) (sent : List ToRtig) :
    spoken (sent.map (Request.time fed)) = sent := by
  induction sent with
  | nil => rfl
  | cons m rest ih =>
    change m :: spoken (rest.map (Request.time fed)) = _
    rw [ih]

theorem mem_spoken {requests : List Request} {m : ToRtig} :
    m ∈ spoken requests ↔ ∃ fed, .time fed m ∈ requests := by
  unfold spoken
  rw [List.mem_filterMap]
  constructor
  · rintro ⟨q, listed, same⟩
    cases q with
    | join => cases same
    | time fed m' =>
      cases same
      exact ⟨fed, listed⟩
  · rintro ⟨fed, listed⟩
    exact ⟨_, listed, rfl⟩

/-! ## One RTIA -/

namespace Station

variable {f f' : Federation} {st st' : Station} {h : FederateHandle}

/-- The RTIA of a member: its time is bounded, the messages under way come behind their clocks,
and it stands by its own clock once the RTIG has read everything. -/
structure Good (f : Federation) (h : FederateHandle) (st : Station) : Prop where
  bounded : st.tm.Bounded
  vouched : Vouched h (clockOf st.tm.clocks) st.inbox
  abides : st.tm.Abides (promised (clockOf f.regulators h) (spoken st.requests))

structure Stands (f : Federation) (st : Station) : Prop where
  joining : st.waiting = some .join → st.tm.isMember = false
  own : ∀ fed m, .time fed m ∈ st.requests → st.references = some fed
  stranger : st.references = none →
    st.tm.Bounded ∧ st.tm.isRegulating = false ∧ st.tm.isConstrained = false
  honest : ∀ h, st.references = some h → f.isJoined h = true →
    Truthful (clockOf f.regulators h) (spoken st.requests)
  member : ∀ h, st.references = some h → st.tm.isMember = true → st.Good f h
  newcomer : ∀ h st' answer, st.references = some h → st.waiting = some .join →
    st.finishJoin = some (st', answer) → st'.tm.isMember = true → st'.Good f h

/-- The RTIA of a member does not wait for a join. -/
theorem Stands.upToDate (stands : st.Stands f) (sound : st.Sound f)
    (belongs : st.tm.isMember = true) : ∃ h, st.UpToDate f h := by
  cases sound.phase with
  | outside outside =>
    rw [outside.member] at belongs
    cases belongs
  | welcomed h welcomed =>
    rw [stands.joining welcomed.waiting] at belongs
    cases belongs
  | member h member => exact ⟨h, member⟩
  | gone h gone =>
    rw [gone.member] at belongs
    cases belongs

/-- A join that cannot succeed any more. -/
theorem Sound.no_newcomer (sound : st.Sound f) (stranger : st.tm.isMember = false)
    (ready : st.waiting ≠ some .join) {answer : RtiaAnswer} {requests : List Request}
    {waiting : Option Call}
    (ends : { st with requests := requests, waiting := waiting }.finishJoin = some (st', answer)) :
    st'.tm.isMember = false := by
  have refused : ∀ fed n, Incoming.answer (.joinFederationExecution fed n) ∉ st.inbox := by
    intro fed n listed
    cases sound.phase with
    | outside outside =>
      obtain ⟨q, impossible, _⟩ := outside.inbox _ listed
      cases impossible
    | welcomed h welcomed => exact ready welcomed.waiting
    | member h member =>
      rw [member.member] at stranger
      cases stranger
    | gone h gone => exact gone.inbox fed n listed
  obtain ⟨same, _⟩ := finishJoin_refused ends refused
  rw [same]
  exact stranger

theorem Stands.call (stands : st.Stands f) (sound : st.Sound f) {e : RtiaEvent}
    (prudent : st.ready = true → st.tm.isMember = true ∧ st.tm.Careful e) :
    (st.call e).1.Stands f := by
  unfold Station.call
  split
  · rename_i may
    simp only [Bool.and_eq_true] at may
    obtain ⟨ready, service⟩ := may
    obtain ⟨belongs, careful⟩ := prudent ready
    simp only [Station.ready, Bool.and_eq_true, Option.isNone_iff_eq_none] at ready
    obtain ⟨h, member⟩ := stands.upToDate sound belongs
    have good := stands.member h member.references belongs
    have speaks : st.speaksFor = h := by simp [speaksFor, belongs, member.self]
    have expected : st.tm.Expected e := by
      cases e with
      | arrive m => cases service
      | join self clocks => cases service
      | _ => trivial
    have keeps := TimeManagement.rtia_keeps_promise good.bounded good.abides careful expected
    have clocks := (st.tm.service_keeps service).lbts
    have requests : spoken (st.perform e).1.requests =
        spoken st.requests ++ (rtia st.tm e).2.sent := by
      simp only [perform, spoken_append, spoken_time]
    exact
      { joining := fun waits => by
          rw [show (st.perform e).1.waiting = st.waiting from rfl, ready.1] at waits
          cases waits
        own := by
          intro fed m listed
          rcases List.mem_append.mp listed with old | new
          · exact stands.own fed m old
          · obtain ⟨m', _, same⟩ := List.mem_map.mp new
            cases same
            rw [speaks]
            exact member.references
        stranger := fun free => by
          rw [show (st.perform e).1.references = st.references from rfl, member.references] at free
          cases free
        honest := by
          intro k own joined
          rw [show (st.perform e).1.references = st.references from rfl, member.references] at own
          cases own
          rw [requests, truthful_append]
          exact ⟨stands.honest h member.references joined, keeps.truthful⟩
        member := by
          intro k own _
          rw [show (st.perform e).1.references = st.references from rfl, member.references] at own
          cases own
          refine ⟨keeps.bounded, ?_, ?_⟩
          · change Vouched h (clockOf (rtia st.tm e).1.clocks) st.inbox
            rw [clocks]
            exact good.vouched
          · rw [requests, promised_append]
            exact keeps.abides
        newcomer := by
          intro k st' answer _ waiting
          rw [show (st.perform e).1.waiting = st.waiting from rfl, ready.1] at waiting
          cases waiting }
  · exact stands

theorem Stands.join (stands : st.Stands f) (sound : st.Sound f) (name : String)
    (modulesOpen : Bool) : (st.join name modulesOpen).Stands f := by
  unfold Station.join
  split
  · rename_i may
    simp only [Station.ready, Bool.and_eq_true, Option.isNone_iff_eq_none,
      Bool.not_eq_true'] at may
    obtain ⟨⟨waiting, _⟩, stranger⟩ := may
    have said : spoken (st.requests ++ [.join name modulesOpen]) = spoken st.requests := by
      simp [spoken]
    exact
      { joining := fun _ => stranger
        own := by
          intro fed m listed
          rcases List.mem_append.mp listed with old | new
          · exact stands.own fed m old
          · cases List.mem_singleton.mp new
        stranger := stands.stranger
        honest := by
          intro k own joined
          dsimp only
          rw [said]
          exact stands.honest k own joined
        member := by
          intro k own belongs
          change st.tm.isMember = true at belongs
          rw [stranger] at belongs
          cases belongs
        newcomer := by
          intro k st' answer _ _ ends belongs
          have never := sound.no_newcomer stranger (by simp [waiting]) ends
          rw [never] at belongs
          cases belongs }
  · exact stands

theorem Stands.resign (stands : st.Stands f) (sound : st.Sound f) : st.resign.1.Stands f := by
  unfold Station.resign
  split
  · rename_i may
    simp only [Station.ready, Bool.and_eq_true, Option.isNone_iff_eq_none, Bool.not_eq_true'] at may
    obtain ⟨⟨waiting, alive⟩, belongs⟩ := may
    obtain ⟨h, member⟩ := stands.upToDate sound belongs
    have good := stands.member h member.references belongs
    have speaks : st.speaksFor = h := by simp [speaksFor, belongs, member.self]
    have keeps := TimeManagement.rtia_keeps_promise (e := .resign) good.bounded good.abides trivial
      trivial
    have left : (rtia st.tm .resign).1.isMember = false := by
      rw [rtia_perform alive]
      simp [TimeManagement.perform, TimeManagement.resign, belongs]
    exact
      { joining := fun _ => left
        own := by
          intro fed m listed
          rcases List.mem_append.mp listed with old | new
          · exact stands.own fed m old
          · obtain ⟨m', _, same⟩ := List.mem_map.mp new
            cases same
            rw [speaks]
            exact member.references
        stranger := fun free => by
          change st.references = none at free
          rw [member.references] at free
          cases free
        honest := by
          intro k own joined
          change st.references = some k at own
          rw [member.references] at own
          cases own
          have requests : spoken (st.perform .resign).1.requests =
              spoken st.requests ++ (rtia st.tm .resign).2.sent := by
            simp only [perform, spoken_append, spoken_time]
          change Truthful _ (spoken (st.perform .resign).1.requests)
          rw [requests, truthful_append]
          exact ⟨stands.honest h member.references joined, keeps.truthful⟩
        member := by
          intro k _ still
          change (rtia st.tm .resign).1.isMember = true at still
          rw [left] at still
          cases still
        newcomer := by
          intro k st' answer _ waits
          cases waits }
  · exact stands

/-! ### Taking messages up -/

/-- A message that is not dated is not put into the queue in time stamp order. -/
theorem queued_undated (tm : TimeManagement) {m : QueuedMessage} (undated : m.date = none) :
    tm.queued (.arrive m) = [] := by
  have receive : m.order.toOption ≠ some .timestamp := by
    unfold QueuedMessage.order QueuedMessage.isDated
    rw [undated]
    cases m.payload <;> simp [Except.toOption]
  simp [TimeManagement.queued, receive]

theorem messageQueued_undated (m : NetworkMessage) : m.queued.date = none := by
  cases m <;> rfl

/-- The bound is not beyond the clock of any other regulator. -/
theorem Good.lbts_le (good : st.Good f h) (self : st.tm.myFederateNumber = h) {g : FederateHandle}
    {clock : Date} (other : g ≠ h) (known : clock ∈ clockOf st.tm.clocks g) :
    st.tm.lbts ≤ clock := by
  obtain ⟨entry, found, rfl⟩ := Option.map_eq_some_iff.mp known
  rw [good.bounded.lbts]
  have listed : (g, entry.2) ∈ st.tm.clocks := by
    rw [← lookup_key found]
    exact lookup_mem found
  exact LBTS.leastClock_le listed (self ▸ other)

/-- What comes from the RTIG is expected, as the clock of another regulator covers it. -/
theorem Good.expected (good : st.Good f h) (self : st.tm.myFederateNumber = h) {m : Incoming}
    {rest : List Incoming} (inbox : st.inbox = m :: rest) {e : RtiaEvent}
    (event : m.event = some e) : st.tm.Expected e := by
  cases m with
  | dated d =>
    cases event
    intro n listed
    have here : n = d := by
      simp only [TimeManagement.queued] at listed
      split at listed
      · exact List.mem_singleton.mp listed
      · cases listed
    have vouched := good.vouched
    rw [inbox] at vouched
    obtain ⟨g, other, clock, known, early⟩ := vouched.1 d rfl
    rw [here]
    exact le_trans (good.lbts_le self other known) early
  | answer m =>
    have arrives : ∀ n : NetworkMessage, some (RtiaEvent.arrive n.queued) = some e →
        st.tm.Expected e := by
      intro n same
      cases same
      intro q listed
      rw [queued_undated _ (messageQueued_undated n)] at listed
      cases listed
    cases m with
    | messageNull fed date =>
      cases event
      trivial
    | setTimeRegulating fed on date =>
      cases on with
      | true =>
        cases event
        trivial
      | false =>
        cases event
        trivial
    | joinFederationExecution fed n => cases event
    | resignFederationExecution fed => cases event
    | discoverObject => exact arrives _ event
    | removeObject => exact arrives _ event
    | timeRegulationEnabled => exact arrives _ event
    | announceSynchronizationPoint => exact arrives _ event
    | confirmSynchronizationPointRegistration => exact arrives _ event
    | federationSynchronized => exact arrives _ event
    | initiateFederateSave => exact arrives _ event
    | federationSaved => exact arrives _ event
    | federationNotSaved => exact arrives _ event
  | refusal q =>
    cases q with
    | join => cases event
    | time fed m =>
      cases m with
      | setTimeRegulating on date =>
        cases event
        trivial
      | _ => cases event

/-- A refusal takes at most a clock away, or ends the RTIA. -/
theorem process_refusal {q : Request} (bounded : st.tm.Bounded)
    (free : st.tm.isRegulating = false) (mode : st.tm.isConstrained = false) :
    (st.process (.refusal q)).1.tm.Bounded ∧
      (st.process (.refusal q)).1.tm.isRegulating = false ∧
      (st.process (.refusal q)).1.tm.isConstrained = false := by
  have stopped : { st.tm with ended := true }.Bounded ∧ st.tm.isRegulating = false ∧
      st.tm.isConstrained = false :=
    ⟨bounded.frame rfl rfl rfl rfl rfl rfl rfl rfl, free, mode⟩
  unfold process
  cases q with
  | join => exact stopped
  | time fed m =>
    cases m with
    | setTimeRegulating on date =>
      change (rtia st.tm (.regulatorOff fed)).1.Bounded ∧
        (rtia st.tm (.regulatorOff fed)).1.isRegulating = false ∧
        (rtia st.tm (.regulatorOff fed)).1.isConstrained = false
      have keeps := TimeManagement.rtia_keeps_promise (e := .regulatorOff fed) bounded (.free free)
        trivial trivial
      refine ⟨keeps.bounded, ?_⟩
      unfold rtia
      split
      · exact ⟨free, mode⟩
      · simp only [TimeManagement.perform, TimeManagement.orEnd]
        split
        · exact ⟨free, mode⟩
        · exact ⟨free, mode⟩
    | _ => exact stopped

/-- The RTIA of a member takes up a message. -/
theorem Good.process {m : Incoming} {rest : List Incoming} (good : st.Good f h)
    (self : st.tm.myFederateNumber = h) (alive : st.tm.ended = false)
    (inbox : st.inbox = m :: rest) (careful : ∀ e, m.event = some e → st.tm.Careful e) :
    ({ st with inbox := rest }.process m).1.Good f h := by
  have takes : Takes { st with inbox := rest } ({ st with inbox := rest }.process m).1 m :=
    @process_takes { st with inbox := rest } alive m
  have keeps : ({ st with inbox := rest }.process m).1.tm.Bounded ∧
      ({ st with inbox := rest }.process m).1.tm.Abides
        (promised (clockOf f.regulators h)
          (spoken ({ st with inbox := rest }.process m).1.requests)) := by
    unfold Station.process
    cases event : m.event with
    | some e =>
      have keeps := TimeManagement.rtia_keeps_promise good.bounded good.abides (careful e event)
        (good.expected self inbox event)
      simp only [perform, spoken_append, spoken_time, promised_append]
      exact ⟨keeps.bounded, keeps.abides⟩
    | none =>
      have keeps := @TimeManagement.orEnd_keeps_promise st.tm _ good.bounded good.abides
        (.error .rtiInternalError) (fun _ same => by cases same) (fun _ same => by cases same)
      exact ⟨keeps.bounded, keeps.abides⟩
  refine ⟨keeps.1, ?_, keeps.2⟩
  have vouched := good.vouched
  rw [inbox] at vouched
  rw [takes.inbox]
  exact vouched_congr (fun g _ => takes.clock g) vouched.2

theorem Stands.process {m : Incoming} {rest : List Incoming} (stands : st.Stands f)
    (sound : st.Sound f) (alive : st.tm.ended = false) (waiting : st.waiting = none)
    (inbox : st.inbox = m :: rest)
    (careful : st.tm.isMember = true → ∀ e, m.event = some e → st.tm.Careful e) :
    ({ st with inbox := rest }.process m).1.Stands f := by
  have takes : Takes { st with inbox := rest } ({ st with inbox := rest }.process m).1 m :=
    @process_takes { st with inbox := rest } alive m
  have idle : ({ st with inbox := rest }.process m).1.waiting = none := takes.waiting.trans waiting
  exact
    { joining := fun waits => by
        rw [idle] at waits
        cases waits
      own := by
        intro fed q listed
        rw [takes.requests] at listed
        rw [takes.references]
        exact stands.own fed q listed
      stranger := by
        intro free
        rw [takes.references] at free
        obtain ⟨bounded, regulating, mode⟩ := stands.stranger free
        cases sound.phase with
        | outside outside =>
          obtain ⟨q, refusal, _⟩ := outside.inbox m (by rw [inbox]; exact List.mem_cons_self)
          rw [refusal]
          exact @process_refusal { st with inbox := rest } q bounded regulating mode
        | welcomed h welcomed =>
          rw [welcomed.references] at free
          cases free
        | member h member =>
          rw [member.references] at free
          cases free
        | gone h gone =>
          rw [gone.references] at free
          cases free
      honest := by
        intro k own joined
        rw [takes.references] at own
        rw [takes.requests]
        exact stands.honest k own joined
      member := by
        intro k own belongs
        rw [takes.references] at own
        rw [takes.member] at belongs
        obtain ⟨h, member⟩ := stands.upToDate sound belongs
        have same : h = k := Option.some.inj (member.references.symm.trans own)
        subst same
        exact (stands.member h own belongs).process member.self alive inbox (careful belongs)
      newcomer := by
        intro k st' answer _ waits
        rw [idle] at waits
        cases waits }

/-- Messages that a join does not take stay. -/
theorem takeClocks_mem {n : Nat} {inbox rest : List Incoming}
    {clocks : List (FederateHandle × Date)} (taken : takeClocks n inbox = some (clocks, rest)) :
    ∀ m ∈ rest, m ∈ inbox := by
  induction n, inbox using takeClocks.induct generalizing clocks rest with
  | case1 inbox =>
    rw [takeClocks] at taken
    cases taken
    exact fun m member => member
  | case2 n => cases taken
  | case3 n fed date rest' ih =>
    simp only [takeClocks, Option.map_eq_some_iff] at taken
    obtain ⟨⟨cs, left⟩, below, same⟩ := taken
    cases same
    exact fun m member => List.mem_cons_of_mem _ (ih below m member)
  | case4 n m rest' other ih =>
    rw [takeClocks.eq_4 n m rest' other, Option.map_eq_some_iff] at taken
    obtain ⟨⟨cs, left⟩, below, same⟩ := taken
    cases same
    intro m' member
    rcases List.mem_cons.mp member with rfl | later
    · exact List.mem_cons_self
    · exact List.mem_cons_of_mem _ (ih below m' later)

/-- The end of a join is the event of a join, or nothing. -/
theorem finishJoin_event {answer : RtiaAnswer} (ends : st.finishJoin = some (st', answer)) :
    (st'.tm = st.tm ∨ ∃ fed clocks, st'.tm = (rtia st.tm (.join fed clocks)).1) ∧
      ∀ m ∈ st'.inbox, m ∈ st.inbox := by
  unfold finishJoin at ends
  split at ends
  · cases ends
  · rename_i fed n found
    obtain ⟨⟨clocks, rest⟩, taken, result⟩ := Option.map_eq_some_iff.mp ends
    rw [← (Prod.mk.inj result).1]
    exact ⟨.inr ⟨fed, clocks, rfl⟩,
      fun m member => List.mem_of_mem_eraseP (takeClocks_mem taken m member)⟩
  · cases ends
    exact ⟨.inl rfl, fun m member => List.mem_of_mem_eraseP member⟩

theorem Stands.receive (stands : st.Stands f) (sound : st.Sound f)
    (prudent : st.tm.isMember = true → ∀ e ∈ st.nextEvent, st.tm.Careful e) :
    st.receive.1.Stands f := by
  unfold Station.receive
  split
  · exact stands
  · rename_i running
    have alive : st.tm.ended = false := Bool.eq_false_iff.mpr running
    cases waiting : st.waiting with
    | none =>
      simp only
      cases inbox : st.inbox with
      | nil => exact stands
      | cons m rest =>
        have careful : st.tm.isMember = true → ∀ e, m.event = some e → st.tm.Careful e := by
          intro belongs e event
          apply prudent belongs e
          simp [nextEvent, waiting, inbox, event]
        have kept := stands.process sound alive waiting inbox careful
        rw [waiting] at kept
        exact kept
    | some call =>
      cases call with
      | join =>
        simp only
        cases ends : st.finishJoin with
        | none => exact stands
        | some result =>
          obtain ⟨st', answer⟩ := result
          obtain ⟨done, references, requests, _⟩ := finishJoin_after ends
          exact
            { joining := fun waits => by
                change st'.waiting = some .join at waits
                rw [done] at waits
                cases waits
              own := by
                intro fed q listed
                rw [show (some (st', answer)).getD (st, {}) = (st', answer) from rfl] at listed ⊢
                rw [requests] at listed
                rw [references]
                exact stands.own fed q listed
              stranger := by
                intro free
                change st'.references = none at free
                rw [references] at free
                have stranger : st'.tm = st.tm := by
                  cases sound.phase with
                  | outside outside =>
                    refine (finishJoin_refused ends fun fed n listed => ?_).1
                    obtain ⟨q, impossible, _⟩ := outside.inbox _ listed
                    cases impossible
                  | welcomed h welcomed =>
                    rw [welcomed.references] at free
                    cases free
                  | member h member =>
                    rw [member.references] at free
                    cases free
                  | gone h gone =>
                    rw [gone.references] at free
                    cases free
                change st'.tm.Bounded ∧ st'.tm.isRegulating = false ∧ st'.tm.isConstrained = false
                rw [stranger]
                exact stands.stranger free
              honest := by
                intro k own joined
                change st'.references = some k at own
                change Truthful _ (spoken st'.requests)
                rw [references] at own
                rw [requests]
                exact stands.honest k own joined
              member := by
                intro k own belongs
                change st'.references = some k at own
                rw [references] at own
                exact stands.newcomer k st' answer own waiting ends belongs
              newcomer := by
                intro k st'' answer' _ waits
                change st'.waiting = some .join at waits
                rw [done] at waits
                cases waits }
      | resign =>
        have stranger : st.tm.isMember = false := by
          by_contra belongs
          obtain ⟨h, member⟩ := stands.upToDate sound (by simpa using belongs)
          rw [member.waiting] at waiting
          cases waiting
        change st.finishResign.Stands f
        unfold finishResign
        split
        · exact
            { joining := fun _ => stranger
              own := stands.own
              stranger := stands.stranger
              honest := stands.honest
              member := fun k _ belongs => by
                change st.tm.isMember = true at belongs
                rw [stranger] at belongs
                cases belongs
              newcomer := fun k st' answer _ waits => by cases waits }
        · exact stands

/-! ### Messages from the RTIG -/

/-- The RTIG has read some requests, perhaps, and sends some messages. -/
theorem Stands.update (stands : st.Stands f) (sound : st.Sound f) {requests : List Request}
    {more : List Incoming}
    (after : { st with requests := requests, inbox := st.inbox ++ more }.Sound f')
    (fewer : ∀ q ∈ requests, q ∈ st.requests)
    (noJoin : ∀ fed n, Incoming.answer (.joinFederationExecution fed n) ∉ more)
    (fresh : ∀ h, st.references = some h → Vouched h (clockOf f.regulators) more)
    (said : ∀ h, st.references = some h → f'.isJoined h = true → f.isJoined h = true ∧
      (Truthful (clockOf f.regulators h) (spoken st.requests) →
        Truthful (clockOf f'.regulators h) (spoken requests)) ∧
      promised (clockOf f'.regulators h) (spoken requests) =
        promised (clockOf f.regulators h) (spoken st.requests)) :
    { st with requests := requests, inbox := st.inbox ++ more }.Stands f' where
  joining := stands.joining
  own := fun fed m listed => stands.own fed m (fewer _ listed)
  stranger := stands.stranger
  honest := by
    intro k own joined
    obtain ⟨before, truthful, _⟩ := said k own joined
    exact truthful (stands.honest k own before)
  member := by
    intro k own belongs
    change st.references = some k at own
    have good := stands.member k own belongs
    obtain ⟨g, member⟩ := stands.upToDate sound belongs
    obtain rfl : g = k := Option.some.inj (member.references.symm.trans own)
    have joined : f'.isJoined g = true := by
      cases after.phase with
      | outside outside =>
        rw [outside.member] at belongs
        cases belongs
      | welcomed g' welcomed =>
        have waits : st.waiting = some .join := welcomed.waiting
        rw [member.waiting] at waits
        cases waits
      | member g' member' =>
        obtain rfl : g' = g := Option.some.inj (member'.references.symm.trans own)
        exact member'.joined
      | gone g' gone =>
        rw [gone.member] at belongs
        cases belongs
    refine ⟨good.bounded, ?_, ?_⟩
    · exact vouched_append.mpr ⟨good.vouched,
        vouched_congr (fun h other => member.clocks h other) (fresh g own)⟩
    · rw [(said g own joined).2.2]
      exact good.abides
  newcomer := by
    intro k st' answer own waiting ends belongs
    change st.references = some k at own
    change st.waiting = some .join at waiting
    have stranger := stands.joining waiting
    have never : (∀ fed n, Incoming.answer (.joinFederationExecution fed n) ∉ st.inbox ++ more) →
        False := by
      intro refused
      rw [(finishJoin_refused ends refused).1] at belongs
      change st.tm.isMember = true at belongs
      rw [stranger] at belongs
      cases belongs
    have joined : f'.isJoined k = true := by
      cases after.phase with
      | outside outside =>
        have free : st.references = none := outside.references
        rw [own] at free
        cases free
      | welcomed g welcomed =>
        obtain rfl : g = k := Option.some.inj (welcomed.references.symm.trans own)
        obtain ⟨s, answer', finishes, member⟩ := welcomed.finishes
        exact member.joined
      | member g member =>
        have idle : st.waiting = none := member.waiting
        rw [waiting] at idle
        cases idle
      | gone g gone => exact absurd gone.inbox never
    cases sound.phase with
    | outside outside =>
      rw [outside.references] at own
      cases own
    | welcomed g welcomed =>
      obtain rfl : g = k := Option.some.inj (welcomed.references.symm.trans own)
      obtain ⟨s, answer', finishes, member⟩ := welcomed.finishes
      have good := stands.newcomer g s answer' own waiting finishes member.member
      have result := finishJoin_add (finishJoin_requests finishes requests) more
      obtain ⟨rfl, _⟩ := Prod.mk.inj (Option.some.inj (ends.symm.trans result))
      have same := (finishJoin_after finishes).2.2.1
      refine ⟨good.bounded, ?_, ?_⟩
      · exact vouched_append.mpr ⟨good.vouched,
          vouched_congr (fun h other => member.clocks h other) (fresh g own)⟩
      · have abides := good.abides
        rw [same] at abides
        change s.tm.Abides (promised (clockOf f'.regulators g) (spoken requests))
        rw [(said g own joined).2.2]
        exact abides
    | member g member =>
      rw [member.waiting] at waiting
      cases waiting
    | gone g gone =>
      refine absurd (fun fed n listed => ?_) never
      rcases List.mem_append.mp listed with old | new
      · exact gone.inbox fed n old
      · exact noJoin fed n new

/-- A newcomer knows of nothing that is under way, and has told nothing. -/
theorem Stands.welcome (stands : st.Stands f) (sound : st.Sound f) {requests : List Request}
    {more : List Incoming} (fewer : ∀ q ∈ requests, q ∈ st.requests) (free : st.references = none)
    (undated : ∀ d, Incoming.dated d ∉ more) (unknown : clockOf f'.regulators h = none) :
    { st with
      references := some h
      requests := requests
      inbox := st.inbox ++ more }.Stands f' := by
  obtain ⟨bounded, regulating, mode⟩ := stands.stranger free
  have outside : st.Outside := by
    cases sound.phase with
    | outside outside => exact outside
    | welcomed g welcomed =>
      rw [welcomed.references] at free
      cases free
    | member g member =>
      rw [member.references] at free
      cases free
    | gone g gone =>
      rw [gone.references] at free
      cases free
  have mute : ∀ fed m, .time fed m ∉ requests := by
    intro fed m listed
    have own := stands.own fed m (fewer _ listed)
    rw [free] at own
    cases own
  have silent : spoken requests = [] := by
    rw [List.eq_nil_iff_forall_not_mem]
    intro m listed
    obtain ⟨fed, asked⟩ := mem_spoken.mp listed
    exact mute fed m asked
  exact
    { joining := fun _ => outside.member
      own := fun fed m listed => absurd listed (mute fed m)
      stranger := fun unbound => by cases unbound
      honest := by
        intro k _ _
        dsimp only
        rw [silent]
        trivial
      member := by
        intro k _ belongs
        change st.tm.isMember = true at belongs
        rw [outside.member] at belongs
        cases belongs
      newcomer := by
        intro k st' answer own _ ends belongs
        obtain rfl : h = k := Option.some.inj own
        obtain ⟨event, subset⟩ := finishJoin_event ends
        have same := (finishJoin_after ends).2.2.1
        rcases event with unchanged | ⟨fed, clocks, joins⟩
        · rw [unchanged] at belongs
          change st.tm.isMember = true at belongs
          rw [outside.member] at belongs
          cases belongs
        · have keeps := TimeManagement.rtia_keeps_promise (e := .join fed clocks) bounded
            (.free regulating) trivial ⟨outside.clocks, mode⟩
          refine ⟨?_, ?_, ?_⟩
          · rw [joins]
            exact keeps.bounded
          · apply vouched_undated
            intro d listed
            rcases List.mem_append.mp (subset _ listed) with old | new
            · obtain ⟨q, impossible, _⟩ := outside.inbox _ old
              cases impossible
            · exact undated d new
          · have abides := keeps.abides
            rw [join_sent] at abides
            rw [same, unknown, joins]
            dsimp only
            rw [silent]
            exact abides }

end Station

/-! ## The whole -/

namespace Network

open Station

variable {net : Network} {link : Link}

/-- The network is coherent, and every RTIA stands by what it has promised. -/
structure Safe (net : Network) : Prop where
  coherent : net.Coherent
  stands : ∀ st ∈ net.stations, st.Stands net.federation

/-- One RTIA does something. -/
theorem Safe.atStation (safe : net.Safe) {action : Station → Station × RtiaAnswer}
    (stands : ∀ st ∈ net.stations, st.link = link → (action st).1.Stands net.federation) :
    ∀ st ∈ (net.atStation link action).1.stations,
      st.Stands (net.atStation link action).1.federation := by
  unfold Network.atStation
  split
  · exact safe.stands
  · intro st' member
    rcases mem_adjust.mp member with ⟨belongs, _⟩ | ⟨st, belongs, here, rfl⟩
    · exact safe.stands st' belongs
    · exact stands st belongs here

/-- What a request makes of an RTIA: the connection loses it, and messages come. -/
def Reached (net : Network) (link : Link) (st' : Station) : Prop :=
  ∃ st ∈ net.stations, ∃ more, (∀ d, Incoming.dated d ∉ more) ∧
    (∀ fed n, Incoming.answer (.joinFederationExecution fed n) ∉ more) ∧
    st' = { st with
      requests := if st.link = link then st.requests.tail else st.requests
      inbox := st.inbox ++ more }

/-- What is posted to a connection that is bound already. -/
theorem Coherent.posted (coherent : net.Coherent) {st : Station} (member : st ∈ net.stations)
    (e : Event) : ∃ more, (∀ d, Incoming.dated d ∉ more) ∧
      (∀ fed n, Incoming.answer (.joinFederationExecution fed n) ∉ more) ∧
      st.post (net.federation.perform e).sent = st.add more := by
  refine ⟨_, fun d listed => ?_, fun fed n listed => ?_, rfl⟩
  · obtain ⟨response, _, impossible⟩ := List.mem_map.mp listed
    cases impossible
  · obtain ⟨response, kept, same⟩ := List.mem_map.mp listed
    obtain ⟨sent, own⟩ := List.mem_filter.mp kept
    obtain ⟨k, m⟩ := response
    cases same
    have newcomer := perform_welcomes net.federation e sent
    have before := coherent.bound st member k (by simpa using own)
    exact absurd newcomer (Nat.ne_of_lt before)

theorem reached_serve (coherent : net.Coherent) {q : Request} {e : Event}
    (other : q.isJoin = false) :
    let served := { net with stations := adjust Station.link link Station.pop net.stations }.serve
      link q e
    served.federation = (net.federation.perform e).state ∧
      ∀ st' ∈ served.stations, net.Reached link st' := by
  have post : ∀ st' ∈ (adjust Station.link link Station.pop net.stations).map
      (·.post (net.federation.perform e).sent), net.Reached link st' := by
    intro st' member
    obtain ⟨s, belongs, rfl⟩ := List.mem_map.mp member
    rcases mem_adjust.mp belongs with ⟨listed, elsewhere⟩ | ⟨st, listed, here, rfl⟩
    · obtain ⟨more, undated, noJoin, same⟩ := coherent.posted listed e
      refine ⟨s, listed, more, undated, noJoin, ?_⟩
      rw [same, if_neg elsewhere]
      rfl
    · obtain ⟨more, undated, noJoin, same⟩ := coherent.posted listed e
      refine ⟨st, listed, more, undated, noJoin, ?_⟩
      rw [if_pos here]
      change (st.post (net.federation.perform e).sent).pop = _
      rw [same]
      rfl
  unfold Network.serve
  simp only [rtig_perform coherent.regulated.running, other, Bool.false_eq_true, if_false]
  cases failed : (net.federation.perform e).error with
  | none => exact ⟨rfl, post⟩
  | some error =>
    simp only
    split
    · refine ⟨rfl, fun st' member => ?_⟩
      rcases mem_adjust.mp member with ⟨listed, _⟩ | ⟨s, listed, here, rfl⟩
      · exact post st' listed
      · obtain ⟨st, belongs, more, undated, noJoin, same⟩ := post s listed
        refine ⟨st, belongs, more ++ [.refusal q], fun d listed => ?_, fun fed n listed => ?_, ?_⟩
        · rcases List.mem_append.mp listed with old | new
          · exact undated d old
          · cases List.mem_singleton.mp new
        · rcases List.mem_append.mp listed with old | new
          · exact noJoin fed n old
          · cases List.mem_singleton.mp new
        · rw [same]
          simp [Station.refuse, Station.add]
    · exact ⟨rfl, post⟩

/-- What a member has asked for is done. -/
theorem Safe.serve (safe : net.Safe) {st : Station} {fed : FederateHandle} {m : ToRtig}
    {e : Event} {rest : List Request} (found : net.station? link = some st)
    (requests : st.requests = .time fed m :: rest)
    (asks : (Request.time fed m).event st.references.isNone = some e)
    (after : ({ net with
      stations := adjust Station.link link Station.pop net.stations }.serve link (.time fed m)
        e).Coherent) :
    ({ net with
      stations := adjust Station.link link Station.pop net.stations }.serve link (.time fed m)
        e).Safe := by
  have member : st ∈ net.stations := lookup_mem found
  have here : st.link = link := lookup_key found
  have own : st.references = some fed :=
    (safe.stands st member).own fed m (by rw [requests]; exact List.mem_cons_self)
  obtain ⟨others, joins⟩ := request_others safe.coherent.regulated asks
  obtain ⟨state, reached⟩ := @reached_serve net link safe.coherent (.time fed m) e rfl
  refine ⟨after, fun st' listed => ?_⟩
  have sound := after.sound st' listed
  obtain ⟨s, belongs, more, undated, noJoin, rfl⟩ := reached st' listed
  rw [state] at sound ⊢
  apply (safe.stands s belongs).update (safe.coherent.sound s belongs) sound
  · intro q listed
    split at listed
    · exact List.mem_of_mem_tail listed
    · exact listed
  · exact noJoin
  · exact fun k _ => vouched_undated k undated _
  · intro k references joined
    have before := joins k joined
    by_cases at_link : s.link = link
    · obtain rfl := safe.coherent.at_link found belongs at_link
      obtain rfl : fed = k := Option.some.inj (own.symm.trans references)
      rw [if_pos at_link, requests, request_clock safe.coherent.regulated before asks]
      exact ⟨before, fun truthful => truthful.2, rfl⟩
    · have apart : k ≠ fed := by
        rintro rfl
        exact at_link ((safe.coherent.single s belongs st member k references own).trans here)
      rw [if_neg at_link, others k apart]
      exact ⟨before, fun truthful => truthful, rfl⟩

/-- A request that moves no clock is read, and messages come that are vouched for. -/
theorem Safe.read (safe : net.Safe) {net' : Network} {st : Station} {q : Request}
    {rest : List Request} (found : net.station? link = some st) (requests : st.requests = q :: rest)
    (same : net'.federation = net.federation) (after : net'.Coherent)
    (still : ∀ fed m, q = .time fed m → net.federation.isJoined fed = true →
      ∀ clock, m.moves clock = clock)
    (reached : ∀ st' ∈ net'.stations, ∃ s ∈ net.stations, ∃ more,
      (∀ k, s.references = some k → Vouched k (clockOf net.federation.regulators) more) ∧
      (∀ fed n, Incoming.answer (.joinFederationExecution fed n) ∉ more) ∧
      st' = { s with
        requests := if s.link = link then s.requests.tail else s.requests
        inbox := s.inbox ++ more }) : net'.Safe := by
  refine ⟨after, fun st' listed => ?_⟩
  have sound := after.sound st' listed
  obtain ⟨s, belongs, more, vouched, noJoin, rfl⟩ := reached st' listed
  rw [same] at sound ⊢
  apply (safe.stands s belongs).update (safe.coherent.sound s belongs) sound
  · intro q' listed
    split at listed
    · exact List.mem_of_mem_tail listed
    · exact listed
  · exact noJoin
  · exact vouched
  · intro k references joined
    by_cases at_link : s.link = link
    · obtain rfl := safe.coherent.at_link found belongs at_link
      rw [if_pos at_link, requests]
      cases q with
      | join name modulesOpen => exact ⟨joined, fun truthful => truthful, rfl⟩
      | time fed m =>
        have own := (safe.stands s belongs).own fed m (by rw [requests]; exact List.mem_cons_self)
        obtain rfl : fed = k := Option.some.inj (own.symm.trans references)
        have unmoved := still fed m rfl joined (clockOf net.federation.regulators fed)
        refine ⟨joined, fun truthful => ?_, ?_⟩
        · rw [← unmoved]
          exact truthful.2
        · change _ = promised (m.moves (clockOf net.federation.regulators fed)) (spoken rest)
          rw [unmoved]
          rfl
    · rw [if_neg at_link]
      exact ⟨joined, fun truthful => truthful, rfl⟩

theorem Safe.forward (safe : net.Safe) {st : Station} {fed : FederateHandle} {m : ToRtig}
    {date : Date} {payload : Payload} {rest : List Request} {recipients : List FederateHandle}
    (found : net.station? link = some st) (requests : st.requests = .time fed m :: rest)
    (dated : m.dated = some date) (joined : net.federation.isJoined fed = true)
    (after : ({ net with
      stations := adjust Station.link link Station.pop net.stations }.forward fed
        ⟨0, payload, some date⟩ recipients).Coherent) :
    ({ net with
      stations := adjust Station.link link Station.pop net.stations }.forward fed
        ⟨0, payload, some date⟩ recipients).Safe := by
  have member : st ∈ net.stations := lookup_mem found
  have own : st.references = some fed :=
    (safe.stands st member).own fed m (by rw [requests]; exact List.mem_cons_self)
  have promise : ∃ clock ∈ clockOf net.federation.regulators fed, clock ≤ date := by
    have truthful := (safe.stands st member).honest fed own joined
    rw [requests] at truthful
    exact truthful.1 date dated
  have hand : ∀ s : Station, ∃ more,
      (∀ k, s.references = some k → Vouched k (clockOf net.federation.regulators) more) ∧
      (∀ fed n, Incoming.answer (.joinFederationExecution fed n) ∉ more) ∧
      s.hand ⟨0, payload, some date⟩
        (recipients.filter fun h => h ≠ fed && net.federation.isJoined h) = s.add more := by
    intro s
    unfold Station.hand
    split
    · rename_i addressed
      refine ⟨[.dated ⟨0, payload, some date⟩], fun k references => ⟨fun d same => ?_, trivial⟩,
        fun fed n listed => ?_, rfl⟩
      · cases same
        obtain ⟨h, listed, here⟩ := List.any_eq_true.mp addressed
        simp only [List.mem_filter, Bool.and_eq_true, decide_eq_true_eq] at listed here
        rw [references] at here
        obtain rfl := Option.some.inj here
        obtain ⟨clock, known, early⟩ := promise
        exact ⟨fed, Ne.symm listed.2.1, clock, known, early⟩
      · cases List.mem_singleton.mp listed
    · refine ⟨[], fun _ _ => trivial, fun _ _ => List.not_mem_nil, ?_⟩
      simp [Station.add]
  refine safe.read found requests rfl after (fun fed' m' same _ clock => ?_) fun st' listed => ?_
  · cases same
    cases m with
    | sendDated => rfl
    | deleteDated => rfl
    | messageNull => cases dated
    | setTimeRegulating => cases dated
    | setTimeConstrained => cases dated
    | resign => cases dated
  · obtain ⟨s, belongs, rfl⟩ := List.mem_map.mp listed
    rcases mem_adjust.mp belongs with ⟨there, elsewhere⟩ | ⟨s, there, here, rfl⟩
    · obtain ⟨more, vouched, noJoin, same⟩ := hand s
      refine ⟨s, there, more, vouched, noJoin, ?_⟩
      rw [same, if_neg elsewhere]
      rfl
    · obtain ⟨more, vouched, noJoin, same⟩ := hand s.pop
      refine ⟨s, there, more, vouched, noJoin, ?_⟩
      rw [same, if_pos here]
      rfl

theorem Safe.refuse (safe : net.Safe) {st : Station} {q : Request} {rest : List Request}
    (found : net.station? link = some st) (requests : st.requests = q :: rest)
    (still : ∀ fed m, q = .time fed m → net.federation.isJoined fed = true →
      ∀ clock, m.moves clock = clock)
    (after : ({ net with
      stations := adjust Station.link link Station.pop net.stations }.refuse link q).Coherent) :
    ({ net with
      stations := adjust Station.link link Station.pop net.stations }.refuse link q).Safe := by
  refine safe.read found requests rfl after still fun st' listed => ?_
  rcases mem_adjust.mp listed with ⟨popped, elsewhere⟩ | ⟨s, popped, here, rfl⟩
  · rcases mem_adjust.mp popped with ⟨there, _⟩ | ⟨s, _, here, rfl⟩
    · refine ⟨st', there, [], fun _ _ => trivial, fun _ _ => List.not_mem_nil, ?_⟩
      rw [if_neg elsewhere]
      simp
    · exact absurd here elsewhere
  · rcases mem_adjust.mp popped with ⟨_, elsewhere⟩ | ⟨s₀, there, at_link, rfl⟩
    · exact absurd here elsewhere
    · refine ⟨s₀, there, [.refusal q], fun k _ => ⟨fun d same => ?_, trivial⟩,
        fun fed n new => ?_, ?_⟩
      · cases same
      · cases List.mem_singleton.mp new
      · rw [if_pos at_link]
        rfl

/-- A federate joins, or its join is refused. -/
theorem Safe.serveJoin (safe : net.Safe) {st : Station} {name : String} {modulesOpen : Bool}
    {rest : List Request} (found : net.station? link = some st)
    (requests : st.requests = .join name modulesOpen :: rest)
    (whole : net.federation.JoinsWhole name ⟨modulesOpen, st.references.isNone⟩)
    (after : ({ net with
      stations := adjust Station.link link Station.pop net.stations }.serve link
        (.join name modulesOpen) (.join name ⟨modulesOpen, st.references.isNone⟩)).Coherent) :
    ({ net with
      stations := adjust Station.link link Station.pop net.stations }.serve link
        (.join name modulesOpen) (.join name ⟨modulesOpen, st.references.isNone⟩)).Safe := by
  have regulated := safe.coherent.regulated
  rcases add_whole regulated whole with ⟨e, refused⟩ | ⟨fine, sent, _, clocks, count, handles⟩
  · have shape : { net with
        stations := adjust Station.link link Station.pop net.stations }.serve link
          (.join name modulesOpen) (.join name ⟨modulesOpen, st.references.isNone⟩) =
        { net with
          stations := adjust Station.link link Station.pop net.stations }.refuse link
            (.join name modulesOpen) := by
      unfold Network.serve
      simp only [rtig_perform regulated.running, Federation.perform, refused, Outcome.refused,
        Request.isAnswered, if_true]
      unfold Network.post
      congr 1
      have still : ∀ s : Station, s.post [] = s := fun s => by simp [Station.post, Station.add]
      simp [still]
    rw [shape] at after ⊢
    exact safe.refuse found requests (fun fed m same => by cases same) after
  · have free : st.references = none := by
      rcases whole with taken | ⟨_, unbound⟩
      · unfold Federation.add at fine
        simp [taken, Outcome.refused] at fine
      · simpa using unbound
    have posted := fun {s : Station} (listed : s ∈ net.stations) => safe.coherent.posted listed
      (.join name ⟨modulesOpen, st.references.isNone⟩)
    unfold Network.serve at after ⊢
    simp only [rtig_perform regulated.running, Federation.perform, fine, Request.isJoin,
      if_true] at after posted ⊢
    refine ⟨after, fun st' listed => ?_⟩
    have sound := after.sound st' listed
    change st'.Sound (net.federation.add name ⟨modulesOpen, st.references.isNone⟩).state at sound
    change st'.Stands (net.federation.add name ⟨modulesOpen, st.references.isNone⟩).state
    obtain ⟨s', belongs, rfl⟩ := List.mem_map.mp listed
    have newcomer :
        clockOf (net.federation.add name ⟨modulesOpen, st.references.isNone⟩).state.regulators
          net.federation.nextFederate = none := by
      rw [clocks, clockOf_eq_none]
      intro listed
      obtain ⟨clock, known, same⟩ := List.mem_map.mp listed
      exact Nat.lt_irrefl _ (same ▸ (regulated.known clock known).2)
    rcases mem_adjust.mp belongs with ⟨popped, elsewhere⟩ | ⟨s, popped, here, rfl⟩
    · have there : s' ∈ net.stations := by
        rcases mem_adjust.mp popped with ⟨old, _⟩ | ⟨s, _, here, rfl⟩
        · exact old
        · exact absurd here elsewhere
      obtain ⟨more, undated, noJoin, same⟩ := posted there
      rw [same] at sound ⊢
      refine (safe.stands s' there).update (safe.coherent.sound s' there) sound
        (fun q listed => listed) noJoin (fun k _ => vouched_undated k undated _)
        fun k references joined => ?_
      have before : net.federation.isJoined k = true := by
        rw [isJoined_iff] at joined ⊢
        rw [handles, List.mem_append, List.mem_singleton] at joined
        rcases joined with old | new
        · exact old
        · have bound := safe.coherent.bound s' there k references
          exact absurd new (Nat.ne_of_lt bound)
      rw [clocks]
      exact ⟨before, fun truthful => truthful, rfl⟩
    · rcases mem_adjust.mp popped with ⟨_, elsewhere⟩ | ⟨s₀, there, at_link, rfl⟩
      · exact absurd here elsewhere
      · obtain rfl := safe.coherent.at_link found there at_link
        have undated : ∀ d, Incoming.dated d ∉ (((net.federation.add name
            ⟨modulesOpen, s₀.references.isNone⟩).sent.filter fun response =>
              some net.federation.nextFederate = some response.1).map fun response =>
                Incoming.answer response.2) := by
          intro d listed
          obtain ⟨response, _, impossible⟩ := List.mem_map.mp listed
          cases impossible
        exact (safe.stands s₀ there).welcome (safe.coherent.sound s₀ there)
          (fun q listed => List.mem_of_mem_tail listed) free undated newcomer

theorem Safe.route (safe : net.Safe) (recipients : List FederateHandle) (payload : Payload)
    (orderly : net.Orderly (.route link recipients payload)) :
    (net.route link recipients payload).Safe := by
  have after : (net.route link recipients payload).Coherent :=
    network_coherent net (.route link recipients payload) safe.coherent orderly
  unfold Network.route at after ⊢
  cases found : net.station? link with
  | none => exact safe
  | some st =>
    rw [found] at after
    simp only at after ⊢
    cases requests : st.requests with
    | nil => exact safe
    | cons q rest =>
      rw [requests] at after
      simp only at after ⊢
      cases q with
      | join name modulesOpen =>
        have same : net.rtigEvent (.route link recipients payload) =
            some (.join name ⟨modulesOpen, st.references.isNone⟩) := by
          simp [rtigEvent, found, requests, Request.event]
        have whole := orderly _ (by rw [same]; rfl)
        exact safe.serveJoin found requests whole after
      | time fed m =>
        cases asks : (Request.time fed m).event st.references.isNone with
        | some e =>
          rw [asks] at after
          exact safe.serve found requests asks after
        | none =>
          rw [asks] at after
          have forwarded : ∃ date, m.dated = some date ∧
              (Request.time fed m).forwarded payload = some (fed, ⟨0, payload, some date⟩) := by
            cases m with
            | sendDated date => exact ⟨date, rfl, rfl⟩
            | deleteDated date => exact ⟨date, rfl, rfl⟩
            | messageNull => cases asks
            | setTimeRegulating => cases asks
            | setTimeConstrained => cases asks
            | resign => cases asks
          obtain ⟨date, dated, same⟩ := forwarded
          rw [same] at after ⊢
          simp only at after ⊢
          split
          · rename_i joined
            rw [if_pos joined] at after
            exact safe.forward found requests dated joined after
          · rename_i stranger
            rw [if_neg stranger] at after
            exact safe.refuse found requests
              (fun fed' m' same joined => by cases same; exact absurd joined stranger) after

theorem Safe.lose (safe : net.Safe) (orderly : net.Orderly (.lose link)) :
    (net.lose link).Safe := by
  have after : (net.lose link).Coherent :=
    network_coherent net (.lose link) safe.coherent orderly
  refine ⟨after, ?_⟩
  unfold Network.lose at after ⊢
  cases found : net.station? link with
  | none => exact safe.stands
  | some st =>
    rw [found] at after
    simp only at after ⊢
    cases references : st.references with
    | none => exact fun s listed => safe.stands s (mem_drop.mp listed).1
    | some fed =>
      rw [references] at after
      simp only [rtig_perform safe.coherent.regulated.running] at after ⊢
      intro st' listed
      have sound := after.sound st' listed
      obtain ⟨s, kept, rfl⟩ := List.mem_map.mp listed
      obtain ⟨belongs, elsewhere⟩ := mem_drop.mp kept
      obtain ⟨more, undated, noJoin, same⟩ := safe.coherent.posted belongs (.kill fed)
      obtain ⟨others, joins⟩ := kill_others net.federation fed
      change Station.Stands (net.federation.kill fed).state _
      change Station.Sound (net.federation.kill fed).state _ at sound
      rw [same] at sound ⊢
      refine (safe.stands s belongs).update (safe.coherent.sound s belongs) sound
        (fun q listed => listed) noJoin (fun k _ => vouched_undated k undated _)
        fun k own joined => ?_
      have apart : k ≠ fed := by
        rintro rfl
        have same := safe.coherent.single s belongs st (lookup_mem found) k own references
        exact elsewhere (same.trans (lookup_key found))
      rw [others k apart]
      exact ⟨joins k joined, fun truthful => truthful, rfl⟩

/-- Every prudent step keeps the network safe. -/
theorem network_safe (net : Network) (e : NetworkEvent) (safe : net.Safe)
    (prudent : net.Prudent e) : (network net e).1.Safe := by
  obtain ⟨orderly, careful⟩ := prudent
  have after := network_coherent net e safe.coherent orderly
  have here : ∀ {link : Link} {st : Station}, st ∈ net.stations → st.link = link →
      net.station? link = some st := by
    intro link st member same
    rw [← same]
    exact lookup_of_nodup safe.coherent.links member
  cases e with
  | connect granted =>
    refine ⟨after, fun st member => ?_⟩
    rcases List.mem_append.mp member with old | new
    · exact safe.stands st old
    · rw [List.mem_singleton.mp new]
      exact
        { joining := fun waits => by cases waits
          own := fun fed m listed => by cases listed
          stranger := fun _ => ⟨TimeManagement.create_bounded granted, rfl, rfl⟩
          honest := fun h own => by cases own
          member := fun h own => by cases own
          newcomer := fun h st' answer own => by cases own }
  | join link name modulesOpen =>
    refine ⟨after, safe.atStation fun st member _ => ?_⟩
    exact (safe.stands st member).join (safe.coherent.sound st member) name modulesOpen
  | resign link =>
    refine ⟨after, safe.atStation fun st member _ => ?_⟩
    exact (safe.stands st member).resign (safe.coherent.sound st member)
  | call link e =>
    refine ⟨after, safe.atStation fun st member same => ?_⟩
    exact (safe.stands st member).call (safe.coherent.sound st member)
      (careful st (here member same))
  | receive link =>
    refine ⟨after, safe.atStation fun st member same => ?_⟩
    exact (safe.stands st member).receive (safe.coherent.sound st member)
      (careful st (here member same))
  | route link recipients payload => exact safe.route recipients payload orderly
  | lose link => exact safe.lose orderly

theorem create_safe (fom : Fom) (withMom haveXml : Bool) :
    (Network.create fom withMom haveXml).Safe :=
  ⟨create_coherent fom withMom haveXml, fun st member => by cases member⟩

/-- The next message of a member is not late. -/
theorem Safe.neverLate (safe : net.Safe) {st : Station} (listed : st ∈ net.stations)
    (belongs : st.tm.isMember = true) (constrained : st.tm.isConstrained = true) :
    st.NeverLate := by
  obtain ⟨h, member⟩ := (safe.stands st listed).upToDate (safe.coherent.sound st listed) belongs
  have good := (safe.stands st listed).member h member.references belongs
  have behind := good.bounded.behind constrained
  have late : ∀ m rest, st.inbox = .dated m :: rest → st.tm.lbts ≤ m.getDate := by
    intro m rest inbox
    have vouched := good.vouched
    rw [inbox] at vouched
    obtain ⟨g, other, clock, known, early⟩ := vouched.1 m rfl
    exact le_trans (good.lbts_le member.self other known) early
  exact
    { queue := behind.queue
      inbox := fun m rest inbox => le_trans behind.bound (late m rest inbox)
      granted := fun idle granted => by
        have apart := good.bounded.apart belongs constrained idle granted
        exact ⟨apart.queue, fun m rest inbox => lt_of_lt_of_le apart.bound (late m rest inbox)⟩ }

end Network

open Network

/-- A message is on its way to the federate that asks for the very date of it. -/
def constrainedWaits : List NetworkEvent :=
  let date : FederationTime := 4
  regulatorJoins ++ [.call 0 (.setTimeConstrained true), .route 0 [] .other, .call 0 .tick,
    .call 0 (.timeAdvanceRequest date), .call 1 (.sendDated date), .route 1 [1] .removeObject]

end Certi
