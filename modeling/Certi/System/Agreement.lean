import Mathlib
import Certi.RTIG.Regulators
import Certi.System.Stations

/-!
# The regulators known to the RTIAs

The RTIG and the RTIAs keep their tables of regulators separately. Once nothing
is under way the table of every member agrees with that of the RTIG, but for
the member's own clock, in every run in which no join ends half done and no
connection of a regulator is lost while there are others to be told of it. The
loss of a regulator is not told to anybody.
-/
namespace Certi

open Runs Keyed Responses Federation

/-! ## The statement -/

namespace Network

/-- No message is under way. -/
def Quiet (net : Network) : Prop := ∀ st ∈ net.stations, st.requests = [] ∧ st.inbox = []

/-- When no message is under way, the RTIA of every member holds the clocks that the RTIG holds,
those of the same regulators. The own clock of a federate, which `LBTS::compute` leaves out, is
left out. -/
def RegulatorsAgree (net : Network) : Prop :=
  net.Quiet → ∀ st ∈ net.stations, st.tm.isMember = true → ∀ g ≠ st.tm.myFederateNumber,
    clockOf st.tm.clocks g = clockOf net.federation.regulators g

end Network

/-- The condition on what the RTIG does. -/
def Federation.TellsAll (f : Federation) : Event → Prop
  | .join name conditions => f.JoinsWhole name conditions
  | .kill fed => f.LeavesUnnoticed fed
  | _ => True

instance (f : Federation) : ∀ e : Event, Decidable (f.TellsAll e)
  | .join name conditions => inferInstanceAs (Decidable (f.JoinsWhole name conditions))
  | .kill fed => inferInstanceAs (Decidable (f.LeavesUnnoticed fed))
  | .resign .. | .setTimeRegulating .. | .messageNull .. | .setTimeConstrained ..
  | .registerSynchronization .. | .synchronizationPointAchieved .. | .requestFederationSave ..
  | .federateSaveBegun .. | .federateSaveStatus .. | .publishObject .. | .subscribeObject ..
  | .subscribeAttributesWR .. | .unsubscribeAttributesWR .. | .publishInteraction ..
  | .subscribeInteraction .. | .subscribeInteractionWR .. | .createRegion ..
  | .associateRegion .. | .registerObject .. | .registerObjectWithRegion .. | .deleteObject ..
  | .ownership .. => .isTrue trivial

/-- What the RTIG does in a step. -/
def Network.rtigEvent (net : Network) : NetworkEvent → Option Event
  | .route link _ _ =>
    (net.station? link).bind fun st =>
      st.requests.head?.bind fun q => q.event st.references.isNone
  | .lose link => (net.station? link).bind fun st => st.references.map .kill
  | _ => none

/-- The condition on a step. -/
def Network.Orderly (net : Network) (e : NetworkEvent) : Prop :=
  ∀ event ∈ net.rtigEvent e, net.federation.TellsAll event

instance (net : Network) (e : NetworkEvent) : Decidable (net.Orderly e) :=
  inferInstanceAs (Decidable (∀ event ∈ net.rtigEvent e, net.federation.TellsAll event))

/-! ## One RTIA -/

namespace Station

variable {f f' : Federation} {st st' : Station} {h : FederateHandle}

/-- The clock of a regulator once everything that is under way has been taken up. -/
def seen (st : Station) (g : FederateHandle) : Option Date :=
  st.inbox.foldl (fun clock m => m.moves g clock) (clockOf st.tm.clocks g)

/-- The RTIA of a member. -/
structure UpToDate (f : Federation) (h : FederateHandle) (st : Station) : Prop where
  references : st.references = some h
  joined : f.isJoined h = true
  member : st.tm.isMember = true
  self : st.tm.myFederateNumber = h
  waiting : st.waiting = none
  stays : Request.time h .resign ∉ st.requests
  clocks : ∀ g ≠ h, st.seen g = clockOf f.regulators g

/-- The answer to the join is under way. -/
structure Welcomed (f : Federation) (h : FederateHandle) (st : Station) : Prop where
  references : st.references = some h
  waiting : st.waiting = some .join
  finishes : ∃ st' answer, st.finishJoin = some (st', answer) ∧ st'.UpToDate f h

/-- Nobody has joined over the connection. -/
structure Outside (st : Station) : Prop where
  references : st.references = none
  member : st.tm.isMember = false
  clocks : st.tm.clocks = []
  inbox : ∀ m ∈ st.inbox, ∃ q, m = .refusal q ∧ ∀ fed m', q = .time fed m' → fed = 0

/-- The federate has resigned, or is about to. -/
structure Gone (h : FederateHandle) (st : Station) : Prop where
  references : st.references = some h
  member : st.tm.isMember = false
  inbox : ∀ fed n, .answer (.joinFederationExecution fed n) ∉ st.inbox

inductive Phase (f : Federation) (st : Station) : Prop where
  | outside (outside : st.Outside)
  | welcomed (h : FederateHandle) (welcomed : st.Welcomed f h)
  | member (h : FederateHandle) (member : st.UpToDate f h)
  | gone (h : FederateHandle) (gone : st.Gone h)

structure Sound (f : Federation) (st : Station) : Prop where
  /-- A join that is waited for has been asked for or answered, once. -/
  pending : st.inbox.countP Incoming.isJoinAnswer + st.requests.countP Request.isJoin =
    if st.waiting = some .join then 1 else 0
  alive : st.waiting = some .join → st.tm.ended = false
  speaks : ∀ fed m, .time fed m ∈ st.requests → fed = 0 ∨ st.references = some fed
  phase : st.Phase f

theorem Sound.no_join (sound : st.Sound f) (free : st.waiting ≠ some .join) :
    (∀ m ∈ st.inbox, m.isJoinAnswer = false) ∧ ∀ q ∈ st.requests, q.isJoin = false := by
  have count := sound.pending
  rw [if_neg free] at count
  constructor
  · intro m member
    have none := List.countP_eq_zero.mp (by omega : st.inbox.countP Incoming.isJoinAnswer = 0)
    exact Bool.eq_false_iff.mpr (none m member)
  · intro q member
    have none := List.countP_eq_zero.mp (by omega : st.requests.countP Request.isJoin = 0)
    exact Bool.eq_false_iff.mpr (none q member)

/-! ### Calls -/

/-- The requests that a call sends are not joins. -/
theorem countP_time (fed : FederateHandle) (sent : List ToRtig) :
    (sent.map (Request.time fed)).countP Request.isJoin = 0 := by
  rw [List.countP_eq_zero]
  intro q member
  obtain ⟨m, _, rfl⟩ := List.mem_map.mp member
  simp [Request.isJoin]

theorem speaksFor_cases (sound : st.Sound f) (ready : st.waiting = none) :
    st.speaksFor = 0 ∨ st.references = some st.speaksFor := by
  unfold speaksFor
  cases sound.phase with
  | outside outside => simp [outside.member]
  | welcomed h welcomed =>
    rw [welcomed.waiting] at ready
    cases ready
  | member h member => simp [member.member, member.self, member.references]
  | gone h gone => simp [gone.member]

theorem Sound.call (sound : st.Sound f) (e : RtiaEvent) : (st.call e).1.Sound f := by
  unfold Station.call
  split
  · rename_i may
    simp only [ready, Bool.and_eq_true, Option.isNone_iff_eq_none] at may
    obtain ⟨⟨waiting, alive⟩, service⟩ := may
    have keeps := st.tm.service_keeps service
    have speaker := speaksFor_cases sound waiting
    refine ⟨?_, fun joins => ?_, fun fed m listed => ?_, ?_⟩
    · simp only [perform, List.countP_append, countP_time, Nat.add_zero]
      exact sound.pending
    · rw [show (st.perform e).1.waiting = st.waiting from rfl, waiting] at joins
      cases joins
    · rcases List.mem_append.mp listed with old | new
      · exact sound.speaks fed m old
      · obtain ⟨m', _, same⟩ := List.mem_map.mp new
        cases same
        exact speaker
    · cases sound.phase with
      | outside outside =>
        exact .outside ⟨outside.references, keeps.member.trans outside.member,
          (congrArg LBTS.clocks keeps.lbts).trans outside.clocks, outside.inbox⟩
      | welcomed h welcomed =>
        rw [welcomed.waiting] at waiting
        cases waiting
      | member h member =>
        refine .member h ⟨member.references, member.joined, keeps.member.trans member.member,
          (congrArg LBTS.myFederateNumber keeps.lbts).trans member.self, member.waiting, ?_, ?_⟩
        · intro listed
          rcases List.mem_append.mp listed with old | new
          · exact member.stays old
          · obtain ⟨m', sent, same⟩ := List.mem_map.mp new
            cases same
            exact keeps.stays sent
        · intro g other
          rw [← member.clocks g other]
          exact congrArg (fun l : LBTS => st.inbox.foldl (fun clock m => m.moves g clock)
            (clockOf l.clocks g)) keeps.lbts
      | gone h gone =>
        exact .gone h ⟨gone.references, keeps.member.trans gone.member, gone.inbox⟩
  · exact sound

theorem Sound.join (sound : st.Sound f) (name : String) (modulesOpen : Bool) :
    (st.join name modulesOpen).Sound f := by
  unfold Station.join
  split
  · rename_i may
    simp only [ready, Bool.and_eq_true, Option.isNone_iff_eq_none, Bool.not_eq_true'] at may
    obtain ⟨⟨waiting, alive⟩, stranger⟩ := may
    have count := sound.pending
    rw [waiting] at count
    refine ⟨?_, fun _ => alive, fun fed m listed => ?_, ?_⟩
    · simp only [List.countP_append]
      simp only [reduceCtorEq, if_false] at count
      simp [Request.isJoin]
      omega
    · rcases List.mem_append.mp listed with old | new
      · exact sound.speaks fed m old
      · cases List.mem_singleton.mp new
    · cases sound.phase with
      | outside outside =>
        exact .outside ⟨outside.references, outside.member, outside.clocks, outside.inbox⟩
      | welcomed h welcomed =>
        rw [welcomed.waiting] at waiting
        cases waiting
      | member h member =>
        rw [member.member] at stranger
        cases stranger
      | gone h gone => exact .gone h ⟨gone.references, gone.member, gone.inbox⟩
  · exact sound

theorem Sound.resign (sound : st.Sound f) : st.resign.1.Sound f := by
  unfold Station.resign
  split
  · rename_i may
    simp only [ready, Bool.and_eq_true, Option.isNone_iff_eq_none, Bool.not_eq_true'] at may
    obtain ⟨⟨waiting, alive⟩, belongs⟩ := may
    have free : st.waiting ≠ some .join := by simp [waiting]
    obtain ⟨inbox, requests⟩ := sound.no_join free
    have speaker := speaksFor_cases sound waiting
    have left : (rtia st.tm .resign).1.isMember = false := by
      rw [rtia_perform alive]
      simp [TimeManagement.perform, TimeManagement.resign, belongs]
    refine ⟨?_, fun joins => ?_, fun fed m listed => ?_, ?_⟩
    · have count := sound.pending
      rw [if_neg free] at count
      simp only [perform, List.countP_append, countP_time, Nat.add_zero, Option.some.injEq,
        reduceCtorEq, if_false]
      exact count
    · cases joins
    · rcases List.mem_append.mp listed with old | new
      · exact sound.speaks fed m old
      · obtain ⟨m', _, same⟩ := List.mem_map.mp new
        cases same
        exact speaker
    · cases sound.phase with
      | outside outside =>
        rw [outside.member] at belongs
        cases belongs
      | welcomed h welcomed =>
        rw [welcomed.waiting] at waiting
        cases waiting
      | member h member =>
        refine .gone h ⟨member.references, left, fun fed n listed => ?_⟩
        have none := inbox _ listed
        cases none
      | gone h gone =>
        rw [gone.member] at belongs
        cases belongs
  · exact sound

/-! ### Taking messages up -/

theorem clocks_eq_nil {clocks : List (FederateHandle × Date)}
    (none : ∀ g, clockOf clocks g = none) : clocks = [] := by
  cases clocks with
  | nil => rfl
  | cons clock rest =>
    have absent := clockOf_eq_none.mp (none clock.1)
    simp at absent

theorem Sound.process {m : Incoming} {rest : List Incoming} (sound : st.Sound f)
    (alive : st.tm.ended = false) (waiting : st.waiting = none) (inbox : st.inbox = m :: rest) :
    ({ st with inbox := rest }.process m).1.Sound f := by
  have takes : Takes { st with inbox := rest } ({ st with inbox := rest }.process m).1 m :=
    @process_takes { st with inbox := rest } alive m
  generalize ({ st with inbox := rest }.process m).1 = st' at takes
  have free : st.waiting ≠ some .join := by simp [waiting]
  obtain ⟨none, requests⟩ := sound.no_join free
  refine ⟨?_, fun joins => ?_, fun fed m' listed => ?_, ?_⟩
  · have count := sound.pending
    rw [if_neg free] at count
    rw [inbox, List.countP_cons] at count
    rw [takes.inbox, takes.requests, takes.waiting, if_neg free]
    change List.countP _ rest + List.countP _ st.requests = 0
    omega
  · rw [takes.waiting] at joins
    exact absurd joins free
  · rw [takes.requests] at listed
    rw [takes.references]
    exact sound.speaks fed m' listed
  · cases sound.phase with
    | outside outside =>
      obtain ⟨q, refusal, stranger⟩ := outside.inbox m (by rw [inbox]; exact List.mem_cons_self)
      refine .outside ⟨takes.references.trans outside.references,
        takes.member.trans outside.member, clocks_eq_nil fun g => ?_, fun m' member => ?_⟩
      · have before : clockOf st.tm.clocks g = Option.none := by rw [outside.clocks]; rfl
        rw [takes.clock, refusal]
        simp only [before]
        unfold Incoming.moves
        split
        · rename_i impossible
          cases impossible
        · simp [NetworkMessage.moves]
        · rfl
      · rw [takes.inbox] at member
        exact outside.inbox m' (by rw [inbox]; exact List.mem_cons_of_mem m member)
    | welcomed h welcomed =>
      exact absurd welcomed.waiting free
    | member h member =>
      refine .member h ⟨takes.references.trans member.references, member.joined,
        takes.member.trans member.member, takes.self.trans member.self,
        takes.waiting.trans member.waiting, ?_, fun g other => ?_⟩
      · rw [takes.requests]
        exact member.stays
      · rw [← member.clocks g other]
        unfold seen
        rw [takes.inbox, takes.clock, inbox]
        rfl
    | gone h gone =>
      refine .gone h ⟨takes.references.trans gone.references, takes.member.trans gone.member,
        fun fed n listed => ?_⟩
      rw [takes.inbox] at listed
      exact gone.inbox fed n (by rw [inbox]; exact List.mem_cons_of_mem m listed)

theorem insertClocks_sent (tm : TimeManagement) (clocks : List (FederateHandle × Date)) :
    (tm.insertClocks clocks).2.sent = [] := by
  induction clocks generalizing tm with
  | nil => rfl
  | cons clock rest ih =>
    obtain ⟨h, date⟩ := clock
    unfold TimeManagement.insertClocks
    split
    · exact ih _
    · rfl

theorem join_sent (tm : TimeManagement) (fed : FederateHandle)
    (clocks : List (FederateHandle × Date)) : (rtia tm (.join fed clocks)).2.sent = [] := by
  unfold rtia
  split
  · rfl
  · unfold TimeManagement.perform TimeManagement.join
    dsimp only
    split
    · rfl
    · exact insertClocks_sent _ clocks

theorem perform_join_requests (st : Station) (fed : FederateHandle)
    (clocks : List (FederateHandle × Date)) :
    (st.perform (.join fed clocks)).1.requests = st.requests := by
  simp [perform, join_sent]

/-- Only NULL messages are taken for clocks. -/
theorem takeClocks_countP {n : Nat} {inbox rest : List Incoming}
    {clocks : List (FederateHandle × Date)} (taken : takeClocks n inbox = some (clocks, rest)) :
    rest.countP Incoming.isJoinAnswer = inbox.countP Incoming.isJoinAnswer := by
  induction n, inbox using takeClocks.induct generalizing clocks rest with
  | case1 inbox =>
    rw [takeClocks] at taken
    cases taken
    rfl
  | case2 n => cases taken
  | case3 n fed date rest' ih =>
    simp only [takeClocks, Option.map_eq_some_iff] at taken
    obtain ⟨⟨cs, left⟩, below, same⟩ := taken
    cases same
    simpa [Incoming.isJoinAnswer] using ih below
  | case4 n m rest' other ih =>
    rw [takeClocks.eq_4 n m rest' other, Option.map_eq_some_iff] at taken
    obtain ⟨⟨cs, left⟩, below, same⟩ := taken
    cases same
    simp only [List.countP_cons, ih below]

theorem countP_eraseP {p : Incoming → Bool} {inbox : List Incoming} {m : Incoming}
    (found : inbox.find? p = some m) : (inbox.eraseP p).countP p + 1 = inbox.countP p := by
  obtain ⟨c, before, after, _, here, split, erased⟩ :=
    List.exists_of_eraseP (List.mem_of_find?_eq_some found) (List.find?_some found)
  rw [erased, split]
  simp [here]
  omega

/-- A join is over once its answer has been taken up. -/
theorem finishJoin_after {answer : RtiaAnswer} (ends : st.finishJoin = some (st', answer)) :
    st'.waiting = none ∧ st'.references = st.references ∧ st'.requests = st.requests ∧
      st'.inbox.countP Incoming.isJoinAnswer + 1 = st.inbox.countP Incoming.isJoinAnswer := by
  unfold finishJoin at ends
  cases found : st.inbox.find? Incoming.isJoinAnswer with
  | none =>
    rw [found] at ends
    cases ends
  | some m =>
    have erased := countP_eraseP found
    rw [found] at ends
    split at ends
    · cases ends
    · obtain ⟨⟨clocks, rest⟩, taken, result⟩ := Option.map_eq_some_iff.mp ends
      rw [← (Prod.mk.inj result).1]
      refine ⟨rfl, rfl, perform_join_requests _ _ _, ?_⟩
      rw [← erased, ← takeClocks_countP taken]
    · cases ends
      exact ⟨rfl, rfl, rfl, erased⟩

/-- How a join ends does not depend on what has been asked for since. -/
theorem finishJoin_requests {answer : RtiaAnswer} (ends : st.finishJoin = some (st', answer))
    (requests : List Request) :
    { st with requests := requests }.finishJoin =
      some ({ st' with requests := requests }, answer) := by
  unfold finishJoin at ends ⊢
  dsimp only
  split at ends
  · cases ends
  · obtain ⟨⟨clocks, rest⟩, taken, result⟩ := Option.map_eq_some_iff.mp ends
    rw [Option.map_eq_some_iff]
    refine ⟨⟨clocks, rest⟩, taken, ?_⟩
    have state : _ = st' := congrArg Prod.fst result
    have answered : _ = answer := congrArg Prod.snd result
    subst state answered
    simp [perform, join_sent]
  · cases ends
    rfl

/-- A refused join is over as well. -/
theorem finishJoin_refused {answer : RtiaAnswer} (ends : st.finishJoin = some (st', answer))
    (refused : ∀ fed n, Incoming.answer (.joinFederationExecution fed n) ∉ st.inbox) :
    st'.tm = st.tm ∧ ∀ m ∈ st'.inbox, m ∈ st.inbox := by
  unfold finishJoin at ends
  split at ends
  · cases ends
  · rename_i fed n found
    exact absurd (List.mem_of_find?_eq_some found) (refused fed n)
  · cases ends
    exact ⟨rfl, fun m member => List.mem_of_mem_eraseP member⟩

theorem Sound.finishJoin {answer : RtiaAnswer} (sound : st.Sound f)
    (waiting : st.waiting = some .join) (ends : st.finishJoin = some (st', answer)) :
    st'.Sound f := by
  obtain ⟨done, references, requests, count⟩ := Station.finishJoin_after ends
  refine ⟨?_, fun joins => ?_, fun fed m listed => ?_, ?_⟩
  · have before := sound.pending
    rw [if_pos waiting] at before
    rw [done, requests, if_neg (by simp)]
    omega
  · rw [done] at joins
    cases joins
  · rw [requests] at listed
    rw [references]
    exact sound.speaks fed m listed
  · cases sound.phase with
    | outside outside =>
      have refused : ∀ fed n, Incoming.answer (.joinFederationExecution fed n) ∉ st.inbox := by
        intro fed n listed
        obtain ⟨q, impossible, _⟩ := outside.inbox _ listed
        cases impossible
      obtain ⟨same, inbox⟩ := finishJoin_refused ends refused
      exact .outside ⟨references.trans outside.references, by rw [same]; exact outside.member,
        by rw [same]; exact outside.clocks, fun m member => outside.inbox m (inbox m member)⟩
    | welcomed h welcomed =>
      obtain ⟨st'', answer', finishes, member⟩ := welcomed.finishes
      rw [ends] at finishes
      cases finishes
      exact .member h member
    | member h member =>
      rw [member.waiting] at waiting
      cases waiting
    | gone h gone =>
      obtain ⟨same, inbox⟩ := finishJoin_refused ends gone.inbox
      exact .gone h ⟨references.trans gone.references, by rw [same]; exact gone.member,
        fun fed n listed => gone.inbox fed n (inbox _ listed)⟩

theorem Sound.finishResign (sound : st.Sound f) (waiting : st.waiting = some .resign) :
    st.finishResign.Sound f := by
  unfold Station.finishResign
  split
  · have free : st.waiting ≠ some .join := by simp [waiting]
    obtain ⟨inbox, requests⟩ := sound.no_join free
    refine ⟨?_, fun joins => ?_, sound.speaks, ?_⟩
    · rw [if_neg (by simp), Nat.add_eq_zero_iff, List.countP_eq_zero, List.countP_eq_zero]
      refine ⟨fun m member => ?_, fun q member => ?_⟩
      · simp [inbox m (List.mem_of_mem_eraseP member)]
      · simp [requests q member]
    · cases joins
    · cases sound.phase with
      | outside outside =>
        exact .outside ⟨outside.references, outside.member, outside.clocks,
          fun m member => outside.inbox m (List.mem_of_mem_eraseP member)⟩
      | welcomed h welcomed => exact absurd welcomed.waiting free
      | member h member =>
        rw [member.waiting] at waiting
        cases waiting
      | gone h gone =>
        exact .gone h ⟨gone.references, gone.member,
          fun fed n listed => gone.inbox fed n (List.mem_of_mem_eraseP listed)⟩
  · exact sound

theorem Sound.receive (sound : st.Sound f) : st.receive.1.Sound f := by
  unfold Station.receive
  split
  · exact sound
  · rename_i running
    have alive : st.tm.ended = false := Bool.eq_false_iff.mpr running
    cases waiting : st.waiting with
    | none =>
      simp only
      cases inbox : st.inbox with
      | nil => exact sound
      | cons m rest =>
        have kept := sound.process alive waiting inbox
        rw [waiting] at kept
        exact kept
    | some call =>
      cases call with
      | join =>
        simp only
        cases ends : st.finishJoin with
        | none => exact sound
        | some result => exact sound.finishJoin waiting ends
      | resign => exact sound.finishResign waiting

/-! ### Messages from the RTIG -/

/-- A member, or about to be one. -/
def Attends (f : Federation) (h : FederateHandle) (st : Station) : Prop :=
  st.UpToDate f h ∨ st.Welcomed f h

theorem Attends.facts (attends : st.Attends f h) :
    st.references = some h ∧ f.isJoined h = true ∧ Request.time h .resign ∉ st.requests := by
  cases attends with
  | inl member => exact ⟨member.references, member.joined, member.stays⟩
  | inr welcomed =>
    obtain ⟨st', answer, ends, member⟩ := welcomed.finishes
    obtain ⟨_, _, requests, _⟩ := Station.finishJoin_after ends
    rw [← requests]
    exact ⟨welcomed.references, member.joined, member.stays⟩

theorem UpToDate.add (member : st.UpToDate f h) (joined : f'.isJoined h = true)
    {more : List Incoming}
    (told : ∀ g ≠ h, more.foldl (fun clock m => m.moves g clock) (clockOf f.regulators g) =
      clockOf f'.regulators g) : (st.add more).UpToDate f' h := by
  refine ⟨member.references, joined, member.member, member.self, member.waiting, member.stays,
    fun g other => ?_⟩
  rw [← told g other, ← member.clocks g other]
  exact List.foldl_append

/-- New messages, which are no answers to a join, bring the clocks of a member from those before
to those after. -/
theorem Sound.add (sound : st.Sound f) {more : List Incoming}
    (noJoin : ∀ m ∈ more, m.isJoinAnswer = false)
    (stranger : st.references = none → more = [])
    (told : ∀ h, st.Attends f h → f'.isJoined h = true ∧ ∀ g ≠ h,
      more.foldl (fun clock m => m.moves g clock) (clockOf f.regulators g) =
        clockOf f'.regulators g) : (st.add more).Sound f' := by
  refine ⟨?_, sound.alive, sound.speaks, ?_⟩
  · have none : more.countP Incoming.isJoinAnswer = 0 :=
      List.countP_eq_zero.mpr fun m member => by simp [noJoin m member]
    have count := sound.pending
    simp only [Station.add, List.countP_append, none, Nat.add_zero]
    exact count
  · cases sound.phase with
    | outside outside =>
      have nothing := stranger outside.references
      refine .outside ⟨outside.references, outside.member, outside.clocks, fun m member => ?_⟩
      rw [nothing] at member
      exact outside.inbox m (by simpa [Station.add] using member)
    | welcomed h welcomed =>
      obtain ⟨joined, moved⟩ := told h (.inr welcomed)
      obtain ⟨st', answer, ends, member⟩ := welcomed.finishes
      exact .welcomed h ⟨welcomed.references, welcomed.waiting, st'.add more, answer,
        finishJoin_add ends more, member.add joined moved⟩
    | member h member =>
      obtain ⟨joined, moved⟩ := told h (.inl member)
      exact .member h (member.add joined moved)
    | gone h gone =>
      refine .gone h ⟨gone.references, gone.member, fun fed n listed => ?_⟩
      rcases List.mem_append.mp listed with old | new
      · exact gone.inbox fed n old
      · have none := noJoin _ new
        cases none

/-- The RTIG has read a request that is no join. -/
theorem Sound.pop {q : Request} {rest : List Request} (sound : st.Sound f)
    (requests : st.requests = q :: rest) (other : q.isJoin = false) : st.pop.Sound f := by
  have popped : st.pop.requests = rest := by simp [Station.pop, requests]
  refine ⟨?_, sound.alive, fun fed m listed => ?_, ?_⟩
  · have count := sound.pending
    rw [requests, List.countP_cons, other] at count
    rw [popped]
    exact count
  · rw [popped] at listed
    exact sound.speaks fed m (by rw [requests]; exact List.mem_cons_of_mem q listed)
  · cases sound.phase with
    | outside outside =>
      exact .outside ⟨outside.references, outside.member, outside.clocks, outside.inbox⟩
    | welcomed h welcomed =>
      obtain ⟨st', answer, ends, member⟩ := welcomed.finishes
      obtain ⟨_, _, same, _⟩ := Station.finishJoin_after ends
      refine .welcomed h ⟨welcomed.references, welcomed.waiting, _, answer,
        finishJoin_requests ends st.requests.tail, member.references, member.joined,
        member.member, member.self, member.waiting, fun listed => member.stays ?_, member.clocks⟩
      rw [same]
      exact List.mem_of_mem_tail listed
    | member h member =>
      refine .member h ⟨member.references, member.joined, member.member, member.self,
        member.waiting, fun listed => member.stays ?_, member.clocks⟩
      rw [popped] at listed
      rw [requests]
      exact List.mem_cons_of_mem q listed
    | gone h gone => exact .gone h ⟨gone.references, gone.member, gone.inbox⟩

/-- A refusal says nothing of the clocks of others. -/
theorem refusal_still (regulated : f.Regulated) {q : Request}
    (speaks : ∀ fed m, q = .time fed m → fed = 0 ∨ fed = h) (g : FederateHandle) (other : g ≠ h) :
    (Incoming.refusal q).moves g (clockOf f.regulators g) = clockOf f.regulators g := by
  cases q with
  | join => rfl
  | time fed m =>
    cases m with
    | setTimeRegulating on date =>
      simp only [Incoming.moves, NetworkMessage.moves]
      split
      · rename_i same
        subst same
        rcases speaks fed _ rfl with zero | own
        · rw [zero, regulated.no_zero]
        · exact absurd own other
      · rfl
    | messageNull => rfl
    | setTimeConstrained => rfl
    | sendDated => rfl
    | deleteDated => rfl
    | resign => rfl

theorem UpToDate.refuse (regulated : f.Regulated) {q : Request} (member : st.UpToDate f h)
    (speaks : ∀ fed m, q = .time fed m → fed = 0 ∨ st.references = some fed) :
    (st.refuse q).UpToDate f h := by
  refine member.add member.joined fun g other => refusal_still regulated ?_ g other
  intro fed m same
  rcases speaks fed m same with zero | own
  · exact .inl zero
  · rw [member.references] at own
    exact .inr (Option.some.inj own).symm

/-- The RTIG has refused a request that is no join. -/
theorem Sound.refuse (sound : st.Sound f) (regulated : f.Regulated) {q : Request}
    (other : q.isJoin = false)
    (speaks : ∀ fed m, q = .time fed m → fed = 0 ∨ st.references = some fed) :
    (st.refuse q).Sound f := by
  have silent : (Incoming.refusal q).isJoinAnswer = false := by
    cases q with
    | join => cases other
    | time => rfl
  refine ⟨?_, sound.alive, sound.speaks, ?_⟩
  · have count := sound.pending
    simp only [Station.refuse, Station.add, List.countP_append, List.countP_singleton, silent,
      Bool.false_eq_true, if_false, Nat.add_zero]
    exact count
  · cases sound.phase with
    | outside outside =>
      refine .outside ⟨outside.references, outside.member, outside.clocks, fun m member => ?_⟩
      rcases List.mem_append.mp member with old | new
      · exact outside.inbox m old
      · refine ⟨q, List.mem_singleton.mp new, fun fed m' same => ?_⟩
        rcases speaks fed m' same with zero | own
        · exact zero
        · rw [outside.references] at own
          cases own
    | welcomed h welcomed =>
      obtain ⟨st', answer, ends, member⟩ := welcomed.finishes
      obtain ⟨_, references, _, _⟩ := Station.finishJoin_after ends
      refine .welcomed h ⟨welcomed.references, welcomed.waiting, st'.refuse q, answer,
        finishJoin_add ends _, member.refuse regulated ?_⟩
      rw [references]
      exact speaks
    | member h member => exact .member h (member.refuse regulated speaks)
    | gone h gone =>
      refine .gone h ⟨gone.references, gone.member, fun fed n listed => ?_⟩
      rcases List.mem_append.mp listed with old | new
      · exact gone.inbox fed n old
      · cases List.mem_singleton.mp new

/-- A join that has been asked for is waited for, and nothing has answered it. -/
theorem Sound.asked {name : String} {modulesOpen : Bool} {rest : List Request}
    (sound : st.Sound f) (requests : st.requests = .join name modulesOpen :: rest) :
    st.waiting = some .join ∧ (∀ m ∈ st.inbox, m.isJoinAnswer = false) ∧
      ∀ q ∈ rest, q.isJoin = false := by
  have count := sound.pending
  rw [requests, List.countP_cons] at count
  simp only [Request.isJoin, if_true] at count
  by_cases waiting : st.waiting = some .join
  · rw [if_pos waiting] at count
    refine ⟨waiting, fun m member => ?_, fun q member => ?_⟩
    · have none := List.countP_eq_zero.mp (by omega : st.inbox.countP Incoming.isJoinAnswer = 0)
      exact Bool.eq_false_iff.mpr (none m member)
    · have none := List.countP_eq_zero.mp (by omega : rest.countP Request.isJoin = 0)
      exact Bool.eq_false_iff.mpr (none q member)
  · rw [if_neg waiting] at count
    omega

/-- The RTIG has refused a join. -/
theorem Sound.refuseJoin {name : String} {modulesOpen : Bool} {rest : List Request}
    (sound : st.Sound f) (requests : st.requests = .join name modulesOpen :: rest) :
    (st.pop.refuse (.join name modulesOpen)).Sound f := by
  obtain ⟨waiting, unanswered, later⟩ := sound.asked requests
  have popped : st.pop.requests = rest := by simp [Station.pop, requests]
  refine ⟨?_, sound.alive, fun fed m listed => ?_, ?_⟩
  · have none : st.inbox.countP Incoming.isJoinAnswer = 0 :=
      List.countP_eq_zero.mpr fun m member => by simp [unanswered m member]
    have none' : rest.countP Request.isJoin = 0 :=
      List.countP_eq_zero.mpr fun q member => by simp [later q member]
    simp only [Station.refuse, Station.add, popped, List.countP_append, List.countP_singleton]
    rw [show st.pop.inbox = st.inbox from rfl, show st.pop.waiting = st.waiting from rfl,
      if_pos waiting, none, none']
    rfl
  · change _ ∈ st.pop.requests at listed
    rw [popped] at listed
    exact sound.speaks fed m (by rw [requests]; exact List.mem_cons_of_mem _ listed)
  · cases sound.phase with
    | outside outside =>
      refine .outside ⟨outside.references, outside.member, outside.clocks, fun m member => ?_⟩
      rcases List.mem_append.mp member with old | new
      · exact outside.inbox m old
      · exact ⟨_, List.mem_singleton.mp new, fun fed m' same => by cases same⟩
    | welcomed h welcomed =>
      obtain ⟨st', answer, ends, _⟩ := welcomed.finishes
      obtain ⟨_, _, _, count⟩ := Station.finishJoin_after ends
      have none : st.inbox.countP Incoming.isJoinAnswer = 0 :=
        List.countP_eq_zero.mpr fun m member => by simp [unanswered m member]
      omega
    | member h member =>
      rw [member.waiting] at waiting
      cases waiting
    | gone h gone =>
      refine .gone h ⟨gone.references, gone.member, fun fed n listed => ?_⟩
      rcases List.mem_append.mp listed with old | new
      · exact gone.inbox fed n old
      · cases List.mem_singleton.mp new

/-- The first answer to a join, behind messages that are none. -/
theorem first_joinAnswer {before : List Incoming} {m : Incoming}
    (none : ∀ b ∈ before, b.isJoinAnswer = false) (answer : m.isJoinAnswer = true) :
    (before ++ [m]).find? Incoming.isJoinAnswer = some m ∧
      (before ++ [m]).eraseP Incoming.isJoinAnswer = before := by
  have silent : ∀ b ∈ before, ¬b.isJoinAnswer = true := fun b member => by simp [none b member]
  constructor
  · rw [List.find?_append, List.find?_eq_none.mpr silent]
    simp [answer]
  · rw [List.eraseP_append_right _ silent]
    simp [answer]

/-- Messages that leave a clock alone do so one after another. -/
theorem still_along {g : FederateHandle} {clock : Option Date} {inbox : List Incoming}
    (still : ∀ m ∈ inbox, m.moves g clock = clock) :
    inbox.foldl (fun clock m => m.moves g clock) clock = clock := by
  induction inbox with
  | nil => rfl
  | cons m rest ih =>
    rw [List.foldl_cons, still m List.mem_cons_self]
    exact ih fun m' member => still m' (List.mem_cons_of_mem m member)

/-- A refusal of somebody who was no member moves no clock of a regulator. -/
theorem stranger_still (regulated : f.Regulated) {q : Request}
    (stranger : ∀ fed m, q = .time fed m → fed = 0) (g : FederateHandle) :
    (Incoming.refusal q).moves g (clockOf f.regulators g) = clockOf f.regulators g := by
  by_cases zero : g = 0
  · rw [zero, regulated.no_zero]
    unfold Incoming.moves
    split
    · rename_i impossible
      cases impossible
    · simp [NetworkMessage.moves]
    · rfl
  · exact refusal_still regulated (fun fed m same => .inl (stranger fed m same)) (h := 0) g zero

/-- The clocks that come with the answer to a join are those of the RTIG. -/
theorem Outside.welcome {rest : List Request} (outside : st.Outside) (regulated : f.Regulated)
    (alive : st.tm.ended = false) (unanswered : ∀ m ∈ st.inbox, m.isJoinAnswer = false)
    (stays : Request.time f.nextFederate .resign ∉ rest)
    (joined : f'.isJoined f.nextFederate = true) (clocks : f'.regulators = f.regulators) :
    ∃ st' answer, Station.finishJoin { st with
        references := some f.nextFederate
        requests := rest
        inbox := st.inbox ++ f.welcome.map Incoming.answer } = some (st', answer) ∧
      st'.UpToDate f' f.nextFederate := by
  let labels : List Incoming := f.synchronizationLabels.map fun label =>
    .answer (.announceSynchronizationPoint label.1 label.2)
  let nulls : List Incoming := f.regulators.map fun clock => .answer (.messageNull clock.1 clock.2)
  have listed : st.inbox ++ f.welcome.map Incoming.answer = (st.inbox ++ nulls ++ labels) ++
      [.answer (.joinFederationExecution f.nextFederate f.regulators.length)] := by
    simp [Federation.welcome, labels, nulls, Function.comp_def]
  have silent : ∀ m ∈ st.inbox ++ nulls ++ labels, m.isJoinAnswer = false := by
    intro m member
    rcases List.mem_append.mp member with member | label
    · rcases List.mem_append.mp member with old | null
      · exact unanswered m old
      · obtain ⟨clock, _, rfl⟩ := List.mem_map.mp null
        rfl
    · obtain ⟨label, _, rfl⟩ := List.mem_map.mp label
      rfl
  obtain ⟨found, erased⟩ := first_joinAnswer silent
    (m := .answer (.joinFederationExecution f.nextFederate f.regulators.length)) rfl
  have strangers : ∀ m ∈ st.inbox, m.isNull = false := by
    intro m member
    obtain ⟨q, refusal, _⟩ := outside.inbox m member
    rw [refusal]
    rfl
  have taken : takeClocks f.regulators.length (st.inbox ++ nulls ++ labels) =
      some (f.regulators, st.inbox ++ labels) := takeClocks_welcome strangers f.regulators
  have distinct : ((st.tm.clocks ++ f.regulators).map Prod.fst).Nodup := by
    rw [outside.clocks]
    exact regulated.distinct
  obtain ⟨table, member, self, _⟩ := @TimeManagement.insertClocks_distinct
    { st.tm with toLBTS := st.tm.toLBTS.setFederate f.nextFederate } _ distinct
  have does : (rtia st.tm (.join f.nextFederate f.regulators)).1 =
      (TimeManagement.insertClocks
        { st.tm with toLBTS := st.tm.toLBTS.setFederate f.nextFederate } f.regulators).1 := by
    rw [rtia_perform alive]
    simp [TimeManagement.perform, TimeManagement.join, outside.member]
  rw [listed]
  unfold finishJoin
  simp only [found, erased, taken, Option.map_some]
  let welcomed : Station := { st with
    references := some f.nextFederate
    waiting := none
    requests := rest
    inbox := st.inbox ++ labels }
  refine ⟨(welcomed.perform (.join f.nextFederate f.regulators)).1,
    (welcomed.perform (.join f.nextFederate f.regulators)).2, rfl, rfl, joined, ?_, ?_, rfl, ?_,
    fun g other => ?_⟩
  · change (rtia st.tm (.join f.nextFederate f.regulators)).1.isMember = true
    rw [does]
    exact member
  · change (rtia st.tm (.join f.nextFederate f.regulators)).1.myFederateNumber = _
    rw [does]
    exact self
  · rw [perform_join_requests]
    exact stays
  · change (st.inbox ++ labels).foldl (fun clock m => m.moves g clock)
      (clockOf (rtia st.tm (.join f.nextFederate f.regulators)).1.clocks g) = _
    have clock : clockOf (rtia st.tm (.join f.nextFederate f.regulators)).1.clocks g =
        clockOf f.regulators g := by
      rw [does, table]
      change clockOf (st.tm.clocks ++ f.regulators) g = _
      rw [outside.clocks]
      rfl
    have refused : st.inbox.foldl (fun clock m => m.moves g clock) (clockOf f.regulators g) =
        clockOf f.regulators g := by
      refine still_along fun m member => ?_
      obtain ⟨q, refusal, stranger⟩ := outside.inbox m member
      rw [refusal]
      exact stranger_still regulated stranger g
    rw [clock, clocks, List.foldl_append, refused]
    refine still_along fun m member => ?_
    obtain ⟨label, _, rfl⟩ := List.mem_map.mp member
    rfl

theorem welcome_countP (f : Federation) :
    (f.welcome.map Incoming.answer).countP Incoming.isJoinAnswer = 1 := by
  unfold Federation.welcome
  rw [List.countP_map, List.countP_append, List.countP_append, List.countP_map, List.countP_map,
    List.countP_eq_zero.mpr, List.countP_eq_zero.mpr]
  · rfl
  · intro label _
    simp [Incoming.isJoinAnswer]
  · intro clock _
    simp [Incoming.isJoinAnswer]

/-- A newcomer is answered. -/
theorem Sound.welcome {name : String} {modulesOpen : Bool} {rest : List Request}
    (sound : st.Sound f) (requests : st.requests = .join name modulesOpen :: rest)
    (free : st.references = none) (regulated : f.Regulated)
    (joined : f'.isJoined f.nextFederate = true) (clocks : f'.regulators = f.regulators) :
    ((st.pop.bind f.nextFederate).post (f.welcome.map fun m => (f.nextFederate, m))).Sound f' := by
  obtain ⟨waiting, unanswered, later⟩ := sound.asked requests
  have strangers : ∀ fed m, Request.time fed m ∈ rest → fed = 0 := by
    intro fed m listed
    rcases sound.speaks fed m (by rw [requests]; exact List.mem_cons_of_mem _ listed) with
      zero | own
    · exact zero
    · rw [free] at own
      cases own
  have result : (st.pop.bind f.nextFederate).post (f.welcome.map fun m => (f.nextFederate, m)) =
      { st with
        references := some f.nextFederate
        requests := rest
        inbox := st.inbox ++ f.welcome.map Incoming.answer } := by
    have all : (f.welcome.map fun m => (f.nextFederate, m)).filter
        (fun response => (some f.nextFederate : Option FederateHandle) = some response.1) =
        f.welcome.map fun m => (f.nextFederate, m) := by
      refine List.filter_eq_self.mpr fun response listed => ?_
      obtain ⟨m, _, rfl⟩ := List.mem_map.mp listed
      simp
    simp only [Station.post, Station.bind, Station.pop, Station.add, requests, List.tail_cons, all,
      List.map_map, Function.comp_def]
  rw [result]
  refine ⟨?_, sound.alive, fun fed m listed => .inl (strangers fed m listed), ?_⟩
  · have none : st.inbox.countP Incoming.isJoinAnswer = 0 :=
      List.countP_eq_zero.mpr fun m member => by simp [unanswered m member]
    have none' : rest.countP Request.isJoin = 0 :=
      List.countP_eq_zero.mpr fun q member => by simp [later q member]
    simp only [List.countP_append, none, none', welcome_countP]
    rw [if_pos waiting]
  · cases sound.phase with
    | outside outside =>
      refine .welcomed f.nextFederate ⟨rfl, waiting, ?_⟩
      refine outside.welcome regulated (sound.alive waiting) unanswered (fun listed => ?_) joined
        clocks
      exact absurd (strangers _ _ listed) (Nat.ne_of_gt regulated.numbered.positive)
    | welcomed h welcomed =>
      rw [welcomed.references] at free
      cases free
    | member h member =>
      rw [member.references] at free
      cases free
    | gone h gone =>
      rw [gone.references] at free
      cases free

/-- What the RTIG relays brings a member up to date. -/
theorem Sound.post {sent : Responses} (sound : st.Sound f) (relays : Relays f f' sent)
    (stays : ∀ h, st.Attends f h → f'.isJoined h = true)
    (noJoin : ∀ h fed n, st.references = some h →
      (h, NetworkMessage.joinFederationExecution fed n) ∉ sent) : (st.post sent).Sound f' := by
  unfold Station.post
  refine sound.add (fun m member => ?_) (fun stranger => ?_) (fun h attends => ?_)
  · obtain ⟨response, kept, rfl⟩ := List.mem_map.mp member
    obtain ⟨listed, own⟩ := List.mem_filter.mp kept
    simp only [decide_eq_true_eq] at own
    obtain ⟨k, m⟩ := response
    cases m with
    | joinFederationExecution fed n => exact absurd listed (noJoin k fed n own)
    | _ => rfl
  · rw [stranger]
    simp
  · obtain ⟨references, joined, _⟩ := attends.facts
    have still := stays h attends
    refine ⟨still, fun g other => ?_⟩
    rw [← relays.told h joined still g other, List.foldl_map, references]
    unfold clockAfter messagesFor
    rw [List.foldl_map]
    simp only [Option.some.injEq, @eq_comm _ h]
    rfl

end Station

/-! ## What the RTIG does -/

namespace Federation

variable {f : Federation} {e : Event}

theorem perform_stays (f : Federation) (e : Event) {k : FederateHandle}
    (joined : f.isJoined k = true) :
    (f.perform e).state.isJoined k = true ∨ e = .resign k ∨ e = .kill k := by
  rw [isJoined_iff] at joined ⊢
  rcases e.sorts with ⟨name, conditions, rfl⟩ | ⟨fed, rfl⟩ | ⟨fed, rfl⟩ | internal | onRoot
  · left
    rcases add_cases f name conditions with same | ⟨handles, _⟩
    · rw [perform, same]
      exact joined
    · rw [perform, handles]
      exact List.mem_append_left _ joined
  · by_cases self : fed = k
    · exact .inr (.inl (by rw [self]))
    · left
      rcases remove_cases f fed with refused | ⟨_, removed⟩
      · rw [perform, refused]
        exact joined
      · rw [perform, removed]
        simp only [Outcome.done, map_key_drop, List.mem_filter, decide_eq_true_eq]
        exact ⟨joined, Ne.symm self⟩
  · by_cases self : fed = k
    · exact .inr (.inr (by rw [self]))
    · left
      rcases kill_cases f fed with refused | ⟨_, state, _, _⟩
      · rw [perform, refused]
        exact joined
      · have same := sameMembers_of_timeless (removeRegulator_timeless (f.closeLink fed) fed)
        rw [perform, state]
        simp only [map_key_drop, List.mem_filter, decide_eq_true_eq]
        rw [same.handles]
        exact ⟨joined, Ne.symm self⟩
  · left
    rw [(perform_internal f internal).handles]
    exact joined
  · left
    rw [(perform_onRoot f onRoot).rest]
    exact joined

theorem perform_next (f : Federation) (e : Event) :
    f.nextFederate ≤ (f.perform e).state.nextFederate := by
  rcases e.sorts with ⟨name, conditions, rfl⟩ | ⟨fed, rfl⟩ | ⟨fed, rfl⟩ | internal | onRoot
  · rcases add_cases f name conditions with same | ⟨_, next, _⟩
    · rw [perform, same]
    · rw [perform, next]
      exact Nat.le_succ _
  · rcases remove_cases f fed with refused | ⟨_, removed⟩
    · rw [perform, refused]
      exact Nat.le_refl _
    · rw [perform, removed]
      exact Nat.le_refl _
  · rcases kill_cases f fed with refused | ⟨_, state, _, _⟩
    · rw [perform, refused]
      exact Nat.le_refl _
    · have same := sameMembers_of_timeless (removeRegulator_timeless (f.closeLink fed) fed)
      rw [perform, state]
      exact Nat.le_of_eq same.nextFederate.symm
  · exact Nat.le_of_eq (perform_internal f internal).nextFederate.symm
  · rw [(perform_onRoot f onRoot).rest]

/-- Only a newcomer is answered a join. -/
theorem perform_welcomes (f : Federation) (e : Event) {h fed : FederateHandle} {n : Nat}
    (listed : (h, NetworkMessage.joinFederationExecution fed n) ∈ (f.perform e).sent) :
    h = f.nextFederate := by
  have topic := perform_about f e _ listed
  cases e with
  | join name conditions =>
    rw [perform] at listed
    rcases add_outcomes f name conditions with result | result | result | result <;>
      rw [result] at listed
    · cases listed
    · cases listed
    · cases listed
    · rcases List.mem_append.mp listed with early | answer
      · rcases List.mem_append.mp early with null | label
        · obtain ⟨clock, _, same⟩ := List.mem_map.mp null
          cases same
        · obtain ⟨label, _, same⟩ := List.mem_map.mp label
          cases same
      · cases List.mem_singleton.mp answer
        rfl
  | resign g =>
    rw [perform] at listed
    rcases remove_cases f g with refused | ⟨_, removed⟩
    · rw [refused] at listed
      cases listed
    · rw [removed] at listed
      cases List.mem_singleton.mp listed
  | kill g =>
    rw [perform] at listed
    rcases kill_cases f g with refused | ⟨_, _, sent, _⟩
    · rw [refused] at listed
      cases listed
    · rw [sent] at listed
      rcases List.mem_append.mp listed with deleted | resigned
      · have about := RootObject.killClasses_about g _ _ _ deleted
        simp [NetworkMessage.topic] at about
      · cases List.mem_singleton.mp resigned
  | _ => simp [Event.topics, NetworkMessage.topic] at topic

/-- What a request has the RTIG do, it tells everybody. -/
theorem request_relays (regulated : f.Regulated) {q : Request} {free : Bool}
    (asks : q.event free = some e) (orderly : f.TellsAll e) :
    Relays f (f.perform e).state (f.perform e).sent := by
  cases q with
  | join name modulesOpen =>
    cases asks
    exact add_relays regulated orderly
  | time fed m =>
    cases m with
    | messageNull date =>
      cases asks
      exact updateRegulator_relays regulated fed date
    | setTimeRegulating on date =>
      cases asks
      cases on with
      | true => exact addRegulator_relays regulated fed date
      | false => exact removeRegulator_relays regulated fed
    | setTimeConstrained on =>
      cases asks
      exact setConstrained_relays regulated fed on
    | sendDated date => cases asks
    | deleteDated date => cases asks
    | resign =>
      cases asks
      exact remove_relays regulated fed

end Federation

/-! ## The whole -/

namespace Network

variable {net : Network} {link : Link}

/-- Connections are told apart by their links and by the federates they are bound to, and every
RTIA is on its way to the table of the RTIG. -/
structure Coherent (net : Network) : Prop where
  regulated : net.federation.Regulated
  links : (net.stations.map Station.link).Nodup
  fresh : ∀ st ∈ net.stations, st.link < net.nextLink
  bound : ∀ st ∈ net.stations, ∀ h, st.references = some h → h < net.federation.nextFederate
  single : ∀ st ∈ net.stations, ∀ st' ∈ net.stations, ∀ h, st.references = some h →
    st'.references = some h → st.link = st'.link
  sound : ∀ st ∈ net.stations, st.Sound net.federation

/-- The RTIAs change in place, and stay at their connections. -/
theorem Coherent.map (coherent : net.Coherent) {f' : Federation} {F : Station → Station}
    (regulated : f'.Regulated) (next : net.federation.nextFederate ≤ f'.nextFederate)
    (ends : ∀ st, (F st).link = st.link ∧ (F st).references = st.references)
    (sound : ∀ st ∈ net.stations, (F st).Sound f') :
    Coherent { net with federation := f', stations := net.stations.map F } where
  regulated := regulated
  links := by
    have same : (net.stations.map F).map Station.link = net.stations.map Station.link := by
      rw [List.map_map]
      exact List.map_congr_left fun st _ => (ends st).1
    rw [same]
    exact coherent.links
  fresh := by
    intro st' member
    obtain ⟨st, belongs, rfl⟩ := List.mem_map.mp member
    rw [(ends st).1]
    exact coherent.fresh st belongs
  bound := by
    intro st' member h references
    obtain ⟨st, belongs, rfl⟩ := List.mem_map.mp member
    rw [(ends st).2] at references
    exact Nat.lt_of_lt_of_le (coherent.bound st belongs h references) next
  single := by
    intro st₁ member₁ st₂ member₂ h references₁ references₂
    obtain ⟨s₁, belongs₁, rfl⟩ := List.mem_map.mp member₁
    obtain ⟨s₂, belongs₂, rfl⟩ := List.mem_map.mp member₂
    rw [(ends s₁).2] at references₁
    rw [(ends s₂).2] at references₂
    rw [(ends s₁).1, (ends s₂).1]
    exact coherent.single s₁ belongs₁ s₂ belongs₂ h references₁ references₂
  sound := by
    intro st' member
    obtain ⟨st, belongs, rfl⟩ := List.mem_map.mp member
    exact sound st belongs

/-- The connection that a link stands for. -/
theorem Coherent.at_link (coherent : net.Coherent) {st s : Station}
    (found : net.station? link = some st) (member : s ∈ net.stations) (here : s.link = link) :
    s = st := by
  have same := lookup_of_nodup coherent.links member
  rw [here] at same
  exact Option.some.inj (same.symm.trans found)

theorem Coherent.atStation (coherent : net.Coherent) (action : Station → Station × RtiaAnswer)
    (ends : ∀ st, (action st).1.link = st.link ∧ (action st).1.references = st.references)
    (sound : ∀ st : Station, st.Sound net.federation → (action st).1.Sound net.federation) :
    (net.atStation link action).1.Coherent := by
  unfold Network.atStation
  split
  · exact coherent
  · refine coherent.map (F := fun st => if st.link = link then (action st).1 else st)
      coherent.regulated (Nat.le_refl _) (fun st => ?_) fun st member => ?_
    · split
      · exact ends st
      · exact ⟨rfl, rfl⟩
    · split
      · exact sound st (coherent.sound st member)
      · exact coherent.sound st member

theorem call_ends (st : Station) (e : RtiaEvent) :
    (st.call e).1.link = st.link ∧ (st.call e).1.references = st.references := by
  unfold Station.call
  split <;> exact ⟨rfl, rfl⟩

theorem join_ends (st : Station) (name : String) (modulesOpen : Bool) :
    (st.join name modulesOpen).link = st.link ∧
      (st.join name modulesOpen).references = st.references := by
  unfold Station.join
  split <;> exact ⟨rfl, rfl⟩

theorem resign_ends (st : Station) :
    st.resign.1.link = st.link ∧ st.resign.1.references = st.references := by
  unfold Station.resign
  split <;> exact ⟨rfl, rfl⟩

theorem process_ends (st : Station) (m : Incoming) :
    (st.process m).1.link = st.link ∧ (st.process m).1.references = st.references := by
  unfold Station.process
  split <;> exact ⟨rfl, rfl⟩

theorem finishJoin_ends {st st' : Station} {answer : RtiaAnswer}
    (ends : st.finishJoin = some (st', answer)) :
    st'.link = st.link ∧ st'.references = st.references := by
  unfold Station.finishJoin at ends
  split at ends
  · cases ends
  · obtain ⟨taken, _, result⟩ := Option.map_eq_some_iff.mp ends
    have state : _ = st' := congrArg Prod.fst result
    subst state
    exact ⟨rfl, rfl⟩
  · cases ends
    exact ⟨rfl, rfl⟩

theorem receive_ends (st : Station) :
    st.receive.1.link = st.link ∧ st.receive.1.references = st.references := by
  unfold Station.receive
  split
  · exact ⟨rfl, rfl⟩
  · split
    · cases ends : st.finishJoin with
      | none => exact ⟨rfl, rfl⟩
      | some result => exact finishJoin_ends ends
    · unfold Station.finishResign
      split <;> exact ⟨rfl, rfl⟩
    · split
      · exact ⟨rfl, rfl⟩
      · exact process_ends _ _

/-- A connection that is told of what the RTIG does, unless it is the one that has asked to leave
or is lost. -/
theorem Coherent.told (coherent : net.Coherent) {e : Event} {st : Station}
    (member : st ∈ net.stations)
    (relays : Relays net.federation (net.federation.perform e).state
      (net.federation.perform e).sent)
    (sound : st.Sound net.federation)
    (stays : ∀ h, st.Attends net.federation h → e ≠ .resign h ∧ e ≠ .kill h) :
    (st.post (net.federation.perform e).sent).Sound (net.federation.perform e).state := by
  refine sound.post relays (fun h attends => ?_) fun h fed n references listed => ?_
  · obtain ⟨_, joined, _⟩ := attends.facts
    obtain ⟨noResign, noKill⟩ := stays h attends
    rcases perform_stays net.federation e joined with still | resigned | killed
    · exact still
    · exact absurd resigned noResign
    · exact absurd killed noKill
  · have newcomer := perform_welcomes net.federation e listed
    exact absurd newcomer (Nat.ne_of_lt (coherent.bound st member h references))

theorem asks_noKill {q : Request} {free : Bool} {e : Event} (asks : q.event free = some e)
    (h : FederateHandle) : e ≠ .kill h := by
  rintro rfl
  cases q with
  | join => cases asks
  | time fed m => cases m <;> cases asks

/-- A request that is no join. -/
theorem Coherent.serve (coherent : net.Coherent) {st : Station} {q : Request} {e : Event}
    {rest : List Request} (found : net.station? link = some st)
    (requests : st.requests = q :: rest) (other : q.isJoin = false)
    (asks : q.event st.references.isNone = some e) (orderly : net.federation.TellsAll e) :
    ({ net with stations := adjust Station.link link Station.pop net.stations }.serve link q
      e).Coherent := by
  have member : st ∈ net.stations := lookup_mem found
  have here : st.link = link := lookup_key found
  have relays := request_relays coherent.regulated asks orderly
  have next := perform_next net.federation e
  generalize done : net.federation.perform e = outcome at relays next
  have stays : ∀ s ∈ net.stations, ∀ h, s.Attends net.federation h → e ≠ .resign h ∧ e ≠ .kill h := by
    intro s belongs h attends
    refine ⟨fun resigns => ?_, asks_noKill asks h⟩
    obtain ⟨references, joined, noResign⟩ := attends.facts
    subst resigns
    have asked : q = .time h .resign := by
      cases q with
      | join => cases asks
      | time fed m => cases m <;> cases asks; rfl
    have listed : Request.time h .resign ∈ st.requests := by
      rw [requests, asked]
      exact List.mem_cons_self
    rcases (coherent.sound st member).speaks h .resign listed with zero | own
    · have positive := (coherent.regulated.joined_bounds joined).1
      exact absurd zero (Nat.ne_of_gt positive)
    · have same := coherent.single s belongs st member h references own
      obtain rfl := coherent.at_link found belongs (same.trans here)
      exact noResign listed
  have posted : Coherent { net with
      federation := outcome.state
      stations := net.stations.map fun s =>
        if s.link = link then (s.post outcome.sent).pop else s.post outcome.sent } := by
    subst done
    refine coherent.map relays.regulated next (fun s => ?_) fun s belongs => ?_
    · split <;> exact ⟨rfl, rfl⟩
    · have told := coherent.told belongs relays (coherent.sound s belongs) (stays s belongs)
      split
      · rename_i at_link
        obtain rfl := coherent.at_link found belongs at_link
        exact told.pop requests other
      · exact told
  have merged : (adjust Station.link link Station.pop net.stations).map (·.post outcome.sent) =
      net.stations.map fun s =>
        if s.link = link then (s.post outcome.sent).pop else s.post outcome.sent := by
    rw [adjust, List.map_map]
    refine List.map_congr_left fun s _ => ?_
    simp only [Function.comp_apply]
    split <;> rfl
  unfold Network.serve
  rw [rtig_perform coherent.regulated.running]
  simp only [done, other]
  cases failed : outcome.error with
  | none =>
    unfold Network.post
    simp only [Bool.false_eq_true, if_false, merged]
    exact posted
  | some error =>
    unfold Network.post
    simp only [merged]
    split
    · refine posted.map (F := fun s => if s.link = link then s.refuse q else s) posted.regulated
        (Nat.le_refl _) (fun s => ?_) fun s belongs => ?_
      · split <;> exact ⟨rfl, rfl⟩
      · have sound := posted.sound s belongs
        split
        · rename_i at_link
          refine sound.refuse posted.regulated other fun fed m asked => ?_
          obtain ⟨s₀, belongs₀, rfl⟩ := List.mem_map.mp belongs
          have same : s₀ = st := by
            refine coherent.at_link found belongs₀ ?_
            split at at_link <;> exact at_link
          subst same
          have speaks := (coherent.sound s₀ member).speaks fed m
            (by rw [requests, asked]; exact List.mem_cons_self)
          split <;> exact speaks
        · exact sound
    · exact posted

/-- A connection is bound to a newcomer. -/
theorem Coherent.enter (coherent : net.Coherent) {st : Station} {f' : Federation}
    {A B : Station → Station} (found : net.station? link = some st) (regulated : f'.Regulated)
    (count : f'.nextFederate = net.federation.nextFederate + 1)
    (ends : ∀ s, (A s).link = s.link ∧ (A s).references = some net.federation.nextFederate)
    (ends' : ∀ s, (B s).link = s.link ∧ (B s).references = s.references)
    (newcomer : (A st).Sound f')
    (others : ∀ s ∈ net.stations, s.link ≠ link → (B s).Sound f') :
    Coherent { net with
      federation := f'
      stations := net.stations.map fun s => if s.link = link then A s else B s } where
  regulated := regulated
  links := by
    have same : (net.stations.map fun s => if s.link = link then A s else B s).map Station.link =
        net.stations.map Station.link := by
      rw [List.map_map]
      refine List.map_congr_left fun s _ => ?_
      simp only [Function.comp_apply]
      split
      · exact (ends s).1
      · exact (ends' s).1
    rw [same]
    exact coherent.links
  fresh := by
    intro s' member
    obtain ⟨s, belongs, rfl⟩ := List.mem_map.mp member
    split
    · rw [(ends s).1]
      exact coherent.fresh s belongs
    · rw [(ends' s).1]
      exact coherent.fresh s belongs
  bound := by
    intro s' member h references
    obtain ⟨s, belongs, rfl⟩ := List.mem_map.mp member
    rw [count]
    split at references
    · rw [(ends s).2] at references
      rw [← Option.some.inj references]
      exact Nat.lt_succ_self _
    · rw [(ends' s).2] at references
      exact Nat.lt_succ_of_lt (coherent.bound s belongs h references)
  single := by
    intro s₁' member₁ s₂' member₂ h references₁ references₂
    obtain ⟨s₁, belongs₁, rfl⟩ := List.mem_map.mp member₁
    obtain ⟨s₂, belongs₂, rfl⟩ := List.mem_map.mp member₂
    by_cases here₁ : s₁.link = link
    · by_cases here₂ : s₂.link = link
      · rw [if_pos here₁, if_pos here₂, (ends s₁).1, (ends s₂).1, here₁, here₂]
      · rw [if_pos here₁, (ends s₁).2] at references₁
        rw [if_neg here₂, (ends' s₂).2, ← references₁] at references₂
        exact absurd (coherent.bound s₂ belongs₂ _ references₂) (Nat.lt_irrefl _)
    · by_cases here₂ : s₂.link = link
      · rw [if_pos here₂, (ends s₂).2] at references₂
        rw [if_neg here₁, (ends' s₁).2, ← references₂] at references₁
        exact absurd (coherent.bound s₁ belongs₁ _ references₁) (Nat.lt_irrefl _)
      · rw [if_neg here₁, (ends' s₁).2] at references₁
        rw [if_neg here₂, (ends' s₂).2] at references₂
        rw [if_neg here₁, if_neg here₂, (ends' s₁).1, (ends' s₂).1]
        exact coherent.single s₁ belongs₁ s₂ belongs₂ h references₁ references₂
  sound := by
    intro s' member
    obtain ⟨s, belongs, rfl⟩ := List.mem_map.mp member
    split
    · rename_i here
      rw [coherent.at_link found belongs here]
      exact newcomer
    · rename_i elsewhere
      exact others s belongs elsewhere

/-- A request to join. -/
theorem Coherent.serveJoin (coherent : net.Coherent) {st : Station} {name : String}
    {modulesOpen : Bool} {rest : List Request} (found : net.station? link = some st)
    (requests : st.requests = .join name modulesOpen :: rest)
    (whole : net.federation.JoinsWhole name ⟨modulesOpen, st.references.isNone⟩) :
    ({ net with stations := adjust Station.link link Station.pop net.stations }.serve link
      (.join name modulesOpen) (.join name ⟨modulesOpen, st.references.isNone⟩)).Coherent := by
  have member : st ∈ net.stations := lookup_mem found
  have here : st.link = link := lookup_key found
  have relays := add_relays coherent.regulated whole
  unfold Network.serve
  rw [rtig_perform coherent.regulated.running]
  simp only [Federation.perform]
  rcases add_whole coherent.regulated whole with ⟨e, refused⟩ | ⟨fine, sent, after, clocks, count,
    handles⟩
  · have merged : adjust Station.link link (·.refuse (.join name modulesOpen))
          ((adjust Station.link link Station.pop net.stations).map (·.post [])) =
        net.stations.map fun s =>
          if s.link = link then s.pop.refuse (.join name modulesOpen) else s := by
      rw [adjust, adjust, List.map_map, List.map_map]
      refine List.map_congr_left fun s _ => ?_
      by_cases at_link : s.link = link
      · simp [at_link, Station.pop, Station.post, Station.add]
      · simp [at_link, Station.post, Station.add]
    simp only [refused, Outcome.refused, Request.isAnswered, if_true]
    unfold Network.refuse Network.post
    simp only [merged]
    refine coherent.map coherent.regulated (Nat.le_refl _) (fun s => ?_) fun s belongs => ?_
    · split <;> exact ⟨rfl, rfl⟩
    · split
      · rename_i at_link
        obtain rfl := coherent.at_link found belongs at_link
        exact (coherent.sound s belongs).refuseJoin requests
      · exact coherent.sound s belongs
  · have merged : ((adjust Station.link link (·.bind net.federation.nextFederate)
          (adjust Station.link link Station.pop net.stations)).map
            (·.post (net.federation.add name ⟨modulesOpen, st.references.isNone⟩).sent)) =
        net.stations.map fun s => if s.link = link
          then (s.pop.bind net.federation.nextFederate).post
            (net.federation.add name ⟨modulesOpen, st.references.isNone⟩).sent
          else s.post (net.federation.add name ⟨modulesOpen, st.references.isNone⟩).sent := by
      rw [adjust, adjust, List.map_map, List.map_map]
      refine List.map_congr_left fun s _ => ?_
      by_cases at_link : s.link = link
      · simp [at_link, Station.pop]
      · simp [at_link]
    have free : st.references = none := by
      rcases whole with taken | ⟨_, unbound⟩
      · unfold Federation.add at fine
        simp [taken, Outcome.refused] at fine
      · simpa using unbound
    simp only [fine, Request.isJoin, if_true]
    unfold Network.bind Network.post
    simp only [merged]
    have others : ∀ s ∈ net.stations, s.link ≠ link →
        (s.post (net.federation.add name ⟨modulesOpen, st.references.isNone⟩).sent).Sound
          (net.federation.add name ⟨modulesOpen, st.references.isNone⟩).state :=
      fun s belongs _ => coherent.told (e := .join name ⟨modulesOpen, st.references.isNone⟩) belongs
        relays (coherent.sound s belongs) fun _ _ => ⟨by simp, by simp⟩
    generalize net.federation.add name ⟨modulesOpen, st.references.isNone⟩ = outcome at *
    have joined : outcome.state.isJoined net.federation.nextFederate = true := by
      rw [isJoined_iff, handles]
      simp
    have newcomer := (coherent.sound st member).welcome requests free coherent.regulated joined
      clocks
    rw [← sent] at newcomer
    exact coherent.enter found after count (fun _ => ⟨rfl, rfl⟩) (fun _ => ⟨rfl, rfl⟩) newcomer
      others

theorem Coherent.forward (coherent : net.Coherent) (fed : FederateHandle) (m : QueuedMessage)
    (recipients : List FederateHandle) : (net.forward fed m recipients).Coherent := by
  unfold Network.forward
  refine coherent.map coherent.regulated (Nat.le_refl _) (fun s => ?_) fun s belongs => ?_
  · unfold Station.hand
    split <;> exact ⟨rfl, rfl⟩
  · have sound := coherent.sound s belongs
    unfold Station.hand
    split
    · rename_i addressed
      refine sound.add (fun m' member => ?_) (fun stranger => ?_) fun h attends =>
        ⟨attends.facts.2.1, fun g _ => rfl⟩
      · rw [List.mem_singleton.mp member]
        rfl
      · rw [stranger] at addressed
        simp at addressed
    · exact sound

/-- A dated message has left its RTIA. -/
theorem Coherent.pop (coherent : net.Coherent) {st : Station} {q : Request} {rest : List Request}
    (found : net.station? link = some st) (requests : st.requests = q :: rest)
    (other : q.isJoin = false) :
    Coherent { net with stations := adjust Station.link link Station.pop net.stations } := by
  refine coherent.map (F := fun s => if s.link = link then s.pop else s) coherent.regulated
    (Nat.le_refl _) (fun s => ?_) fun s belongs => ?_
  · split <;> exact ⟨rfl, rfl⟩
  · split
    · rename_i at_link
      obtain rfl := coherent.at_link found belongs at_link
      exact (coherent.sound s belongs).pop requests other
    · exact coherent.sound s belongs

theorem Coherent.refuse (coherent : net.Coherent) {st : Station} {q : Request}
    (found : net.station? link = some st) (other : q.isJoin = false)
    (speaks : ∀ fed m, q = .time fed m → fed = 0 ∨ st.references = some fed) :
    (net.refuse link q).Coherent := by
  refine coherent.map (F := fun s => if s.link = link then s.refuse q else s) coherent.regulated
    (Nat.le_refl _) (fun s => ?_) fun s belongs => ?_
  · split <;> exact ⟨rfl, rfl⟩
  · split
    · rename_i at_link
      obtain rfl := coherent.at_link found belongs at_link
      exact (coherent.sound s belongs).refuse coherent.regulated other speaks
    · exact coherent.sound s belongs

theorem Coherent.route (coherent : net.Coherent) (recipients : List FederateHandle)
    (payload : Payload) (orderly : net.Orderly (.route link recipients payload)) :
    (net.route link recipients payload).Coherent := by
  unfold Network.route
  cases found : net.station? link with
  | none => exact coherent
  | some st =>
    simp only
    cases requests : st.requests with
    | nil => exact coherent
    | cons q rest =>
      simp only
      have same : net.rtigEvent (.route link recipients payload) =
          q.event st.references.isNone := by
        simp [rtigEvent, found, requests]
      cases asks : q.event st.references.isNone with
      | some e =>
        have orderly := orderly e (by rw [same, asks]; rfl)
        cases joins : q.isJoin with
        | true =>
          cases q with
          | join name modulesOpen =>
            cases asks
            exact coherent.serveJoin found requests orderly
          | time => cases joins
        | false => exact coherent.serve found requests joins asks orderly
      | none =>
        have other : q.isJoin = false := by
          cases q with
          | join => cases asks
          | time => rfl
        have popped := coherent.pop found requests other
        split
        · contradiction
        · split
          · exact popped.forward _ _ _
          · have there : lookup Station.link link
                (adjust Station.link link Station.pop net.stations) = some st.pop := by
              have here : st.link = link := lookup_key found
              have before : lookup Station.link link net.stations = some st := found
              rw [@lookup_adjust _ _ _ Station.link link Station.pop (fun _ same => same), before]
              simp [here]
            refine popped.refuse there other fun fed m asked => ?_
            exact (coherent.sound st (lookup_mem found)).speaks fed m
              (by rw [requests, asked]; exact List.mem_cons_self)
        · exact popped

/-- A connection less. -/
theorem Coherent.dropped (coherent : net.Coherent) (link : Link) :
    Coherent { net with stations := drop Station.link link net.stations } where
  regulated := coherent.regulated
  links := by
    rw [map_key_drop]
    exact coherent.links.filter _
  fresh := fun st member => coherent.fresh st (mem_drop.mp member).1
  bound := fun st member => coherent.bound st (mem_drop.mp member).1
  single := fun st member st' member' =>
    coherent.single st (mem_drop.mp member).1 st' (mem_drop.mp member').1
  sound := fun st member => coherent.sound st (mem_drop.mp member).1

theorem Coherent.lose (coherent : net.Coherent) (orderly : net.Orderly (.lose link)) :
    (net.lose link).Coherent := by
  unfold Network.lose
  cases found : net.station? link with
  | none => exact coherent
  | some st =>
    have dropped := coherent.dropped link
    have member : st ∈ net.stations := lookup_mem found
    simp only
    cases references : st.references with
    | none => exact dropped
    | some fed =>
      have same : net.rtigEvent (.lose link) = some (.kill fed) := by
        simp [rtigEvent, found, references]
      have unnoticed := orderly (.kill fed) (by rw [same]; rfl)
      have relays := kill_relays coherent.regulated fed unnoticed
      have next := perform_next net.federation (.kill fed)
      simp only
      rw [rtig_perform coherent.regulated.running]
      refine dropped.map relays.regulated next (fun s => ⟨rfl, rfl⟩) fun s belongs => ?_
      refine dropped.told (e := .kill fed) belongs relays (dropped.sound s belongs)
        fun h attends => ⟨by simp, ?_⟩
      rintro killed
      obtain rfl := Event.kill.inj killed
      have own := attends.facts.1
      obtain ⟨listed, elsewhere⟩ := mem_drop.mp belongs
      refine elsewhere ?_
      rw [coherent.single s listed st member fed own references]
      exact lookup_key found

theorem Coherent.connect (coherent : net.Coherent) (granted : TypeGrantedState) :
    (net.connect granted).Coherent where
  regulated := coherent.regulated
  links := by
    simp only [Network.connect, List.map_append, List.map_singleton, List.nodup_append]
    refine ⟨coherent.links, by simp, fun link listed new is_new => ?_⟩
    obtain ⟨st, member, rfl⟩ := List.mem_map.mp listed
    rw [List.mem_singleton.mp is_new]
    exact Nat.ne_of_lt (coherent.fresh st member)
  fresh := by
    intro st member
    rcases List.mem_append.mp member with old | new
    · exact Nat.lt_succ_of_lt (coherent.fresh st old)
    · rw [List.mem_singleton.mp new]
      exact Nat.lt_succ_self _
  bound := by
    intro st member h references
    rcases List.mem_append.mp member with old | new
    · exact coherent.bound st old h references
    · rw [List.mem_singleton.mp new] at references
      cases references
  single := by
    intro st member st' member' h references references'
    rcases List.mem_append.mp member with old | new
    · rcases List.mem_append.mp member' with old' | new'
      · exact coherent.single st old st' old' h references references'
      · rw [List.mem_singleton.mp new'] at references'
        cases references'
    · rw [List.mem_singleton.mp new] at references
      cases references
  sound := by
    intro st member
    rcases List.mem_append.mp member with old | new
    · exact coherent.sound st old
    · rw [List.mem_singleton.mp new]
      refine ⟨rfl, fun joins => ?_, fun fed m listed => ?_, ?_⟩
      · cases joins
      · cases listed
      · refine .outside ⟨rfl, rfl, rfl, fun m listed => ?_⟩
        cases listed

/-- Every orderly step keeps the network coherent. -/
theorem network_coherent (net : Network) (e : NetworkEvent) (coherent : net.Coherent)
    (orderly : net.Orderly e) : (network net e).1.Coherent := by
  cases e with
  | connect granted => exact coherent.connect granted
  | join link name modulesOpen =>
    exact coherent.atStation (fun st => (st.join name modulesOpen, {}))
      (fun st => join_ends st name modulesOpen) fun st sound => sound.join name modulesOpen
  | resign link => exact coherent.atStation Station.resign resign_ends fun st sound => sound.resign
  | call link e =>
    exact coherent.atStation (·.call e) (fun st => call_ends st e)
      fun st sound => sound.call e
  | receive link => exact coherent.atStation Station.receive receive_ends fun st sound => sound.receive
  | route link recipients payload => exact coherent.route recipients payload orderly
  | lose link => exact coherent.lose orderly

theorem create_coherent (fom : Fom) (withMom haveXml : Bool) :
    (Network.create fom withMom haveXml).Coherent where
  regulated :=
    { running := rfl
      numbered := create_numbered fom withMom haveXml
      reachable := by
        intro fed member
        cases member
      distinct := List.nodup_nil
      known := by
        intro clock member
        cases member
      flagged := by
        intro fed member
        cases member }
  links := List.nodup_nil
  fresh := by
    intro st member
    cases member
  bound := by
    intro st member
    cases member
  single := by
    intro st member
    cases member
  sound := by
    intro st member
    cases member

/-- When nothing is under way, a member has taken everything up. -/
theorem Coherent.agree (coherent : net.Coherent) : net.RegulatorsAgree := by
  intro quiet st member belongs g other
  obtain ⟨_, nothing⟩ := quiet st member
  cases (coherent.sound st member).phase with
  | outside outside =>
    rw [outside.member] at belongs
    cases belongs
  | welcomed h welcomed =>
    obtain ⟨st', answer, ends, _⟩ := welcomed.finishes
    obtain ⟨_, _, _, count⟩ := Station.finishJoin_after ends
    rw [nothing] at count
    simp at count
  | member h member =>
    rw [member.self] at other
    rw [← member.clocks g other, Station.seen, nothing]
    rfl
  | gone h gone =>
    rw [gone.member] at belongs
    cases belongs

end Network

open Network

/-- In every orderly run the RTIAs of the members and the RTIG agree on the regulators whenever
nothing is under way. -/
theorem regulators_agree (fom : Fom) (withMom haveXml : Bool) (es : List NetworkEvent)
    (orderly : network.Meets Network.Orderly (.create fom withMom haveXml) es) :
    (network.exec (.create fom withMom haveXml) es).RegulatorsAgree :=
  (network.exec_invariant network_coherent (create_coherent fom withMom haveXml) orderly).agree

/-- Two RTIAs join, and the second one becomes a regulator. -/
def regulatorJoins : List NetworkEvent :=
  [.connect .afterTarOrNer, .connect .afterTarOrNer, .join 0 "a" true, .join 1 "b" true,
    .route 0 [] .other, .route 1 [] .other, .receive 0, .receive 1,
    .call 1 (.setTimeRegulating true 1), .route 1 [] .other,
    .receive 0, .receive 1, .receive 1]

theorem regulators_agree_two :
    (network.exec (.create smallFom false true) regulatorJoins).RegulatorsAgree :=
  regulators_agree smallFom false true regulatorJoins (by decide +kernel)

/-- The first RTIA keeps the clock of a regulator whose connection is lost. -/
theorem lost_regulator_stays :
    ¬∀ fom withMom haveXml es,
      (network.exec (.create fom withMom haveXml) es).RegulatorsAgree := by
  intro all
  have quiet : ∀ st ∈ (network.exec (.create smallFom false true)
      (regulatorJoins ++ [.lose 1])).stations, st.requests = [] ∧ st.inbox = [] := by
    decide +kernel
  have differs : ∃ st ∈ (network.exec (.create smallFom false true)
      (regulatorJoins ++ [.lose 1])).stations,
      st.tm.isMember = true ∧ 2 ≠ st.tm.myFederateNumber ∧
        clockOf st.tm.clocks 2 ≠ clockOf (network.exec (.create smallFom false true)
          (regulatorJoins ++ [.lose 1])).federation.regulators 2 := by
    decide +kernel
  obtain ⟨st, member, belongs, other, apart⟩ := differs
  exact apart (all smallFom false true _ quiet st member belongs 2 other)

end Certi
