import Certi.LibCERTI.Clocks
import Certi.RTIG.Answers
import Certi.RTIG.Frames

/-!
# The regulators of a federation

What the RTIG does to its table of regulators, it tells every other member: the
messages that a service sends to a member turn the clocks before it into the
clocks after it. This holds of joins, resignations, the loss of connections and
the services of time management, as long as no join ends half done and no
regulator's connection is lost while there are others to be told.
-/
namespace Certi

open Keyed Responses

namespace Responses

/-- The messages for one federate, in the order of sending. -/
def messagesFor (h : FederateHandle) (sent : Responses) : List NetworkMessage :=
  (sent.filter fun response => response.1 = h).map Prod.snd

variable {h : FederateHandle} {sent sent' : Responses}

@[simp] theorem messagesFor_nil : messagesFor h [] = [] := rfl

@[simp] theorem messagesFor_append :
    messagesFor h (sent ++ sent') = messagesFor h sent ++ messagesFor h sent' := by
  simp [messagesFor]

theorem mem_messagesFor {m : NetworkMessage} : m ∈ messagesFor h sent ↔ (h, m) ∈ sent := by
  unfold messagesFor
  constructor
  · intro member
    obtain ⟨response, kept, rfl⟩ := List.mem_map.mp member
    obtain ⟨listed, same⟩ := List.mem_filter.mp kept
    simp only [decide_eq_true_eq] at same
    subst same
    exact listed
  · intro listed
    exact List.mem_map.mpr ⟨(h, m), List.mem_filter.mpr ⟨listed, by simp⟩, rfl⟩

theorem messagesFor_eq_nil (none : ∀ response ∈ sent, response.1 ≠ h) : messagesFor h sent = [] := by
  unfold messagesFor
  rw [List.filter_eq_nil_iff.mpr fun response listed => by simpa using none response listed]
  rfl

/-- Messages that are all for one federate. -/
theorem messagesFor_all {α : Type} (message : α → NetworkMessage) (l : List α) :
    messagesFor h (l.map fun a => (h, message a)) = l.map message := by
  induction l with
  | nil => rfl
  | cons a rest ih =>
    simp only [messagesFor, List.map_cons, List.filter_cons, decide_true, if_true] at ih ⊢
    rw [ih]

theorem messagesFor_broadcast {recipients : List FederateHandle} (distinct : recipients.Nodup)
    (m : NetworkMessage) :
    messagesFor h (recipients.map (·, m)) = if h ∈ recipients then [m] else [] := by
  induction recipients with
  | nil => rfl
  | cons k rest ih =>
    obtain ⟨fresh, later⟩ := List.nodup_cons.mp distinct
    have below := ih later
    simp only [messagesFor, List.map_cons, List.filter_cons] at below ⊢
    by_cases same : k = h
    · subst same
      simp only [fresh, if_false] at below
      simp [below]
    · simp only [same, decide_false, Bool.false_eq_true, if_false, below, List.mem_cons,
        Ne.symm same, false_or]

end Responses

/-- What the messages make of the clock of one regulator, one after another. -/
def clockAfter (g : FederateHandle) (messages : List NetworkMessage) (clock : Option Date) :
    Option Date :=
  messages.foldl (fun clock m => m.moves g clock) clock

theorem clockAfter_append (g : FederateHandle) (first second : List NetworkMessage)
    (clock : Option Date) : clockAfter g (first ++ second) clock = clockAfter g second (clockAfter g first clock) :=
  List.foldl_append

/-- Only messages about time move a clock. -/
theorem moves_of_topic {g : FederateHandle} {m : NetworkMessage} (other : m.topic ≠ .time)
    (clock : Option Date) : m.moves g clock = clock := by
  cases m <;> first | rfl | exact absurd rfl other

theorem clockAfter_of_still {g : FederateHandle} {messages : List NetworkMessage}
    {clock : Option Date} (still : ∀ m ∈ messages, m.moves g clock = clock) :
    clockAfter g messages clock = clock := by
  induction messages with
  | nil => rfl
  | cons m rest ih =>
    unfold clockAfter at ih ⊢
    rw [List.foldl_cons, still m List.mem_cons_self]
    exact ih fun m' member => still m' (List.mem_cons_of_mem m member)

theorem clockAfter_of_about {g h : FederateHandle} {topics : List Topic} {sent : Responses}
    (about : About topics sent) (other : .time ∉ topics) (clock : Option Date) :
    clockAfter g (messagesFor h sent) clock = clock := by
  refine clockAfter_of_still fun m member => moves_of_topic (fun topic => other ?_) clock
  have listed := about (h, m) (mem_messagesFor.mp member)
  rw [← topic]
  exact listed

namespace Federation

variable {f f' : Federation} {h : FederateHandle} {date : Date}

/-- The table of regulators fits the members, and everybody can be reached. -/
structure Regulated (f : Federation) : Prop where
  running : f.crashed = false
  numbered : f.Numbered
  reachable : f.AllReachable
  distinct : (f.regulators.map Prod.fst).Nodup
  known : ∀ clock ∈ f.regulators, 0 < clock.1 ∧ clock.1 < f.nextFederate
  flagged : ∀ fed ∈ f.federates, fed.isRegulator = (clockOf f.regulators fed.handle).isSome

/-- The messages sent turn the clocks before into the clocks after, for every member but for the
member's own clock. -/
structure Relays (f f' : Federation) (sent : Responses) : Prop where
  regulated : f'.Regulated
  told : ∀ h, f.isJoined h = true → f'.isJoined h = true → ∀ g ≠ h,
    clockAfter g (messagesFor h sent) (clockOf f.regulators g) = clockOf f'.regulators g

/-- Nothing happens, and nothing is sent. -/
theorem Relays.refl (regulated : f.Regulated) : Relays f f [] :=
  ⟨regulated, fun _ _ _ _ _ => rfl⟩

/-- A step that leaves the table alone and does not speak of time. -/
theorem Relays.silent (regulated : f'.Regulated) (same : f'.regulators = f.regulators)
    {t : List Topic} {sent : Responses} (about : About t sent) (other : .time ∉ t) :
    Relays f f' sent := by
  refine ⟨regulated, fun h _ _ g _ => ?_⟩
  rw [same]
  exact clockAfter_of_about about other _

theorem Regulated.positive (regulated : f.Regulated) : ∀ fed ∈ f.federates, 0 < fed.handle :=
  fun fed member => (regulated.numbered.bounds fed member).1

theorem Regulated.joined_bounds (regulated : f.Regulated) (joined : f.isJoined h = true) :
    0 < h ∧ h < f.nextFederate := by
  obtain ⟨fed, member, rfl⟩ := List.mem_map.mp (isJoined_iff.mp joined)
  exact regulated.numbered.bounds fed member

/-- Handle 0 stands for every regulator, and is none. -/
theorem Regulated.no_zero (regulated : f.Regulated) : clockOf f.regulators 0 = none := by
  rw [clockOf_eq_none]
  intro listed
  obtain ⟨clock, member, zero⟩ := List.mem_map.mp listed
  exact absurd zero (Nat.ne_of_gt (regulated.known clock member).1)

theorem Regulated.flag (regulated : f.Regulated) {fed : Federate}
    (found : f.federate? h = some fed) :
    fed.isRegulator = (clockOf f.regulators h).isSome := by
  have handle : fed.handle = h := lookup_key found
  rw [← handle]
  exact regulated.flagged fed (lookup_mem found)

/-- The same members, a changed table and the flags to match. -/
theorem Regulated.change (regulated : f.Regulated) {clocks : List (FederateHandle × Date)}
    {c : Federate → Federate} (handle : ∀ fed, (c fed).handle = fed.handle)
    (distinct : (clocks.map Prod.fst).Nodup)
    (known : ∀ k ∈ clocks.map Prod.fst, k ∈ f.regulators.map Prod.fst ∨ k = h)
    (joined : f.isJoined h = true)
    (flag : ∀ fed, (c fed).isRegulator = (clockOf clocks h).isSome)
    (others : ∀ g ≠ h, (clockOf clocks g).isSome = (clockOf f.regulators g).isSome) :
    ({ f with regulators := clocks }.adjustFederate h c).Regulated where
  running := regulated.running
  numbered := regulated.numbered.congr (adjustFederate_map handle) rfl
  reachable := by
    refine forall_adjust regulated.reachable fun fed _ _ reachable => ?_
    rw [handle]
    exact reachable
  distinct := distinct
  known := by
    intro clock member
    rcases known clock.1 (List.mem_map_of_mem member) with old | new
    · obtain ⟨before, listed, same⟩ := List.mem_map.mp old
      rw [← same]
      exact regulated.known before listed
    · rw [new]
      exact regulated.joined_bounds joined
  flagged := by
    intro fed member
    rcases mem_adjust.mp member with ⟨belongs, other⟩ | ⟨before, _, same, rfl⟩
    · rw [regulated.flagged fed belongs]
      exact (others fed.handle other).symm
    · rw [flag, handle, same]
      rfl

/-- The same members with the same flags. -/
theorem Regulated.ofMembers (regulated : f.Regulated) (running : f'.crashed = f.crashed)
    (server : f'.root.server = f.root.server) (clocks : f'.regulators = f.regulators)
    (next : f'.nextFederate = f.nextFederate)
    (members : f'.federates.map (fun fed => (fed.handle, fed.isRegulator)) =
      f.federates.map fun fed => (fed.handle, fed.isRegulator)) : f'.Regulated := by
  have handles : f'.federates.map Federate.handle = f.federates.map Federate.handle := by
    have firsts := congrArg (List.map Prod.fst) members
    rw [List.map_map, List.map_map] at firsts
    exact firsts
  have origin : ∀ fed ∈ f'.federates, ∃ old ∈ f.federates,
      old.handle = fed.handle ∧ old.isRegulator = fed.isRegulator := by
    intro fed member
    have listed := List.mem_map_of_mem (f := fun fed => (fed.handle, fed.isRegulator)) member
    rw [members] at listed
    obtain ⟨old, belongs, same⟩ := List.mem_map.mp listed
    exact ⟨old, belongs, congrArg Prod.fst same, congrArg Prod.snd same⟩
  refine ⟨by rw [running]; exact regulated.running, regulated.numbered.congr handles next, ?_,
    by rw [clocks]; exact regulated.distinct,
    by rw [clocks, next]; exact regulated.known, ?_⟩
  · intro fed member
    obtain ⟨old, belongs, handle, _⟩ := origin fed member
    rw [server, ← handle]
    exact regulated.reachable old belongs
  · intro fed member
    obtain ⟨old, belongs, handle, flag⟩ := origin fed member
    rw [clocks, ← handle, ← flag]
    exact regulated.flagged old belongs

theorem clockOf_updateClock {clocks : List (FederateHandle × Date)} {g : FederateHandle} :
    clockOf (updateClock h date clocks) g =
      if h = g then (clockOf clocks g).map (later date) else clockOf clocks g := by
  unfold updateClock adjust
  rw [clockOf_map date (p := fun k => k = h)]
  · simp only [decide_eq_true_eq, @eq_comm _ g h]
  · intro clock
    by_cases same : clock.1 = h
    · subst same
      simp only [decide_true, if_true, later]
      split <;> rfl
    · simp [same]

theorem Regulated.members_reachable (regulated : f.Regulated) (message : NetworkMessage) :
    f.respondToAll message 0 = .ok ((f.federates.map Federate.handle).map (·, message)) :=
  respondToAll_ok message regulated.reachable regulated.positive

/-! ## Time management -/

/-- The members with a message each. -/
def broadcast (f : Federation) (m : NetworkMessage) : Responses :=
  (f.federates.map Federate.handle).map (·, m)

/-- A regulator is in the table. -/
def withRegulator (f : Federation) (h : FederateHandle) (date : Date) : Federation :=
  { f with regulators := f.regulators ++ [(h, date)] }.adjustFederate h
    fun fed => { fed with isRegulator := true }

def withoutRegulator (f : Federation) (h : FederateHandle) : Federation :=
  { f with regulators := drop Prod.fst h f.regulators }.adjustFederate h
    fun fed => { fed with isRegulator := false }

/-- Everybody is told of the change of one clock. -/
theorem Relays.ofBroadcast (regulated : f'.Regulated) {m : NetworkMessage}
    (moved : ∀ g, clockOf f'.regulators g = m.moves g (clockOf f.regulators g)) :
    Relays f f' (f'.broadcast m) := by
  refine ⟨regulated, fun k _ joined g _ => ?_⟩
  unfold broadcast
  rw [messagesFor_broadcast regulated.numbered.distinct, if_pos (isJoined_iff.mp joined), moved]
  rfl

/-- Further messages that move no clock. -/
theorem Relays.append {sent more : Responses} (relays : Relays f f' sent)
    (still : ∀ response ∈ more, ∀ g clock, response.2.moves g clock = clock) :
    Relays f f' (sent ++ more) := by
  refine ⟨relays.regulated, fun k before after g other => ?_⟩
  rw [messagesFor_append, clockAfter_append, relays.told k before after g other]
  generalize clockOf f'.regulators g = clock
  exact clockAfter_of_still fun m member => still (k, m) (mem_messagesFor.mp member) g clock

theorem Regulated.withRegulator (regulated : f.Regulated) (joined : f.isJoined h = true)
    (fresh : clockOf f.regulators h = none) (date : Date) : (f.withRegulator h date).Regulated := by
  refine regulated.change (fun _ => rfl) ?_ ?_ joined ?_ ?_
  · rw [List.map_append, List.nodup_append]
    refine ⟨regulated.distinct, by simp, fun k listed k' new => ?_⟩
    rw [List.map_singleton, List.mem_singleton] at new
    rw [new]
    rintro rfl
    exact clockOf_eq_none.mp fresh listed
  · intro k listed
    rw [List.map_append, List.map_singleton, List.mem_append, List.mem_singleton] at listed
    exact listed
  · intro _
    simp [clockOf_append_new, fresh]
  · intro g other
    simp [clockOf_append_new, Ne.symm other]

theorem Regulated.withoutRegulator (regulated : f.Regulated) (joined : f.isJoined h = true) :
    (f.withoutRegulator h).Regulated := by
  refine regulated.change (fun _ => rfl) ?_ ?_ joined ?_ ?_
  · rw [map_key_drop]
    exact regulated.distinct.filter _
  · intro k listed
    rw [map_key_drop] at listed
    exact .inl (List.mem_of_mem_filter listed)
  · intro _
    simp [clockOf_drop]
  · intro g other
    rw [clockOf_drop, if_neg (Ne.symm other)]

theorem Regulated.update (regulated : f.Regulated) (h : FederateHandle) (date : Date) :
    { f with regulators := updateClock h date f.regulators }.Regulated where
  running := regulated.running
  numbered := regulated.numbered.congr rfl rfl
  reachable := regulated.reachable
  distinct := by
    rw [updateClock_keys]
    exact regulated.distinct
  known := by
    intro clock member
    have key := List.mem_map_of_mem (f := Prod.fst) member
    rw [updateClock_keys] at key
    obtain ⟨before, listed, same⟩ := List.mem_map.mp key
    rw [← same]
    exact regulated.known before listed
  flagged := by
    intro fed member
    rw [regulated.flagged fed member, clockOf_updateClock]
    split
    · rw [Option.isSome_map]
    · rfl

/-- A federate becomes a regulator, unless it is none of the members or one already. -/
theorem addRegulator_cases (regulated : f.Regulated) (h : FederateHandle) (date : Date) :
    (∃ e, f.addRegulator h date = .refused f e) ∨
      (f.isJoined h = true ∧ clockOf f.regulators h = none ∧
        f.addRegulator h date = .done (f.withRegulator h date)
          ((f.withRegulator h date).broadcast (.setTimeRegulating h true date) ++
            [(h, .timeRegulationEnabled date)])) := by
  unfold addRegulator withFederate
  cases found : f.federate? h with
  | none => exact .inl ⟨_, rfl⟩
  | some fed =>
    have joined : f.isJoined h = true := by rw [isJoined, found]; rfl
    simp only
    split
    · exact .inl ⟨_, rfl⟩
    · rename_i absent
      have fresh : clockOf f.regulators h = none := by
        rw [← clockOf_isSome] at absent
        simpa using absent
      have unmarked : fed.isRegulator = false := by
        rw [regulated.flag found, fresh]
        rfl
      have told := (regulated.withRegulator joined fresh date).members_reachable
        (.setTimeRegulating h true date)
      unfold Federation.withRegulator at told
      right
      rw [unmarked, told]
      exact ⟨joined, fresh, rfl⟩

theorem removeRegulator_cases (regulated : f.Regulated) (h : FederateHandle) :
    (∃ e, f.removeRegulator h = .refused f e ∧
        (f.isJoined h = true → clockOf f.regulators h = none)) ∨
      (f.isJoined h = true ∧ f.removeRegulator h = .done (f.withoutRegulator h)
        ((f.withoutRegulator h).broadcast (.setTimeRegulating h false 0))) := by
  unfold removeRegulator withFederate
  cases found : f.federate? h with
  | none =>
    left
    refine ⟨_, rfl, fun joined => ?_⟩
    rw [isJoined, found] at joined
    cases joined
  | some fed =>
    have joined : f.isJoined h = true := by rw [isJoined, found]; rfl
    simp only
    split
    · rename_i absent
      left
      refine ⟨_, rfl, fun _ => ?_⟩
      simpa [clockOf] using absent
    · rename_i present
      have marked : fed.isRegulator = true := by
        rw [regulated.flag found, clockOf_isSome, Option.isSome_iff_ne_none]
        simpa using present
      have told := (regulated.withoutRegulator joined).members_reachable
        (.setTimeRegulating h false 0)
      unfold Federation.withoutRegulator at told
      right
      rw [marked, told]
      exact ⟨joined, rfl⟩

/-- A NULL message of a regulator goes to all others. -/
theorem updateRegulator_cases (regulated : f.Regulated) (h : FederateHandle) (date : Date) :
    (∃ e, f.updateRegulator h date = .refused f e) ∨
      (f.isJoined h = true ∧ f.updateRegulator h date =
        .done { f with regulators := updateClock h date f.regulators }
          (((f.federates.map Federate.handle).filter (· ≠ h)).map (·, .messageNull h date))) := by
  unfold updateRegulator withFederate
  cases found : f.federate? h with
  | none => exact .inl ⟨_, rfl⟩
  | some fed =>
    have joined : f.isJoined h = true := by rw [isJoined, found]; rfl
    simp only
    split
    · exact .inl ⟨_, rfl⟩
    · split
      · exact .inl ⟨_, rfl⟩
      · right
        refine ⟨joined, ?_⟩
        unfold respondToAll
        simp only
        rw [if_pos]
        · rfl
        · rw [List.all_eq_true]
          intro k listed
          obtain ⟨g, member, rfl⟩ := List.mem_map.mp (List.mem_of_mem_filter listed)
          exact regulated.reachable g member

theorem addRegulator_relays (regulated : f.Regulated) (h : FederateHandle) (date : Date) :
    Relays f (f.addRegulator h date).state (f.addRegulator h date).sent := by
  rcases addRegulator_cases regulated h date with ⟨e, refused⟩ | ⟨joined, fresh, done⟩
  · rw [refused]
    exact .refl regulated
  · rw [done]
    refine (Relays.ofBroadcast (f := f) (regulated.withRegulator joined fresh date)
      fun g => ?_).append ?_
    · change clockOf (f.regulators ++ [(h, date)]) g = _
      rw [clockOf_append_new]
      unfold NetworkMessage.moves
      by_cases same : h = g
      · subst same
        simp [fresh]
      · simp [same]
    · intro response listed g clock
      rw [List.mem_singleton.mp listed]
      rfl

theorem removeRegulator_relays (regulated : f.Regulated) (h : FederateHandle) :
    Relays f (f.removeRegulator h).state (f.removeRegulator h).sent := by
  rcases removeRegulator_cases regulated h with ⟨e, refused, _⟩ | ⟨joined, done⟩
  · rw [refused]
    exact .refl regulated
  · rw [done]
    exact Relays.ofBroadcast (f := f) (regulated.withoutRegulator joined)
      fun g => clockOf_drop

theorem updateRegulator_relays (regulated : f.Regulated) (h : FederateHandle) (date : Date) :
    Relays f (f.updateRegulator h date).state (f.updateRegulator h date).sent := by
  rcases updateRegulator_cases regulated h date with ⟨e, refused⟩ | ⟨joined, done⟩
  · rw [refused]
    exact .refl regulated
  · rw [done]
    refine ⟨regulated.update h date, fun k before _ g other => ?_⟩
    have positive := (regulated.joined_bounds joined).1
    simp only [Outcome.done]
    rw [messagesFor_broadcast (regulated.numbered.distinct.filter _), clockOf_updateClock]
    by_cases sender : k = h
    · subst sender
      simp [Ne.symm other, clockAfter]
    · have listed := isJoined_iff.mp before
      have told : k ∈ (f.federates.map Federate.handle).filter (· ≠ h) := by
        simpa using ⟨by simpa using listed, sender⟩
      rw [if_pos told]
      simp [clockAfter, NetworkMessage.moves, Nat.ne_of_gt positive]

theorem setConstrained_relays (regulated : f.Regulated) (h : FederateHandle)
    (constrained : Bool) :
    Relays f (f.setConstrained h constrained).state (f.setConstrained h constrained).sent := by
  unfold setConstrained withFederate
  cases f.federate? h with
  | none => exact .refl regulated
  | some fed =>
    simp only
    split
    · exact .refl regulated
    · have same : (f.adjustFederate h fun fed =>
          { fed with isConstrained := constrained }).Regulated :=
        regulated.ofMembers rfl rfl rfl rfl (adjustFederate_map fun _ => rfl)
      exact Relays.silent (f := f) same rfl (t := []) about_nil (by simp)

/-! ## Joining and leaving -/

/-- A member less. -/
theorem Regulated.leave (regulated : f.Regulated) (h : FederateHandle)
    (running : f'.crashed = f.crashed)
    (references : ∀ g, f'.root.server.hasReferences g = f.root.server.hasReferences g)
    (clocks : f'.regulators = f.regulators) (next : f'.nextFederate = f.nextFederate)
    (federates : f'.federates = drop Federate.handle h f.federates) : f'.Regulated := by
  have stayed : ∀ fed ∈ f'.federates, fed ∈ f.federates := by
    intro fed member
    rw [federates] at member
    exact (mem_drop.mp member).1
  refine ⟨by rw [running]; exact regulated.running,
    regulated.numbered.drop h (by rw [federates]) next, ?_,
    by rw [clocks]; exact regulated.distinct,
    by rw [clocks, next]; exact regulated.known, ?_⟩
  · intro fed member
    rw [references]
    exact regulated.reachable fed (stayed fed member)
  · intro fed member
    rw [clocks]
    exact regulated.flagged fed (stayed fed member)

theorem remove_relays (regulated : f.Regulated) (h : FederateHandle) :
    Relays f (f.remove h).state (f.remove h).sent := by
  rcases remove_cases f h with refused | ⟨_, removed⟩
  · rw [refused]
    exact .refl regulated
  · rw [removed]
    have left : { f with federates := drop Federate.handle h f.federates }.Regulated :=
      regulated.leave h rfl (fun _ => rfl) rfl rfl rfl
    refine Relays.silent (f := f) left rfl (t := [.membership]) ?_ (by simp)
    simp [Outcome.done, About, NetworkMessage.topic]

/-- Losing the connection costs nobody a message: no regulator is lost, or nobody is left. -/
def LeavesUnnoticed (f : Federation) (h : FederateHandle) : Prop :=
  f.isJoined h = true →
    clockOf f.regulators h = none ∨ f.federates.map Federate.handle = [h]

instance (f : Federation) (h : FederateHandle) : Decidable (f.LeavesUnnoticed h) :=
  inferInstanceAs (Decidable (_ → _))

theorem kill_relays (regulated : f.Regulated) (h : FederateHandle)
    (unnoticed : f.LeavesUnnoticed h) : Relays f (f.kill h).state (f.kill h).sent := by
  rcases kill_cases f h with refused | ⟨joined, state, _, _⟩
  · rw [refused]
    exact .refl regulated
  · have about := kill_about (f := f) h
    have closed : (f.closeLink h).Regulated :=
      ⟨regulated.running, regulated.numbered.congr rfl rfl, regulated.reachable,
        regulated.distinct, regulated.known, regulated.flagged⟩
    have server := (RootObject.killFederate_frame (p := fun _ => True)
      (f.closeLink h).root h).2.2.2
    have references : ∀ g, ((f.closeLink h).root.killFederate h).1.server.hasReferences g =
        f.root.server.hasReferences g := by
      intro g
      rw [server]
      rfl
    rcases removeRegulator_cases closed h with ⟨e, refused, _⟩ | ⟨_, done⟩
    · rw [refused] at state
      have after : (f.kill h).state.Regulated := by
        rw [state]
        exact closed.leave h rfl references rfl rfl rfl
      have clocks : (f.kill h).state.regulators = f.regulators := by
        rw [state]
        rfl
      exact .silent after clocks about (by simp)
    · rw [done] at state
      have after : (f.kill h).state.Regulated := by
        rw [state]
        exact (closed.withoutRegulator joined).leave h rfl references rfl rfl rfl
      have members : (f.kill h).state.federates.map Federate.handle =
          (f.federates.map Federate.handle).filter (· ≠ h) := by
        rw [state]
        simp only [Outcome.done, map_key_drop]
        exact congrArg _ (adjustFederate_map fun _ => rfl)
      rcases unnoticed joined with unregulated | alone
      · refine .silent after ?_ about (by simp)
        rw [state]
        refine List.filter_eq_self.mpr fun clock listed => ?_
        have absent := clockOf_eq_none.mp unregulated
        simp only [ne_eq, decide_not, Bool.not_eq_true', decide_eq_false_iff_not]
        rintro rfl
        exact absent (List.mem_map_of_mem listed)
      · refine ⟨after, fun k _ stays => ?_⟩
        have listed := isJoined_iff.mp stays
        rw [members, alone] at listed
        simp at listed

/-- A member more. -/
theorem Regulated.enter (regulated : f.Regulated) (running : f'.crashed = f.crashed)
    (references : ∀ g, f'.root.server.hasReferences g = true ↔
      f.root.server.hasReferences g = true ∨ g = f.nextFederate)
    (clocks : f'.regulators = f.regulators) (next : f'.nextFederate = f.nextFederate + 1)
    (numbered : f'.Numbered)
    (members : f'.federates.map (fun fed => (fed.handle, fed.isRegulator)) =
      f.federates.map (fun fed => (fed.handle, fed.isRegulator)) ++ [(f.nextFederate, false)]) :
    f'.Regulated := by
  have origin : ∀ fed ∈ f'.federates, (∃ old ∈ f.federates,
      old.handle = fed.handle ∧ old.isRegulator = fed.isRegulator) ∨
      (fed.handle = f.nextFederate ∧ fed.isRegulator = false) := by
    intro fed member
    have listed := List.mem_map_of_mem (f := fun fed => (fed.handle, fed.isRegulator)) member
    rw [members] at listed
    rcases List.mem_append.mp listed with old | new
    · obtain ⟨before, belongs, same⟩ := List.mem_map.mp old
      exact .inl ⟨before, belongs, congrArg Prod.fst same, congrArg Prod.snd same⟩
    · have same := List.mem_singleton.mp new
      exact .inr ⟨congrArg Prod.fst same, congrArg Prod.snd same⟩
  have unregulated : clockOf f.regulators f.nextFederate = none := by
    rw [clockOf_eq_none]
    intro listed
    obtain ⟨clock, member, same⟩ := List.mem_map.mp listed
    exact absurd same (Nat.ne_of_lt (regulated.known clock member).2)
  refine ⟨by rw [running]; exact regulated.running, numbered, ?_,
    by rw [clocks]; exact regulated.distinct, ?_, ?_⟩
  · intro fed member
    rw [references]
    rcases origin fed member with ⟨old, belongs, handle, _⟩ | ⟨new, _⟩
    · rw [← handle]
      exact .inl (regulated.reachable old belongs)
    · exact .inr new
  · intro clock member
    rw [clocks] at member
    rw [next]
    have bounds := regulated.known clock member
    exact ⟨bounds.1, Nat.lt_succ_of_lt bounds.2⟩
  · intro fed member
    rw [clocks]
    rcases origin fed member with ⟨old, belongs, handle, flag⟩ | ⟨new, flag⟩
    · rw [← handle, ← flag]
      exact regulated.flagged old belongs
    · rw [new, flag, unregulated]
      rfl

/-- A join is refused for its name, or nothing can refuse it any more. -/
def JoinsWhole (f : Federation) (name : String) (conditions : JoinConditions) : Prop :=
  f.federates.any (fun fed => fed.name = name) = true ∨
    (conditions.modulesOpen = true ∧ conditions.linkFree = true)

instance (f : Federation) (name : String) (conditions : JoinConditions) :
    Decidable (f.JoinsWhole name conditions) := inferInstanceAs (Decidable (_ ∨ _))

/-- What a newcomer is sent: the clocks of all regulators, the pending labels, the answer. -/
def welcome (f : Federation) : List NetworkMessage :=
  f.regulators.map (fun clock => .messageNull clock.1 clock.2) ++
    f.synchronizationLabels.map (fun label => .announceSynchronizationPoint label.1 label.2) ++
    [.joinFederationExecution f.nextFederate f.regulators.length]

theorem add_whole (regulated : f.Regulated) {name : String} {conditions : JoinConditions}
    (whole : f.JoinsWhole name conditions) :
    (∃ e, f.add name conditions = .refused f e) ∨
      ((f.add name conditions).error = none ∧
        (f.add name conditions).sent = f.welcome.map (fun m => (f.nextFederate, m)) ∧
        (f.add name conditions).state.Regulated ∧
        (f.add name conditions).state.regulators = f.regulators ∧
        (f.add name conditions).state.nextFederate = f.nextFederate + 1 ∧
        (f.add name conditions).state.federates.map Federate.handle =
          f.federates.map Federate.handle ++ [f.nextFederate]) := by
  have numbered := add_numbered regulated.numbered name conditions
  unfold add at numbered ⊢
  simp only at numbered ⊢
  by_cases taken : f.federates.any (fun fed => fed.name = name) = true
  · rw [if_pos taken]
    exact .inl ⟨_, rfl⟩
  · obtain ⟨opens, free⟩ := whole.resolve_left taken
    rw [if_neg taken, opens, free] at numbered ⊢
    simp only [Bool.not_true, Bool.false_eq_true, if_false] at numbered ⊢
    right
    refine ⟨rfl, ?_, ?_, rfl, rfl, labelled_handles f name⟩
    · simp [welcome, Outcome.done, Function.comp_def]
    · refine regulated.enter rfl ?_ rfl rfl numbered ?_
      · exact fun g => SecurityServer.hasReferences_setReferences
      · have kept : (f.labelled name).federates.map (fun fed => (fed.handle, fed.isRegulator)) =
            (f.inserted name).federates.map fun fed => (fed.handle, fed.isRegulator) :=
          adjustFederate_map fun _ => rfl
        refine kept.trans ?_
        simp [inserted]

theorem add_relays (regulated : f.Regulated) {name : String} {conditions : JoinConditions}
    (whole : f.JoinsWhole name conditions) :
    Relays f (f.add name conditions).state (f.add name conditions).sent := by
  rcases add_whole regulated whole with ⟨e, refused⟩ | ⟨_, sent, after, clocks, _⟩
  · rw [refused]
    exact .refl regulated
  · refine ⟨after, fun k joined _ g _ => ?_⟩
    have other : messagesFor k (f.add name conditions).sent = [] := by
      rw [sent]
      refine messagesFor_eq_nil fun response listed => ?_
      obtain ⟨m, _, rfl⟩ := List.mem_map.mp listed
      exact Nat.ne_of_gt (regulated.joined_bounds joined).2
    rw [other, clocks]
    rfl

end Federation

end Certi
