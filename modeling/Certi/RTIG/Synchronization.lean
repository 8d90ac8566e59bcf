import Certi.RTIG.Answers

/-!
# Synchronization points over whole runs

A label is pending exactly while a joined federate holds it, and it stops being
pending by one broadcast of Federation_Synchronized to the federates it was
announced to, when each of them has achieved it or left. This is so in every
run that meets `Synchronizes`: points are registered for all federates, each of
which can be reached, and nobody leaves as the last holder of a label.
-/
namespace Certi

open Keyed Sweep Federation Runs Responses

/-! ## The statement -/

namespace Federation

def isPending (f : Federation) (label : String) : Bool :=
  (lookup Prod.fst label f.synchronizationLabels).isSome

/-- The labels in the table are those that some joined federate holds. -/
def PendingHeld (f : Federation) : Prop :=
  ∀ label, f.isPending label = true ↔ ∃ fed ∈ f.federates, label ∈ fed.syncLabels

end Federation

namespace Responses

/-- The federates a list of responses announces the label to. -/
def announced (label : String) (sent : Responses) : List FederateHandle :=
  sent.filterMap fun response => match response.2 with
    | .announceSynchronizationPoint l _ => if l = label then some response.1 else none
    | _ => none

/-- The federates a list of responses tells that the federation is synchronized. -/
def synchronized (label : String) (sent : Responses) : List FederateHandle :=
  sent.filterMap fun response => match response.2 with
    | .federationSynchronized l => if l = label then some response.1 else none
    | _ => none

end Responses

/-- Who the label has been announced to since it was last synchronized. -/
def announcedTo (label : String) (past : List (Event × Answer)) : List FederateHandle :=
  past.foldl (fun told entry =>
    if synchronized label entry.2.1 = [] then told ++ announced label entry.2.1 else []) []

/-- Who of them has neither achieved the label nor left since. -/
def awaitedFor (label : String) (past : List (Event × Answer)) : List FederateHandle :=
  past.foldl (fun awaited entry =>
    let told := awaited ++ announced label entry.2.1
    match entry.1 with
    | .synchronizationPointAchieved fed l =>
      if l = label ∧ entry.2.2 = none then told.filter (fun g => g ≠ fed) else told
    | .resign fed | .kill fed =>
      if entry.2.2 = none then told.filter (fun g => g ≠ fed) else told
    | _ => told) []

/-- What an event does about each label, after the events and answers of the past. -/
structure SynchronizedSoundly (past : List (Event × Answer)) (f : Federation) (e : Event) :
    Prop where
  /-- A label leaves the table by a broadcast, and no other broadcast is made. -/
  exactlyOnce : ∀ label, synchronized label (rtig f e).2.1 ≠ [] ↔
    f.isPending label = true ∧ (rtig f e).1.isPending label = false
  /-- The broadcast goes once to each federate still joined that the label was announced to. -/
  recipients : ∀ label, synchronized label (rtig f e).2.1 ≠ [] →
    (synchronized label (rtig f e).2.1).Nodup ∧
      ∀ g, g ∈ synchronized label (rtig f e).2.1 ↔
        g ∈ announcedTo label past ∧ (rtig f e).1.isJoined g = true
  /-- It is not made before all of them have achieved the label or left. -/
  notEarlier : ∀ label, synchronized label (rtig f e).2.1 ≠ [] →
    awaitedFor label (past ++ [(e, (rtig f e).2)]) = []

namespace Federation

/-- A request to register the label is not refused for the label. -/
def Registrable (f : Federation) (label : String) : Prop :=
  label ≠ "" ∧ f.isPending label = false

/-- The label is held, and by this federate alone. -/
def LastHolder (f : Federation) (fed : FederateHandle) (label : String) : Prop :=
  (∃ holder ∈ f.federates, label ∈ holder.syncLabels) ∧
    ∀ holder ∈ f.federates, label ∈ holder.syncLabels → holder.handle = fed

/-- The condition on an event. -/
def Synchronizes (f : Federation) : Event → Prop
  | .registerSynchronization fed label _ none =>
    f.check fed = true → f.Registrable label → f.federates ≠ [] ∧ f.AllReachable
  | .registerSynchronization fed label _ (some _) =>
    f.isJoined fed = true → ¬f.Registrable label
  | .synchronizationPointAchieved fed label =>
    f.LastHolder fed label → f.AllReachable
  | .resign fed | .kill fed => ∀ entry ∈ f.synchronizationLabels, ¬f.LastHolder fed entry.1
  | _ => True

end Federation

/-! ## Reading responses -/

namespace Responses

variable {label : String} {sent sent' : Responses}

@[simp] theorem announced_nil : announced label [] = [] := rfl

@[simp] theorem synchronized_nil : synchronized label [] = [] := rfl

@[simp] theorem announced_append :
    announced label (sent ++ sent') = announced label sent ++ announced label sent' :=
  List.filterMap_append

@[simp] theorem synchronized_append :
    synchronized label (sent ++ sent') = synchronized label sent ++ synchronized label sent' :=
  List.filterMap_append

theorem announced_of_about {topics : List Topic} (about : About topics sent)
    (other : .synchronization ∉ topics) : announced label sent = [] := by
  refine List.filterMap_eq_nil_iff.mpr fun response member => ?_
  have topic := about response member
  split
  · rename_i l tag message
    rw [message] at topic
    exact absurd topic other
  · rfl

theorem synchronized_of_about {topics : List Topic} (about : About topics sent)
    (other : .synchronization ∉ topics) : synchronized label sent = [] := by
  refine List.filterMap_eq_nil_iff.mpr fun response member => ?_
  have topic := about response member
  split
  · rename_i l message
    rw [message] at topic
    exact absurd topic other
  · rfl

theorem announced_broadcast (recipients : List FederateHandle) (l tag : String) :
    announced label (recipients.map (·, .announceSynchronizationPoint l tag)) =
      if l = label then recipients else [] := by
  unfold announced
  rw [List.filterMap_map]
  by_cases same : l = label <;> simp [same]

theorem synchronized_broadcast (recipients : List FederateHandle) (l : String) :
    synchronized label (recipients.map (·, .federationSynchronized l)) =
      if l = label then recipients else [] := by
  unfold synchronized
  rw [List.filterMap_map]
  by_cases same : l = label <;> simp [same]

end Responses

theorem announcedTo_snoc (label : String) (past : List (Event × Answer)) (entry : Event × Answer) :
    announcedTo label (past ++ [entry]) =
      if synchronized label entry.2.1 = [] then
        announcedTo label past ++ announced label entry.2.1
      else [] := by
  simp [announcedTo, List.foldl_append]

/-- Whoever is still awaited was awaited before or has just been told, and has neither
achieved the label nor left in this event. -/
theorem mem_awaitedFor_snoc {label : String} {past : List (Event × Answer)}
    {entry : Event × Answer} {g : FederateHandle}
    (member : g ∈ awaitedFor label (past ++ [entry])) :
    (g ∈ awaitedFor label past ∨ g ∈ announced label entry.2.1) ∧
      (entry.2.2 = none → entry.1 ≠ .synchronizationPointAchieved g label ∧
        entry.1 ≠ .resign g ∧ entry.1 ≠ .kill g) := by
  rw [awaitedFor, List.foldl_append] at member
  change g ∈ (let told := awaitedFor label past ++ announced label entry.2.1; _) at member
  have told : ∀ l : List FederateHandle, l = awaitedFor label past ++ announced label entry.2.1 →
      g ∈ l → g ∈ awaitedFor label past ∨ g ∈ announced label entry.2.1 := by
    rintro l rfl belongs
    exact List.mem_append.mp belongs
  obtain ⟨e, sent, error⟩ := entry
  cases e with
  | synchronizationPointAchieved fed l =>
    dsimp only [List.foldl_cons, List.foldl_nil] at member
    split at member
    · rename_i done
      obtain ⟨belongs, other⟩ := List.mem_filter.mp member
      refine ⟨told _ rfl belongs, fun _ => ⟨?_, by simp, by simp⟩⟩
      rintro ⟨⟩
      simp at other
    · rename_i open'
      refine ⟨told _ rfl member, fun accepted => ⟨?_, by simp, by simp⟩⟩
      rintro ⟨⟩
      exact open' ⟨rfl, accepted⟩
  | resign fed =>
    dsimp only [List.foldl_cons, List.foldl_nil] at member
    split at member
    · obtain ⟨belongs, other⟩ := List.mem_filter.mp member
      refine ⟨told _ rfl belongs, fun _ => ⟨by simp, ?_, by simp⟩⟩
      rintro ⟨⟩
      simp at other
    · rename_i refused
      exact ⟨told _ rfl member, fun accepted => absurd accepted refused⟩
  | kill fed =>
    dsimp only [List.foldl_cons, List.foldl_nil] at member
    split at member
    · obtain ⟨belongs, other⟩ := List.mem_filter.mp member
      refine ⟨told _ rfl belongs, fun _ => ⟨by simp, by simp, ?_⟩⟩
      rintro ⟨⟩
      simp at other
    · rename_i refused
      exact ⟨told _ rfl member, fun accepted => absurd accepted refused⟩
  | _ => exact ⟨told _ rfl member, fun _ => ⟨by simp, by simp, by simp⟩⟩

/-! ## What synchronization sees of a federation -/

/-- Each joined federate with the labels it holds, the pending labels, the next handle, and
who can be reached. -/
structure SyncView where
  holders : List (FederateHandle × Finset String)
  labels : List (String × String)
  next : FederateHandle
  reachable : FederateHandle → Bool

def Federation.syncView (f : Federation) : SyncView :=
  ⟨f.federates.map fun fed => (fed.handle, fed.syncLabels), f.synchronizationLabels,
    f.nextFederate, f.root.server.hasReferences⟩

namespace SyncView

def isPending (v : SyncView) (label : String) : Bool := (lookup Prod.fst label v.labels).isSome

/-- The invariant: handles are distinct and given in order, a label is pending exactly while
it is held, every reachable holder of a pending label has been told, and whoever is awaited
is a holder. -/
structure Sound (past : List (Event × Answer)) (v : SyncView) : Prop where
  positive : 0 < v.next
  distinct : (v.holders.map Prod.fst).Nodup
  bounds : ∀ holder ∈ v.holders, 0 < holder.1 ∧ holder.1 < v.next
  reached : ∀ h, v.reachable h = true → h < v.next
  pendingHeld : ∀ label, v.isPending label = true ↔ ∃ holder ∈ v.holders, label ∈ holder.2
  told : ∀ label, v.isPending label = true → ∀ holder ∈ v.holders,
    v.reachable holder.1 = true → holder.1 ∈ announcedTo label past
  awaited : ∀ label, ∀ g ∈ awaitedFor label past, ∃ holder ∈ v.holders,
    holder.1 = g ∧ label ∈ holder.2

variable {past : List (Event × Answer)} {v v' : SyncView} {entry : Event × Answer}
  {fed : FederateHandle} {label : String}

/-- Nothing changes, and nothing is announced or synchronized. -/
theorem Sound.quiet (sound : v.Sound past) (untold : ∀ label, announced label entry.2.1 = [])
    (unsynchronized : ∀ label, synchronized label entry.2.1 = []) :
    v.Sound (past ++ [entry]) := by
  refine ⟨sound.positive, sound.distinct, sound.bounds, sound.reached, sound.pendingHeld, ?_, ?_⟩
  · intro label pending holder member reachable
    rw [announcedTo_snoc, if_pos (unsynchronized label), untold, List.append_nil]
    exact sound.told label pending holder member reachable
  · intro label g member
    rcases (mem_awaitedFor_snoc member).1 with earlier | told
    · exact sound.awaited label g earlier
    · rw [untold] at told
      cases told

/-! ### Leaving -/

def leave (v : SyncView) (fed : FederateHandle) : SyncView :=
  { v with holders := drop Prod.fst fed v.holders }

theorem Sound.leave (sound : v.Sound past) (untold : ∀ label, announced label entry.2.1 = [])
    (unsynchronized : ∀ label, synchronized label entry.2.1 = [])
    (left : entry.2.2 = none ∧ (entry.1 = .resign fed ∨ entry.1 = .kill fed))
    (notLast : ∀ label, v.isPending label = true →
      ∃ holder ∈ v.holders, holder.1 ≠ fed ∧ label ∈ holder.2) :
    (v.leave fed).Sound (past ++ [entry]) := by
  refine ⟨sound.positive, ?_, ?_, sound.reached, fun label => ?_, ?_, ?_⟩
  · rw [SyncView.leave, map_key_drop]
    exact sound.distinct.filter _
  · exact fun holder member => sound.bounds holder (mem_drop.mp member).1
  · constructor
    · intro pending
      obtain ⟨holder, member, other, held⟩ := notLast label pending
      exact ⟨holder, mem_drop.mpr ⟨member, other⟩, held⟩
    · rintro ⟨holder, member, held⟩
      exact (sound.pendingHeld label).mpr ⟨holder, (mem_drop.mp member).1, held⟩
  · intro label pending holder member reachable
    rw [announcedTo_snoc, if_pos (unsynchronized label), untold, List.append_nil]
    exact sound.told label pending holder (mem_drop.mp member).1 reachable
  · intro label g member
    obtain ⟨before, gone⟩ := mem_awaitedFor_snoc member
    have other : g ≠ fed := by
      rintro rfl
      obtain ⟨_, resigned, killed⟩ := gone left.1
      rcases left.2 with e | e
      · exact resigned e
      · exact killed e
    rcases before with earlier | told
    · obtain ⟨holder, belongs, rfl, held⟩ := sound.awaited label g earlier
      exact ⟨holder, mem_drop.mpr ⟨belongs, other⟩, rfl, held⟩
    · rw [untold] at told
      cases told

/-! ### Joining -/

def join (v : SyncView) (labels : Finset String) (reachable : FederateHandle → Bool) : SyncView :=
  { v with holders := v.holders ++ [(v.next, labels)], next := v.next + 1, reachable := reachable }

theorem Sound.join (sound : v.Sound past) {labels : Finset String}
    {reachable : FederateHandle → Bool}
    (unsynchronized : ∀ label, synchronized label entry.2.1 = [])
    (pending : ∀ label ∈ labels, v.isPending label = true)
    (reached : ∀ h, reachable h = true → v.reachable h = true ∨ h = v.next)
    (tells : ∀ label, ∀ g ∈ announced label entry.2.1, g = v.next ∧ label ∈ labels)
    (told : reachable v.next = true → ∀ label, v.isPending label = true →
      v.next ∈ announced label entry.2.1) :
    (v.join labels reachable).Sound (past ++ [entry]) := by
  have grown : ∀ {holder}, holder ∈ (v.join labels reachable).holders →
      holder ∈ v.holders ∨ holder = (v.next, labels) := by
    intro holder member
    rcases List.mem_append.mp member with old | new
    · exact .inl old
    · exact .inr (List.mem_singleton.mp new)
  refine ⟨Nat.succ_pos _, ?_, ?_, ?_, fun label => ?_, ?_, ?_⟩
  · have fresh : v.next ∉ v.holders.map Prod.fst := by
      intro listed
      obtain ⟨holder, belongs, equal⟩ := List.mem_map.mp listed
      have below := (sound.bounds holder belongs).2
      rw [equal] at below
      exact Nat.lt_irrefl _ below
    rw [SyncView.join, List.map_append, List.nodup_append]
    refine ⟨sound.distinct, by simp, fun a listed b new => ?_⟩
    rw [List.mem_singleton.mp new]
    rintro rfl
    exact fresh listed
  · intro holder member
    rcases grown member with old | rfl
    · exact ⟨(sound.bounds holder old).1, Nat.lt_succ_of_lt (sound.bounds holder old).2⟩
    · exact ⟨sound.positive, Nat.lt_succ_self _⟩
  · intro h isReachable
    rcases reached h isReachable with old | rfl
    · exact Nat.lt_succ_of_lt (sound.reached h old)
    · exact Nat.lt_succ_self _
  · constructor
    · intro isPending
      obtain ⟨holder, member, held⟩ := (sound.pendingHeld label).mp isPending
      exact ⟨holder, List.mem_append_left _ member, held⟩
    · rintro ⟨holder, member, held⟩
      rcases grown member with old | rfl
      · exact (sound.pendingHeld label).mpr ⟨holder, old, held⟩
      · exact pending label held
  · intro label isPending holder member isReachable
    rw [announcedTo_snoc, if_pos (unsynchronized label), List.mem_append]
    rcases grown member with old | rfl
    · left
      rcases reached holder.1 isReachable with before | equal
      · exact sound.told label isPending holder old before
      · have below := (sound.bounds holder old).2
        rw [equal] at below
        exact absurd below (Nat.lt_irrefl _)
    · exact .inr (told isReachable label isPending)
  · intro label g member
    rcases (mem_awaitedFor_snoc member).1 with earlier | isTold
    · obtain ⟨holder, belongs, equal, held⟩ := sound.awaited label g earlier
      exact ⟨holder, List.mem_append_left _ belongs, equal, held⟩
    · obtain ⟨rfl, held⟩ := tells label g isTold
      exact ⟨(v.next, labels), by simp [SyncView.join], rfl, held⟩

/-! ### Registration -/

def register (v : SyncView) (label tag : String) : SyncView :=
  { v with
    holders := v.holders.map fun holder => (holder.1, insert label holder.2)
    labels := v.labels ++ [(label, tag)] }

theorem register_isPending {tag l : String} :
    (v.register label tag).isPending l = true ↔ v.isPending l = true ∨ l = label := by
  simp only [isPending, register, lookup, List.find?_append, Option.isSome_or, Bool.or_eq_true]
  refine or_congr_right ?_
  by_cases same : label = l <;> simp [same, eq_comm]

theorem Sound.register (sound : v.Sound past) {tag : String} (joined : v.holders ≠ [])
    (unsynchronized : ∀ l, synchronized l entry.2.1 = [])
    (tells : ∀ l, announced l entry.2.1 = if l = label then v.holders.map Prod.fst else []) :
    (v.register label tag).Sound (past ++ [entry]) := by
  have kept : ∀ {holder}, holder ∈ (v.register label tag).holders →
      ∃ old ∈ v.holders, holder = (old.1, insert label old.2) := by
    intro holder member
    obtain ⟨old, belongs, rfl⟩ := List.mem_map.mp member
    exact ⟨old, belongs, rfl⟩
  have stays : ∀ {old}, old ∈ v.holders →
      (old.1, insert label old.2) ∈ (v.register label tag).holders :=
    fun member => List.mem_map.mpr ⟨_, member, rfl⟩
  refine ⟨sound.positive, ?_, ?_, sound.reached, fun l => ?_, ?_, ?_⟩
  · have handles : (v.register label tag).holders.map Prod.fst = v.holders.map Prod.fst := by
      simp [SyncView.register, Function.comp_def]
    rw [handles]
    exact sound.distinct
  · intro holder member
    obtain ⟨old, belongs, rfl⟩ := kept member
    exact sound.bounds old belongs
  · rw [register_isPending]
    constructor
    · rintro (pending | rfl)
      · obtain ⟨holder, member, held⟩ := (sound.pendingHeld l).mp pending
        exact ⟨_, stays member, Finset.mem_insert_of_mem held⟩
      · obtain ⟨holder, member⟩ := List.exists_mem_of_ne_nil _ joined
        exact ⟨_, stays member, Finset.mem_insert_self _ _⟩
    · rintro ⟨holder, member, held⟩
      obtain ⟨old, belongs, rfl⟩ := kept member
      rcases Finset.mem_insert.mp held with equal | earlier
      · exact .inr equal
      · exact .inl ((sound.pendingHeld l).mpr ⟨old, belongs, earlier⟩)
  · intro l pending holder member reachable
    obtain ⟨old, belongs, rfl⟩ := kept member
    rw [announcedTo_snoc, if_pos (unsynchronized l), List.mem_append, tells]
    rcases register_isPending.mp pending with before | equal
    · exact .inl (sound.told l before old belongs reachable)
    · rw [if_pos equal]
      exact .inr (List.mem_map.mpr ⟨old, belongs, rfl⟩)
  · intro l g member
    rcases (mem_awaitedFor_snoc member).1 with earlier | told
    · obtain ⟨holder, belongs, rfl, held⟩ := sound.awaited l g earlier
      exact ⟨_, stays belongs, rfl, Finset.mem_insert_of_mem held⟩
    · rw [tells] at told
      split at told
      · rename_i equal
        obtain ⟨holder, belongs, rfl⟩ := List.mem_map.mp told
        exact ⟨_, stays belongs, rfl, by rw [equal]; exact Finset.mem_insert_self _ _⟩
      · cases told

/-! ### Achievement -/

def achieve (v : SyncView) (fed : FederateHandle) (label : String) : SyncView :=
  { v with holders := adjust Prod.fst fed (fun holder => (holder.1, holder.2.erase label)) v.holders }

theorem mem_achieve {holder : FederateHandle × Finset String} :
    holder ∈ (v.achieve fed label).holders ↔
      (holder ∈ v.holders ∧ holder.1 ≠ fed) ∨
        ∃ old ∈ v.holders, old.1 = fed ∧ (old.1, old.2.erase label) = holder := mem_adjust

/-- Who holds a label after an achievement. -/
theorem achieve_held {l : String} :
    (∃ holder ∈ (v.achieve fed label).holders, l ∈ holder.2) ↔
      ∃ holder ∈ v.holders, l ∈ holder.2 ∧ (holder.1 = fed → l ≠ label) := by
  constructor
  · rintro ⟨holder, member, held⟩
    rcases mem_achieve.mp member with ⟨belongs, other⟩ | ⟨old, belongs, same, rfl⟩
    · exact ⟨holder, belongs, held, fun equal => absurd equal other⟩
    · exact ⟨old, belongs, Finset.mem_of_mem_erase held, fun _ => Finset.ne_of_mem_erase held⟩
  · rintro ⟨holder, member, held, other⟩
    by_cases same : holder.1 = fed
    · exact ⟨_, mem_achieve.mpr (.inr ⟨holder, member, same, rfl⟩),
        Finset.mem_erase.mpr ⟨other same, held⟩⟩
    · exact ⟨holder, mem_achieve.mpr (.inl ⟨member, same⟩), held⟩

theorem achieve_handles :
    (v.achieve fed label).holders.map Prod.fst = v.holders.map Prod.fst := by
  change (adjust Prod.fst fed _ v.holders).map Prod.fst = _
  refine map_key_adjust ?_ v.holders
  exact fun _ same => same

/-- Nobody who has achieved the label is awaited for it. -/
theorem achieve_awaited (sound : v.Sound past) (untold : ∀ l, announced l entry.2.1 = [])
    (accepted : entry.1 = .synchronizationPointAchieved fed label ∧ entry.2.2 = none) :
    ∀ l, ∀ g ∈ awaitedFor l (past ++ [entry]),
      ∃ holder ∈ (v.achieve fed label).holders, holder.1 = g ∧ l ∈ holder.2 := by
  intro l g member
  obtain ⟨before, gone⟩ := mem_awaitedFor_snoc member
  rcases before with earlier | told
  · obtain ⟨holder, belongs, rfl, held⟩ := sound.awaited l g earlier
    by_cases same : holder.1 = fed
    · have other : l ≠ label := by
        rintro rfl
        exact (gone accepted.2).1 (by rw [accepted.1, same])
      exact ⟨_, mem_achieve.mpr (.inr ⟨holder, belongs, same, rfl⟩), rfl,
        Finset.mem_erase.mpr ⟨other, held⟩⟩
    · exact ⟨holder, mem_achieve.mpr (.inl ⟨belongs, same⟩), rfl, held⟩
  · rw [untold] at told
    cases told

/-- Somebody still holds the label. -/
theorem Sound.achieve (sound : v.Sound past) (untold : ∀ l, announced l entry.2.1 = [])
    (unsynchronized : ∀ l, synchronized l entry.2.1 = [])
    (accepted : entry.1 = .synchronizationPointAchieved fed label ∧ entry.2.2 = none)
    (held : ∃ holder ∈ (v.achieve fed label).holders, label ∈ holder.2) :
    (v.achieve fed label).Sound (past ++ [entry]) := by
  refine ⟨sound.positive, by rw [achieve_handles]; exact sound.distinct, ?_, sound.reached,
    fun l => ?_, ?_,
    achieve_awaited sound untold accepted⟩
  · intro holder member
    rcases mem_achieve.mp member with ⟨belongs, _⟩ | ⟨old, belongs, _, rfl⟩
    · exact sound.bounds holder belongs
    · exact sound.bounds old belongs
  · change v.isPending l = true ↔ _
    rw [sound.pendingHeld l]
    constructor
    · rintro ⟨holder, member, holds⟩
      by_cases same : l = label
      · rw [same]
        exact held
      · exact achieve_held.mpr ⟨holder, member, holds, fun _ => same⟩
    · intro after
      obtain ⟨holder, member, holds, _⟩ := achieve_held.mp after
      exact ⟨holder, member, holds⟩
  · intro l pending holder member reachable
    rw [announcedTo_snoc, if_pos (unsynchronized l), untold, List.append_nil]
    rcases mem_achieve.mp member with ⟨belongs, _⟩ | ⟨old, belongs, _, rfl⟩
    · exact sound.told l pending holder belongs reachable
    · exact sound.told l pending old belongs reachable

/-- Nobody holds the label any more: it leaves the table. -/
def complete (v : SyncView) (fed : FederateHandle) (label : String) : SyncView :=
  { v.achieve fed label with labels := drop Prod.fst label v.labels }

theorem complete_isPending {l : String} :
    (v.complete fed label).isPending l = true ↔ v.isPending l = true ∧ l ≠ label := by
  have found : ∀ labels : List (String × String),
      (lookup Prod.fst l labels).isSome = true ↔ l ∈ labels.map Prod.fst := by
    intro labels
    rw [Option.isSome_iff_ne_none, ne_eq, lookup_eq_none]
    simp
  rw [isPending, isPending, found, found, SyncView.complete, map_key_drop, List.mem_filter]
  simp

theorem Sound.complete (sound : v.Sound past) (untold : ∀ l, announced l entry.2.1 = [])
    (unsynchronized : ∀ l ≠ label, synchronized l entry.2.1 = [])
    (accepted : entry.1 = .synchronizationPointAchieved fed label ∧ entry.2.2 = none)
    (unheld : ∀ holder ∈ (v.achieve fed label).holders, label ∉ holder.2) :
    (v.complete fed label).Sound (past ++ [entry]) := by
  refine ⟨sound.positive, ?_, ?_, sound.reached, fun l => ?_, ?_,
    achieve_awaited sound untold accepted⟩
  · change ((v.achieve fed label).holders.map Prod.fst).Nodup
    rw [achieve_handles]
    exact sound.distinct
  · intro holder member
    rcases mem_achieve.mp member with ⟨belongs, _⟩ | ⟨old, belongs, _, rfl⟩
    · exact sound.bounds holder belongs
    · exact sound.bounds old belongs
  · rw [complete_isPending, sound.pendingHeld l]
    constructor
    · rintro ⟨⟨holder, member, holds⟩, other⟩
      exact achieve_held.mpr ⟨holder, member, holds, fun _ => other⟩
    · rintro ⟨holder, member, holds⟩
      have other : l ≠ label := by
        rintro rfl
        exact unheld holder member holds
      obtain ⟨old, belongs, before, _⟩ := achieve_held.mp ⟨holder, member, holds⟩
      exact ⟨⟨old, belongs, before⟩, other⟩
  · intro l pending holder member reachable
    obtain ⟨before, other⟩ := complete_isPending.mp pending
    rw [announcedTo_snoc, if_pos (unsynchronized l other), untold, List.append_nil]
    rcases mem_achieve.mp member with ⟨belongs, _⟩ | ⟨old, belongs, _, rfl⟩
    · exact sound.told l before holder belongs reachable
    · exact sound.told l before old belongs reachable

/-- Then nobody is awaited for it. -/
theorem complete_awaited (sound : v.Sound past) (untold : ∀ l, announced l entry.2.1 = [])
    (accepted : entry.1 = .synchronizationPointAchieved fed label ∧ entry.2.2 = none)
    (unheld : ∀ holder ∈ (v.achieve fed label).holders, label ∉ holder.2) :
    awaitedFor label (past ++ [entry]) = [] := by
  refine List.eq_nil_iff_forall_not_mem.mpr fun g member => ?_
  obtain ⟨holder, belongs, _, held⟩ := achieve_awaited sound untold accepted label g member
  exact unheld holder belongs held

end SyncView

/-! ## What the services do to the view -/

namespace Federation

variable {f f' : Federation} {past : List (Event × Answer)} {fed : FederateHandle}
  {label : String}

theorem syncView_isPending (f : Federation) (label : String) :
    f.syncView.isPending label = f.isPending label := rfl

theorem mem_holders {holder : FederateHandle × Finset String} :
    holder ∈ f.syncView.holders ↔
      ∃ record ∈ f.federates, (record.handle, record.syncLabels) = holder := List.mem_map

theorem holders_handles (f : Federation) :
    f.syncView.holders.map Prod.fst = f.federates.map Federate.handle := by
  simp [syncView, Function.comp_def]

theorem syncView_congr
    (holders : f'.federates.map (fun fed => (fed.handle, fed.syncLabels)) =
      f.federates.map (fun fed => (fed.handle, fed.syncLabels)))
    (labels : f'.synchronizationLabels = f.synchronizationLabels)
    (next : f'.nextFederate = f.nextFederate)
    (references : f'.root.server.hasReferences = f.root.server.hasReferences) :
    f'.syncView = f.syncView := by
  simp only [syncView, holders, labels, next, references]

theorem syncView_of_timeless (same : f'.timeless = f.timeless) : f'.syncView = f.syncView :=
  syncView_congr
    (map_of_erased (e := Federate.timeless) (fun _ => rfl) (congrArg Federation.federates same))
    (congrArg Federation.synchronizationLabels same :) (congrArg Federation.nextFederate same :)
    (congrArg (fun g : Federation => g.root.server.hasReferences) same :)

theorem syncView_of_unsaved (same : f'.unsaved = f.unsaved) : f'.syncView = f.syncView :=
  syncView_congr
    (map_of_erased (e := Federate.unsaved) (fun _ => rfl) (congrArg Federation.federates same))
    (congrArg Federation.synchronizationLabels same :) (congrArg Federation.nextFederate same :)
    (congrArg (fun g : Federation => g.root.server.hasReferences) same :)

theorem syncView_of_onlyRoot (same : OnlyRoot f f') : f'.syncView = f.syncView := by
  have federates : f'.federates = f.federates := (congrArg Federation.federates same.rest :)
  refine syncView_congr (by rw [federates]) ?_ ?_ (by rw [same.server])
  · exact (congrArg Federation.synchronizationLabels same.rest :)
  · exact (congrArg Federation.nextFederate same.rest :)

/-- Everything an event does to labels: the invariant goes on and the event was sound. -/
structure SyncStep (past : List (Event × Answer)) (f : Federation) (e : Event) : Prop where
  next : (rtig f e).1.syncView.Sound (past ++ [(e, (rtig f e).2)])
  soundly : SynchronizedSoundly past f e

/-- An event that broadcasts no synchronization and takes no label from the table. -/
theorem SyncStep.silent {e : Event}
    (next : (rtig f e).1.syncView.Sound (past ++ [(e, (rtig f e).2)]))
    (unsynchronized : ∀ label, synchronized label (rtig f e).2.1 = [])
    (pending : ∀ label, f.isPending label = true → (rtig f e).1.isPending label = true) :
    SyncStep past f e := by
  refine ⟨next, fun label => ?_, fun label sent => ?_, fun label sent => ?_⟩
  · rw [unsynchronized]
    constructor
    · exact fun sent => absurd rfl sent
    · rintro ⟨before, after⟩
      rw [pending label before] at after
      cases after
  · exact absurd (unsynchronized label) sent
  · exact absurd (unsynchronized label) sent

/-- An event that leaves the view alone and is answered without a word about labels. -/
theorem SyncStep.quiet {e : Event} (sound : f.syncView.Sound past)
    (view : (rtig f e).1.syncView = f.syncView)
    (untold : ∀ label, announced label (rtig f e).2.1 = [])
    (unsynchronized : ∀ label, synchronized label (rtig f e).2.1 = []) : SyncStep past f e := by
  refine .silent ?_ unsynchronized fun label pending => ?_
  · rw [view]
    exact sound.quiet untold unsynchronized
  · rw [← syncView_isPending, view]
    exact pending

/-- An event about something else. -/
theorem SyncStep.other {e : Event} (running : f.crashed = false) (sound : f.syncView.Sound past)
    (view : (f.perform e).state.syncView = f.syncView)
    (topics : Topic.synchronization ∉ e.topics) : SyncStep past f e := by
  have about := perform_about f e
  refine .quiet sound ?_ ?_ ?_
  · rw [rtig_perform running]
    exact view
  · rw [rtig_perform running]
    exact fun label => announced_of_about about topics
  · rw [rtig_perform running]
    exact fun label => synchronized_of_about about topics

/-- A request that was refused, answered with nothing or with a refusal of its label. -/
theorem SyncStep.refused {e : Event} (running : f.crashed = false) (sound : f.syncView.Sound past)
    (view : (f.perform e).state.syncView = f.syncView)
    (sent : (f.perform e).sent = [] ∨ ∃ fed label,
      (f.perform e).sent = [(fed, .confirmSynchronizationPointRegistration label false)]) :
    SyncStep past f e := by
  refine .quiet sound ?_ ?_ ?_
  · rw [rtig_perform running]
    exact view
  · rw [rtig_perform running]
    intro label
    rcases sent with sent | ⟨fed, l, sent⟩ <;> simp [sent, announced]
  · rw [rtig_perform running]
    intro label
    rcases sent with sent | ⟨fed, l, sent⟩ <;> simp [sent, synchronized]

/-! ### Leaving -/

theorem isPending_held (sound : f.syncView.Sound past) :
    f.isPending label = true ↔ ∃ holder ∈ f.federates, label ∈ holder.syncLabels := by
  rw [← syncView_isPending, sound.pendingHeld label]
  simp [mem_holders]

/-- Every pending label has a holder that stays. -/
theorem notLast_holder (sound : f.syncView.Sound past)
    (stays : ∀ entry ∈ f.synchronizationLabels, ¬f.LastHolder fed entry.1) :
    ∀ label, f.syncView.isPending label = true →
      ∃ holder ∈ f.syncView.holders, holder.1 ≠ fed ∧ label ∈ holder.2 := by
  intro label pending
  obtain ⟨entry, found⟩ := Option.isSome_iff_exists.mp pending
  have last := stays entry (lookup_mem found)
  rw [lookup_key found] at last
  have held := (isPending_held sound).mp pending
  by_contra none
  refine last ⟨held, fun holder member holds => ?_⟩
  by_contra other
  exact none ⟨_, mem_holders.mpr ⟨holder, member, rfl⟩, other, holds⟩

theorem leave_syncStep {e : Event} (running : f.crashed = false) (sound : f.syncView.Sound past)
    (stays : ∀ entry ∈ f.synchronizationLabels, ¬f.LastHolder fed entry.1)
    (left : e = .resign fed ∨ e = .kill fed) (accepted : (f.perform e).error = none)
    (view : (f.perform e).state.syncView = f.syncView.leave fed) : SyncStep past f e := by
  have topics : Topic.synchronization ∉ e.topics := by
    rcases left with rfl | rfl <;> simp [Event.topics]
  have about := perform_about f e
  have unsynchronized : ∀ label, synchronized label (f.perform e).sent = [] :=
    fun label => synchronized_of_about about topics
  refine .silent ?_ ?_ ?_
  · rw [rtig_perform running]
    dsimp only
    rw [view]
    exact sound.leave (fun label => announced_of_about about topics) unsynchronized
      ⟨accepted, left⟩ (notLast_holder sound stays)
  · rw [rtig_perform running]
    exact unsynchronized
  · rw [rtig_perform running]
    intro label pending
    rw [← syncView_isPending, view]
    exact pending

theorem drop_syncView (f : Federation) (fed : FederateHandle) :
    syncView { f with federates := drop Federate.handle fed f.federates } = f.syncView.leave fed := by
  simp only [syncView, SyncView.leave, drop, List.filter_map]
  rfl

theorem remove_syncStep (running : f.crashed = false) (sound : f.syncView.Sound past)
    (stays : ∀ entry ∈ f.synchronizationLabels, ¬f.LastHolder fed entry.1) :
    SyncStep past f (.resign fed) := by
  rcases remove_cases f fed with refused | ⟨_, removed⟩
  · exact .refused running sound (by rw [perform, refused]; rfl)
      (.inl (by rw [perform, refused]; rfl))
  · refine leave_syncStep running sound stays (.inl rfl) ?_ ?_
    · rw [perform, removed]
      rfl
    · rw [perform, removed]
      exact drop_syncView f fed

theorem kill_syncStep (running : f.crashed = false) (sound : f.syncView.Sound past)
    (stays : ∀ entry ∈ f.synchronizationLabels, ¬f.LastHolder fed entry.1) :
    SyncStep past f (.kill fed) := by
  rcases kill_cases f fed with refused | ⟨_, result, _, accepted⟩
  · exact .refused running sound (by rw [perform, refused]; rfl)
      (.inl (by rw [perform, refused]; rfl))
  · refine leave_syncStep running sound stays (.inr rfl) accepted ?_
    have unregulated := syncView_of_timeless (removeRegulator_timeless (f.closeLink fed) fed)
    have server := (RootObject.killFederate_frame (p := fun _ => True)
      (f.closeLink fed).root fed).2.2.2
    generalize ((f.closeLink fed).removeRegulator fed).state = g at unregulated result
    have dropped := drop_syncView g fed
    rw [unregulated] at dropped
    rw [perform, result, ← show (f.closeLink fed).syncView = f.syncView from rfl, ← dropped]
    refine syncView_congr rfl rfl rfl ?_
    have references := congrArg SyncView.reachable unregulated
    change ((f.closeLink fed).root.killFederate fed).1.server.hasReferences =
      g.root.server.hasReferences
    rw [server]
    exact references.symm

/-! ### Joining -/

/-- The records before a join keep their labels when the new one is given its own. -/
theorem labelled_syncView (sound : f.syncView.Sound past) (name : String) :
    (f.labelled name).syncView =
      f.syncView.join (f.synchronizationLabels.map Prod.fst).toFinset f.syncView.reachable := by
  have absent : ∀ fed ∈ f.federates, fed.handle ≠ f.nextFederate := by
    intro fed member equal
    have below := (sound.bounds _ (mem_holders.mpr ⟨fed, member, rfl⟩)).2
    rw [equal] at below
    exact Nat.lt_irrefl _ below
  have old := adjust_of_absent (f := fun fed : Federate =>
    { fed with syncLabels := (f.synchronizationLabels.map Prod.fst).toFinset }) absent
  unfold adjust at old
  simp [syncView, labelled, inserted, adjustFederate, adjust, SyncView.join, old]

theorem inserted_syncView (f : Federation) (name : String) :
    (f.inserted name).syncView = f.syncView.join ∅ f.syncView.reachable := by
  simp [syncView, inserted, SyncView.join]

/-- Which labels a newcomer is told of. -/
theorem announced_labels (label : String) (h : FederateHandle) (labels : List (String × String)) :
    (∀ g ∈ announced label (labels.map fun l => (h, .announceSynchronizationPoint l.1 l.2)),
      g = h ∧ label ∈ labels.map Prod.fst) ∧
    (label ∈ labels.map Prod.fst →
      h ∈ announced label (labels.map fun l => (h, .announceSynchronizationPoint l.1 l.2))) := by
  induction labels with
  | nil => simp
  | cons l rest ih =>
    obtain ⟨l, tag⟩ := l
    by_cases same : l = label
    · simp only [announced, List.map_cons, List.filterMap_cons, same, if_true] at ih ⊢
      constructor
      · intro g member
        rcases List.mem_cons.mp member with rfl | later
        · exact ⟨rfl, List.mem_cons_self⟩
        · exact ⟨(ih.1 g later).1, List.mem_cons_self⟩
      · exact fun _ => List.mem_cons_self
    · simp only [announced, List.map_cons, List.filterMap_cons, same, if_false] at ih ⊢
      constructor
      · exact fun g member => ⟨(ih.1 g member).1, List.mem_cons_of_mem _ (ih.1 g member).2⟩
      · intro listed
        rcases List.mem_cons.mp listed with equal | later
        · exact absurd equal.symm same
        · exact ih.2 later

theorem isPending_iff : f.isPending label = true ↔ label ∈ f.synchronizationLabels.map Prod.fst := by
  rw [isPending, Option.isSome_iff_ne_none, ne_eq, lookup_eq_none]
  simp

theorem join_syncStep (running : f.crashed = false) (sound : f.syncView.Sound past) (name : String)
    (conditions : JoinConditions) : SyncStep past f (.join name conditions) := by
  -- a newcomer cannot be reached before it has been given references
  have unreachable : f.syncView.reachable f.syncView.next = true → False := fun reachable =>
    Nat.lt_irrefl _ (sound.reached _ reachable)
  have listed : ∀ l ∈ (f.synchronizationLabels.map Prod.fst).toFinset,
      f.syncView.isPending l = true := fun l member =>
    isPending_iff.mpr (List.mem_toFinset.mp member)
  have joined : ∀ (labels : Finset String) (outcome : Outcome Federation)
      (reachable : FederateHandle → Bool), f.add name conditions = outcome →
      outcome.state.syncView = f.syncView.join labels reachable →
      (∀ l, synchronized l outcome.sent = []) →
      (f.syncView.join labels reachable).Sound
        (past ++ [(.join name conditions, (outcome.sent, outcome.error))]) →
      SyncStep past f (.join name conditions) := by
    intro labels outcome reachable result view unsynchronized next
    have step : rtig f (.join name conditions) = (outcome.state, (outcome.sent, outcome.error)) := by
      rw [rtig_perform running, perform, result]
    refine .silent ?_ (by rw [step]; exact unsynchronized) ?_
    · rw [step]
      dsimp only
      rw [view]
      exact next
    · rw [step]
      intro l isPending
      rw [← syncView_isPending, view]
      exact isPending
  rcases add_outcomes f name conditions with result | result | result | result
  · exact .refused running sound (by rw [perform, result]; rfl) (.inl (by rw [perform, result]; rfl))
  · exact joined ∅ _ f.syncView.reachable result (inserted_syncView f name) (fun _ => rfl)
      (sound.join (fun _ => rfl) (by simp) (fun _ reachable => .inl reachable)
        (fun _ _ told => by cases told) (fun reachable => absurd reachable unreachable))
  · exact joined _ _ f.syncView.reachable result (labelled_syncView sound name) (fun _ => rfl)
      (sound.join (fun _ => rfl) listed (fun _ reachable => .inl reachable)
        (fun _ _ told => by cases told) (fun reachable => absurd reachable unreachable))
  · have view : syncView { f.labelled name with
          root := { f.root with server := f.root.server.setReferences f.nextFederate } } =
        f.syncView.join (f.synchronizationLabels.map Prod.fst).toFinset
          (f.root.server.setReferences f.nextFederate).hasReferences := by
      have labelled := labelled_syncView sound name
      simp only [syncView, SyncView.join, SyncView.mk.injEq] at labelled ⊢
      exact ⟨labelled.1, labelled.2.1, labelled.2.2.1, trivial⟩
    generalize sentIs : f.regulators.map (fun clock =>
        (f.nextFederate, NetworkMessage.messageNull clock.1 clock.2)) ++
        f.synchronizationLabels.map (fun label =>
          (f.nextFederate, NetworkMessage.announceSynchronizationPoint label.1 label.2)) ++
        [(f.nextFederate, .joinFederationExecution f.nextFederate f.regulators.length)] = sent
      at result
    have unsynchronized : ∀ l, synchronized l sent = [] := by
      rw [← sentIs]
      simp [synchronized]
    have tells : ∀ l, announced l sent = announced l (f.synchronizationLabels.map fun label =>
        (f.nextFederate, .announceSynchronizationPoint label.1 label.2)) := by
      rw [← sentIs]
      simp [announced]
    refine joined _ _ _ result view unsynchronized (sound.join unsynchronized listed ?_ ?_ ?_)
    · intro h reachable
      change f.root.server.hasReferences h = true ∨ h = f.nextFederate
      simp only [SecurityServer.hasReferences, SecurityServer.setReferences, List.contains_cons,
        Bool.or_eq_true, beq_iff_eq] at reachable ⊢
      tauto
    · intro l g told
      change g ∈ announced l sent at told
      rw [tells] at told
      obtain ⟨rfl, member⟩ := (announced_labels l f.nextFederate f.synchronizationLabels).1 g told
      exact ⟨rfl, List.mem_toFinset.mpr member⟩
    · intro _ l pending
      change f.nextFederate ∈ announced l sent
      rw [tells]
      exact (announced_labels l f.nextFederate f.synchronizationLabels).2 (isPending_iff.mp pending)

/-! ### Registering -/

/-- A federate given the label. -/
def withLabel (label : String) (fed : Federate) : Federate :=
  { fed with syncLabels := insert label fed.syncLabels }

/-- Labelling distinct joined federates that do not hold the label yet succeeds. -/
theorem labelFederates_ok (label : String) (hs : List FederateHandle) :
    ∀ f : Federation, (∀ h ∈ hs, f.isJoined h = true) → hs.Nodup →
      (∀ fed ∈ f.federates, fed.handle ∈ hs → label ∉ fed.syncLabels) →
      sweep (labelFederate label) f hs = ({ f with
        federates := f.federates.map fun fed =>
          if fed.handle ∈ hs then withLabel label fed else fed }, none) := by
  induction hs with
  | nil =>
    intro f _ _ _
    simp
  | cons h rest ih =>
    intro f joined distinct fresh
    obtain ⟨absent, later⟩ := List.nodup_cons.mp distinct
    obtain ⟨fed, found⟩ := Option.isSome_iff_exists.mp (joined h List.mem_cons_self)
    have handle : fed.handle = h := lookup_key found
    have taken : labelFederate label f h = .ok (f.adjustFederate h (withLabel label)) := by
      unfold labelFederate
      rw [found]
      dsimp only
      rw [if_neg (fresh fed (lookup_mem found) (by rw [handle]; exact List.mem_cons_self))]
      rfl
    have handles : (f.adjustFederate h (withLabel label)).federates.map Federate.handle =
        f.federates.map Federate.handle := adjustFederate_map fun _ => rfl
    rw [sweep_cons_ok rest taken, ih _ ?_ later ?_]
    · simp only [adjustFederate, adjust, List.map_map]
      congr 2
      refine List.map_congr_left fun record _ => ?_
      by_cases same : record.handle = h
      · simp [same, withLabel, absent]
      · simp [same]
    · intro h' member
      rw [isJoined_iff, handles]
      exact isJoined_iff.mp (joined h' (List.mem_cons_of_mem h member))
    · intro record member listed
      rcases mem_adjust.mp member with ⟨belongs, _⟩ | ⟨old, belongs, same, rfl⟩
      · exact fresh record belongs (List.mem_cons_of_mem h listed)
      · change old.handle ∈ rest at listed
        rw [same] at listed
        exact absurd listed absent

theorem positive_handles (sound : f.syncView.Sound past) : ∀ fed ∈ f.federates, 0 < fed.handle :=
  fun fed member => (sound.bounds _ (mem_holders.mpr ⟨fed, member, rfl⟩)).1

/-- A point registered for everybody. -/
theorem registerSynchronization_ok (sound : f.syncView.Sound past) (member : f.check fed = true)
    (registrable : f.Registrable label) (tag : String) :
    f.registerSynchronization fed label tag = ⟨{ f with
      synchronizationLabels := f.synchronizationLabels ++ [(label, tag)]
      federates := f.federates.map (withLabel label) }, [], none⟩ := by
  have unheld : ∀ fed ∈ f.federates, label ∉ fed.syncLabels := by
    intro fed member held
    have pending := (isPending_held sound).mpr ⟨fed, member, held⟩
    rw [registrable.2] at pending
    cases pending
  have distinct : (f.federates.map Federate.handle).Nodup := by
    rw [← holders_handles]
    exact sound.distinct
  have pending : (lookup Prod.fst label f.synchronizationLabels).isSome = false := registrable.2
  have listed := labelFederates_ok label (f.federates.map Federate.handle)
    { f with synchronizationLabels := f.synchronizationLabels ++ [(label, tag)] }
    (fun h listed => isJoined_iff.mpr listed) distinct (fun fed member _ => unheld fed member)
  unfold registerSynchronization asMember
  rw [if_pos member, if_neg registrable.1, pending, if_neg Bool.false_ne_true, listed]
  dsimp only
  congr 2
  refine List.map_congr_left fun record member => ?_
  rw [if_pos (List.mem_map_of_mem member)]

theorem registerSynchronization_refused (tag : String)
    (refused : ¬(f.check fed = true ∧ f.Registrable label)) :
    ∃ e, e ≠ RTIException.outOfRange ∧
      f.registerSynchronization fed label tag = .refused f e := by
  unfold registerSynchronization asMember
  split
  · rename_i member
    split
    · exact ⟨_, by decide, rfl⟩
    · rename_i named
      split
      · exact ⟨_, by decide, rfl⟩
      · rename_i fresh
        exact absurd ⟨member, named, Bool.eq_false_iff.mpr fresh⟩ refused
  · exact ⟨_, by decide, rfl⟩

theorem registerSynchronizationSet_refused (tag : String) (set : List FederateHandle)
    (refused : ¬(f.isJoined fed = true ∧ f.Registrable label)) :
    ∃ e, e ≠ RTIException.outOfRange ∧
      f.registerSynchronizationSet fed label tag set = .refused f e := by
  unfold registerSynchronizationSet withFederate
  split
  · rename_i record found
    have joined : f.isJoined fed = true := by rw [isJoined, found]; rfl
    split
    · exact ⟨_, by decide, rfl⟩
    · rename_i named
      split
      · exact ⟨_, by decide, rfl⟩
      · rename_i fresh
        exact absurd ⟨joined, named, Bool.eq_false_iff.mpr fresh⟩ refused
  · exact ⟨_, by decide, rfl⟩

/-- A registration that is refused is answered with the refusal. -/
theorem processRegister_refused {tag : String} {set : Option (List FederateHandle)}
    {e : RTIException} (other : e ≠ .outOfRange)
    (refused : f.registerSynchronizationFor fed label tag set = .refused f e) :
    f.processRegisterSynchronization fed label tag set =
      .done f [(fed, .confirmSynchronizationPointRegistration label false)] := by
  unfold processRegisterSynchronization
  rw [refused]
  cases e <;> first | rfl | exact absurd rfl other

/-- A point registered for everybody, all of whom can be reached, is announced to them. -/
theorem processRegister_ok (sound : f.syncView.Sound past) (member : f.check fed = true)
    (registrable : f.Registrable label) (reachable : f.AllReachable) (tag : String) :
    f.processRegisterSynchronization fed label tag none = .done { f with
      synchronizationLabels := f.synchronizationLabels ++ [(label, tag)]
      federates := f.federates.map (withLabel label) }
      ((f.federates.map Federate.handle).map (·, .announceSynchronizationPoint label tag) ++
        [(fed, .confirmSynchronizationPointRegistration label true)]) := by
  have registered := registerSynchronization_ok sound member registrable tag
  have handles : (f.federates.map (withLabel label)).map Federate.handle =
      f.federates.map Federate.handle := by
    rw [List.map_map]
    rfl
  have announced := respondToAll_ok
    (f := { f with
      synchronizationLabels := f.synchronizationLabels ++ [(label, tag)]
      federates := f.federates.map (withLabel label) })
    (.announceSynchronizationPoint label tag)
    (by
      intro record belongs
      obtain ⟨old, member, rfl⟩ := List.mem_map.mp belongs
      exact reachable old member)
    (by
      intro record belongs
      obtain ⟨old, member, rfl⟩ := List.mem_map.mp belongs
      exact positive_handles sound old member)
  rw [handles] at announced
  unfold processRegisterSynchronization registerSynchronizationFor
  rw [registered]
  dsimp only
  rw [announced]

theorem withLabel_syncView (f : Federation) (label tag : String) :
    syncView { f with
      synchronizationLabels := f.synchronizationLabels ++ [(label, tag)]
      federates := f.federates.map (withLabel label) } = f.syncView.register label tag := by
  simp only [syncView, SyncView.register, List.map_map]
  rfl

theorem register_syncStep (running : f.crashed = false) (sound : f.syncView.Sound past)
    (tag : String) (set : Option (List FederateHandle))
    (ok : Synchronizes f (.registerSynchronization fed label tag set)) :
    SyncStep past f (.registerSynchronization fed label tag set) := by
  have refusal : (∃ e, e ≠ RTIException.outOfRange ∧
      f.registerSynchronizationFor fed label tag set = .refused f e) →
      SyncStep past f (.registerSynchronization fed label tag set) := by
    rintro ⟨e, other, result⟩
    have answer := processRegister_refused other result
    exact .refused running sound (by rw [perform, answer]; rfl)
      (.inr ⟨fed, label, by rw [perform, answer]; rfl⟩)
  cases set with
  | some set =>
    exact refusal (registerSynchronizationSet_refused tag set fun admitted =>
      ok admitted.1 admitted.2)
  | none =>
    by_cases admitted : f.check fed = true ∧ f.Registrable label
    · obtain ⟨member, registrable⟩ := admitted
      obtain ⟨joined, reachable⟩ := ok member registrable
      have step := rtig_perform (e := .registerSynchronization fed label tag none) running
      rw [perform, processRegister_ok sound member registrable reachable tag] at step
      dsimp only [Outcome.done] at step
      have unsynchronized : ∀ l, synchronized l
          (rtig f (.registerSynchronization fed label tag none)).2.1 = [] := by
        intro l
        rw [step]
        simp [synchronized]
      refine .silent ?_ unsynchronized ?_
      · have view : (rtig f (.registerSynchronization fed label tag none)).1.syncView =
            f.syncView.register label tag := by
          rw [step]
          exact withLabel_syncView f label tag
        rw [view]
        refine sound.register ?_ unsynchronized fun l => ?_
        · rw [syncView, ne_eq, List.map_eq_nil_iff]
          exact joined
        · rw [step]
          dsimp only
          rw [announced_append, announced_broadcast, holders_handles]
          by_cases same : l = label
          · simp [same, announced]
          · simp [same, Ne.symm same, announced]
      · intro l pending
        rw [step, ← syncView_isPending, withLabel_syncView]
        exact SyncView.register_isPending.mpr (.inl pending)
    · exact refusal (registerSynchronization_refused tag admitted)

/-! ### Achieving -/

/-- The federation once the federate has given the label back. -/
def achieved (f : Federation) (fed : FederateHandle) (label : String) : Federation :=
  f.adjustFederate fed fun fed => { fed with syncLabels := fed.syncLabels.erase label }

/-- The same with the label out of the table. -/
def completed (f : Federation) (fed : FederateHandle) (label : String) : Federation :=
  { f.achieved fed label with
    synchronizationLabels := drop Prod.fst label f.synchronizationLabels }

theorem unregister_cases (f : Federation) (fed : FederateHandle) (label : String) :
    (∃ e, f.unregisterSynchronization fed label = .refused f e) ∨
      (∃ record, f.federate? fed = some record ∧ label ∈ record.syncLabels) ∧
        (((∃ holder ∈ (f.achieved fed label).federates, label ∈ holder.syncLabels) ∧
            f.unregisterSynchronization fed label = .done (f.achieved fed label) []) ∨
          ((∀ holder ∈ (f.achieved fed label).federates, label ∉ holder.syncLabels) ∧
            f.unregisterSynchronization fed label = answering (f.completed fed label) []
              ((f.completed fed label).respondToAll (.federationSynchronized label) 0))) := by
  unfold unregisterSynchronization asMember
  split
  · split
    · exact .inl ⟨_, rfl⟩
    · unfold withFederate
      split
      · rename_i record found
        dsimp only
        split
        · exact .inl ⟨_, rfl⟩
        · rename_i holds
          rw [not_not] at holds
          refine .inr ⟨⟨record, found, holds⟩, ?_⟩
          split
          · rename_i held
            left
            obtain ⟨holder, member, still⟩ := List.any_eq_true.mp held
            exact ⟨⟨holder, member, of_decide_eq_true still⟩, rfl⟩
          · rename_i unheld
            right
            refine ⟨fun holder member still => unheld ?_, rfl⟩
            exact List.any_eq_true.mpr ⟨holder, member, decide_eq_true still⟩
      · exact .inl ⟨_, rfl⟩
  · exact .inl ⟨_, rfl⟩

theorem achieved_syncView (f : Federation) (fed : FederateHandle) (label : String) :
    (f.achieved fed label).syncView = f.syncView.achieve fed label := by
  have holders : (f.achieved fed label).federates.map (fun r => (r.handle, r.syncLabels)) =
      adjust Prod.fst fed (fun holder => (holder.1, holder.2.erase label))
        (f.federates.map fun r => (r.handle, r.syncLabels)) := by
    simp only [achieved, adjustFederate, adjust, List.map_map]
    refine List.map_congr_left fun record _ => ?_
    by_cases same : record.handle = fed <;> simp [same]
  simp only [syncView, SyncView.achieve, holders]
  rfl

theorem completed_syncView (f : Federation) (fed : FederateHandle) (label : String) :
    (f.completed fed label).syncView = f.syncView.complete fed label := by
  have achieved := achieved_syncView f fed label
  unfold SyncView.complete
  rw [← achieved]
  rfl

theorem achieved_handles (f : Federation) (fed : FederateHandle) (label : String) :
    (f.achieved fed label).federates.map Federate.handle = f.federates.map Federate.handle :=
  adjustFederate_map fun _ => rfl

theorem achieved_held (f : Federation) (fed : FederateHandle) (label : String) :
    (∃ holder ∈ (f.syncView.achieve fed label).holders, label ∈ holder.2) ↔
      ∃ holder ∈ (f.achieved fed label).federates, label ∈ holder.syncLabels := by
  rw [← achieved_syncView]
  simp [mem_holders]

/-- Giving the label back leaves it unheld only when its last holder does it. -/
theorem lastHolder_of_unheld {record : Federate} (found : f.federate? fed = some record)
    (holds : label ∈ record.syncLabels)
    (unheld : ∀ holder ∈ (f.achieved fed label).federates, label ∉ holder.syncLabels) :
    f.LastHolder fed label := by
  refine ⟨⟨record, lookup_mem found, holds⟩, fun holder member held => ?_⟩
  by_contra other
  exact unheld holder (mem_adjust.mpr (.inl ⟨member, other⟩)) held

theorem completed_respond (sound : f.syncView.Sound past) (reachable : f.AllReachable)
    (fed : FederateHandle) (label : String) (message : NetworkMessage) :
    (f.completed fed label).respondToAll message 0 =
      .ok ((f.federates.map Federate.handle).map (·, message)) := by
  have kept : ∀ record ∈ (f.completed fed label).federates,
      ∃ old ∈ f.federates, old.handle = record.handle := by
    intro record member
    have listed := List.mem_map_of_mem (f := Federate.handle) member
    change record.handle ∈ (f.achieved fed label).federates.map Federate.handle at listed
    rw [achieved_handles] at listed
    exact List.mem_map.mp listed
  have responses := respondToAll_ok (f := f.completed fed label) message
    (by
      intro record member
      obtain ⟨old, belongs, same⟩ := kept record member
      rw [← same]
      exact reachable old belongs)
    (by
      intro record member
      obtain ⟨old, belongs, same⟩ := kept record member
      rw [← same]
      exact positive_handles sound old belongs)
  rw [responses]
  congr 2
  exact achieved_handles f fed label

/-- The last holder gives the label back: everybody joined is told, at once and once. -/
theorem complete_syncStep (running : f.crashed = false) (sound : f.syncView.Sound past)
    (reachable : f.AllReachable) {record : Federate} (found : f.federate? fed = some record)
    (holds : label ∈ record.syncLabels)
    (unheld : ∀ holder ∈ (f.achieved fed label).federates, label ∉ holder.syncLabels)
    (result : f.unregisterSynchronization fed label = answering (f.completed fed label) []
      ((f.completed fed label).respondToAll (.federationSynchronized label) 0)) :
    SyncStep past f (.synchronizationPointAchieved fed label) := by
  have step := rtig_perform (e := .synchronizationPointAchieved fed label) running
  rw [perform, result, completed_respond sound reachable fed label] at step
  dsimp only [answering] at step
  rw [List.nil_append] at step
  have nobody : ∀ holder ∈ (f.syncView.achieve fed label).holders, label ∉ holder.2 := by
    intro holder member held
    obtain ⟨record, belongs, holds⟩ := (achieved_held f fed label).mp ⟨holder, member, held⟩
    exact unheld record belongs holds
  have pending : f.isPending label = true :=
    (isPending_held sound).mpr ⟨record, lookup_mem found, holds⟩
  have untold : ∀ l, announced l ((f.federates.map Federate.handle).map
      (·, .federationSynchronized label)) = [] := by
    simp [announced]
  have joined : f.federates.map Federate.handle ≠ [] :=
    List.ne_nil_of_mem (List.mem_map_of_mem (lookup_mem found))
  have about : ∀ l, synchronized l (rtig f (.synchronizationPointAchieved fed label)).2.1 =
      if label = l then f.federates.map Federate.handle else [] := by
    intro l
    rw [step]
    exact synchronized_broadcast _ label
  -- the broadcast is about this label, and about no other
  have this : ∀ l, synchronized l (rtig f (.synchronizationPointAchieved fed label)).2.1 ≠ [] ↔
      l = label := by
    intro l
    rw [about]
    by_cases same : label = l <;> simp [same, joined, eq_comm]
  refine ⟨?_, fun l => ?_, fun l sent => ?_, fun l sent => ?_⟩
  · rw [step, completed_syncView]
    refine sound.complete untold (fun l other => ?_) ⟨rfl, rfl⟩ nobody
    dsimp only
    rw [synchronized_broadcast, if_neg (Ne.symm other)]
  · rw [this, step]
    have gone : (f.completed fed label).isPending l = true ↔ f.isPending l = true ∧ l ≠ label := by
      rw [← syncView_isPending, completed_syncView]
      exact SyncView.complete_isPending
    constructor
    · rintro rfl
      refine ⟨pending, Bool.eq_false_iff.mpr fun still => ?_⟩
      exact (gone.mp still).2 rfl
    · rintro ⟨before, after⟩
      by_contra other
      rw [gone.mpr ⟨before, other⟩] at after
      cases after
  · obtain rfl := (this l).mp sent
    rw [about, if_pos rfl]
    refine ⟨by rw [← holders_handles]; exact sound.distinct, fun g => ?_⟩
    rw [step]
    dsimp only
    rw [isJoined_iff]
    change _ ↔ _ ∧ g ∈ (f.achieved fed l).federates.map Federate.handle
    rw [achieved_handles]
    constructor
    · intro member
      obtain ⟨holder, belongs, rfl⟩ := List.mem_map.mp member
      exact ⟨sound.told l pending _ (mem_holders.mpr ⟨holder, belongs, rfl⟩)
        (reachable holder belongs), member⟩
    · exact fun listed => listed.2
  · obtain rfl := (this l).mp sent
    rw [step]
    exact SyncView.complete_awaited sound untold ⟨rfl, rfl⟩ nobody

theorem achieve_syncStep (running : f.crashed = false) (sound : f.syncView.Sound past)
    (ok : Synchronizes f (.synchronizationPointAchieved fed label)) :
    SyncStep past f (.synchronizationPointAchieved fed label) := by
  rcases unregister_cases f fed label with ⟨e, refused⟩ | ⟨⟨record, found, holds⟩, still | last⟩
  · exact .refused running sound (by rw [perform, refused]; rfl)
      (.inl (by rw [perform, refused]; rfl))
  · obtain ⟨held, result⟩ := still
    have step := rtig_perform (e := .synchronizationPointAchieved fed label) running
    rw [perform, result] at step
    refine .silent ?_ ?_ ?_
    · rw [step]
      dsimp only [Outcome.done]
      rw [achieved_syncView]
      exact sound.achieve (fun _ => rfl) (fun _ => rfl) ⟨rfl, rfl⟩
        ((achieved_held f fed label).mpr held)
    · rw [step]
      exact fun _ => rfl
    · rw [step]
      exact fun _ pending => pending
  · obtain ⟨unheld, result⟩ := last
    have reachable := ok (lastHolder_of_unheld found holds unheld)
    exact complete_syncStep running sound reachable found holds unheld result

/-! ## Runs -/

/-- An event about neither labels nor membership leaves the view alone. -/
theorem perform_syncView {e : Event} (f : Federation) (unlabelled : .synchronization ∉ e.topics)
    (stays : .membership ∉ e.topics) : (f.perform e).state.syncView = f.syncView := by
  cases e with
  | setTimeRegulating fed on date =>
    cases on with
    | true => exact syncView_of_timeless (addRegulator_timeless f fed date)
    | false => exact syncView_of_timeless (removeRegulator_timeless f fed)
  | messageNull fed date => exact syncView_of_timeless (updateRegulator_timeless f fed date)
  | setTimeConstrained fed on => exact syncView_of_timeless (setConstrained_timeless f fed on)
  | requestFederationSave fed label timed =>
    exact syncView_of_unsaved (requestFederationSave_unsaved f fed label timed)
  | federateSaveBegun fed =>
    exact asMember_cases (p := fun outcome => outcome.state.syncView = f.syncView) rfl fun _ => rfl
  | federateSaveStatus fed complete =>
    exact syncView_of_unsaved (federateSaveStatus_unsaved f fed complete)
  | join | resign | kill => simp [Event.topics] at stays
  | registerSynchronization | synchronizationPointAchieved => simp [Event.topics] at unlabelled
  | _ => exact syncView_of_onlyRoot (perform_onRoot f rfl)

/-- What an event does, whichever it is. -/
theorem perform_syncStep {e : Event} (sound : f.syncView.Sound past) (ok : Synchronizes f e) :
    SyncStep past f e := by
  cases crashed : f.crashed with
  | true =>
    refine .quiet sound ?_ ?_ ?_ <;> rw [rtig_crashed crashed]
    · exact fun _ => rfl
    · exact fun _ => rfl
  | false =>
    cases e with
    | join name conditions => exact join_syncStep crashed sound name conditions
    | resign fed => exact remove_syncStep crashed sound ok
    | kill fed => exact kill_syncStep crashed sound ok
    | registerSynchronization fed label tag set => exact register_syncStep crashed sound tag set ok
    | synchronizationPointAchieved fed label => exact achieve_syncStep crashed sound ok
    | _ =>
      refine .other crashed sound (perform_syncView f ?_ ?_) ?_ <;> simp [Event.topics]

theorem create_sound (fom : Fom) (withMom haveXml : Bool) :
    (Federation.create fom withMom haveXml).syncView.Sound [] := by
  refine ⟨?_, List.nodup_nil, ?_, ?_, ?_, ?_, ?_⟩ <;>
    cases withMom <;>
    simp [syncView, create, SyncView.isPending, awaitedFor, lookup, SecurityServer.hasReferences]

end Federation

/-- In every run that meets the condition the labels in the table are those that some joined
federate holds, and each is synchronized exactly once, by a message to whoever of those it
was announced to is still joined, when each of them has achieved it or left. -/
theorem synchronization_sound (fom : Fom) (withMom haveXml : Bool) (es : List Event)
    (ok : rtig.Meets Synchronizes (create fom withMom haveXml) es) :
    PendingHeld (rtig.exec (create fom withMom haveXml) es) ∧
      ∀ before e after, es = before ++ e :: after →
        SynchronizedSoundly (rtig.trace (create fom withMom haveXml) before)
          (rtig.exec (create fom withMom haveXml) before) e := by
  have start := create_sound fom withMom haveXml
  have step : ∀ past f e, f.syncView.Sound past → Synchronizes f e →
      (rtig f e).1.syncView.Sound (past ++ [(e, (rtig f e).2)]) :=
    fun _ _ _ sound ok => (perform_syncStep sound ok).next
  constructor
  · have sound := Machine.trace_invariant rtig
      (p := fun past f => f.syncView.Sound past) step start ok
    exact fun _ => isPending_held sound
  · rintro before e after rfl
    exact Machine.trace_steps rtig (p := fun past f => f.syncView.Sound past) step
      (fun _ _ _ sound ok => (perform_syncStep sound ok).soundly) start ok

instance (f : Federation) (label : String) : Decidable (f.Registrable label) :=
  inferInstanceAs (Decidable (_ ∧ _))

instance (f : Federation) (fed : FederateHandle) (label : String) :
    Decidable (f.LastHolder fed label) :=
  inferInstanceAs (Decidable ((∃ holder ∈ f.federates, _) ∧ ∀ holder ∈ f.federates, _))

instance (f : Federation) : ∀ e, Decidable (Synchronizes f e)
  | .registerSynchronization _ label _ none =>
    inferInstanceAs (Decidable (_ → f.Registrable label → f.federates ≠ [] ∧ f.AllReachable))
  | .registerSynchronization _ label _ (some _) =>
    inferInstanceAs (Decidable (_ → ¬f.Registrable label))
  | .synchronizationPointAchieved fed label =>
    inferInstanceAs (Decidable (f.LastHolder fed label → f.AllReachable))
  | .resign fed | .kill fed =>
    inferInstanceAs (Decidable (∀ entry ∈ f.synchronizationLabels, ¬f.LastHolder fed entry.1))
  | .join .. | .setTimeRegulating .. | .messageNull .. | .setTimeConstrained ..
  | .requestFederationSave .. | .federateSaveBegun .. | .federateSaveStatus ..
  | .publishObject .. | .subscribeObject .. | .subscribeAttributesWR ..
  | .unsubscribeAttributesWR .. | .publishInteraction .. | .subscribeInteraction ..
  | .subscribeInteractionWR .. | .createRegion .. | .associateRegion .. | .registerObject ..
  | .registerObjectWithRegion .. | .deleteObject .. | .ownership .. => .isTrue trivial

/-- Three federates, a point registered by the first, achieved by the second before the
third joins and is lost again, and by the first at last. -/
def meeting : List Event :=
  [joinAs "a", joinAs "b", .registerSynchronization 1 "s" "" none,
    .synchronizationPointAchieved 2 "s", joinAs "c", .kill 3,
    .synchronizationPointAchieved 1 "s"]

theorem synchronization_sound_meeting :
    synchronized "s" (rtig (rtig.exec (create smallFom false false) (meeting.take 6))
        (.synchronizationPointAchieved 1 "s")).2.1 = [1, 2] ∧
      SynchronizedSoundly (rtig.trace (create smallFom false false) (meeting.take 6))
        (rtig.exec (create smallFom false false) (meeting.take 6))
        (.synchronizationPointAchieved 1 "s") :=
  ⟨by decide +kernel,
    (synchronization_sound smallFom false false meeting (by decide +kernel)).2 _ _ [] rfl⟩

/-- The only holder of a label leaves: the label stays in the table for ever. -/
theorem holder_resigns :
    ¬ ∀ (fom : Fom) (withMom haveXml : Bool) (es : List Event),
      PendingHeld (rtig.exec (create fom withMom haveXml) es) ∧
        ∀ before e after, es = before ++ e :: after →
          SynchronizedSoundly (rtig.trace (create fom withMom haveXml) before)
            (rtig.exec (create fom withMom haveXml) before) e := by
  intro always
  have sound := (always smallFom false false
    [joinAs "a", .registerSynchronization 1 "s" "" none, .resign 1]).1
  obtain ⟨fed, member, _⟩ := (sound "s").mp (by decide +kernel)
  have nobody : (rtig.exec (create smallFom false false)
      [joinAs "a", .registerSynchronization 1 "s" "" none, .resign 1]).federates.length = 0 := by
    decide +kernel
  exact absurd (List.length_pos_of_mem member) (by rw [nobody]; decide)

end Certi
