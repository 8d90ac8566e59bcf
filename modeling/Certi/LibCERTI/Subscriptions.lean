import Certi.Lib.Runs
import Certi.LibCERTI.Departure
import Certi.LibCERTI.ValueBroadcast

/-!
# The subscriptions of a class

`Subscribable` over any sequence of calls, and what the calls that forget a federate
do to the subscriptions of others. `unsubscribe(fed)` does not erase what
`std::remove_if` leaves behind, so it is harmless only where there is nothing to
remove, and does not touch others only where its pairs come last.
-/
namespace Certi

open Runs RemoveIf Collect

/-- `Subscribable::subscribe`; `access` is `checkFederateAccess` of the class. -/
def Subscribable.subscribe (access : FederateHandle → Bool) (subscribers : List Subscriber)
    (fed : FederateHandle) (region : Option RegionHandle) :
    Except RTIException (List Subscriber) :=
  if isSubscribedWith subscribers fed region then .ok subscribers
  else if access fed then .ok (subscribers ++ [⟨fed, region⟩])
  else .error .securityError

/-- Both kinds of class subscribe through it. -/
theorem ObjectClassAttribute.subscribe_eq (server : SecurityServer) (a : ObjectClassAttribute)
    (fed : FederateHandle) (region : Option RegionHandle) :
    a.subscribe server fed region =
      (Subscribable.subscribe (server.canFederateAccessData · a.level) a.subscribers fed
        region).map fun subscribers => { a with subscribers } := by
  unfold ObjectClassAttribute.subscribe Subscribable.subscribe
  split
  · rfl
  · split <;> rfl

theorem Interaction.subscribe_eq (server : SecurityServer) (i : Interaction)
    (fed : FederateHandle) (region : Option RegionHandle) :
    i.subscribe server fed region =
      (Subscribable.subscribe (server.canFederateAccessData · i.securityLevelId) i.subscribers fed
        region).map fun subscribers => { i with subscribers } := by
  unfold Interaction.subscribe Subscribable.subscribe
  split
  · rfl
  · split <;> rfl

/-! ## Runs of one subscribable -/

inductive SubscriptionCall where
  | subscribe (fed : FederateHandle) (region : Option RegionHandle)
  | unsubscribeWith (fed : FederateHandle) (region : Option RegionHandle)
  | unsubscribe (fed : FederateHandle)

def subscribable (access : FederateHandle → Bool) :
    Machine (List Subscriber) SubscriptionCall (Option RTIException) := fun subscribers call =>
  match call with
  | .subscribe fed region =>
    match Subscribable.subscribe access subscribers fed region with
    | .ok next => (next, none)
    | .error e => (subscribers, some e)
  | .unsubscribeWith fed region => (Subscribable.unsubscribeWith subscribers fed region, none)
  | .unsubscribe fed => (Subscribable.unsubscribe subscribers fed, none)

abbrev SubscriptionPast := List (SubscriptionCall × Option RTIException)

namespace SubscriptionCall

def isSubscribe : SubscriptionCall → Bool
  | subscribe .. => true
  | unsubscribeWith .. | unsubscribe _ => false

/-- The pairs that a call is about. -/
def concerns (s : Subscriber) : SubscriptionCall → Bool
  | subscribe fed region | unsubscribeWith fed region => s = ⟨fed, region⟩
  | unsubscribe fed => s.handle = fed

/-- The federate of an `unsubscribe(fed)` has no pair. -/
def RemovesNothing (subscribers : List Subscriber) : SubscriptionCall → Prop
  | unsubscribe fed => Subscribable.isSubscribed subscribers fed = false
  | subscribe .. | unsubscribeWith .. => True

end SubscriptionCall

/-- The last call about the pair was a subscription that was accepted. -/
def Held (past : SubscriptionPast) (s : Subscriber) : Prop :=
  ∃ call, (past.filter fun entry => entry.1.concerns s).getLast? = some (call, none) ∧
    call.isSubscribe = true

/-- `addFederatesIfOverlap` finds the federates one of whose pairs matches. -/
def AddsExactly (past : SubscriptionPast) (subscribers : List Subscriber) : Prop :=
  ∀ {V : Type} (region : RegionHandle → RTIRegion) (l next : InteractionBroadcastList V)
    (update : Option RegionHandle),
    l.addFederatesIfOverlap region update subscribers = .ok next → ∀ fed,
      fed ∈ next.lines.map Prod.fst ↔ fed ∈ l.lines.map Prod.fst ∨
        ∃ s, Held past s ∧ s.handle = fed ∧ s.matches region update = .ok true

/-- The same for a class: the attribute waits for those federates, unless it was sent to them. -/
def AddsExactlyIn (past : SubscriptionPast) (subscribers : List Subscriber) : Prop :=
  ∀ {V : Type} (region : RegionHandle → RTIRegion) (l next : ObjectClassBroadcastList V)
    (a : AttributeHandle) (update : Option RegionHandle), l.lines.Distinct →
    l.addFederatesIfOverlap region a update subscribers = .ok next → ∀ fed,
      next.lines.status fed a = .waiting ↔ l.lines.status fed a = .waiting ∨
        l.lines.status fed a ≠ .sent ∧
          ∃ s, Held past s ∧ s.handle = fed ∧ s.matches region update = .ok true

/-- A set of pairs: those whose last call was an accepted subscription. -/
structure SubscriptionsSound (past : SubscriptionPast) (subscribers : List Subscriber) : Prop where
  nodup : subscribers.Nodup
  held : ∀ s, s ∈ subscribers ↔ Held past s
  adds : AddsExactly past subscribers
  addsIn : AddsExactlyIn past subscribers

theorem held_snoc {past : SubscriptionPast} {call : SubscriptionCall}
    {answer : Option RTIException} {s : Subscriber} :
    Held (past ++ [(call, answer)]) s ↔
      if call.concerns s then answer = none ∧ call.isSubscribe = true else Held past s := by
  unfold Held
  by_cases about : call.concerns s = true
  · rw [if_pos about]
    simp only [List.filter_append, List.filter_cons, about, if_true, List.filter_nil,
      List.getLast?_concat, Option.some.injEq, Prod.mk.injEq]
    constructor
    · rintro ⟨c, ⟨rfl, none⟩, subscribes⟩
      exact ⟨none, subscribes⟩
    · rintro ⟨none, subscribes⟩
      exact ⟨call, ⟨rfl, none⟩, subscribes⟩
  · rw [if_neg about]
    simp [List.filter_append, about]

/-- The pairs after a call that removes nothing by `unsubscribe(fed)`. -/
theorem subscribable_step {access : FederateHandle → Bool} {past : SubscriptionPast}
    {subscribers : List Subscriber} {call : SubscriptionCall} (nodup : subscribers.Nodup)
    (held : ∀ s, s ∈ subscribers ↔ Held past s) (harmless : call.RemovesNothing subscribers) :
    (subscribable access subscribers call).1.Nodup ∧
      ∀ s, s ∈ (subscribable access subscribers call).1 ↔
        Held (past ++ [(call, (subscribable access subscribers call).2)]) s := by
  cases call with
  | subscribe fed region =>
    simp only [held_snoc, subscribable, Subscribable.subscribe, SubscriptionCall.concerns,
      SubscriptionCall.isSubscribe, decide_eq_true_eq]
    by_cases present : Subscribable.isSubscribedWith subscribers fed region = true
    · have member : (⟨fed, region⟩ : Subscriber) ∈ subscribers := by
        simpa [Subscribable.isSubscribedWith] using present
      simp only [present, if_true]
      refine ⟨nodup, fun s => ?_⟩
      by_cases same : s = ⟨fed, region⟩
      · simp [same, member]
      · simp [same, held s]
    · have absent : (⟨fed, region⟩ : Subscriber) ∉ subscribers := by
        simpa [Subscribable.isSubscribedWith] using present
      by_cases allowed : access fed = true
      · simp only [present, allowed, if_true]
        refine ⟨List.nodup_append.mpr ⟨nodup, by simp, ?_⟩, fun s => ?_⟩
        · intro s member other last
          rw [List.mem_singleton.mp last]
          exact fun same => absent (same ▸ member)
        · by_cases same : s = ⟨fed, region⟩
          · simp [same]
          · simp [same, held s]
      · simp only [present, allowed]
        refine ⟨nodup, fun s => ?_⟩
        by_cases same : s = ⟨fed, region⟩
        · simp [same, absent]
        · simp [same, held s]
  | unsubscribeWith fed region =>
    refine ⟨nodup.filter _, fun s => ?_⟩
    rw [held_snoc]
    change s ∈ Subscribable.unsubscribeWith subscribers fed region ↔ _
    rw [Subscribable.mem_unsubscribeWith]
    by_cases same : s = ⟨fed, region⟩
    · simp [same, SubscriptionCall.concerns, SubscriptionCall.isSubscribe]
    · simp [same, SubscriptionCall.concerns, held s]
  | unsubscribe fed =>
    have idle : Subscribable.isSubscribed subscribers fed = false := harmless
    have unchanged := RootObject.unsubscribe_eq_self idle
    change (Subscribable.unsubscribe subscribers fed).Nodup ∧
      ∀ s, s ∈ Subscribable.unsubscribe subscribers fed ↔ _
    rw [unchanged]
    refine ⟨nodup, fun s => ?_⟩
    rw [held_snoc]
    by_cases same : s.handle = fed
    · have absent : s ∉ subscribers := by
        intro member
        rw [Subscribable.isSubscribed_iff.mpr ⟨s, member, same⟩] at idle
        cases idle
      simp [SubscriptionCall.concerns, same, SubscriptionCall.isSubscribe, absent]
    · simp [SubscriptionCall.concerns, same, held s]

/-! ## The federates that a broadcast finds -/

theorem addFederate_federates {V : Type} (l : InteractionBroadcastList V) (fed g : FederateHandle) :
    g ∈ (l.addFederate fed).lines.map Prod.fst ↔ g ∈ l.lines.map Prod.fst ∨ g = fed := by
  unfold InteractionBroadcastList.addFederate
  split
  · simp
  · rename_i line found
    have listed : fed ∈ l.lines.map Prod.fst :=
      List.mem_map.mpr ⟨line, Keyed.lookup_mem found, Keyed.lookup_key found⟩
    constructor
    · exact .inl
    · rintro (there | rfl)
      · exact there
      · exact listed

theorem addFederatesIfOverlap_federates {V : Type} {region : RegionHandle → RTIRegion}
    {update : Option RegionHandle} {subscribers : List Subscriber} :
    ∀ {l next : InteractionBroadcastList V},
      l.addFederatesIfOverlap region update subscribers = .ok next → ∀ fed,
        fed ∈ next.lines.map Prod.fst ↔ fed ∈ l.lines.map Prod.fst ∨
          ∃ s ∈ subscribers, s.handle = fed ∧ s.matches region update = .ok true := by
  unfold InteractionBroadcastList.addFederatesIfOverlap
  induction subscribers with
  | nil =>
    intro l next done fed
    cases done
    simp
  | cons s rest ih =>
    intro l next done fed
    rw [List.foldlM_cons] at done
    obtain ⟨middle, first, later⟩ := bind_success done
    obtain ⟨overlap, matched, added⟩ := bind_success first
    rw [ih later fed]
    cases overlap with
    | true =>
      cases added
      simp only [addFederate_federates, List.mem_cons, exists_eq_or_imp, matched, and_true]
      tauto
    | false =>
      cases added
      simp [matched]

theorem addFederatesIfOverlap_status {V : Type} {region : RegionHandle → RTIRegion}
    {a : AttributeHandle} {update : Option RegionHandle} {subscribers : List Subscriber} :
    ∀ {l next : ObjectClassBroadcastList V}, l.lines.Distinct →
      l.addFederatesIfOverlap region a update subscribers = .ok next → ∀ fed,
        next.lines.status fed a = .waiting ↔ l.lines.status fed a = .waiting ∨
          l.lines.status fed a ≠ .sent ∧
            ∃ s ∈ subscribers, s.handle = fed ∧ s.matches region update = .ok true := by
  unfold ObjectClassBroadcastList.addFederatesIfOverlap
  induction subscribers with
  | nil =>
    intro l next _ done fed
    cases done
    simp
  | cons s rest ih =>
    intro l next distinct done fed
    rw [List.foldlM_cons] at done
    obtain ⟨middle, first, later⟩ := bind_success done
    obtain ⟨overlap, matched, added⟩ := bind_success first
    cases overlap with
    | true =>
      obtain ⟨lines, told, kept⟩ := bind_success added
      cases kept
      obtain ⟨-, distinct', status⟩ := BroadcastLines.addFederate_success distinct told
      rw [ih distinct' later fed]
      dsimp only
      rw [status fed a]
      by_cases same : fed = s.handle
      · subst same
        by_cases sent : l.lines.status s.handle a = .sent <;> simp [sent, matched]
      · simp [same, Ne.symm same]
    | false =>
      cases added
      rw [ih distinct later fed]
      simp [matched]

theorem subscriptionsSound_of_held {past : SubscriptionPast} {subscribers : List Subscriber}
    (nodup : subscribers.Nodup) (held : ∀ s, s ∈ subscribers ↔ Held past s) :
    SubscriptionsSound past subscribers where
  nodup := nodup
  held := held
  adds region l next update done fed := by
    rw [addFederatesIfOverlap_federates done fed]
    simp only [held]
  addsIn region l next a update distinct done fed := by
    rw [addFederatesIfOverlap_status distinct done fed]
    simp only [held]

/-! ## Calls that forget a federate -/

/-- The subscriptions of all others, in their order. -/
def OthersKept (fed : FederateHandle) (before after : List Subscriber) : Prop :=
  ∀ g, g ≠ fed → after.filter (fun s => s.handle = g) = before.filter (fun s => s.handle = g)

/-- As many places as the federate has pairs, the last ones, are its own. -/
def LastIn (fed : FederateHandle) (subscribers : List Subscriber) : Prop :=
  ∀ s ∈ subscribers.drop (subscribers.countP fun s => s.handle ≠ fed), s.handle = fed

theorem othersKept_refl (fed : FederateHandle) (subscribers : List Subscriber) :
    OthersKept fed subscribers subscribers := fun _ _ => rfl

theorem unsubscribeWith_othersKept (subscribers : List Subscriber) (fed : FederateHandle)
    (region : Option RegionHandle) :
    OthersKept fed subscribers (Subscribable.unsubscribeWith subscribers fed region) := by
  intro g other
  rw [Subscribable.unsubscribeWith, List.filter_filter]
  refine List.filter_congr fun s _ => ?_
  by_cases same : s.handle = g
  · have different : s ≠ ⟨fed, region⟩ := fun equal => other (by rw [← same, equal])
    simp [same, different]
  · simp [same]

/-- What `std::remove_if` leaves behind belongs to nobody else. -/
theorem unsubscribe_othersKept_iff (subscribers : List Subscriber) (fed : FederateHandle) :
    OthersKept fed subscribers (Subscribable.unsubscribe subscribers fed) ↔
      LastIn fed subscribers := by
  have kept : subscribers.filter (fun s => !(decide (s.handle = fed))) =
      subscribers.filter fun s => decide (s.handle ≠ fed) := List.filter_congr fun s _ => by simp
  have others : ∀ g, g ≠ fed →
      (Subscribable.unsubscribe subscribers fed).filter (fun s => s.handle = g) =
        subscribers.filter (fun s => s.handle = g) ++
          (subscribers.drop (subscribers.countP fun s => s.handle ≠ fed)).filter
            fun s => s.handle = g := by
    intro g other
    simp only [Subscribable.unsubscribe, removeIf, kept, List.filter_append,
      List.countP_eq_length_filter, List.filter_filter]
    congr 1
    refine List.filter_congr fun s _ => ?_
    by_cases same : s.handle = g <;> simp [same, other]
  constructor
  · intro untouched s member
    by_contra other
    have whole := untouched s.handle other
    rw [others s.handle other, List.append_right_eq_self, List.filter_eq_nil_iff] at whole
    exact whole s member (decide_eq_true rfl)
  · intro last g other
    rw [others g other, List.append_right_eq_self, List.filter_eq_nil_iff]
    intro s member same
    exact other ((of_decide_eq_true same).symm.trans (last s member))

theorem lastIn_of_unsubscribed {subscribers : List Subscriber} {fed : FederateHandle}
    (absent : Subscribable.isSubscribed subscribers fed = false) : LastIn fed subscribers := by
  have same := (unsubscribe_othersKept_iff subscribers fed).mp
  rw [RootObject.unsubscribe_eq_self absent] at same
  exact same (othersKept_refl fed subscribers)

/-- Attribute by attribute. -/
def ObjectClass.OthersKept (fed : FederateHandle) (c c' : ObjectClass) : Prop :=
  List.Forall₂ (fun a a' => Certi.OthersKept fed a.subscribers a'.subscribers) c.attributes
    c'.attributes

theorem mapAttributes_othersKept (c : ObjectClass) (fed : FederateHandle)
    (f : ObjectClassAttribute → ObjectClassAttribute) :
    c.OthersKept fed (c.mapAttributes f) ↔
      ∀ a ∈ c.attributes, OthersKept fed a.subscribers (f a).subscribers := by
  rw [ObjectClass.OthersKept, ObjectClass.mapAttributes, List.forall₂_map_right_iff,
    List.forall₂_same]

theorem ObjectClass.unsubscribe_othersKept_iff (c : ObjectClass) (fed : FederateHandle) :
    c.OthersKept fed (c.unsubscribe fed) ↔ ∀ a ∈ c.attributes, LastIn fed a.subscribers := by
  rw [ObjectClass.unsubscribe, mapAttributes_othersKept]
  refine forall₂_congr fun a _ => ?_
  split
  · exact Certi.unsubscribe_othersKept_iff a.subscribers fed
  · rename_i absent
    have idle : Subscribable.isSubscribed a.subscribers fed = false := by
      simpa [ObjectClassAttribute.isSubscribed] using absent
    exact iff_of_true (othersKept_refl fed _) (lastIn_of_unsubscribed idle)

/-- The class is classified above the federate that publishes it, so nothing is forgotten. -/
def Refuses (server : SecurityServer) (fed : FederateHandle) (c : ObjectClass) : Prop :=
  c.isFederatePublisher fed = true ∧ server.canFederateAccessData fed c.securityLevelId = false

theorem killDeclarations_othersKept_iff (server : SecurityServer) (fed : FederateHandle)
    (c : ObjectClass) : c.OthersKept fed (RootObject.killDeclarations server fed c) ↔
      Refuses server fed c ∨ ∀ a ∈ c.attributes, LastIn fed a.subscribers := by
  by_cases refuses : Refuses server fed c
  · have unchanged : RootObject.killDeclarations server fed c = c := by
      simp [RootObject.killDeclarations, ObjectClass.publish, ObjectClass.checkAttributes,
        refuses.1, refuses.2]
    rw [unchanged]
    exact iff_of_true (List.forall₂_same.mpr fun a _ => othersKept_refl fed _) (.inl refuses)
  · have unpublishable : RootObject.Unpublishable server fed c := by
      intro publisher
      by_contra closed
      exact refuses ⟨publisher, by simpa using closed⟩
    rw [RootObject.killDeclarations_eq unpublishable, mapAttributes_othersKept,
      or_iff_right refuses]
    exact forall₂_congr fun a _ => Certi.unsubscribe_othersKept_iff a.subscribers fed

theorem Interaction.killFederate_othersKept_iff (i : Interaction) (fed : FederateHandle) :
    OthersKept fed i.subscribers (i.killFederate fed).subscribers ↔
      LastIn fed i.subscribers := by
  unfold Interaction.killFederate
  dsimp only
  split
  · exact Certi.unsubscribe_othersKept_iff i.subscribers fed
  · rename_i absent
    have idle : Subscribable.isSubscribed i.subscribers fed = false := by
      simpa [Interaction.isSubscribed] using absent
    exact iff_of_true (othersKept_refl fed _) (lastIn_of_unsubscribed idle)

/-! ## Runs -/

/-- A removal of pairs that are there leaves a list that is as long as before. -/
theorem removesNothing_of_sound {access : FederateHandle → Bool} {past : SubscriptionPast}
    {subscribers : List Subscriber} {call : SubscriptionCall}
    (after : SubscriptionsSound (past ++ [(call, (subscribable access subscribers call).2)])
      (subscribable access subscribers call).1) : call.RemovesNothing subscribers := by
  cases call with
  | subscribe fed region => trivial
  | unsubscribeWith fed region => trivial
  | unsubscribe fed =>
    have foreign : ∀ s ∈ Subscribable.unsubscribe subscribers fed, s.handle ≠ fed := by
      intro s member same
      have held := (after.held s).mp member
      rw [held_snoc, if_pos (by simpa [SubscriptionCall.concerns] using same)] at held
      cases held.2
    have within : Subscribable.unsubscribe subscribers fed ⊆
        subscribers.filter fun s => s.handle ≠ fed := by
      intro s member
      exact List.mem_filter.mpr
        ⟨Subscribable.mem_unsubscribe member, by simpa using foreign s member⟩
    have short := (List.subperm_of_subset after.nodup within).length_le
    have long : (Subscribable.unsubscribe subscribers fed).length = subscribers.length :=
      removeIf_length subscribers
    change Subscribable.isSubscribed subscribers fed = false
    by_contra there
    obtain ⟨s, member, same⟩ := Subscribable.isSubscribed_iff.mp (by simpa using there)
    have fewer : (subscribers.filter fun s => s.handle ≠ fed).length < subscribers.length :=
      List.length_filter_lt_length_iff_exists.mpr ⟨s, member, by simpa using same⟩
    change (Subscribable.unsubscribe subscribers fed).length ≤ _ at short
    omega

theorem subscribable_sound_iff (access : FederateHandle → Bool) (calls : List SubscriptionCall) :
    (∀ before after, calls = before ++ after →
      SubscriptionsSound ((subscribable access).trace [] before)
        ((subscribable access).exec [] before)) ↔
      (subscribable access).Meets (fun subscribers call => call.RemovesNothing subscribers) []
        calls := by
  constructor
  · intro sound
    refine (Machine.meets_iff_each _).mpr fun before call after split => ?_
    have next := sound (before ++ [call]) after (by rw [split, List.append_assoc]; rfl)
    rw [Machine.trace_append, Machine.exec_append] at next
    exact removesNothing_of_sound next
  · intro meets before after split
    rw [split] at meets
    have start := (Machine.meets_append _).mp meets
    have invariant := (subscribable access).trace_invariant
      (p := fun past subscribers => subscribers.Nodup ∧ ∀ s, s ∈ subscribers ↔ Held past s)
      (fun past subscribers call holds harmless => subscribable_step holds.1 holds.2 harmless)
      ⟨List.nodup_nil, fun s => by simp [Held]⟩ start.1
    exact subscriptionsSound_of_held invariant.1 invariant.2

theorem subscriptions_kept_iff (access : FederateHandle → Bool) (calls : List SubscriptionCall)
    (server : SecurityServer) (c : ObjectClass) (i : Interaction) (fed : FederateHandle) :
    ((∀ before after, calls = before ++ after →
      SubscriptionsSound ((subscribable access).trace [] before)
        ((subscribable access).exec [] before)) ↔
      (subscribable access).Meets (fun subscribers call => call.RemovesNothing subscribers) []
        calls) ∧
    (∀ region, c.OthersKept fed (c.unsubscribeWith fed region)) ∧
    (c.OthersKept fed (c.unsubscribe fed) ↔ ∀ a ∈ c.attributes, LastIn fed a.subscribers) ∧
    (c.OthersKept fed (RootObject.killDeclarations server fed c) ↔
      Refuses server fed c ∨ ∀ a ∈ c.attributes, LastIn fed a.subscribers) ∧
    (OthersKept fed i.subscribers (i.killFederate fed).subscribers ↔
      LastIn fed i.subscribers) := by
  refine ⟨subscribable_sound_iff access calls, fun region => ?_,
    c.unsubscribe_othersKept_iff fed, killDeclarations_othersKept_iff server fed c,
    i.killFederate_othersKept_iff fed⟩
  rw [ObjectClass.unsubscribeWith, mapAttributes_othersKept]
  exact fun a _ => unsubscribeWith_othersKept a.subscribers fed region

/-- Federate 1 leaves in front of federate 2: its pair stays, and that of federate 2 is there
twice. -/
theorem subscriptions_left_behind :
    let access : FederateHandle → Bool := fun _ => true
    let calls : List SubscriptionCall :=
      [.subscribe 1 none, .subscribe 2 none, .subscribe 2 (some 3), .unsubscribe 1]
    (subscribable access).exec [] calls = [⟨2, none⟩, ⟨2, some 3⟩, ⟨2, some 3⟩] ∧
      ¬ SubscriptionsSound ((subscribable access).trace [] calls)
        ((subscribable access).exec [] calls) := by
  intro access calls
  have left : (subscribable access).exec [] calls = [⟨2, none⟩, ⟨2, some 3⟩, ⟨2, some 3⟩] := by
    decide
  refine ⟨left, fun sound => ?_⟩
  have twice := sound.nodup
  rw [left] at twice
  revert twice
  decide

end Certi
