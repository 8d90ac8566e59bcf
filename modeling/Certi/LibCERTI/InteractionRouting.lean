import Certi.Lib.Pairing
import Certi.LibCERTI.Audience
import Certi.LibCERTI.Subscriptions

/-!
# Where an interaction arrives

`InteractionSet::broadcastInteraction` climbs with one message and one line per
federate. A federate is sent the message as it is when the first class that it
hears is reached: under the handle of that class, without the parameters that a
class on the way did not know, and with all values.
-/
namespace Certi

open Collect Keyed Pairing

variable {V : Type}

/-- The messages that a federate is sent. -/
def InteractionResponses.receivedBy (sent : InteractionResponses V) (g : FederateHandle) :
    List (ReceiveInteraction V) :=
  sent.flatMap fun r => List.replicate (r.1.count g) r.2

@[simp] theorem InteractionResponses.receivedBy_append (sent later : InteractionResponses V)
    (g : FederateHandle) : InteractionResponses.receivedBy (sent ++ later) g =
      sent.receivedBy g ++ later.receivedBy g :=
  List.flatMap_append

section Classes

variable (region : RegionHandle → RTIRegion) (update : Option RegionHandle) (g : FederateHandle)

/-- The federate is subscribed to the class, with a region that overlaps. -/
def Interaction.hears (i : Interaction) : Bool :=
  i.subscribers.any fun s => s.handle = g && decide (s.matches region update = .ok true)

/-- The message as a class broadcasts it. -/
def ReceiveInteraction.ofClass (m : ReceiveInteraction V) (i : Interaction) :
    ReceiveInteraction V :=
  { m with interactionClass := i.handle, parameters := m.parameters.filter i.hasParameter }

/-- What has become of the message at the first class on the way that the federate hears. -/
def arrival : List Interaction → ReceiveInteraction V → Option (ReceiveInteraction V)
  | [], _ => none
  | i :: above, m =>
    if i.hears region update g then some (m.ofClass i) else arrival above (m.ofClass i)

/-- The parameters that every class up to the first one heard knows. -/
def keptOnTheWay (way : List Interaction) (p : ParameterHandle) : Bool :=
  (way.takeWhile fun i => !i.hears region update g).all (·.hasParameter p)

end Classes

section Broadcast

variable {server : SecurityServer} {region : RegionHandle → RTIRegion}
  {update : Option RegionHandle} {g : FederateHandle}

theorem Interaction.hears_iff {i : Interaction} : i.hears region update g = true ↔
    ∃ s ∈ i.subscribers, s.handle = g ∧ s.matches region update = .ok true := by
  simp [Interaction.hears]

/-- Whoever has a line was told, and has no other. -/
structure InteractionBroadcastList.Told (told : FederateHandle → Prop)
    (l : InteractionBroadcastList V) : Prop where
  distinct : (l.lines.map Prod.fst).Nodup
  listed : ∀ g, g ∈ l.lines.map Prod.fst ↔ told g
  sent : ∀ line ∈ l.lines, line.2 ≠ .waiting

/-- The list has grown by lines that wait. -/
structure InteractionBroadcastList.Grown (l next : InteractionBroadcastList V) : Prop where
  distinct : (next.lines.map Prod.fst).Nodup
  kept : ∀ g ∈ l.lines.map Prod.fst, g ∈ next.lines.map Prod.fst
  waiting : ∀ line ∈ next.lines, line.2 = .waiting ↔ line.1 ∉ l.lines.map Prod.fst

theorem InteractionBroadcastList.Grown.addFederate {l next : InteractionBroadcastList V}
    (grown : l.Grown next) (fed : FederateHandle) : l.Grown (next.addFederate fed) := by
  have keeps : ∀ h, h ∈ next.lines.map Prod.fst → h ∈ (next.addFederate fed).lines.map Prod.fst :=
    fun h old => (addFederate_federates next fed h).mpr (.inl old)
  refine ⟨?_, fun h old => keeps h (grown.kept h old), ?_⟩
  · unfold InteractionBroadcastList.addFederate
    split
    · rename_i absent
      have fresh : ∀ line ∈ next.lines, line.1 ≠ fed := lookup_eq_none.mp absent
      rw [List.map_append, List.nodup_append]
      refine ⟨grown.distinct, List.nodup_singleton fed, fun h old g new => ?_⟩
      obtain ⟨line, inside, rfl⟩ := List.mem_map.mp old
      rw [List.mem_singleton.mp new]
      exact fresh line inside
    · exact grown.distinct
  · unfold InteractionBroadcastList.addFederate
    split
    · rename_i absent
      intro line member
      rcases List.mem_append.mp member with old | new
      · exact grown.waiting line old
      · rw [List.mem_singleton.mp new]
        refine iff_of_true rfl fun there => ?_
        obtain ⟨other, inside, same⟩ := List.mem_map.mp (grown.kept fed there)
        exact lookup_eq_none.mp absent other inside same
    · exact grown.waiting

theorem addFederatesIfOverlap_grown {l next : InteractionBroadcastList V}
    {told : FederateHandle → Prop} (before : l.Told told) {subscribers : List Subscriber}
    (done : l.addFederatesIfOverlap region update subscribers = .ok next) : l.Grown next := by
  refine foldlM_keeps (p := fun next => l.Grown next) ?_ ?_ done
  case refine_2 =>
    refine ⟨before.distinct, fun _ old => old, fun line member => iff_of_false ?_ ?_⟩
    · exact before.sent line member
    · exact not_not_intro (List.mem_map_of_mem member)
  intro s subscriber s' grown each
  obtain ⟨overlap, _, put⟩ := bind_success each
  cases overlap with
  | false =>
    cases put
    exact grown
  | true =>
    cases put
    exact grown.addFederate subscriber.handle

/-- What is pending is sent once to every federate that waits and can be reached. -/
theorem preparePendingMessage_receivedBy (server : SecurityServer)
    {l : InteractionBroadcastList V} (distinct : (l.lines.map Prod.fst).Nodup)
    (g : FederateHandle) :
    (l.preparePendingMessage server).2.receivedBy g =
      if (g, LineState.waiting) ∈ l.lines ∧ server.hasReferences g = true then [l.message]
      else [] := by
  have recipients : g ∈ (l.lines.filter fun line =>
      line.2 = .waiting && server.hasReferences line.1).map Prod.fst ↔
        (g, LineState.waiting) ∈ l.lines ∧ server.hasReferences g = true := by
    simp only [List.mem_map, List.mem_filter, Bool.and_eq_true, decide_eq_true_eq, Prod.exists,
      exists_and_right, exists_eq_right]
    constructor
    · rintro ⟨state, member, rfl, reached⟩
      exact ⟨member, reached⟩
    · rintro ⟨member, reached⟩
      exact ⟨.waiting, member, rfl, reached⟩
  have once : ((l.lines.filter fun line =>
      line.2 = .waiting && server.hasReferences line.1).map Prod.fst).Nodup :=
    distinct.sublist (List.filter_sublist.map Prod.fst)
  simp only [InteractionBroadcastList.preparePendingMessage, InteractionResponses.receivedBy,
    List.flatMap_singleton, once.count, recipients]
  split <;> rfl

theorem preparePendingMessage_told (server : SecurityServer) {l : InteractionBroadcastList V}
    {told : FederateHandle → Prop} (distinct : (l.lines.map Prod.fst).Nodup)
    (listed : ∀ g, g ∈ l.lines.map Prod.fst ↔ told g) :
    (l.preparePendingMessage server).1.Told told := by
  have keys : (l.preparePendingMessage server).1.lines.map Prod.fst = l.lines.map Prod.fst := by
    simp only [InteractionBroadcastList.preparePendingMessage, List.map_map]
    refine List.map_congr_left fun line _ => ?_
    rw [Function.comp_apply]
    split <;> rfl
  refine ⟨keys ▸ distinct, fun g => keys ▸ listed g, ?_⟩
  intro line' member
  obtain ⟨line, _, rfl⟩ := List.mem_map.mp member
  split
  · exact LineState.noConfusion
  · rename_i idle
    exact idle

/-- One class: those who hear it and were not told before get the message of the class. -/
theorem broadcastInteractionMessage_step {i : Interaction} {l next : InteractionBroadcastList V}
    {sent : InteractionResponses V} {told : FederateHandle → Prop} (before : l.Told told)
    (done : i.broadcastInteractionMessage server region l update = .ok (next, sent)) :
    next.message = l.message.ofClass i ∧
      next.Told (fun g => told g ∨ i.hears region update g = true) ∧
        ∀ g, (told g ∨ i.hears region update g = false → sent.receivedBy g = []) ∧
          (¬ told g → i.hears region update g = true → sent.receivedBy g =
            if server.hasReferences g = true then [l.message.ofClass i] else []) := by
  unfold Interaction.broadcastInteractionMessage at done
  obtain ⟨listed, added, told'⟩ := bind_success done
  cases told'
  have own := Stop.lift_ok added
  have message := addFederatesIfOverlap_message own
  have federates := addFederatesIfOverlap_federates own
  have begun : InteractionBroadcastList.Told told { l with message := l.message.ofClass i } :=
    ⟨before.distinct, before.listed, before.sent⟩
  have grown := addFederatesIfOverlap_grown begun own
  have listing : ∀ g, g ∈ listed.lines.map Prod.fst ↔
      told g ∨ i.hears region update g = true := by
    intro g
    rw [federates g, Interaction.hears_iff, ← before.listed g]
  refine ⟨message, preparePendingMessage_told server grown.distinct listing, fun g => ?_⟩
  have received := preparePendingMessage_receivedBy server grown.distinct g
  rw [message] at received
  have waits : (g, LineState.waiting) ∈ listed.lines ↔
      ¬ told g ∧ i.hears region update g = true := by
    constructor
    · intro member
      have untold : ¬ told g := fun already =>
        (grown.waiting _ member).mp rfl ((before.listed g).mpr already)
      exact ⟨untold, ((listing g).mp (List.mem_map_of_mem member)).resolve_left untold⟩
    · rintro ⟨untold, hears⟩
      obtain ⟨⟨h, state⟩, member, rfl⟩ := List.mem_map.mp ((listing g).mpr (.inr hears))
      have waiting := (grown.waiting _ member).mpr fun old => untold ((before.listed h).mp old)
      exact waiting ▸ member
  constructor
  · intro passed
    refine received.trans (if_neg fun sent => ?_)
    obtain ⟨untold, hears⟩ := waits.mp sent.1
    rcases passed with already | deaf
    · exact untold already
    · exact absurd (hears.symm.trans deaf) Bool.noConfusion
  · intro untold hears
    simp only [waits.mpr ⟨untold, hears⟩, true_and] at received
    exact received

/-! ## The climb -/

/-- Whoever was not told is sent the message at the first class above that it hears. -/
theorem passToSuperclasses_receivedBy {root : RootObject}
    (forest : Forest.Ordered Interaction.handle Interaction.superClass root.interactions)
    (g : FederateHandle) (fuel : Nat) :
    ∀ {current : InteractionClassHandle} {l : InteractionBroadcastList V}
      {sent : InteractionResponses V} {told : FederateHandle → Prop}, l.Told told →
      (root.interactionLineage current).length ≤ fuel →
      root.passToSuperclasses region update fuel current l = .ok sent →
        (told g → sent.receivedBy g = []) ∧ (¬ told g → sent.receivedBy g =
          if root.server.hasReferences g = true then
            (arrival region update g (root.interactionLineage current) l.message).toList
          else []) := by
  induction fuel with
  | zero =>
    intro current l sent told _ enough done
    cases done
    rw [List.eq_nil_of_length_eq_zero (Nat.le_zero.mp enough)]
    refine ⟨fun _ => rfl, fun _ => ?_⟩
    split <;> rfl
  | succ fuel ih =>
    intro current l sent told before enough done
    unfold RootObject.passToSuperclasses at done
    split at done
    · rename_i top
      cases done
      have nothing : root.interactionLineage current = [] := by
        rw [top]
        exact Forest.ancestors_of_none forest.zero
      rw [nothing]
      refine ⟨fun _ => rfl, fun _ => ?_⟩
      split <;> rfl
    · obtain ⟨i, found, broadcast⟩ := bind_success done
      obtain ⟨⟨next, here⟩, own, passed⟩ := bind_success broadcast
      obtain ⟨above, later, all⟩ := bind_success passed
      cases all
      have climbs : root.interactionLineage current = i :: root.interactionLineage i.superClass :=
        Forest.ancestors_of_lookup forest (getInteraction_ok (Stop.lift_ok found))
      rw [climbs] at enough ⊢
      obtain ⟨message, kept, first⟩ := broadcastInteractionMessage_step before own
      obtain ⟨silent, rest⟩ := ih kept (Nat.le_of_succ_le_succ enough) later
      rw [InteractionResponses.receivedBy_append]
      constructor
      · intro already
        rw [(first g).1 (.inl already), silent (.inl already), List.append_nil]
      · intro untold
        cases hears : i.hears region update g with
        | true =>
          rw [(first g).2 untold hears, silent (.inr hears), List.append_nil, arrival,
            if_pos hears]
          rfl
        | false =>
          have untold' : ¬ (told g ∨ i.hears region update g = true) := by
            rintro (already | heard)
            · exact untold already
            · exact absurd (hears.symm.trans heard) Bool.noConfusion
          rw [(first g).1 (.inr hears), rest untold', message, arrival, hears, List.nil_append]
          rfl

/-- The message an interaction is sent with; `list_size` is a `uint16_t`. -/
def ReceiveInteraction.sentBy (fed : FederateHandle) (interaction : InteractionClassHandle)
    (date : Option Date) (tag : String) (parameters : List ParameterHandle) (values : List V) :
    ReceiveInteraction V :=
  ⟨fed, interaction, date, tag, parameters.take (parameters.length % 2 ^ 16),
    values.take (parameters.length % 2 ^ 16)⟩

theorem create_told (message : ReceiveInteraction V) :
    (InteractionBroadcastList.create message).Told
      fun g => message.federate ≠ 0 ∧ g = message.federate := by
  unfold InteractionBroadcastList.create
  by_cases real : message.federate ≠ 0
  · rw [if_pos real]
    refine ⟨List.nodup_singleton _, fun g => ?_, fun line member => ?_⟩
    · simp [real]
    · rw [List.mem_singleton.mp member]
      exact LineState.noConfusion
  · rw [if_neg real]
    refine ⟨List.nodup_nil, fun g => ?_, fun line member => absurd member List.not_mem_nil⟩
    simp [real]

/-- What an accepted interaction has every federate sent; 0 is no federate. -/
theorem broadcastInteraction_receivedBy {root : RootObject}
    (forest : Forest.Ordered Interaction.handle Interaction.superClass root.interactions)
    {checkSizeData : InteractionClassHandle → ParameterHandle → V → Except Stop Unit}
    {date : Option Date} {fed : FederateHandle} {parameters : List ParameterHandle}
    {values : List V} {tag : String} {interaction : InteractionClassHandle}
    {sent : InteractionResponses V}
    (done : root.broadcastInteraction region
      (fun i => i.sendDated (checkSizeData i.handle) root.server region date fed parameters values
        update tag) interaction update = .ok sent) :
    (parameters.take (parameters.length % 2 ^ 16)).length ≤ values.length ∧ ∀ g, g ≠ 0 →
      sent.receivedBy g =
        if g ≠ fed ∧ root.server.hasReferences g = true then
          (arrival region update g (root.interactionLineage interaction)
            (.sentBy fed interaction date tag parameters values)).toList
        else [] := by
  unfold RootObject.broadcastInteraction at done
  obtain ⟨i, found, broadcast⟩ := bind_success done
  obtain ⟨⟨list, here⟩, own, passed⟩ := bind_success broadcast
  obtain ⟨above, later, all⟩ := bind_success passed
  cases all
  have located := getInteraction_ok (Stop.lift_ok found)
  have handle : i.handle = interaction := lookup_key located
  have climbs : root.interactionLineage interaction = i :: root.interactionLineage i.superClass :=
    Forest.ancestors_of_lookup forest located
  unfold Interaction.sendDated at own
  dsimp only at own
  split at own
  · cases own
  · obtain ⟨_, checked, told⟩ := bind_success own
    refine ⟨(checkEach_success checked).1, fun g federate => ?_⟩
    obtain ⟨message, kept, first⟩ := broadcastInteractionMessage_step (create_told _) told
    have fuel := Forest.ancestors_length forest i.superClass
    obtain ⟨silent, rest⟩ := passToSuperclasses_receivedBy forest g _ kept fuel later
    rw [InteractionResponses.receivedBy_append, climbs, arrival]
    by_cases sender : g = fed
    · have told : fed ≠ 0 ∧ g = fed := ⟨sender ▸ federate, sender⟩
      rw [(first g).1 (.inl told), silent (.inl told), if_neg fun both => both.1 sender]
      rfl
    · have untold : ¬ (fed ≠ 0 ∧ g = fed) := fun both => sender both.2
      simp only [sender, ne_eq, not_false_eq_true, true_and]
      cases hears : i.hears region update g with
      | true =>
        rw [(first g).2 untold hears, silent (.inr hears), List.append_nil, if_pos rfl, handle]
        rfl
      | false =>
        have untold' : ¬ ((fed ≠ 0 ∧ g = fed) ∨ i.hears region update g = true) := by
          rintro (already | heard)
          · exact untold already
          · exact absurd (hears.symm.trans heard) Bool.noConfusion
        rw [(first g).1 (.inr hears), rest untold', message, List.nil_append, handle]
        rfl

/-- The message arrives without the parameters that a class on the way did not know. -/
theorem arrival_eq (way : List Interaction) (m : ReceiveInteraction V) :
    arrival region update g way m = (way.find? (·.hears region update g)).map fun i =>
      { m with
        interactionClass := i.handle
        parameters := m.parameters.filter fun p =>
          keptOnTheWay region update g way p && i.hasParameter p } := by
  induction way generalizing m with
  | nil => rfl
  | cons i above ih =>
    rw [arrival]
    cases hears : i.hears region update g with
    | true =>
      simp [hears, keptOnTheWay, ReceiveInteraction.ofClass]
    | false =>
      have passes : ∀ p, keptOnTheWay region update g (i :: above) p =
          (i.hasParameter p && keptOnTheWay region update g above p) := by
        intro p
        simp [keptOnTheWay, List.takeWhile_cons, hears]
      rw [if_neg Bool.false_ne_true, ih, List.find?_cons, hears]
      simp only [passes, ReceiveInteraction.ofClass, List.filter_filter]
      congr 1
      funext j
      congr 2
      funext p
      cases i.hasParameter p <;> simp

end Broadcast

/-! ## Right arrivals -/

/-- A federate has received one message, for the class, with the pairs that the class knows. -/
def Interaction.Receives (i : Interaction) (parameters : List ParameterHandle) (values : List V)
    (got : List (ReceiveInteraction V)) : Prop :=
  ∃ m, got = [m] ∧ m.interactionClass = i.handle ∧
    m.parameters = parameters.filter i.hasParameter ∧
      m.parameters.zip m.values = pairsOf i.hasParameter parameters values

/-- No parameter of the class is cut off or lost on the way, and the values of those it knows are
the first ones. -/
structure Interaction.KnowsFirst (i : Interaction) (parameters : List ParameterHandle)
    (values : List V) (onTheWay : ParameterHandle → Bool) : Prop where
  counted : ∀ p ∈ parameters.drop (parameters.length % 2 ^ 16), i.hasParameter p = false
  kept : ∀ p ∈ parameters.take (parameters.length % 2 ^ 16), i.hasParameter p = true →
    onTheWay p = true
  first : (pairsOf i.hasParameter parameters values).map Prod.snd <+: values

theorem receives_iff {i : Interaction} {fed : FederateHandle} {interaction : InteractionClassHandle}
    {date : Option Date} {tag : String} {parameters : List ParameterHandle} {values : List V}
    {onTheWay : ParameterHandle → Bool}
    (enough : (parameters.take (parameters.length % 2 ^ 16)).length ≤ values.length) :
    i.Receives parameters values [{ ReceiveInteraction.sentBy fed interaction date tag parameters
      values with
        interactionClass := i.handle
        parameters := (parameters.take (parameters.length % 2 ^ 16)).filter fun p =>
          onTheWay p && i.hasParameter p }] ↔ i.KnowsFirst parameters values onTheWay := by
  have implies : ∀ p, (onTheWay p && i.hasParameter p) = true → i.hasParameter p = true :=
    fun p both => (Bool.and_eq_true _ _ ▸ both).2
  have pairs := taken_pairs_iff implies enough
  constructor
  · rintro ⟨m, got, _, same, paired⟩
    obtain rfl := List.singleton_inj.mp got
    obtain ⟨counted, kept, first⟩ := pairs.mp ⟨same, paired⟩
    refine ⟨counted, fun p member knows => ?_, first⟩
    have both := kept p member knows
    rw [Bool.and_eq_true] at both
    exact both.1
  · intro right
    obtain ⟨same, paired⟩ := pairs.mpr ⟨right.counted, fun p member knows => by
      rw [right.kept p member knows, knows]
      rfl, right.first⟩
    exact ⟨_, rfl, rfl, same, paired⟩

end Certi
