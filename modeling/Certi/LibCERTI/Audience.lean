import Certi.LibCERTI.Discovery
import Certi.LibCERTI.ValueBroadcast

/-!
# Who is sent which values

A broadcast takes one list of values from class to class. Only subscribers that
some class on the way has listed are sent a message, and a message has none but
the values the sender gave; it need not have those of its own attributes only.
-/
namespace Certi

open Collect Keyed

variable {V : Type}

/-! ## Updates -/

/-- The federate subscribes to one of the attributes. -/
def ObjectClass.HearsOf (c : ObjectClass) (hs : List AttributeHandle) (g : FederateHandle) : Prop :=
  ∃ a ∈ c.attributes, a.handle ∈ hs ∧ ∃ s ∈ a.subscribers, s.handle = g

/-- A Reflect_Attribute_Values with some of the attributes and of the values. -/
def AttributeMessage.ReflectsWithin (hs : List AttributeHandle) (values : List V) :
    AttributeMessage V → Prop
  | .rav message => (∀ h ∈ message.attributes, h ∈ hs) ∧ ∀ v ∈ message.values, v ∈ values
  | .raoa _ => False

namespace ObjectClassBroadcastList

variable {hs : List AttributeHandle} {values : List V} {P : FederateHandle → Prop}
  {l next : ObjectClassBroadcastList V}

/-- Whoever waits for something satisfies `P`. -/
def WaitingWithin (P : FederateHandle → Prop) (lines : BroadcastLines) : Prop :=
  ∀ line ∈ lines, ∀ a, line.stateFor a = .waiting → P line.federate

structure Within (hs : List AttributeHandle) (values : List V) (P : FederateHandle → Prop)
    (l : ObjectClassBroadcastList V) : Prop where
  message : l.message.ReflectsWithin hs values
  waiting : WaitingWithin P l.lines

theorem waitingWithin_start (P : FederateHandle → Prop) (sender : FederateHandle) :
    WaitingWithin P (BroadcastLines.start sender) := by
  intro line member a waits
  unfold BroadcastLines.start at member
  split at member
  · rw [List.mem_singleton.mp member] at waits
    cases waits
  · cases member

theorem waitingWithin_addFederate {maxHandle : AttributeHandle} {lines lines' : BroadcastLines}
    {fed : FederateHandle} {a : AttributeHandle} (waiting : WaitingWithin P lines) (hears : P fed)
    (added : lines.addFederate maxHandle fed a = .ok lines') : WaitingWithin P lines' := by
  unfold BroadcastLines.addFederate at added
  split at added
  · cases added
  · split at added
    · cases added
      intro line member b waits
      rcases List.mem_append.mp member with old | new
      · exact waiting line old b waits
      · rw [List.mem_singleton.mp new]
        exact hears
    · rename_i line found
      split at added
      · cases added
        refine forall_replace waiting ?_
        intro b _
        have federate : line.federate = fed := lookup_key found
        exact federate ▸ hears
      · cases added
        exact waiting

theorem trimRAV_within {c : ObjectClass} (within : l.message.ReflectsWithin hs values)
    (done : l.trimRAV c = .ok next) :
    next.message.ReflectsWithin hs values ∧ next.lines = l.lines := by
  obtain ⟨message, found, trimmed⟩ := bind_success done
  cases trimmed
  unfold getMsgRAV at found
  split at found
  · rename_i held
    cases found
    rw [held] at within
    exact ⟨⟨fun h member => within.1 h (List.mem_filter.mp member).1, within.2⟩, rfl⟩
  · cases found

theorem addSubscribers_within {region : RegionHandle → RTIRegion} {c : ObjectClass} {o : Object}
    (within : l.Within hs values P) (hears : ∀ g, c.HearsOf hs g → P g)
    (done : l.addSubscribers region c o = .ok next) : next.Within hs values P := by
  have attributes : ∀ h ∈ l.message.attributes, h ∈ hs := by
    have held := within.message
    cases message : l.message with
    | rav m =>
      rw [message] at held
      exact held.1
    | raoa m =>
      rw [message] at held
      cases held
  refine foldlM_keeps_mem (p := fun next => next.Within hs values P) ?_ within done
  intro s h asked s' before success
  split at success
  · cases success
    exact before
  · rename_i a found
    obtain ⟨oa, _, added⟩ := bind_success success
    refine foldlM_keeps_mem (p := fun next => next.Within hs values P) ?_ before added
    intro t subscriber listed t' holds each
    obtain ⟨overlap, _, put⟩ := bind_success each
    cases overlap with
    | false =>
      cases put
      exact holds
    | true =>
      obtain ⟨lines, told, kept⟩ := bind_success put
      cases kept
      have handle : a.handle = h := lookup_key found
      have hearing : P subscriber.handle := hears _
        ⟨a, lookup_mem found, handle ▸ attributes h asked, subscriber, listed, rfl⟩
      exact ⟨holds.message, waitingWithin_addFederate holds.waiting hearing told⟩

theorem reduced_within (line : ObjectBroadcastLine) {m : AttributeMessage V}
    (within : m.ReflectsWithin hs values) : (reduced line m).ReflectsWithin hs values := by
  cases m with
  | rav message =>
    constructor
    · intro h member
      obtain ⟨pair, inside, rfl⟩ := List.mem_map.mp member
      exact within.1 _ (List.of_mem_zip (List.mem_filter.mp inside).1).1
    · intro v member
      obtain ⟨pair, inside, rfl⟩ := List.mem_map.mp member
      exact within.2 _ (List.of_mem_zip (List.mem_filter.mp inside).1).2
  | raoa message => cases within

/-- What is sent, and what is left waiting. -/
theorem preparePending_within {server : SecurityServer} (within : l.Within hs values P) :
    (l.preparePending server).1.Within hs values P ∧
      ∀ r ∈ (l.preparePending server).2, P r.1 ∧ r.2.ReflectsWithin hs values := by
  constructor
  · refine ⟨within.message, ?_⟩
    intro line' member a waits
    obtain ⟨line, inside, rfl⟩ := List.mem_map.mp member
    split at waits
    · rename_i any
      rw [if_pos any, ObjectBroadcastLine.markAllSent_federate]
      rw [ObjectBroadcastLine.stateFor_markAllSent] at waits
      split at waits
      · cases waits
      · exact within.waiting line inside a waits
    · rename_i none
      rw [if_neg none]
      exact within.waiting line inside a waits
  · intro r member
    obtain ⟨line, inside, rfl⟩ := List.mem_map.mp member
    obtain ⟨listed, waits⟩ := List.mem_filter.mp inside
    rw [Bool.and_eq_true, ObjectBroadcastLine.isWaitingAny_iff] at waits
    obtain ⟨⟨a, _, _, waiting⟩, _⟩ := waits
    refine ⟨within.waiting line listed a waiting, ?_⟩
    unfold messageFor
    split
    · exact within.message
    · exact reduced_within line within.message

end ObjectClassBroadcastList

section updates

variable {region : RegionHandle → RTIRegion} {hs : List AttributeHandle} {values : List V}
  {P : FederateHandle → Prop}

theorem broadcastClassMessage_within {server : SecurityServer} {c : ObjectClass} {o : Object}
    {l next : ObjectClassBroadcastList V} {sent : List (FederateHandle × AttributeMessage V)}
    (within : l.Within hs values P) (hears : ∀ g, c.HearsOf hs g → P g)
    (done : c.broadcastClassMessage server region l (some o) = .ok (next, sent)) :
    next.Within hs values P ∧ ∀ r ∈ sent, P r.1 ∧ r.2.ReflectsWithin hs values := by
  unfold ObjectClass.broadcastClassMessage at done
  split at done
  · obtain ⟨trimmed, trim, broadcast⟩ := bind_success done
    obtain ⟨listed, added, told⟩ := bind_success broadcast
    obtain ⟨message, lines⟩ := ObjectClassBroadcastList.trimRAV_within within.message trim
    have listed' := ObjectClassBroadcastList.addSubscribers_within
      ⟨message, lines ▸ within.waiting⟩ hears (Stop.lift_ok added)
    cases told
    exact ObjectClassBroadcastList.preparePending_within listed'
  · rename_i held
    have impossible := within.message
    rw [held] at impossible
    cases impossible

/-- The climb goes through the classes above. -/
theorem broadcastToSuperclasses_within {root : RootObject} (forest : root.ClassForest)
    {o : Object} (fuel : Nat) :
    ∀ {current : ObjectClassHandle} {l : ObjectClassBroadcastList V}
      {sent : List (FederateHandle × AttributeMessage V)}, l.Within hs values P →
      (∀ c ∈ root.lineage current, ∀ g, c.HearsOf hs g → P g) →
      root.broadcastToSuperclasses region (some o) fuel current (some l) = .ok sent →
        ∀ r ∈ sent, P r.1 ∧ r.2.ReflectsWithin hs values := by
  induction fuel with
  | zero =>
    intro current l sent _ _ done r member
    cases done
    cases member
  | succ fuel ih =>
    intro current l sent within hears done r member
    unfold RootObject.broadcastToSuperclasses at done
    split at done
    · cases done
      cases member
    · split at done
      · cases done
      · rename_i c found
        obtain ⟨⟨next, here⟩, own, passed⟩ := bind_success done
        obtain ⟨above, later, all⟩ := bind_success passed
        cases all
        have climbs : root.lineage current = c :: root.lineage c.superClass :=
          Forest.ancestors_of_lookup forest found
        rw [climbs] at hears
        obtain ⟨kept, told⟩ :=
          broadcastClassMessage_within within (hears c List.mem_cons_self) own
        rcases List.mem_append.mp member with first | rest
        · exact told r first
        · exact ih kept (fun c member => hears c (List.mem_cons_of_mem _ member)) later r rest

/-- An update is sent to subscribers of the class or a superclass, with values of the update. -/
theorem updateAttributeValues_within {root : RootObject} (forest : root.ClassForest)
    {checkSizeData : ObjectClassHandle → AttributeHandle → V → Except Stop Unit}
    {date : Option Date} {fed : FederateHandle} {object : Object} {tag : String}
    {sent : List (FederateHandle × AttributeMessage V)}
    (done : root.updateAttributeValues region
      (fun c => c.updateDated (checkSizeData c.handle) root.server region date fed object hs values
        tag) object = .ok sent) :
    ∀ r ∈ sent, (∃ c ∈ root.lineage object.classHandle, c.HearsOf hs r.1) ∧
      r.2.ReflectsWithin hs values := by
  obtain ⟨c, found, broadcast⟩ := bind_success done
  obtain ⟨⟨list, here⟩, own, passed⟩ := bind_success broadcast
  obtain ⟨above, later, all⟩ := bind_success passed
  cases all
  obtain ⟨_, _, told⟩ := bind_success own
  have located : root.class? object.classHandle = some c := by
    have known := Stop.lift_ok found
    unfold RootObject.getObjectFromHandle at known
    split at known
    · rename_i there
      cases known
      exact there
    · cases known
  have climbs : root.lineage object.classHandle = c :: root.lineage c.superClass :=
    Forest.ancestors_of_lookup forest located
  let hearing (g : FederateHandle) : Prop := ∃ c ∈ root.lineage object.classHandle, c.HearsOf hs g
  have begins : ObjectClassBroadcastList.Within hs values hearing
      (.create (.rav ⟨fed, object.handle, date, tag, hs, values.take hs.length⟩)
        c.attributes.length) :=
    ⟨show _ ∧ _ from ⟨fun _ member => member, fun _ member => List.mem_of_mem_take member⟩,
      ObjectClassBroadcastList.waitingWithin_start hearing fed⟩
  obtain ⟨kept, first⟩ := broadcastClassMessage_within begins
    (fun g hears => ⟨c, climbs ▸ List.mem_cons_self, hears⟩) told
  intro r member
  rcases List.mem_append.mp member with here | rest
  · exact first r here
  · refine broadcastToSuperclasses_within forest _ kept (fun d inside g hears => ⟨d, ?_, hears⟩)
      later r rest
    rw [climbs]
    exact List.mem_cons_of_mem c inside

end updates

/-! ## Interactions -/

section interactions

variable {server : SecurityServer} {region : RegionHandle → RTIRegion}
  {update : Option RegionHandle} {values : List V} {P : FederateHandle → Prop}

/-- The class and its superclasses, as `InteractionSet::broadcastInteraction` visits them. -/
def RootObject.interactionLineage (root : RootObject) (h : InteractionClassHandle) :
    List Interaction :=
  Forest.ancestors Interaction.handle Interaction.superClass root.interactions h

def Interaction.HeardBy (i : Interaction) (g : FederateHandle) : Prop :=
  ∃ s ∈ i.subscribers, s.handle = g

/-- Whoever waits satisfies `P`, and the values are some of the values given. -/
structure InteractionBroadcastList.Within (values : List V) (P : FederateHandle → Prop)
    (l : InteractionBroadcastList V) : Prop where
  message : ∀ v ∈ l.message.values, v ∈ values
  waiting : ∀ line ∈ l.lines, line.2 = .waiting → P line.1

/-- What is sent to whom. -/
def SentWithin (values : List V) (P : FederateHandle → Prop) (sent : InteractionResponses V) :
    Prop :=
  ∀ r ∈ sent, (∀ g ∈ r.1, P g) ∧ ∀ v ∈ r.2.values, v ∈ values

theorem addFederate_within {l : InteractionBroadcastList V} {fed : FederateHandle}
    (within : l.Within values P) (hears : P fed) : (l.addFederate fed).Within values P := by
  unfold InteractionBroadcastList.addFederate
  split
  · refine ⟨within.message, ?_⟩
    intro line member waits
    rcases List.mem_append.mp member with old | new
    · exact within.waiting line old waits
    · rw [List.mem_singleton.mp new]
      exact hears
  · exact within

theorem preparePendingMessage_within {l : InteractionBroadcastList V}
    (within : l.Within values P) : (l.preparePendingMessage server).1.Within values P ∧
      SentWithin values P (l.preparePendingMessage server).2 := by
  constructor
  · refine ⟨within.message, ?_⟩
    intro line' member waits
    obtain ⟨line, inside, rfl⟩ := List.mem_map.mp member
    split at waits
    · cases waits
    · rename_i idle
      exact absurd waits idle
  · intro r member
    rw [List.mem_singleton.mp member]
    refine ⟨fun g listed => ?_, within.message⟩
    obtain ⟨line, inside, rfl⟩ := List.mem_map.mp listed
    obtain ⟨there, waits⟩ := List.mem_filter.mp inside
    rw [Bool.and_eq_true, decide_eq_true_eq] at waits
    exact within.waiting line there waits.1

theorem broadcastInteractionMessage_within {i : Interaction} {l next : InteractionBroadcastList V}
    {sent : InteractionResponses V} (within : l.Within values P) (hears : ∀ g, i.HeardBy g → P g)
    (done : i.broadcastInteractionMessage server region l update = .ok (next, sent)) :
    next.Within values P ∧ SentWithin values P sent := by
  unfold Interaction.broadcastInteractionMessage at done
  obtain ⟨listed, added, told⟩ := bind_success done
  cases told
  have lists : listed.Within values P := by
    have own := Stop.lift_ok added
    unfold InteractionBroadcastList.addFederatesIfOverlap at own
    refine foldlM_keeps_mem (p := fun next : InteractionBroadcastList V => next.Within values P)
      ?_ ?_ own
    case refine_2 => exact ⟨within.message, within.waiting⟩
    intro t subscriber listed t' holds each
    obtain ⟨overlap, _, put⟩ := bind_success each
    cases overlap with
    | false =>
      cases put
      exact holds
    | true =>
      cases put
      exact addFederate_within holds (hears _ ⟨subscriber, listed, rfl⟩)
  exact preparePendingMessage_within lists

theorem getInteraction_ok {root : RootObject} {h : InteractionClassHandle} {i : Interaction}
    (found : root.getInteraction h = .ok i) :
    lookup Interaction.handle h root.interactions = some i := by
  unfold RootObject.getInteraction at found
  split at found
  · rename_i there
    cases found
    exact there
  · cases found

theorem passToSuperclasses_within {root : RootObject}
    (forest : Forest.Ordered Interaction.handle Interaction.superClass root.interactions)
    (fuel : Nat) : ∀ {current : InteractionClassHandle} {l : InteractionBroadcastList V}
      {sent : InteractionResponses V}, l.Within values P →
      (∀ i ∈ root.interactionLineage current, ∀ g, i.HeardBy g → P g) →
      root.passToSuperclasses region update fuel current l = .ok sent →
        SentWithin values P sent := by
  induction fuel with
  | zero =>
    intro current l sent _ _ done r member
    cases done
    cases member
  | succ fuel ih =>
    intro current l sent within hears done r member
    unfold RootObject.passToSuperclasses at done
    split at done
    · cases done
      cases member
    · obtain ⟨i, found, broadcast⟩ := bind_success done
      obtain ⟨⟨next, here⟩, own, passed⟩ := bind_success broadcast
      obtain ⟨above, later, all⟩ := bind_success passed
      cases all
      have climbs : root.interactionLineage current = i :: root.interactionLineage i.superClass :=
        Forest.ancestors_of_lookup forest (getInteraction_ok (Stop.lift_ok found))
      rw [climbs] at hears
      obtain ⟨kept, told⟩ :=
        broadcastInteractionMessage_within within (hears i List.mem_cons_self) own
      rcases List.mem_append.mp member with first | rest
      · exact told r first
      · exact ih kept (fun d member => hears d (List.mem_cons_of_mem _ member)) later r rest

/-- An interaction is sent to subscribers of the class or a superclass, with values that were
given. -/
theorem broadcastInteraction_within {root : RootObject}
    (forest : Forest.Ordered Interaction.handle Interaction.superClass root.interactions)
    {checkSizeData : InteractionClassHandle → ParameterHandle → V → Except Stop Unit}
    {date : Option Date} {fed : FederateHandle} {parameters : List ParameterHandle}
    {tag : String} {interaction : InteractionClassHandle} {sent : InteractionResponses V}
    (done : root.broadcastInteraction region
      (fun i => i.sendDated (checkSizeData i.handle) root.server region date fed parameters values
        update tag) interaction update = .ok sent) :
    SentWithin values (fun g => ∃ i ∈ root.interactionLineage interaction, i.HeardBy g) sent := by
  unfold RootObject.broadcastInteraction at done
  obtain ⟨i, found, broadcast⟩ := bind_success done
  obtain ⟨⟨list, here⟩, own, passed⟩ := bind_success broadcast
  obtain ⟨above, later, all⟩ := bind_success passed
  cases all
  have climbs : root.interactionLineage interaction = i :: root.interactionLineage i.superClass :=
    Forest.ancestors_of_lookup forest (getInteraction_ok (Stop.lift_ok found))
  unfold Interaction.sendDated at own
  dsimp only at own
  split at own
  · cases own
  · obtain ⟨_, _, told⟩ := bind_success own
    let hearing (g : FederateHandle) : Prop :=
      ∃ i ∈ root.interactionLineage interaction, i.HeardBy g
    have begins : ∀ message : ReceiveInteraction V, (∀ v ∈ message.values, v ∈ values) →
        (InteractionBroadcastList.create message).Within values hearing := by
      intro message given
      refine ⟨given, fun line member waits => ?_⟩
      simp only [InteractionBroadcastList.create] at member
      split at member
      · rw [List.mem_singleton.mp member] at waits
        cases waits
      · cases member
    obtain ⟨kept, first⟩ := broadcastInteractionMessage_within
      (begins _ fun _ member => List.mem_of_mem_take member)
      (fun g hears => ⟨i, climbs ▸ List.mem_cons_self, hears⟩) told
    intro r member
    rcases List.mem_append.mp member with start | rest
    · exact first r start
    · refine passToSuperclasses_within forest _ kept (fun d inside g hears => ⟨d, ?_, hears⟩)
        later r rest
      rw [climbs]
      exact List.mem_cons_of_mem i inside

end interactions

end Certi
