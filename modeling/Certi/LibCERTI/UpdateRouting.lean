import Certi.Lib.Pairing
import Certi.LibCERTI.Audience

/-!
# Where an update arrives

`ObjectClassSet::updateAttributeValues` climbs with one message and, per
federate, one state for each attribute. A federate is sent an attribute when the
first class is reached at which it hears it, if no class on the way there has
dropped it; it then stands in the message behind the attributes that are left
of those before it.
-/
namespace Certi

open Collect Keyed Pairing

variable {V : Type}

namespace AttributeMessage

def values : AttributeMessage V → List V
  | rav message => message.values
  | raoa _ => []

/-- What the receiver reads: the attributes, each with the value of its place. -/
def pairs (m : AttributeMessage V) : List (AttributeHandle × V) := m.attributes.zip m.values

end AttributeMessage

abbrev AttributeResponses (V : Type) := List (FederateHandle × AttributeMessage V)

namespace AttributeResponses

/-- The messages that a federate is sent. -/
def receivedBy (sent : AttributeResponses V) (g : FederateHandle) : List (AttributeMessage V) :=
  (sent.filter fun r => r.1 = g).map Prod.snd

/-- The attributes that a federate is sent, over all messages. -/
def attributesTo (sent : AttributeResponses V) (g : FederateHandle) : List AttributeHandle :=
  (receivedBy sent g).flatMap AttributeMessage.attributes

/-- The attributes with their values that a federate is sent, over all messages. -/
def pairsTo (sent : AttributeResponses V) (g : FederateHandle) : List (AttributeHandle × V) :=
  (receivedBy sent g).flatMap AttributeMessage.pairs

/-- Of this attribute the federate is sent what a list of attributes and values has. -/
structure Share (g : FederateHandle) (a : AttributeHandle) (hs : List AttributeHandle)
    (values : List V) (sent : AttributeResponses V) : Prop where
  count : (attributesTo sent g).count a = hs.count a
  pairs : (pairsTo sent g).filter (fun p => p.1 = a) = (hs.zip values).filter fun p => p.1 = a

variable {g : FederateHandle} {a : AttributeHandle} {hs : List AttributeHandle} {values : List V}

@[simp] theorem receivedBy_append (sent later : AttributeResponses V) (g : FederateHandle) :
    receivedBy (sent ++ later) g = receivedBy sent g ++ receivedBy later g := by
  simp [receivedBy]

theorem Share.append_nil {sent later : AttributeResponses V} (first : Share g a hs values sent)
    (rest : Share g a [] values later) : Share g a hs values (sent ++ later) := by
  constructor
  · have none := rest.count
    have own := first.count
    unfold attributesTo at none own ⊢
    rw [receivedBy_append, List.flatMap_append, List.count_append, own, none]
    rfl
  · have none := rest.pairs
    have own := first.pairs
    unfold pairsTo at none own ⊢
    rw [receivedBy_append, List.flatMap_append, List.filter_append, own, none]
    simp

theorem Share.nil_append {sent later : AttributeResponses V} (first : Share g a [] values sent)
    (rest : Share g a hs values later) : Share g a hs values (sent ++ later) := by
  constructor
  · have none := first.count
    have own := rest.count
    unfold attributesTo at none own ⊢
    rw [receivedBy_append, List.flatMap_append, List.count_append, own, none]
    simp
  · have none := first.pairs
    have own := rest.pairs
    unfold pairsTo at none own ⊢
    rw [receivedBy_append, List.flatMap_append, List.filter_append, own, none]
    simp

theorem Share.mem_pairsTo {sent : AttributeResponses V} (share : Share g a hs values sent) (v : V) :
    (a, v) ∈ pairsTo sent g ↔ (a, v) ∈ hs.zip values := by
  have same := share.pairs
  constructor
  · intro member
    have listed : (a, v) ∈ (pairsTo sent g).filter fun p => p.1 = a :=
      List.mem_filter.mpr ⟨member, by simp⟩
    rw [same] at listed
    exact (List.mem_filter.mp listed).1
  · intro member
    have listed : (a, v) ∈ (hs.zip values).filter fun p => p.1 = a :=
      List.mem_filter.mpr ⟨member, by simp⟩
    rw [← same] at listed
    exact (List.mem_filter.mp listed).1

theorem Share.mem_attributesTo {sent : AttributeResponses V} (share : Share g a hs values sent) :
    a ∈ attributesTo sent g ↔ a ∈ hs := by
  rw [← List.count_pos_iff, share.count, List.count_pos_iff]

/-- Nothing sent is what an empty list has. -/
theorem share_nil (g : FederateHandle) (a : AttributeHandle) (values : List V) :
    Share g a [] values ([] : AttributeResponses V) := ⟨rfl, rfl⟩

end AttributeResponses

/-! ## The audience of one class -/

namespace ObjectClassBroadcastList

/-- A step has made some federates wait for some attributes, those told already apart. -/
structure Listed (hears : FederateHandle → AttributeHandle → Prop)
    (l next : ObjectClassBroadcastList V) : Prop where
  message : next.message = l.message
  maxHandle : next.maxHandle = l.maxHandle
  distinct : next.lines.Distinct
  bounded : ∀ g b, hears g b → b ≤ l.maxHandle
  sent : ∀ g b, next.lines.status g b = .sent ↔ l.lines.status g b = .sent
  waiting : ∀ g b, next.lines.status g b = .waiting ↔
    l.lines.status g b = .waiting ∨ (l.lines.status g b ≠ .sent ∧ hears g b)

variable {hears : FederateHandle → AttributeHandle → Prop} {l next : ObjectClassBroadcastList V}

theorem Listed.refl (distinct : l.lines.Distinct) : Listed (fun _ _ => False) l l :=
  ⟨rfl, rfl, distinct, fun _ _ none => none.elim, fun _ _ => Iff.rfl, fun _ _ => by simp⟩

theorem Listed.congr {hears' : FederateHandle → AttributeHandle → Prop}
    (listed : Listed hears l next) (same : ∀ g b, hears g b ↔ hears' g b) :
    Listed hears' l next := by
  have equal : hears = hears' := by
    funext g b
    exact propext (same g b)
  exact equal ▸ listed

theorem Listed.trans {hears' : FederateHandle → AttributeHandle → Prop}
    {middle : ObjectClassBroadcastList V} (first : Listed hears l middle)
    (rest : Listed hears' middle next) : Listed (fun g b => hears g b ∨ hears' g b) l next where
  message := rest.message.trans first.message
  maxHandle := rest.maxHandle.trans first.maxHandle
  distinct := rest.distinct
  bounded g b := by
    rintro (here | later)
    · exact first.bounded g b here
    · exact first.maxHandle ▸ rest.bounded g b later
  sent g b := (rest.sent g b).trans (first.sent g b)
  waiting g b := by
    simp only [rest.waiting, first.waiting, ne_eq, first.sent]
    tauto

/-- A loop whose steps list. -/
theorem foldlM_listed {α : Type}
    {step : ObjectClassBroadcastList V → α → Except RTIException (ObjectClassBroadcastList V)}
    {H : α → FederateHandle → AttributeHandle → Prop} {xs : List α} :
    (∀ x ∈ xs, ∀ s s' : ObjectClassBroadcastList V, s.lines.Distinct → s.maxHandle = l.maxHandle →
      step s x = .ok s' → Listed (H x) s s') →
    ∀ {s s' : ObjectClassBroadcastList V}, s.lines.Distinct → s.maxHandle = l.maxHandle →
      xs.foldlM step s = .ok s' → Listed (fun g b => ∃ x ∈ xs, H x g b) s s' := by
  induction xs with
  | nil =>
    intro _ s s' distinct _ done
    cases done
    exact (Listed.refl distinct).congr (by simp)
  | cons x rest ih =>
    intro each s s' distinct same done
    rw [List.foldlM_cons] at done
    obtain ⟨middle, first, later⟩ := bind_success done
    have here := each x List.mem_cons_self s middle distinct same first
    have above := ih (fun y member => each y (List.mem_cons_of_mem x member)) here.distinct
      (here.maxHandle.trans same) later
    exact (here.trans above).congr fun g b => by simp

theorem addFederate_listed {lines : BroadcastLines} {fed : FederateHandle} {a : AttributeHandle}
    (distinct : l.lines.Distinct) (added : l.lines.addFederate l.maxHandle fed a = .ok lines) :
    Listed (fun g b => g = fed ∧ b = a) l { l with lines := lines } := by
  obtain ⟨bound, distinct', status⟩ := BroadcastLines.addFederate_success distinct added
  refine ⟨rfl, rfl, distinct', fun g b both => both.2 ▸ bound, fun g b => ?_, fun g b => ?_⟩
  · dsimp only
    rw [status g b]
    split
    · rename_i told
      exact iff_of_false LineState.noConfusion told.2.2
    · exact Iff.rfl
  · dsimp only
    rw [status g b]
    by_cases here : g = fed ∧ b = a ∧ l.lines.status g b ≠ .sent
    · rw [if_pos here]
      exact iff_of_true rfl (.inr ⟨here.2.2, here.1, here.2.1⟩)
    · rw [if_neg here]
      constructor
      · exact .inl
      · rintro (waits | ⟨open', same, equal⟩)
        · exact waits
        · exact absurd ⟨same, equal, open'⟩ here

theorem addFederatesIfOverlap_listed {region : RegionHandle → RTIRegion} {a : AttributeHandle}
    {update : Option RegionHandle} {subscribers : List Subscriber} (distinct : l.lines.Distinct)
    (done : l.addFederatesIfOverlap region a update subscribers = .ok next) :
    Listed (fun g b => ∃ s ∈ subscribers,
      b = a ∧ s.handle = g ∧ s.matches region update = .ok true) l next := by
  refine foldlM_listed (l := l) ?_ distinct rfl done
  intro s _ t t' distinct' same each
  obtain ⟨overlap, matched, added⟩ := bind_success each
  cases overlap with
  | true =>
    obtain ⟨lines, told, kept⟩ := bind_success added
    cases kept
    refine (addFederate_listed distinct' told).congr fun g b => ?_
    constructor
    · rintro ⟨rfl, rfl⟩
      exact ⟨rfl, rfl, matched⟩
    · rintro ⟨rfl, rfl, _⟩
      exact ⟨rfl, rfl⟩
  | false =>
    cases added
    refine (Listed.refl distinct').congr fun g b => ?_
    constructor
    · exact False.elim
    · rintro ⟨_, _, matched'⟩
      exact absurd (matched.symm.trans matched') (by simp)

end ObjectClassBroadcastList

/-- The federate is subscribed to the attribute of the class, with a region that meets the one
the instance's attribute is associated with. -/
def ObjectClass.hears (region : RegionHandle → RTIRegion) (o : Object) (g : FederateHandle)
    (h : AttributeHandle) (c : ObjectClass) : Bool :=
  match c.attribute? h, o.attribute? h with
  | some oca, some oa =>
    oca.subscribers.any fun s => s.handle = g && decide (s.matches region oa.region = .ok true)
  | _, _ => false

theorem ObjectClass.hears_iff {region : RegionHandle → RTIRegion} {o : Object}
    {g : FederateHandle} {h : AttributeHandle} {c : ObjectClass} {oca : ObjectClassAttribute}
    {oa : ObjectAttribute} (own : c.attribute? h = some oca)
    (instance' : o.attribute? h = some oa) :
    c.hears region o g h = true ↔
      ∃ s ∈ oca.subscribers, s.handle = g ∧ s.matches region oa.region = .ok true := by
  simp [ObjectClass.hears, own, instance']

/-- What a class has not is heard by nobody. -/
theorem ObjectClass.hears_hasAttribute {region : RegionHandle → RTIRegion} {o : Object}
    {g : FederateHandle} {h : AttributeHandle} {c : ObjectClass}
    (hears : c.hears region o g h = true) : c.hasAttribute h = true := by
  unfold ObjectClass.hears at hears
  split at hears
  · rename_i own _
    rw [ObjectClass.hasAttribute, own]
    rfl
  · cases hears

namespace ObjectClassBroadcastList

theorem addSubscribers_listed {region : RegionHandle → RTIRegion} {c : ObjectClass} {o : Object}
    {l next : ObjectClassBroadcastList V} (distinct : l.lines.Distinct)
    (done : l.addSubscribers region c o = .ok next) :
    Listed (fun g b => b ∈ l.message.attributes ∧ c.hears region o g b = true) l next := by
  have listed : Listed (fun g b => ∃ h ∈ l.message.attributes,
      b = h ∧ c.hears region o g h = true) l next := by
    refine foldlM_listed (l := l) ?_ distinct rfl done
    intro h _ t t' distinct' same each
    split at each
    · rename_i absent
      cases each
      refine (Listed.refl distinct').congr fun g b => ?_
      constructor
      · exact False.elim
      · rintro ⟨_, hears⟩
        have has := ObjectClass.hears_hasAttribute hears
        rw [ObjectClass.hasAttribute, absent] at has
        cases has
    · rename_i oca found
      obtain ⟨oa, got, added⟩ := bind_success each
      have handle : oca.handle = h := lookup_key found
      have held : o.attribute? h = some oa := by
        unfold Object.getAttribute at got
        split at got
        · rename_i there
          cases got
          exact there
        · cases got
      refine (addFederatesIfOverlap_listed distinct' added).congr fun g b => ?_
      rw [ObjectClass.hears_iff found held, handle]
      constructor
      · rintro ⟨s, member, rfl, both⟩
        exact ⟨rfl, s, member, both⟩
      · rintro ⟨rfl, s, member, both⟩
        exact ⟨s, member, rfl, both⟩
  refine listed.congr fun g b => ?_
  constructor
  · rintro ⟨h, member, rfl, hears⟩
    exact ⟨member, hears⟩
  · rintro ⟨member, hears⟩
    exact ⟨b, member, rfl, hears⟩

/-! ## What is pending -/

variable {server : SecurityServer} {l : ObjectClassBroadcastList V}

/-- A line as it is left when its message has been prepared. -/
def settled (maxHandle : AttributeHandle) (line : ObjectBroadcastLine) : ObjectBroadcastLine :=
  if line.isWaitingAny maxHandle then line.markAllSent maxHandle else line

theorem settled_federate (maxHandle : AttributeHandle) (line : ObjectBroadcastLine) :
    (settled maxHandle line).federate = line.federate := by
  unfold settled
  split
  · exact line.markAllSent_federate maxHandle
  · rfl

theorem settled_stateFor (maxHandle b : AttributeHandle) (line : ObjectBroadcastLine) :
    (settled maxHandle line).stateFor b =
      if (1 ≤ b ∧ b ≤ maxHandle) ∧ line.stateFor b = .waiting then .sent else line.stateFor b := by
  unfold settled
  split
  · exact line.stateFor_markAllSent maxHandle b
  · rename_i none
    refine (if_neg fun waits => none ?_).symm
    exact (line.isWaitingAny_iff maxHandle).mpr ⟨b, waits.1.1, waits.1.2, waits.2⟩

theorem preparePending_lines :
    (l.preparePending server).1.lines = l.lines.map (settled l.maxHandle) := rfl

theorem preparePending_distinct (server : SecurityServer) (distinct : l.lines.Distinct) :
    (l.preparePending server).1.lines.Distinct := by
  unfold BroadcastLines.Distinct at distinct ⊢
  rw [preparePending_lines, List.map_map]
  have same : ObjectBroadcastLine.federate ∘ settled l.maxHandle = ObjectBroadcastLine.federate :=
    funext fun line => settled_federate l.maxHandle line
  rw [same]
  exact distinct

/-- Attributes that waited count as sent. -/
theorem preparePending_status (g : FederateHandle) (b : AttributeHandle) :
    (l.preparePending server).1.lines.status g b =
      if (1 ≤ b ∧ b ≤ l.maxHandle) ∧ l.lines.status g b = .waiting then .sent
      else l.lines.status g b := by
  have found : BroadcastLines.line? (l.lines.map (settled l.maxHandle)) g =
      (l.lines.line? g).map (settled l.maxHandle) :=
    lookup_map (fun line _ => settled_federate l.maxHandle line) g
  rw [preparePending_lines]
  unfold BroadcastLines.status
  rw [found]
  cases l.lines.line? g with
  | none => simp
  | some line => exact settled_stateFor l.maxHandle b line

/-- The federate's line is the only one that sends it something. -/
theorem preparePending_receivedBy (server : SecurityServer) (distinct : l.lines.Distinct)
    (g : FederateHandle) :
    AttributeResponses.receivedBy (l.preparePending server).2 g =
      ((l.lines.line? g).toList.filter fun line =>
        line.isWaitingAny l.maxHandle && server.hasReferences line.federate).map l.messageFor := by
  have one : l.lines.filter (fun line => line.federate = g) = (l.lines.line? g).toList :=
    filter_key_of_nodup distinct g
  rw [← one]
  simp only [AttributeResponses.receivedBy, preparePending, List.filter_map, List.map_map,
    List.filter_filter, Function.comp_def, Bool.and_comm]

/-- What the line of a federate has it sent of an attribute. -/
theorem messageFor_pairs {message : ReflectAttributeValues V} (held : l.message = .rav message)
    (line : ObjectBroadcastLine) (a : AttributeHandle) :
    (l.messageFor line).pairs.filter (fun p => p.1 = a) =
      if line.stateFor a = .waiting then
        (message.attributes.zip message.values).filter fun p => p.1 = a
      else [] := by
  unfold messageFor
  split
  · rename_i all
    rw [held] at all ⊢
    unfold ObjectBroadcastLine.isWaitingAll at all
    rw [List.all_eq_true] at all
    by_cases waits : line.stateFor a = .waiting
    · rw [if_pos waits]
      rfl
    · rw [if_neg waits]
      refine List.filter_eq_nil_iff.mpr fun p member => ?_
      rw [decide_eq_true_eq]
      rintro rfl
      exact waits (of_decide_eq_true (all p.1 (List.of_mem_zip member).1))
  · rw [held]
    unfold reduced AttributeMessage.pairs AttributeMessage.attributes AttributeMessage.values
    dsimp only
    rw [zip_map, List.filter_filter]
    by_cases waits : line.stateFor a = .waiting
    · rw [if_pos waits]
      refine List.filter_congr fun p _ => ?_
      by_cases same : p.1 = a <;> simp [same, waits]
    · rw [if_neg waits]
      refine List.filter_eq_nil_iff.mpr fun p _ => ?_
      by_cases same : p.1 = a <;> simp [same, waits]

theorem messageFor_count {message : ReflectAttributeValues V} (held : l.message = .rav message)
    (enough : message.attributes.length ≤ message.values.length)
    (line : ObjectBroadcastLine) (a : AttributeHandle) :
    (l.messageFor line).attributes.count a =
      if line.stateFor a = .waiting then message.attributes.count a else 0 := by
  unfold messageFor
  split
  · rename_i all
    rw [held] at all ⊢
    unfold ObjectBroadcastLine.isWaitingAll at all
    rw [List.all_eq_true] at all
    by_cases waits : line.stateFor a = .waiting
    · rw [if_pos waits]
      rfl
    · rw [if_neg waits]
      refine List.count_eq_zero.mpr fun member => ?_
      exact waits (of_decide_eq_true (all a member))
  · rw [held]
    unfold reduced AttributeMessage.attributes
    dsimp only
    have keys := pairsOf_keys (fun h => decide (line.stateFor h = .waiting)) enough
    unfold pairsOf at keys
    rw [keys]
    by_cases waits : line.stateFor a = .waiting
    · rw [if_pos waits]
      exact List.count_filter (by simpa using waits)
    · rw [if_neg waits]
      refine List.count_eq_zero.mpr fun member => ?_
      exact waits (of_decide_eq_true (List.mem_filter.mp member).2)

theorem messageFor_valued {message : ReflectAttributeValues V} (held : l.message = .rav message)
    (enough : message.attributes.length ≤ message.values.length) (line : ObjectBroadcastLine) :
    (l.messageFor line).attributes.length ≤ (l.messageFor line).values.length := by
  unfold messageFor
  split
  · rw [held]
    exact enough
  · rw [held]
    simp [reduced, AttributeMessage.attributes, AttributeMessage.values]

/-- Of an attribute that waits the federate is sent what the message has, of others nothing. -/
theorem preparePending_share (server : SecurityServer) {message : ReflectAttributeValues V}
    (held : l.message = .rav message)
    (enough : message.attributes.length ≤ message.values.length) (distinct : l.lines.Distinct)
    (g : FederateHandle) (a : AttributeHandle) :
    (l.lines.status g a = .waiting → 1 ≤ a → a ≤ l.maxHandle → server.hasReferences g = true →
      AttributeResponses.Share g a message.attributes message.values
        (l.preparePending server).2) ∧
    (l.lines.status g a ≠ .waiting ∨ server.hasReferences g = false →
      AttributeResponses.Share g a [] message.values (l.preparePending server).2) := by
  have received := preparePending_receivedBy server distinct g
  constructor
  · intro waits positive bounded reached
    unfold BroadcastLines.status at waits
    cases found : l.lines.line? g with
    | none => simp [found] at waits
    | some line =>
      rw [found] at waits received
      have federate : line.federate = g := lookup_key found
      have any : line.isWaitingAny l.maxHandle = true :=
        (line.isWaitingAny_iff l.maxHandle).mpr ⟨a, positive, bounded, waits⟩
      simp only [Option.toList_some, any, federate, reached, Bool.and_self, List.filter_cons,
        List.filter_nil, if_true, List.map_cons, List.map_nil] at received
      constructor
      · unfold AttributeResponses.attributesTo
        rw [received, List.flatMap_singleton, messageFor_count held enough, if_pos waits]
      · unfold AttributeResponses.pairsTo
        rw [received, List.flatMap_singleton, messageFor_pairs held, if_pos waits]
  · intro idle
    have misses : ∀ m ∈ AttributeResponses.receivedBy (l.preparePending server).2 g,
        m.attributes.count a = 0 ∧ m.pairs.filter (fun p => p.1 = a) = [] := by
      intro m member
      rw [received] at member
      obtain ⟨line, listed, rfl⟩ := List.mem_map.mp member
      obtain ⟨there, sends⟩ := List.mem_filter.mp listed
      have found : l.lines.line? g = some line := Option.mem_toList.mp there
      have federate : line.federate = g := lookup_key found
      rw [Bool.and_eq_true, federate] at sends
      have waits : line.stateFor a ≠ .waiting := by
        rcases idle with status | lost
        · unfold BroadcastLines.status at status
          rw [found] at status
          exact status
        · exact absurd (sends.2.symm.trans lost) Bool.noConfusion
      rw [messageFor_count held enough, messageFor_pairs held, if_neg waits, if_neg waits]
      exact ⟨rfl, rfl⟩
    constructor
    · unfold AttributeResponses.attributesTo
      refine List.count_eq_zero.mpr fun member => ?_
      obtain ⟨m, inside, there⟩ := List.mem_flatMap.mp member
      exact List.count_eq_zero.mp (misses m inside).1 there
    · unfold AttributeResponses.pairsTo
      rw [List.filter_flatMap]
      refine List.flatMap_eq_nil_iff.mpr fun m inside => ?_
      exact (misses m inside).2

/-- A list between two classes: what was told counts as sent, and nothing waits. -/
structure Settled (hs : List AttributeHandle) (values : List V)
    (told : FederateHandle → AttributeHandle → Prop) (l : ObjectClassBroadcastList V) : Prop where
  message : ∃ message, l.message = .rav message ∧ message.attributes = hs ∧ message.values = values
  distinct : l.lines.Distinct
  idle : ∀ g b, b ≠ 0 → l.lines.status g b ≠ .waiting
  sent : ∀ g b, b ≠ 0 → (l.lines.status g b = .sent ↔ told g b)

end ObjectClassBroadcastList

/-- Every message has a value for each of its attributes. -/
def AttributeResponses.Valued (sent : AttributeResponses V) : Prop :=
  ∀ r ∈ sent, r.2.attributes.length ≤ r.2.values.length

theorem AttributeResponses.valued_nil : Valued ([] : AttributeResponses V) :=
  fun _ member => absurd member List.not_mem_nil

section Broadcast

open ObjectClassBroadcastList AttributeResponses

variable {server : SecurityServer} {region : RegionHandle → RTIRegion} {o : Object}
  {hs : List AttributeHandle} {values : List V} {told : FederateHandle → AttributeHandle → Prop}

/-- One class: what it knows of the message goes to those who hear it there and were not told. -/
theorem broadcastClassMessage_step {c : ObjectClass} {l next : ObjectClassBroadcastList V}
    {sent : AttributeResponses V} (enough : hs.length ≤ values.length)
    (before : l.Settled hs values told)
    (done : c.broadcastClassMessage server region l (some o) = .ok (next, sent)) :
    next.Settled (hs.filter c.hasAttribute) values
        (fun g b => told g b ∨ (b ∈ hs ∧ c.hears region o g b = true)) ∧
      Valued sent ∧ ∀ g a, a ≠ 0 →
        ((¬ told g a ∧ a ∈ hs ∧ c.hears region o g a = true) → server.hasReferences g = true →
          Share g a (hs.filter c.hasAttribute) values sent) ∧
        ((told g a ∨ a ∉ hs ∨ c.hears region o g a = false ∨ server.hasReferences g = false) →
          Share g a [] values sent) := by
  obtain ⟨message, held, rfl, rfl⟩ := before.message
  unfold ObjectClass.broadcastClassMessage at done
  rw [held] at done
  dsimp only at done
  obtain ⟨trimmed, trim, broadcast⟩ := bind_success done
  obtain ⟨listed, added, told'⟩ := bind_success broadcast
  have prepared : listed.preparePending server = (next, sent) := Except.ok.inj told'
  obtain rfl : (listed.preparePending server).1 = next := congrArg Prod.fst prepared
  obtain rfl : (listed.preparePending server).2 = sent := congrArg Prod.snd prepared
  unfold ObjectClassBroadcastList.trimRAV ObjectClassBroadcastList.getMsgRAV at trim
  rw [held] at trim
  cases trim
  have grown := addSubscribers_listed (l := { l with
    message := .rav { message with attributes := message.attributes.filter c.hasAttribute } })
    before.distinct (Stop.lift_ok added)
  have own : listed.message =
      .rav { message with attributes := message.attributes.filter c.hasAttribute } := grown.message
  have enough' : (message.attributes.filter c.hasAttribute).length ≤ message.values.length :=
    (List.length_filter_le _ _).trans enough
  have audience : ∀ g b, b ∈ message.attributes.filter c.hasAttribute ∧
      c.hears region o g b = true ↔ b ∈ message.attributes ∧ c.hears region o g b = true := by
    intro g b
    rw [List.mem_filter]
    constructor
    · rintro ⟨⟨member, _⟩, hears⟩
      exact ⟨member, hears⟩
    · rintro ⟨member, hears⟩
      exact ⟨⟨member, ObjectClass.hears_hasAttribute hears⟩, hears⟩
  have waiting : ∀ g b, b ≠ 0 → (listed.lines.status g b = .waiting ↔
      ¬ told g b ∧ b ∈ message.attributes ∧ c.hears region o g b = true) := by
    intro g b positive
    rw [grown.waiting g b]
    constructor
    · rintro (waits | ⟨untold, hears⟩)
      · exact absurd waits (before.idle g b positive)
      · exact ⟨fun was => untold ((before.sent g b positive).mpr was), (audience g b).mp hears⟩
    · rintro ⟨untold, hears⟩
      exact .inr ⟨fun was => untold ((before.sent g b positive).mp was), (audience g b).mpr hears⟩
  have bounded : ∀ g b, b ∈ message.attributes ∧ c.hears region o g b = true →
      b ≤ listed.maxHandle := by
    intro g b hears
    rw [grown.maxHandle]
    exact grown.bounded g b ((audience g b).mpr hears)
  have status : ∀ g b, b ≠ 0 → ((listed.preparePending server).1.lines.status g b =
      if listed.lines.status g b = .waiting then .sent else listed.lines.status g b) := by
    intro g b positive
    rw [preparePending_status]
    by_cases waits : listed.lines.status g b = .waiting
    · obtain ⟨_, hears⟩ := (waiting g b positive).mp waits
      rw [if_pos waits, if_pos ⟨⟨Nat.pos_of_ne_zero positive, bounded g b hears⟩, waits⟩]
    · rw [if_neg waits, if_neg fun both => waits both.2]
  refine ⟨⟨⟨_, own, rfl, rfl⟩, preparePending_distinct server grown.distinct, ?_, ?_⟩, ?_, ?_⟩
  · intro g b positive
    rw [status g b positive]
    split
    · exact LineState.noConfusion
    · rename_i idle
      exact idle
  · intro g b positive
    rw [status g b positive]
    by_cases waits : listed.lines.status g b = .waiting
    · rw [if_pos waits]
      exact iff_of_true rfl (.inr ((waiting g b positive).mp waits).2)
    · rw [if_neg waits, grown.sent g b]
      refine (before.sent g b positive).trans ⟨.inl, ?_⟩
      rintro (was | hears)
      · exact was
      · by_contra untold
        exact waits ((waiting g b positive).mpr ⟨untold, hears⟩)
  · intro r member
    obtain ⟨line, _, rfl⟩ := List.mem_map.mp member
    exact messageFor_valued own enough' line
  · intro g a positive
    obtain ⟨sends, misses⟩ := preparePending_share server own enough' grown.distinct g a
    constructor
    · intro hears reached
      exact sends ((waiting g a positive).mpr hears) (Nat.pos_of_ne_zero positive)
        (bounded g a hears.2) reached
    · intro passed
      by_cases lost : server.hasReferences g = false
      · exact misses (.inr lost)
      · refine misses (.inl fun waits => ?_)
        obtain ⟨untold, member, hears⟩ := (waiting g a positive).mp waits
        rcases passed with was | absent | deaf | lost'
        · exact untold was
        · exact absent member
        · exact absurd (hears.symm.trans deaf) Bool.noConfusion
        · exact lost lost'

/-! ## The climb -/

/-- What is left of the attributes at the first class on the way that the federate hears this one
by; nothing if the attribute is gone before. -/
def leftAt (region : RegionHandle → RTIRegion) (o : Object) (g : FederateHandle)
    (a : AttributeHandle) : List ObjectClass → List AttributeHandle → List AttributeHandle
  | [], _ => []
  | c :: above, hs =>
    if a ∈ hs ∧ c.hears region o g a = true then hs.filter c.hasAttribute
    else leftAt region o g a above (hs.filter c.hasAttribute)

theorem broadcastToSuperclasses_share {root : RootObject} (forest : root.ClassForest)
    (fuel : Nat) : ∀ {current : ObjectClassHandle} {l : ObjectClassBroadcastList V}
      {sent : AttributeResponses V} {hs : List AttributeHandle}
      {told : FederateHandle → AttributeHandle → Prop}, hs.length ≤ values.length →
      l.Settled hs values told → (root.lineage current).length ≤ fuel →
      root.broadcastToSuperclasses region (some o) fuel current (some l) = .ok sent →
        Valued sent ∧ ∀ g a, a ≠ 0 →
          (told g a ∨ root.server.hasReferences g = false → Share g a [] values sent) ∧
          (¬ told g a → root.server.hasReferences g = true →
            Share g a (leftAt region o g a (root.lineage current) hs) values sent) := by
  induction fuel with
  | zero =>
    intro current l sent hs told enough before short done
    cases done
    rw [List.eq_nil_of_length_eq_zero (Nat.le_zero.mp short)]
    exact ⟨valued_nil,
      fun g a _ => ⟨fun _ => share_nil g a values, fun _ _ => share_nil g a values⟩⟩
  | succ fuel ih =>
    intro current l sent hs told enough before short done
    unfold RootObject.broadcastToSuperclasses at done
    split at done
    · rename_i top
      cases done
      have empty : root.lineage current = [] := by
        rw [top]
        exact Forest.ancestors_of_none forest.zero
      rw [empty]
      exact ⟨valued_nil,
        fun g a _ => ⟨fun _ => share_nil g a values, fun _ _ => share_nil g a values⟩⟩
    · split at done
      · cases done
      · rename_i c found
        obtain ⟨⟨next, here⟩, own, passed⟩ := bind_success done
        obtain ⟨above, later, all⟩ := bind_success passed
        cases all
        have climbs : root.lineage current = c :: root.lineage c.superClass :=
          Forest.ancestors_of_lookup forest found
        rw [climbs] at short ⊢
        obtain ⟨kept, valued, first⟩ := broadcastClassMessage_step enough before own
        have enough' : (hs.filter c.hasAttribute).length ≤ values.length :=
          (List.length_filter_le _ _).trans enough
        obtain ⟨valued', rest⟩ := ih enough' kept (Nat.le_of_succ_le_succ short) later
        refine ⟨fun r member => ?_,
          fun g a positive => ⟨fun passed => ?_, fun untold reached => ?_⟩⟩
        · exact (List.mem_append.mp member).elim (valued r) (valued' r)
        · obtain ⟨_, misses⟩ := first g a positive
          obtain ⟨misses', _⟩ := rest g a positive
          rcases passed with was | lost
          · exact (misses (.inl was)).append_nil (misses' (.inl (.inl was)))
          · exact (misses (.inr (.inr (.inr lost)))).append_nil (misses' (.inr lost))
        · obtain ⟨sends, misses⟩ := first g a positive
          obtain ⟨misses', sends'⟩ := rest g a positive
          unfold leftAt
          by_cases hears : a ∈ hs ∧ c.hears region o g a = true
          · rw [if_pos hears]
            exact (sends ⟨untold, hears⟩ reached).append_nil (misses' (.inl (.inr hears)))
          · rw [if_neg hears]
            refine Share.nil_append (misses ?_) (sends' ?_ reached)
            · by_cases member : a ∈ hs
              · exact .inr (.inr (.inl (Bool.eq_false_of_not_eq_true fun heard =>
                  hears ⟨member, heard⟩)))
              · exact .inr (.inl member)
            · rintro (was | both)
              · exact untold was
              · exact hears both

theorem create_settled (message : ReflectAttributeValues V) (maxHandle : AttributeHandle) :
    (ObjectClassBroadcastList.create (.rav message) maxHandle).Settled message.attributes
      message.values fun g _ => message.federate ≠ 0 ∧ g = message.federate where
  message := ⟨message, rfl, rfl, rfl⟩
  distinct := BroadcastLines.start_distinct message.federate
  idle g b _ := by
    rw [ObjectClassBroadcastList.create, BroadcastLines.status_start]
    split
    · exact LineState.noConfusion
    · exact LineState.noConfusion
  sent g b _ := by
    rw [ObjectClassBroadcastList.create, BroadcastLines.status_start]
    split
    · rename_i sender
      exact iff_of_true rfl sender
    · rename_i other
      exact iff_of_false LineState.noConfusion other

/-- What an accepted update has every federate sent of every attribute; 0 is neither. -/
theorem updateAttributeValues_share {root : RootObject} (forest : root.ClassForest)
    {checkSizeData : ObjectClassHandle → AttributeHandle → V → Except Stop Unit}
    {date : Option Date} {fed : FederateHandle} {tag : String} {sent : AttributeResponses V}
    (done : root.updateAttributeValues region
      (fun c => c.updateDated (checkSizeData c.handle) root.server region date fed o hs values tag)
      o = .ok sent) :
    hs.length ≤ values.length ∧ Valued sent ∧ ∀ g a, g ≠ 0 → a ≠ 0 →
      (g = fed ∨ root.server.hasReferences g = false →
        Share g a [] (values.take hs.length) sent) ∧
      (g ≠ fed → root.server.hasReferences g = true →
        Share g a (leftAt region o g a (root.lineage o.classHandle) hs) (values.take hs.length)
          sent) := by
  obtain ⟨c, found, broadcast⟩ := bind_success done
  obtain ⟨⟨list, here⟩, own, passed⟩ := bind_success broadcast
  obtain ⟨above, later, all⟩ := bind_success passed
  cases all
  obtain ⟨_, checked, told⟩ := bind_success own
  have located : root.class? o.classHandle = some c := by
    have known := Stop.lift_ok found
    unfold RootObject.getObjectFromHandle at known
    split at known
    · rename_i there
      cases known
      exact there
    · cases known
  have climbs : root.lineage o.classHandle = c :: root.lineage c.superClass :=
    Forest.ancestors_of_lookup forest located
  have enough := (checkEach_success checked).1
  have enough' : hs.length ≤ (values.take hs.length).length := by
    rw [List.length_take, Nat.min_eq_left enough]
  obtain ⟨kept, valued, first⟩ := broadcastClassMessage_step enough'
    (create_settled ⟨fed, o.handle, date, tag, hs, values.take hs.length⟩ _) told
  have fuel := Forest.ancestors_length forest c.superClass
  obtain ⟨valued', rest⟩ := broadcastToSuperclasses_share forest _
    ((List.length_filter_le _ _).trans enough') kept fuel later
  refine ⟨enough, fun r member => ?_, fun g a federate positive => ⟨fun passed => ?_, ?_⟩⟩
  · exact (List.mem_append.mp member).elim (valued r) (valued' r)
  · obtain ⟨_, misses⟩ := first g a positive
    obtain ⟨misses', _⟩ := rest g a positive
    rcases passed with rfl | lost
    · exact (misses (.inl ⟨federate, rfl⟩)).append_nil (misses' (.inl (.inl ⟨federate, rfl⟩)))
    · exact (misses (.inr (.inr (.inr lost)))).append_nil (misses' (.inr lost))
  · intro other reached
    obtain ⟨sends, misses⟩ := first g a positive
    obtain ⟨misses', sends'⟩ := rest g a positive
    have untold : ¬ (fed ≠ 0 ∧ g = fed) := fun both => other both.2
    rw [climbs, leftAt]
    by_cases hears : a ∈ hs ∧ c.hears region o g a = true
    · rw [if_pos hears]
      exact (sends ⟨untold, hears⟩ reached).append_nil (misses' (.inl (.inr hears)))
    · rw [if_neg hears]
      refine Share.nil_append (misses ?_) (sends' ?_ reached)
      · by_cases member : a ∈ hs
        · exact .inr (.inr (.inl (Bool.eq_false_of_not_eq_true fun heard =>
            hears ⟨member, heard⟩)))
        · exact .inr (.inl member)
      · rintro (was | both)
        · exact untold was
        · exact hears both

end Broadcast

/-! ## What is left on the way -/

/-- The values of a sublist's places are among the first ones. -/
theorem getElem?_take_idxOf {a : AttributeHandle} {hs left : List AttributeHandle}
    (shorter : left.length ≤ hs.length) (member : a ∈ left) (values : List V) :
    (values.take hs.length)[left.idxOf a]? = values[left.idxOf a]? :=
  List.getElem?_take_of_lt ((List.idxOf_lt_length_of_mem member).trans_le shorter)

section Way

variable {region : RegionHandle → RTIRegion} {o : Object} {g : FederateHandle}
  {a : AttributeHandle}

/-- Every class below the first one that the federate hears the attribute by knows this one. -/
def knownOnTheWay (region : RegionHandle → RTIRegion) (o : Object) (g : FederateHandle)
    (a : AttributeHandle) (way : List ObjectClass) (h : AttributeHandle) : Bool :=
  (way.takeWhile fun c => !c.hears region o g a).all (·.hasAttribute h)

theorem leftAt_of_absent {way : List ObjectClass} : ∀ {hs : List AttributeHandle}, a ∉ hs →
    leftAt region o g a way hs = [] := by
  induction way with
  | nil => exact fun _ => rfl
  | cons c above ih =>
    intro hs absent
    rw [leftAt, if_neg fun both => absent both.1]
    exact ih fun member => absent (List.mem_filter.mp member).1

theorem leftAt_of_unheard {way : List ObjectClass}
    (unheard : way.find? (·.hears region o g a) = none) :
    ∀ {hs : List AttributeHandle}, leftAt region o g a way hs = [] := by
  rw [List.find?_eq_none] at unheard
  induction way with
  | nil => exact fun {_} => rfl
  | cons c above ih =>
    intro hs
    rw [leftAt, if_neg fun both => unheard c List.mem_cons_self both.2]
    exact ih fun d member => unheard d (List.mem_cons_of_mem c member)

/-- At the first class heard the attributes are left that all classes up to it know. -/
theorem leftAt_of_heard {way : List ObjectClass} {c : ObjectClass}
    (heard : way.find? (·.hears region o g a) = some c) :
    ∀ {hs : List AttributeHandle}, a ∈ hs → leftAt region o g a way hs =
      if knownOnTheWay region o g a way a = true then
        hs.filter fun h => knownOnTheWay region o g a way h && c.hasAttribute h
      else [] := by
  induction way with
  | nil => cases heard
  | cons d above ih =>
    intro hs member
    rw [leftAt]
    cases hears : d.hears region o g a with
    | true =>
      rw [List.find?_cons, hears] at heard
      cases heard
      simp [knownOnTheWay, hears, member]
    | false =>
      rw [List.find?_cons, hears] at heard
      have passes : ∀ h, knownOnTheWay region o g a (d :: above) h =
          (d.hasAttribute h && knownOnTheWay region o g a above h) := by
        intro h
        simp [knownOnTheWay, List.takeWhile_cons, hears]
      rw [if_neg fun both => Bool.false_ne_true both.2]
      simp only [passes]
      cases has : d.hasAttribute a with
      | true =>
        have kept : a ∈ hs.filter d.hasAttribute := List.mem_filter.mpr ⟨member, has⟩
        rw [ih heard kept, Bool.true_and, List.filter_filter]
        refine if_congr Iff.rfl (List.filter_congr fun h _ => ?_) rfl
        cases d.hasAttribute h <;> simp
      | false =>
        have lost : a ∉ hs.filter d.hasAttribute := fun kept =>
          absurd (has.symm.trans (List.mem_filter.mp kept).2) Bool.noConfusion
        rw [leftAt_of_absent lost, Bool.false_and, if_neg Bool.false_ne_true]

end Way

end Certi
