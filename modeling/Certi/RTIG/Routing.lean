import Certi.LibCERTI.InteractionRouting
import Certi.LibCERTI.UpdateRouting
import Certi.RTIG.Dating

/-!
# Routing of interactions and updates

The requests Send_Interaction and Update_Attribute_Values and what becomes of
them. Whatever the classes and the subscriptions, each federate that hears an
interaction by its class or one above is sent one message, and each that hears
an attribute is sent it once, and nobody else is sent anything. The values are
paired right exactly if what is left out on the way stands behind.
-/
namespace Certi

open Collect Keyed Pairing

variable {V : Type}

/-- The most derived class, from a class to its root, that the federate hears. -/
def RootObject.heardClass (root : RootObject) (region : RegionHandle → RTIRegion)
    (update : Option RegionHandle) (g : FederateHandle) (interaction : InteractionClassHandle) :
    Option Interaction :=
  (root.interactionLineage interaction).find? (·.hears region update g)

/-- Region 0 is the default region, for which the broadcast gets a null pointer. -/
def SendInteraction.update (r : SendInteraction V) : Option RegionHandle :=
  if r.region = 0 then none else some r.region

namespace Federation

variable {f : Federation} {checks : SizeChecks V} {region : RegionHandle → RTIRegion}
  {r : SendInteraction V} {sent : InteractionResponses V}

/-- Who hears an interaction receives it once, for the class it hears it by; nobody else receives
anything. Federates are numbered from 1. -/
structure Routes (f : Federation) (region : RegionHandle → RTIRegion) (r : SendInteraction V)
    (sent : InteractionResponses V) : Prop where
  hearers : ∀ g, g ≠ 0 → g ≠ r.federate → f.root.server.hasReferences g = true →
    ∀ i, f.root.heardClass region r.update g r.interactionClass = some i →
      i.Receives r.parameters r.values (sent.receivedBy g)
  others : ∀ g, g ≠ 0 → (g = r.federate ∨ f.root.server.hasReferences g = false ∨
    f.root.heardClass region r.update g r.interactionClass = none) → sent.receivedBy g = []

/-- Every class by which a federate hears the interaction knows the first of its parameters. -/
def KnownFirst (f : Federation) (region : RegionHandle → RTIRegion) (r : SendInteraction V) :
    Prop :=
  ∀ g, g ≠ 0 → g ≠ r.federate → f.root.server.hasReferences g = true →
    ∀ i, f.root.heardClass region r.update g r.interactionClass = some i →
      i.KnowsFirst r.parameters r.values
        (keptOnTheWay region r.update g (f.root.interactionLineage r.interactionClass))

theorem interactionRegion_eq {h : RegionHandle} {update : Option RegionHandle}
    (found : f.interactionRegion h = .ok update) : update = if h = 0 then none else some h := by
  unfold interactionRegion at found
  split at found
  · rename_i default
    cases found
    rw [if_pos default]
  · rename_i own
    obtain ⟨entry, located, rfl⟩ := map_success found
    have known := Stop.lift_ok located
    unfold RootObject.getRegion at known
    split at known
    · rename_i there
      cases known
      rw [if_neg own, lookup_key there]
    · cases known

/-- An accepted request is a broadcast, at some date. -/
theorem processSendInteraction_broadcast
    (accepted : f.processSendInteraction checks region r = .ok sent) :
    ∃ date : Option Date, f.root.broadcastInteraction region
      (fun i => i.sendDated (checks.ofParameter i.handle) f.root.server region date
        r.federate r.parameters r.values r.update r.label) r.interactionClass r.update =
          .ok sent := by
  unfold processSendInteraction at accepted
  split at accepted
  all_goals
    obtain ⟨_, _, checked⟩ := bind_success accepted
    obtain ⟨update, found, told⟩ := bind_success checked
    rw [interactionRegion_eq found] at told
    exact ⟨_, told⟩

/-- An accepted interaction is routed right exactly if every class by which it is heard knows the
first of its parameters. -/
theorem interaction_routed_iff (f : Federation)
    (tree : Forest.Ordered Interaction.handle Interaction.superClass f.root.interactions)
    (checks : SizeChecks V) (region : RegionHandle → RTIRegion) (r : SendInteraction V)
    (sent : InteractionResponses V)
    (accepted : f.processSendInteraction checks region r = .ok sent) :
    Routes f region r sent ↔ KnownFirst f region r := by
  obtain ⟨date, done⟩ := processSendInteraction_broadcast accepted
  obtain ⟨enough, received⟩ := broadcastInteraction_receivedBy tree done
  have arrives : ∀ g, g ≠ 0 → g ≠ r.federate → f.root.server.hasReferences g = true →
      ∀ i, f.root.heardClass region r.update g r.interactionClass = some i →
        (i.Receives r.parameters r.values (sent.receivedBy g) ↔
          i.KnowsFirst r.parameters r.values
            (keptOnTheWay region r.update g (f.root.interactionLineage r.interactionClass))) := by
    intro g federate other reached i heard
    rw [received g federate, if_pos ⟨other, reached⟩, arrival_eq]
    unfold RootObject.heardClass at heard
    rw [heard]
    exact receives_iff enough
  constructor
  · intro routes g federate other reached i heard
    exact (arrives g federate other reached i heard).mp
      (routes.hearers g federate other reached i heard)
  · intro known
    refine ⟨fun g federate other reached i heard => ?_, fun g federate left => ?_⟩
    · exact (arrives g federate other reached i heard).mpr
        (known g federate other reached i heard)
    · rw [received g federate]
      rcases left with rfl | lost | deaf
      · rw [if_neg fun both => both.1 rfl]
      · rw [lost, if_neg fun both => Bool.false_ne_true both.2]
      · unfold RootObject.heardClass at deaf
        rw [arrival_eq, deaf]
        split <;> rfl

/-- A class with one attribute besides privilegeToDelete and one of interactions with one
parameter, and a subclass of each with one more. -/
def nestedFom : Fom :=
  { classes := [⟨0, [⟨"privilegeToDelete", 0⟩, ⟨"size", 0⟩], 0⟩,
      ⟨1, [⟨"privilegeToDelete", 0⟩, ⟨"size", 0⟩, ⟨"color", 0⟩], 0⟩]
    interactions := [⟨0, [1], 0⟩, ⟨1, [1, 2], 0⟩]
    spaces := []
    superClasses := by decide
    superInteractions := by decide }

/-- One federate publishes the subclasses and registers an instance, another subscribes to the
classes above. -/
def listening : Federation :=
  rtig.exec (create nestedFom false true)
    [joinAs "a", joinAs "b", .publishInteraction 1 2 true, .subscribeInteraction 2 1 true,
      .publishObject 1 2 [2, 3] true, .registerObject 1 2 "", .subscribeObject 2 1 [2]]

def nestedInteraction (date : Date) (parameters : List ParameterHandle) (values : List String) :
    SendInteraction String :=
  ⟨1, 2, some date, 0, "tag", parameters, values⟩

/-- What is sent to both classes' subscribers. -/
def nestedResponses (date : Date) (parameters : List ParameterHandle) (values : List String) :
    InteractionResponses String :=
  [([], ⟨1, 2, some date, "tag", parameters, values⟩),
    ([2], ⟨1, 1, some date, "tag", [1], values⟩)]

theorem listening_tree :
    Forest.Ordered Interaction.handle Interaction.superClass listening.root.interactions :=
  ⟨by decide +kernel, by decide +kernel⟩

theorem interaction_routed_iff_first :
    Routes listening (fun _ => ⟨0, 0, []⟩) (nestedInteraction 7 [1, 2] ["5", "red"])
        (nestedResponses 7 [1, 2] ["5", "red"]) ↔
      KnownFirst listening (fun _ => ⟨0, 0, []⟩) (nestedInteraction 7 [1, 2] ["5", "red"]) :=
  interaction_routed_iff listening listening_tree unchecked (fun _ => ⟨0, 0, []⟩)
    (nestedInteraction 7 [1, 2] ["5", "red"]) _ (by decide +kernel)

/-- The subscriber of the class above is given the value of the subclass's parameter. -/
theorem interaction_value_mismatched :
    ¬ ∀ (f : Federation),
      Forest.Ordered Interaction.handle Interaction.superClass f.root.interactions →
      ∀ (checks : SizeChecks String) (region : RegionHandle → RTIRegion)
        (r : SendInteraction String) (sent : InteractionResponses String),
        f.processSendInteraction checks region r = .ok sent → Routes f region r sent := by
  intro always
  have routes := always listening listening_tree unchecked (fun _ => ⟨0, 0, []⟩)
    (nestedInteraction 7 [2, 1] ["red", "5"])
    (nestedResponses 7 [2, 1] ["red", "5"]) (by decide +kernel)
  have heard : listening.root.heardClass (fun _ => ⟨0, 0, []⟩) none 2 2 =
      some ⟨1, 0, 0, [1], ∅, [⟨2, none⟩]⟩ := rfl
  obtain ⟨m, got, _, _, paired⟩ := routes.hearers 2 (by decide) (by decide) (by decide +kernel) _
    heard
  obtain rfl := List.singleton_inj.mp got
  exact absurd paired (by decide)

/-! ## Updates -/

end Federation

/-- The most derived class of an instance that the federate hears the attribute by. -/
def RootObject.heardAttribute (root : RootObject) (region : RegionHandle → RTIRegion) (o : Object)
    (g : FederateHandle) (a : AttributeHandle) : Option ObjectClass :=
  (root.lineage o.classHandle).find? (·.hears region o g a)

/-- The attributes of an update that every class up to the one it is heard by knows. -/
def RootObject.leftOf (root : RootObject) (region : RegionHandle → RTIRegion) (o : Object)
    (g : FederateHandle) (a : AttributeHandle) (c : ObjectClass) (hs : List AttributeHandle) :
    List AttributeHandle :=
  hs.filter fun h => knownOnTheWay region o g a (root.lineage o.classHandle) h && c.hasAttribute h

namespace Federation

open AttributeResponses

variable {f : Federation} {checks : SizeChecks V} {region : RegionHandle → RTIRegion}
  {r : UpdateAttributeValues V} {o : Object} {sent : AttributeResponses V}

/-- Who hears an attribute of the update receives it once and with the value given for it; nobody
receives anything else. Federates and attributes are numbered from 1. -/
structure RoutesUpdate (f : Federation) (region : RegionHandle → RTIRegion)
    (r : UpdateAttributeValues V) (o : Object) (sent : AttributeResponses V) : Prop where
  once : ∀ g, g ≠ 0 → g ≠ r.federate → f.root.server.hasReferences g = true →
    ∀ a ∈ r.attributes, a ≠ 0 → ∀ c, f.root.heardAttribute region o g a = some c →
      (attributesTo sent g).count a = 1
  valued : Valued sent
  paired : ∀ g, g ≠ 0 → ∀ a, a ≠ 0 → ∀ v, (a, v) ∈ pairsTo sent g →
    (a, v) ∈ r.attributes.zip r.values
  others : ∀ g, g ≠ 0 → ∀ a, a ≠ 0 → (g = r.federate ∨ f.root.server.hasReferences g = false ∨
    a ∉ r.attributes ∨ f.root.heardAttribute region o g a = none) → a ∉ attributesTo sent g

/-- Every attribute that is heard is known to the classes on the way, and among those that are it
stands where its value is. -/
def AttributesFirst (f : Federation) (region : RegionHandle → RTIRegion)
    (r : UpdateAttributeValues V) (o : Object) : Prop :=
  ∀ g, g ≠ 0 → g ≠ r.federate → f.root.server.hasReferences g = true →
    ∀ a ∈ r.attributes, a ≠ 0 → ∀ c, f.root.heardAttribute region o g a = some c →
      knownOnTheWay region o g a (f.root.lineage o.classHandle) a = true ∧
        r.values[(f.root.leftOf region o g a c r.attributes).idxOf a]? =
          r.values[r.attributes.idxOf a]?

/-- An accepted request is a broadcast for the instance, dated as the request is. -/
theorem processUpdateAttributeValues_broadcast (held : f.root.object? r.object = some o)
    (accepted : f.processUpdateAttributeValues checks region r = .ok sent) :
    f.root.updateAttributeValues region (fun c => c.updateDated (checks.ofAttribute c.handle)
      f.root.server region r.date r.federate o r.attributes r.values r.label) o = .ok sent := by
  have found : Stop.lift (f.root.getObject r.object) = .ok o := by
    rw [RootObject.getObject, held]
    rfl
  unfold processUpdateAttributeValues at accepted
  cases date : r.date with
  | some time =>
    simp only [date] at accepted
    obtain ⟨_, _, checked⟩ := bind_success accepted
    rw [found] at checked
    exact checked
  | none =>
    simp only [date] at accepted
    obtain ⟨_, _, checked⟩ := bind_success accepted
    rw [found] at checked
    exact checked

/-- An accepted update is routed right exactly if every attribute that is heard stands first. -/
theorem update_routed_iff (f : Federation) (tree : f.root.ClassForest) (checks : SizeChecks V)
    (region : RegionHandle → RTIRegion) (r : UpdateAttributeValues V)
    (distinct : r.attributes.Nodup) (o : Object) (held : f.root.object? r.object = some o)
    (sent : AttributeResponses V)
    (accepted : f.processUpdateAttributeValues checks region r = .ok sent) :
    RoutesUpdate f region r o sent ↔ AttributesFirst f region r o := by
  obtain ⟨enough, valued, share⟩ :=
    updateAttributeValues_share tree (processUpdateAttributeValues_broadcast held accepted)
  have own : ∀ g, g ≠ 0 → g ≠ r.federate → f.root.server.hasReferences g = true → ∀ a, a ≠ 0 →
      a ∈ r.attributes → ∀ c, f.root.heardAttribute region o g a = some c →
        Share g a
          (if knownOnTheWay region o g a (f.root.lineage o.classHandle) a = true then
            f.root.leftOf region o g a c r.attributes
          else []) (r.values.take r.attributes.length) sent := by
    intro g federate other reached a positive member c heard
    have arrives := (share g a federate positive).2 other reached
    rw [leftAt_of_heard heard member] at arrives
    exact arrives
  have stands : ∀ g a c, a ∈ r.attributes → f.root.heardAttribute region o g a = some c →
      knownOnTheWay region o g a (f.root.lineage o.classHandle) a = true →
        a ∈ f.root.leftOf region o g a c r.attributes := by
    intro g a c member heard known
    have hears : c.hears region o g a = true := by
      simpa using List.find?_some heard
    exact List.mem_filter.mpr ⟨member, by rw [known, ObjectClass.hears_hasAttribute hears]; rfl⟩
  have once : ∀ g a c, (f.root.leftOf region o g a c r.attributes).Nodup :=
    fun g a c => distinct.filter _
  have shorter : ∀ g a c,
      (f.root.leftOf region o g a c r.attributes).length ≤ r.attributes.length :=
    fun g a c => List.length_filter_le _ _
  constructor
  · intro routes g federate other reached a member positive c heard
    have arrives := own g federate other reached a positive member c heard
    have count := routes.once g federate other reached a member positive c heard
    rw [arrives.count] at count
    have known : knownOnTheWay region o g a (f.root.lineage o.classHandle) a = true := by
      by_contra lost
      rw [if_neg lost] at count
      cases count
    rw [if_pos known] at arrives
    refine ⟨known, ?_⟩
    have here := stands g a c member heard known
    have bound : (f.root.leftOf region o g a c r.attributes).idxOf a < r.values.length :=
      ((List.idxOf_lt_length_of_mem here).trans_le (shorter g a c)).trans_le enough
    have value := List.getElem?_eq_getElem bound
    have pair := (Pairing.mem_zip_iff (once g a c) here (r.values.take r.attributes.length) _).mpr
      ((getElem?_take_idxOf (shorter g a c) here r.values).trans value)
    have given := routes.paired g federate a positive _ ((arrives.mem_pairsTo _).mpr pair)
    rw [Pairing.mem_zip_iff distinct member] at given
    rw [value, given]
  · intro first
    refine ⟨?_, valued, ?_, ?_⟩
    · intro g federate other reached a member positive c heard
      obtain ⟨known, _⟩ := first g federate other reached a member positive c heard
      have arrives := own g federate other reached a positive member c heard
      rw [if_pos known] at arrives
      rw [arrives.count]
      exact List.count_eq_one_of_mem (once g a c) (stands g a c member heard known)
    · intro g federate a positive v paired
      by_cases served : g = r.federate ∨ f.root.server.hasReferences g = false
      · have nothing := (share g a federate positive).1 served
        exact absurd ((nothing.mem_pairsTo v).mp paired) List.not_mem_nil
      · obtain ⟨other, lost⟩ := not_or.mp served
        have reached : f.root.server.hasReferences g = true := Bool.eq_true_of_not_eq_false lost
        have arrives := (share g a federate positive).2 other reached
        by_cases member : a ∈ r.attributes
        · cases heard : f.root.heardAttribute region o g a with
          | none =>
            rw [leftAt_of_unheard heard] at arrives
            exact absurd ((arrives.mem_pairsTo v).mp paired) List.not_mem_nil
          | some c =>
            obtain ⟨known, same⟩ := first g federate other reached a member positive c heard
            have arrives' := own g federate other reached a positive member c heard
            rw [if_pos known] at arrives'
            have here := stands g a c member heard known
            have pair := (arrives'.mem_pairsTo v).mp paired
            rw [Pairing.mem_zip_iff (once g a c) here,
              getElem?_take_idxOf (shorter g a c) here, same] at pair
            exact (Pairing.mem_zip_iff distinct member _ _).mpr pair
        · rw [leftAt_of_absent member] at arrives
          exact absurd ((arrives.mem_pairsTo v).mp paired) List.not_mem_nil
    · intro g federate a positive left member
      by_cases served : g = r.federate ∨ f.root.server.hasReferences g = false
      · have nothing := (share g a federate positive).1 served
        exact absurd (nothing.mem_attributesTo.mp member) List.not_mem_nil
      · obtain ⟨other, lost⟩ := not_or.mp served
        have arrives := (share g a federate positive).2 other
          (Bool.eq_true_of_not_eq_false lost)
        rcases left with rfl | lost' | absent | unheard
        · exact other rfl
        · exact lost lost'
        · rw [leftAt_of_absent absent] at arrives
          exact absurd (arrives.mem_attributesTo.mp member) List.not_mem_nil
        · rw [leftAt_of_unheard unheard] at arrives
          exact absurd (arrives.mem_attributesTo.mp member) List.not_mem_nil

def nestedUpdate (date : Date) (attributes : List AttributeHandle) (values : List String) :
    UpdateAttributeValues String :=
  ⟨1, 1, some date, "tag", attributes, values⟩

theorem listening_classes : listening.root.ClassForest :=
  ⟨by decide +kernel, by decide +kernel⟩

/-- The instance of the run; nobody else has asked for its attributes. -/
def listenedObject : Object :=
  ⟨1, "HLAObject_1", 2, 1, [1, 2, 3].map fun h => ⟨h, 1, false, ∅, none⟩⟩

theorem listening_object : listening.root.object? 1 = some listenedObject := rfl

def nestedReflection (date : Date) (values : List String) : AttributeResponses String :=
  [(2, .rav ⟨1, 1, some date, "tag", [2], values⟩)]

theorem update_routed_iff_first :
    RoutesUpdate listening (fun _ => ⟨0, 0, []⟩) (nestedUpdate 7 [2, 3] ["5", "red"])
        listenedObject (nestedReflection 7 ["5", "red"]) ↔
      AttributesFirst listening (fun _ => ⟨0, 0, []⟩) (nestedUpdate 7 [2, 3] ["5", "red"])
        listenedObject :=
  update_routed_iff listening listening_classes unchecked (fun _ => ⟨0, 0, []⟩)
    (nestedUpdate 7 [2, 3] ["5", "red"]) (by decide) listenedObject listening_object _
    (by decide +kernel)

/-- The subscriber of the class above is given the value of the subclass's attribute. -/
theorem update_value_mismatched :
    ¬ ∀ (f : Federation), f.root.ClassForest → ∀ (checks : SizeChecks String)
      (region : RegionHandle → RTIRegion) (r : UpdateAttributeValues String), r.attributes.Nodup →
      ∀ (o : Object), f.root.object? r.object = some o → ∀ (sent : AttributeResponses String),
        f.processUpdateAttributeValues checks region r = .ok sent →
          RoutesUpdate f region r o sent := by
  intro always
  have routes := always listening listening_classes unchecked (fun _ => ⟨0, 0, []⟩)
    (nestedUpdate 7 [3, 2] ["red", "5"]) (by decide) listenedObject listening_object
    (nestedReflection 7 ["red", "5"]) (by decide +kernel)
  have given := routes.paired 2 (by decide) 2 (by decide) "red" (by decide)
  exact absurd given (by decide)

end Federation

end Certi
