import Certi.LibCERTI.Instances

/-!
# Exactly what a departure does

`RootObject::killFederate` in closed form: every class loses the federate's
publications and is searched once more for each instance of the class that the
federate owns, every search repeating the unsubscription.
-/
namespace Certi

open Keyed RemoveIf

namespace ObjectClassAttribute

/-- One round of the departure on an attribute. -/
def forget (fed : FederateHandle) (a : ObjectClassAttribute) : ObjectClassAttribute :=
  { a with
    publishers := a.publishers.erase fed
    subscribers := Subscribable.unsubscribe a.subscribers fed }

theorem forget_rounds (fed : FederateHandle) (rounds : Nat) (a : ObjectClassAttribute) :
    (forget fed)^[rounds + 1] a =
      { a with
        publishers := a.publishers.erase fed
        subscribers := (removeIf fun s => s.handle = fed)^[rounds + 1] a.subscribers } := by
  induction rounds with
  | zero => rfl
  | succ rounds ih =>
    rw [Function.iterate_succ_apply', ih, Function.iterate_succ_apply' _ (rounds + 1)]
    simp [forget, Subscribable.unsubscribe]

end ObjectClassAttribute

namespace RootObject

variable {server : SecurityServer} {fed : FederateHandle} {c : ObjectClass}

/-! ## One class -/

/-- Unpublishing is refused when the class is classified above the federate's link. -/
def Unpublishable (server : SecurityServer) (fed : FederateHandle) (c : ObjectClass) : Prop :=
  c.isFederatePublisher fed = true → server.canFederateAccessData fed c.securityLevelId = true

theorem not_publisher (idle : c.isFederatePublisher fed = false) :
    ∀ a ∈ c.attributes, fed ∉ a.publishers := by
  intro a member publishing
  have : c.isFederatePublisher fed = true :=
    List.any_eq_true.mpr ⟨a, member, by simpa [ObjectClassAttribute.isPublishing] using publishing⟩
  rw [idle] at this
  cases this

theorem unsubscribe_eq_self {subscribers : List Subscriber}
    (absent : Subscribable.isSubscribed subscribers fed = false) :
    Subscribable.unsubscribe subscribers fed = subscribers := by
  refine removeIf_eq_self fun s member => ?_
  simp only [Subscribable.isSubscribed, List.any_eq_false] at absent
  simpa using absent s member

/-- Unsubscribing a class only where the federate is subscribed is unsubscribing it everywhere. -/
theorem unsubscribe_everywhere (c : ObjectClass) (fed : FederateHandle) :
    (if c.isSubscribed fed then c.unsubscribe fed else c) =
      c.mapAttributes (·.unsubscribe fed) := by
  have each : ∀ a : ObjectClassAttribute,
      (if a.isSubscribed fed then a.unsubscribe fed else a) = a.unsubscribe fed := by
    intro a
    split
    · rfl
    · rename_i absent
      have same := unsubscribe_eq_self (by simpa [ObjectClassAttribute.isSubscribed] using absent)
      rw [ObjectClassAttribute.unsubscribe, same]
  have everywhere : c.unsubscribe fed = c.mapAttributes (·.unsubscribe fed) := by
    unfold ObjectClass.unsubscribe
    simp only [each]
  split
  · exact everywhere
  · rename_i absent
    have each : ∀ a ∈ c.attributes, a.unsubscribe fed = a := by
      intro a member
      have idle : a.isSubscribed fed = false := by
        simp only [ObjectClass.isSubscribed, List.any_eq_true, not_exists, not_and,
          Bool.not_eq_true] at absent
        exact absent a member
      rw [ObjectClassAttribute.unsubscribe, unsubscribe_eq_self idle]
    rw [ObjectClass.mapAttributes, List.map_congr_left each, List.map_id']

theorem killDeclarations_eq (unpublishable : Unpublishable server fed c) :
    killDeclarations server fed c = c.mapAttributes (·.forget fed) := by
  unfold killDeclarations
  split
  · rename_i publisher
    have accessible := unpublishable publisher
    have unpublished : c.publish server fed [] false = (c.mapAttributes (·.unpublish fed), none) := by
      unfold ObjectClass.publish ObjectClass.checkAttributes
      simp [accessible]
    rw [unpublished]
    dsimp only
    rw [unsubscribe_everywhere, ObjectClass.mapAttributes, ObjectClass.mapAttributes,
      ObjectClass.mapAttributes, List.map_map]
    rfl
  · rename_i idle
    rw [unsubscribe_everywhere, ObjectClass.mapAttributes, ObjectClass.mapAttributes]
    congr 1
    refine List.map_congr_left fun a member => ?_
    have absent := not_publisher (by simpa using idle) a member
    simp [ObjectClassAttribute.unsubscribe, ObjectClassAttribute.forget,
      Finset.erase_eq_of_notMem absent]

theorem forgotten_unpublishable :
    Unpublishable server fed (c.mapAttributes (·.forget fed)) := by
  intro publisher
  obtain ⟨a, member, publishing⟩ := List.any_eq_true.mp publisher
  obtain ⟨b, _, rfl⟩ := List.mem_map.mp member
  simp [ObjectClassAttribute.isPublishing, ObjectClassAttribute.forget] at publishing

theorem mapAttributes_mapAttributes (c : ObjectClass)
    (f g : ObjectClassAttribute → ObjectClassAttribute) :
    (c.mapAttributes f).mapAttributes g = c.mapAttributes (g ∘ f) := by
  simp only [ObjectClass.mapAttributes, List.map_map]

theorem killDeclarations_rounds (unpublishable : Unpublishable server fed c) (rounds : Nat) :
    (killDeclarations server fed)^[rounds + 1] c =
      c.mapAttributes ((ObjectClassAttribute.forget fed)^[rounds + 1]) := by
  induction rounds with
  | zero => exact killDeclarations_eq unpublishable
  | succ rounds ih =>
    have kept : Unpublishable server fed
        (c.mapAttributes ((ObjectClassAttribute.forget fed)^[rounds + 1])) := by
      rw [Function.iterate_succ', ← mapAttributes_mapAttributes]
      exact forgotten_unpublishable
    rw [Function.iterate_succ_apply', ih, killDeclarations_eq kept, mapAttributes_mapAttributes,
      ← Function.iterate_succ']

/-! ## Every class in turn -/

/-- How many instances of a class the federate owns. -/
def ownedCount (root : RootObject) (fed : FederateHandle) (h : ObjectClassHandle) : Nat :=
  (root.objects.filter (fun o => o.classHandle = h && o.owner = fed)).length

theorem killDeclarations_handle (server : SecurityServer) (fed : FederateHandle)
    (c : ObjectClass) : (killDeclarations server fed c).handle = c.handle :=
  (ObjectClass.killDeclarations_redeclared (p := fun _ => True)).same.handle

theorem killDeclarations_rounds_handle (server : SecurityServer) (fed : FederateHandle)
    (rounds : Nat) (c : ObjectClass) :
    ((killDeclarations server fed)^[rounds] c).handle = c.handle := by
  induction rounds with
  | zero => rfl
  | succ rounds ih => rw [Function.iterate_succ_apply', killDeclarations_handle, ih]

theorem killInClass_objects (fed : FederateHandle) (h : ObjectClassHandle) (owned : List Object) :
    ∀ root : RootObject, (killInClass fed h root owned).1.objects =
      root.objects.filter (fun o => o.handle ∉ owned.map Object.handle) := by
  induction owned with
  | nil =>
    intro root
    simp [killInClass, killDeclarationsOf]
  | cons o rest ih =>
    intro root
    rw [killInClass]
    dsimp only
    rw [ih, drop, List.filter_filter]
    refine List.filter_congr fun other _ => ?_
    rw [List.map_cons]
    by_cases first : other.handle = o.handle <;> simp [first]

theorem killInClass_classes (fed : FederateHandle) (h : ObjectClassHandle) (owned : List Object) :
    ∀ root : RootObject, (killInClass fed h root owned).1.classes =
      adjust ObjectClass.handle h ((killDeclarations root.server fed)^[owned.length + 1])
        root.classes := by
  induction owned with
  | nil => exact fun _ => rfl
  | cons o rest ih =>
    intro root
    rw [killInClass]
    dsimp only
    rw [ih, List.length_cons, Function.iterate_succ _ (rest.length + 1)]
    simp only [killDeclarationsOf, adjust, List.map_map]
    refine List.map_congr_left fun c _ => ?_
    by_cases same : c.handle = h <;> simp [same, killDeclarations_handle]

/-- With distinct handles the objects dropped are those searched for. -/
theorem owned_handles {objects : List Object} (distinct : (objects.map Object.handle).Nodup)
    (p : Object → Bool) :
    objects.filter (fun o => o.handle ∉ (objects.filter p).map Object.handle) =
      objects.filter (fun o => !p o) := by
  refine List.filter_congr fun o member => ?_
  have listed : o.handle ∈ (objects.filter p).map Object.handle ↔ p o = true := by
    constructor
    · intro belongs
      obtain ⟨other, kept, same⟩ := List.mem_map.mp belongs
      obtain ⟨present, holds⟩ := List.mem_filter.mp kept
      rwa [List.inj_on_of_nodup_map distinct present member same] at holds
    · intro holds
      exact List.mem_map_of_mem (List.mem_filter.mpr ⟨member, holds⟩)
  cases holds : p o <;> simp [listed, holds]

theorem killClasses_exact (fed : FederateHandle) (hs : List ObjectClassHandle) :
    ∀ root : RootObject, hs.Nodup → (root.objects.map Object.handle).Nodup →
      (killClasses fed root hs).1.classes = root.classes.map (fun c => if c.handle ∈ hs then
          (killDeclarations root.server fed)^[ownedCount root fed c.handle + 1] c else c) ∧
      (killClasses fed root hs).1.objects =
        root.objects.filter (fun o => !(o.classHandle ∈ hs && o.owner = fed)) := by
  induction hs with
  | nil =>
    intro root _ _
    simp [killClasses]
  | cons h rest ih =>
    intro root distinctClasses distinct
    obtain ⟨fresh, later⟩ := List.nodup_cons.mp distinctClasses
    have classes := killInClass_classes fed h
      (root.objects.filter (fun o => o.classHandle = h && o.owner = fed)) root
    have objects := killInClass_objects fed h
      (root.objects.filter (fun o => o.classHandle = h && o.owner = fed)) root
    have server := (killInClass_frame (p := fun _ => True) fed h
      (root.objects.filter (fun o => o.classHandle = h && o.owner = fed)) root).2.2.2.2
    rw [owned_handles distinct] at objects
    rw [killClasses]
    dsimp only
    generalize (killInClass fed h root
      (root.objects.filter (fun o => o.classHandle = h && o.owner = fed))).1 = after
      at classes objects server
    have distinct' : (after.objects.map Object.handle).Nodup := by
      rw [objects]
      exact distinct.sublist (List.filter_sublist.map _)
    obtain ⟨restClasses, restObjects⟩ := ih after later distinct'
    -- the later classes still have all their instances
    have counts : ∀ h' ∈ rest, ownedCount after fed h' = ownedCount root fed h' := by
      intro h' member
      have different : h' ≠ h := fun equal => fresh (equal ▸ member)
      unfold ownedCount
      rw [objects, List.filter_filter]
      congr 1
      refine List.filter_congr fun o _ => ?_
      by_cases same : o.classHandle = h' <;> simp [same, different]
    constructor
    · rw [restClasses, classes, adjust, List.map_map]
      refine List.map_congr_left fun c _ => ?_
      by_cases first : c.handle = h
      · rw [Function.comp_apply, if_pos first, killDeclarations_rounds_handle, first,
          if_neg fresh, if_pos List.mem_cons_self]
        rfl
      · by_cases listed : c.handle ∈ rest
        · simp [first, listed, server, counts c.handle listed]
        · simp [first, listed]
    · rw [restObjects, objects, List.filter_filter]
      refine List.filter_congr fun o _ => ?_
      by_cases owner : o.owner = fed <;> by_cases same : o.classHandle = h <;>
        simp [owner, same]

theorem killFederate_distinct {root : RootObject} (distinct : root.Distinct)
    (fed : FederateHandle) : (root.killFederate fed).1.Distinct := by
  obtain ⟨classes, objects⟩ :=
    killClasses_exact fed _ root distinct.classes distinct.objects
  constructor
  · have handles : (root.killFederate fed).1.classes.map ObjectClass.handle =
        root.classes.map ObjectClass.handle := by
      change (killClasses fed root (root.classes.map ObjectClass.handle)).1.classes.map _ = _
      rw [classes, List.map_map]
      refine List.map_congr_left fun c _ => ?_
      dsimp only [Function.comp_apply]
      split
      · exact killDeclarations_rounds_handle _ _ _ c
      · rfl
    rw [handles]
    exact distinct.classes
  · have kept : (root.killFederate fed).1.objects.map Object.handle =
        ((killClasses fed root (root.classes.map ObjectClass.handle)).1.objects.filter
          (fun o => o.owner ≠ fed)).map Object.handle := by
      simp only [killFederate, List.map_map]
      rfl
    rw [kept, objects]
    exact distinct.objects.sublist ((List.filter_sublist.trans List.filter_sublist).map _)

/-! ## Who is remembered -/

/-- What decides whether a departure removes every trace of the federate: its publications
can be withdrawn, the unfinished removals reach all its subscriptions, and it is a candidate
of no attribute that remains. -/
structure Forgettable (root : RootObject) (fed : FederateHandle) : Prop where
  classes : ∀ c ∈ root.classes, Unpublishable root.server fed c ∧ ∀ a ∈ c.attributes,
    staying (fun s => s.handle = fed) a.subscribers (ownedCount root fed c.handle + 1) = 0
  interactions : ∀ i ∈ root.interactions, staying (fun s => s.handle = fed) i.subscribers 1 = 0
  candidates : ∀ o ∈ root.objects, o.owner ≠ fed → ∀ oa ∈ o.attributes, fed ∉ oa.candidates

/-- No subscription is left after as many rounds. -/
theorem rounds_forgotten {subscribers : List Subscriber} (rounds : Nat)
    (gone : staying (fun s => s.handle = fed) subscribers rounds = 0) :
    ∀ s ∈ (removeIf fun s => s.handle = fed)^[rounds] subscribers, s.handle ≠ fed := by
  intro s member equal
  rw [← rounds_countP, List.countP_eq_zero] at gone
  exact gone s member (by simp [equal])

theorem rounds_mem {subscribers : List Subscriber} (rounds : Nat) :
    ∀ s ∈ (removeIf fun s => s.handle = fed)^[rounds] subscribers, s ∈ subscribers := by
  induction rounds with
  | zero => exact fun _ member => member
  | succ rounds ih =>
    intro s member
    rw [Function.iterate_succ_apply'] at member
    exact ih s (mem_removeIf member)

theorem killClass_declaredBy {p : FederateHandle → Prop} {rounds : Nat}
    (unpublishable : Unpublishable server fed c) (before : c.DeclaredBy p)
    (gone : ∀ a ∈ c.attributes,
      staying (fun s => s.handle = fed) a.subscribers (rounds + 1) = 0) :
    ((killDeclarations server fed)^[rounds + 1] c).DeclaredBy (fun g => p g ∧ g ≠ fed) := by
  rw [killDeclarations_rounds unpublishable]
  intro a' member
  obtain ⟨a, belongs, rfl⟩ := List.mem_map.mp member
  have old := before a belongs
  rw [ObjectClassAttribute.forget_rounds]
  constructor
  · intro g listed
    exact ⟨old.1 g (Finset.mem_of_mem_erase listed), Finset.ne_of_mem_erase listed⟩
  · intro s listed
    exact ⟨old.2 s (rounds_mem _ s listed), rounds_forgotten _ (gone a belongs) s listed⟩

theorem killInteraction_declaredBy {p : FederateHandle → Prop} {i : Interaction}
    (before : (∀ g ∈ i.publishers, p g) ∧ ∀ s ∈ i.subscribers, p s.handle)
    (gone : staying (fun s => s.handle = fed) i.subscribers 1 = 0) :
    (∀ g ∈ (i.killFederate fed).publishers, p g ∧ g ≠ fed) ∧
      ∀ s ∈ (i.killFederate fed).subscribers, p s.handle ∧ s.handle ≠ fed := by
  have publishers : (i.killFederate fed).publishers = i.publishers.erase fed := by
    unfold Interaction.killFederate
    dsimp only
    split <;> rfl
  have subscribers : (i.killFederate fed).subscribers =
      Subscribable.unsubscribe i.subscribers fed := by
    unfold Interaction.killFederate
    dsimp only
    split
    · rfl
    · rename_i absent
      exact (unsubscribe_eq_self (by simpa [Interaction.isSubscribed] using absent)).symm
  rw [publishers, subscribers]
  constructor
  · intro g listed
    exact ⟨before.1 g (Finset.mem_of_mem_erase listed), Finset.ne_of_mem_erase listed⟩
  · intro s listed
    exact ⟨before.2 s (Subscribable.mem_unsubscribe listed),
      rounds_forgotten 1 gone s listed⟩

/-- A forgettable federate is in no publisher or subscriber list afterwards. -/
theorem killFederate_declaredBy {p : FederateHandle → Prop} {root : RootObject}
    (before : root.DeclaredBy p) (forgettable : root.Forgettable fed)
    (distinct : root.Distinct) :
    (root.killFederate fed).1.DeclaredBy (fun g => p g ∧ g ≠ fed) := by
  have classes := (killClasses_exact fed _ root distinct.classes distinct.objects).1
  have interactions := (killClasses_frame (p := p) fed
    (root.classes.map ObjectClass.handle) root).2.2.2.1
  constructor
  · intro c' member
    change c' ∈ (killClasses fed root (root.classes.map ObjectClass.handle)).1.classes at member
    rw [classes] at member
    obtain ⟨c, belongs, rfl⟩ := List.mem_map.mp member
    obtain ⟨unpublishable, gone⟩ := forgettable.classes c belongs
    rw [if_pos (List.mem_map_of_mem belongs)]
    exact killClass_declaredBy unpublishable (before.classes c belongs) gone
  · intro i' member
    obtain ⟨i, belongs, rfl⟩ := List.mem_map.mp member
    rw [interactions] at belongs
    exact killInteraction_declaredBy (before.interactions i belongs)
      (forgettable.interactions i belongs)

end RootObject

end Certi
