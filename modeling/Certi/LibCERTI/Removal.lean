import Certi.LibCERTI.Departure
import Certi.LibCERTI.Discovery

/-!
# Who is told that an instance is gone

`ObjectClass::deleteInstance` and `ObjectClassSet::killFederate` recompute the
recipients of a removal from the subscriptions of the moment. Both are
characterised by whom they tell of which instance how often.
-/
namespace Certi

open Keyed

/-- How often the responses tell the federate that the instance is removed. -/
def Responses.removals (g : FederateHandle) (object : ObjectHandle) (sent : Responses) : Nat :=
  sent.countP fun response => match response.2 with
    | .removeObject _ _ removed => response.1 = g && removed = object
    | _ => false

open Responses

@[simp] theorem removals_nil (g : FederateHandle) (object : ObjectHandle) :
    removals g object [] = 0 := rfl

@[simp] theorem removals_append (g : FederateHandle) (object : ObjectHandle)
    (sent sent' : Responses) :
    removals g object (sent ++ sent') = removals g object sent + removals g object sent' :=
  List.countP_append

/-! ## One instance -/

/-- What a federate is told through messages that all remove one instance. -/
theorem removals_single {object : ObjectHandle} (g : FederateHandle) (object' : ObjectHandle)
    (sent : Responses) (about : ∀ response ∈ sent, ∃ s c, response.2 = .removeObject s c object) :
    removals g object' sent = if object = object' then (sent.map Prod.fst).count g else 0 := by
  induction sent with
  | nil => simp
  | cons response rest ih =>
    have later := ih fun r member => about r (List.mem_cons_of_mem response member)
    obtain ⟨s, c, message⟩ := about response List.mem_cons_self
    unfold removals at later ⊢
    rw [List.countP_cons, later, message, List.map_cons, List.count_cons]
    by_cases object = object' <;> by_cases response.1 = g <;> simp [*]

namespace RootObject

variable {root root' : RootObject} {fed g : FederateHandle}

/-- A broadcast about an instance of the class reaches the federate: some class on the climb
has it as a subscriber within the bound of the loop, and it has references. -/
def Addressed (root : RootObject) (g : FederateHandle) (h : ObjectClassHandle) : Prop :=
  root.server.hasReferences g = true ∧
    ∃ c ∈ root.lineage h, (0 < g ∧ g ≤ c.maxSubscriberHandle) ∧ c.isSubscribed g = true

instance (root : RootObject) (g : FederateHandle) (h : ObjectClassHandle) :
    Decidable (root.Addressed g h) :=
  inferInstanceAs (Decidable (_ ∧ ∃ c ∈ root.lineage h, _))

/-- A removal is told once to every other federate it is addressed to. -/
theorem removal_told {classHandle : ObjectClassHandle} {object : ObjectHandle} {sent : Responses}
    (success : broadcastUp root.server fed (fun h => .removeObject fed h object)
      (BroadcastLines.start fed) (root.lineage classHandle) = .ok sent)
    (g : FederateHandle) (object' : ObjectHandle) :
    removals g object' sent =
      if object = object' ∧ g ≠ fed ∧ root.Addressed g classHandle then 1 else 0 := by
  have settled : ∀ g, (BroadcastLines.start fed).status g 0 ≠ .waiting := by
    intro g
    rw [BroadcastLines.status_start]
    split <;> decide
  obtain ⟨sent', result, nodup, recipients⟩ := broadcastUp_recipients root.server fed
    (fun h => .removeObject fed h object) (root.lineage classHandle)
    (BroadcastLines.start fed) (BroadcastLines.start_distinct fed) settled
  obtain rfl : sent' = sent := Except.ok.inj (result.symm.trans success)
  have about : ∀ response ∈ sent', ∃ s c, response.2 = .removeObject s c object := by
    intro response member
    obtain ⟨c, _, message⟩ := broadcastUp_sent result response member
    exact ⟨fed, c.handle, message⟩
  have heard : g ∈ sent'.map Prod.fst ↔ g ≠ fed ∧ root.Addressed g classHandle := by
    rw [recipients, BroadcastLines.status_start]
    have within : ∀ c : ObjectClass, g ∈ audience c fed ↔
        ((0 < g ∧ g ≤ c.maxSubscriberHandle) ∧ c.isSubscribed g = true) ∧ g ≠ fed := by
      intro c
      rw [audience, List.mem_filter, mem_handles, Nat.one_le_iff_ne_zero, ← Nat.pos_iff_ne_zero]
      simp [and_assoc]
    simp only [within, Addressed]
    by_cases other : g = fed
    · simp [other]
    · simp [other]
  rw [removals_single g object' sent' about, nodup.count]
  simp only [heard]
  by_cases object = object' <;> simp [*]

/-- Every broadcast to the root succeeds. -/
theorem removal_broadcast (root : RootObject) (fed : FederateHandle) (object : ObjectHandle)
    (classHandle : ObjectClassHandle) :
    ∃ sent, broadcastUp root.server fed (fun h => .removeObject fed h object)
      (BroadcastLines.start fed) (root.lineage classHandle) = .ok sent := by
  have settled : ∀ g, (BroadcastLines.start fed).status g 0 ≠ .waiting := by
    intro g
    rw [BroadcastLines.status_start]
    split <;> decide
  obtain ⟨sent, result, _⟩ := broadcastUp_recipients root.server fed
    (fun h => .removeObject fed h object) (root.lineage classHandle)
    (BroadcastLines.start fed) (BroadcastLines.start_distinct fed) settled
  exact ⟨sent, result⟩

end RootObject

/-! ## The instances of a lost federate -/

namespace ObjectClass

variable {c : ObjectClass} {server : SecurityServer} {fed g : FederateHandle}

theorem mapAttributes_isSubscribed {f : ObjectClassAttribute → ObjectClassAttribute}
    (kept : ∀ a, (∃ s ∈ (f a).subscribers, s.handle = g) ↔ ∃ s ∈ a.subscribers, s.handle = g) :
    (c.mapAttributes f).isSubscribed g = c.isSubscribed g := by
  rw [Bool.eq_iff_iff, isSubscribed_iff, isSubscribed_iff]
  simp only [mapAttributes, List.mem_map, exists_exists_and_eq_and, kept]

theorem unsubscribe_isSubscribed_other (other : g ≠ fed) :
    (c.unsubscribe fed).isSubscribed g = c.isSubscribed g := by
  apply mapAttributes_isSubscribed
  intro a
  split
  · constructor
    · rintro ⟨s, listed, rfl⟩
      exact ⟨s, RemoveIf.mem_removeIf listed, rfl⟩
    · rintro ⟨s, listed, rfl⟩
      exact ⟨s, RemoveIf.mem_removeIf_of_keep listed (by simpa using other), rfl⟩
  · rfl

/-- Losing a federate changes no other federate's subscriptions. -/
theorem killDeclarations_audience (other : g ≠ fed) :
    (RootObject.killDeclarations server fed c).maxSubscriberHandle = c.maxSubscriberHandle ∧
      (RootObject.killDeclarations server fed c).isSubscribed g = c.isSubscribed g := by
  have unpublished : (c.publish server fed [] false).1.maxSubscriberHandle =
      c.maxSubscriberHandle ∧ (c.publish server fed [] false).1.isSubscribed g =
        c.isSubscribed g := by
    unfold publish checkAttributes
    simp only [List.all_nil, if_true]
    split
    · exact ⟨rfl, mapAttributes_isSubscribed fun _ => Iff.rfl⟩
    · exact ⟨rfl, rfl⟩
  unfold RootObject.killDeclarations
  split
  · split <;> rename_i outcome <;> rw [outcome] at unpublished
    · exact unpublished
    · split
      · exact ⟨unpublished.1, (unsubscribe_isSubscribed_other other).trans unpublished.2⟩
      · exact unpublished
  · split
    · exact ⟨rfl, unsubscribe_isSubscribed_other other⟩
    · exact ⟨rfl, rfl⟩

end ObjectClass

namespace RootObject

variable {root root' : RootObject} {fed g : FederateHandle}

/-- Taking the declarations of a federate out of a class leaves what is addressed to others. -/
theorem killDeclarationsOf_addressed (root : RootObject) (h : ObjectClassHandle) (other : g ≠ fed)
    (k : ObjectClassHandle) :
    (killDeclarationsOf root fed h).Addressed g k ↔ root.Addressed g k := by
  have climbed : (killDeclarationsOf root fed h).lineage k = (root.lineage k).map fun c =>
      if c.handle = h then killDeclarations root.server fed c else c := by
    refine Forest.ancestors_map (fun c _ => ?_) (fun c _ => ?_) k
    · split
      · exact killDeclarations_handle root.server fed c
      · rfl
    · split
      · exact (ObjectClass.killDeclarations_redeclared (p := fun _ => True)).same.superClass
      · rfl
  have audience : ∀ c : ObjectClass,
      (if c.handle = h then killDeclarations root.server fed c else c).maxSubscriberHandle =
          c.maxSubscriberHandle ∧
        (if c.handle = h then killDeclarations root.server fed c else c).isSubscribed g =
          c.isSubscribed g := by
    intro c
    split
    · exact ObjectClass.killDeclarations_audience other
    · exact ⟨rfl, rfl⟩
  unfold Addressed
  rw [climbed]
  simp only [List.mem_map, exists_exists_and_eq_and, audience]
  rfl

theorem addressed_congr (classes : root'.classes = root.classes)
    (server : root'.server = root.server) (h : ObjectClassHandle) :
    root'.Addressed g h ↔ root.Addressed g h := by
  unfold Addressed lineage
  rw [classes, server]

/-- The instances searched for are removed one after another. -/
theorem killInClass_removals (fed : FederateHandle) (h : ObjectClassHandle) (g : FederateHandle)
    (object : ObjectHandle) (owned : List Object) :
    ∀ root : RootObject,
      removals g object (killInClass fed h root owned).2 = owned.countP (fun o =>
        o.handle = object && decide (g ≠ fed ∧ root.Addressed g h)) ∧
      (g ≠ fed → ∀ k, (killInClass fed h root owned).1.Addressed g k ↔ root.Addressed g k) := by
  induction owned with
  | nil => exact fun root => ⟨rfl, fun other k => killDeclarationsOf_addressed root h other k⟩
  | cons o rest ih =>
    intro root
    have kept : g ≠ fed → ∀ k, ({ killDeclarationsOf root fed h with
        objects := drop Object.handle o.handle root.objects } : RootObject).Addressed g k ↔
          root.Addressed g k := fun other k =>
      (addressed_congr rfl rfl k).trans (killDeclarationsOf_addressed root h other k)
    obtain ⟨later, still⟩ := ih { killDeclarationsOf root fed h with
      objects := drop Object.handle o.handle root.objects }
    refine ⟨?_, fun other k => (still other k).trans (kept other k)⟩
    obtain ⟨sent, success⟩ :=
      removal_broadcast (killDeclarationsOf root fed h) fed o.handle h
    have first := removal_told success g object
    have here : removals g object (killInClass fed h root (o :: rest)).2 = removals g object sent +
        removals g object (killInClass fed h { killDeclarationsOf root fed h with
          objects := drop Object.handle o.handle root.objects } rest).2 := by
      have served : (killDeclarationsOf root fed h).server = root.server := rfl
      rw [served] at success
      rw [killInClass, ← removals_append]
      dsimp only
      rw [success]
      rfl
    have same : (g ≠ fed ∧ (killDeclarationsOf root fed h).Addressed g h) ↔
        g ≠ fed ∧ root.Addressed g h :=
      and_congr_right fun other => killDeclarationsOf_addressed root h other h
    have rest' : (g ≠ fed ∧ ({ killDeclarationsOf root fed h with
        objects := drop Object.handle o.handle root.objects } : RootObject).Addressed g h) ↔
          g ≠ fed ∧ root.Addressed g h :=
      and_congr_right fun other => kept other h
    rw [here, first, later, List.countP_cons]
    simp only [same, rest']
    by_cases named : o.handle = object <;> by_cases told : g ≠ fed ∧ root.Addressed g h <;>
      simp [named, told, Nat.add_comm]

/-- The instances that a lost federate owns in the classes are removed, each of them once. -/
theorem killClasses_removals (fed : FederateHandle) (g : FederateHandle) (object : ObjectHandle)
    (hs : List ObjectClassHandle) :
    ∀ root : RootObject, hs.Nodup → (root.objects.map Object.handle).Nodup →
      removals g object (killClasses fed root hs).2 = root.objects.countP (fun o =>
        o.handle = object && (o.classHandle ∈ hs && o.owner = fed) &&
          decide (g ≠ fed ∧ root.Addressed g o.classHandle)) := by
  induction hs with
  | nil =>
    intro root _ _
    simp [killClasses]
  | cons h rest ih =>
    intro root distinctClasses distinct
    obtain ⟨fresh, later⟩ := List.nodup_cons.mp distinctClasses
    obtain ⟨here, still⟩ := killInClass_removals fed h g object
      (root.objects.filter (fun o => o.classHandle = h && o.owner = fed)) root
    have objects := killInClass_objects fed h
      (root.objects.filter (fun o => o.classHandle = h && o.owner = fed)) root
    rw [owned_handles distinct] at objects
    rw [killClasses]
    dsimp only
    generalize killInClass fed h root
      (root.objects.filter (fun o => o.classHandle = h && o.owner = fed)) = after
      at here still objects
    have distinct' : (after.1.objects.map Object.handle).Nodup := by
      rw [objects]
      exact distinct.sublist (List.filter_sublist.map _)
    have same : ∀ k, (g ≠ fed ∧ after.1.Addressed g k) ↔ g ≠ fed ∧ root.Addressed g k :=
      fun k => and_congr_right fun other => still other k
    rw [removals_append, here, ih after.1 later distinct', objects,
      List.countP_eq_countP_filter_add root.objects _ (fun o => decide (o.classHandle = h))]
    simp only [same, List.countP_filter]
    -- an instance is in the first class or in one of the rest
    congr 1
    · refine List.countP_congr fun o _ => ?_
      by_cases inClass : o.classHandle = h <;> by_cases owner : o.owner = fed <;>
        simp [inClass, owner]
    · refine List.countP_congr fun o _ => ?_
      by_cases inClass : o.classHandle = h <;> simp [inClass, fresh]

end RootObject

end Certi
