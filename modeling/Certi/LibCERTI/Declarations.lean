import Mathlib.Data.Option.Basic
import Certi.LibCERTI.RootObject

/-!
# What declarations change of a class

Publishing, subscribing and the departure of a federate change who declared
what. The class stays the same otherwise (`SameClass`), and a federate that
appears in a publisher or subscriber list was there before or is the one that
declares (`DeclaredBy`).
-/
namespace Certi

open Keyed Sweep

/-- The same class but for publishers and subscribers. -/
structure ObjectClass.SameClass (c c' : ObjectClass) : Prop where
  handle : c'.handle = c.handle
  superClass : c'.superClass = c.superClass
  level : c'.securityLevelId = c.securityLevelId
  handles : c'.attributes.map ObjectClassAttribute.handle =
    c.attributes.map ObjectClassAttribute.handle
  names : ∀ h, (c'.attribute? h).map (·.name) = (c.attribute? h).map (·.name)
  levels : ∀ h, (c'.attribute? h).map (·.level) = (c.attribute? h).map (·.level)

/-- Every publisher and subscriber of the class satisfies `p`. -/
def ObjectClass.DeclaredBy (p : FederateHandle → Prop) (c : ObjectClass) : Prop :=
  ∀ a ∈ c.attributes, (∀ g ∈ a.publishers, p g) ∧ ∀ s ∈ a.subscribers, p s.handle

namespace ObjectClass

variable {c c' c'' : ObjectClass} {server : SecurityServer} {fed : FederateHandle}
  {p : FederateHandle → Prop}

theorem SameClass.refl (c : ObjectClass) : c.SameClass c :=
  ⟨rfl, rfl, rfl, rfl, fun _ => rfl, fun _ => rfl⟩

theorem SameClass.trans (first : c.SameClass c') (second : c'.SameClass c'') : c.SameClass c'' :=
  ⟨second.handle.trans first.handle, second.superClass.trans first.superClass,
    second.level.trans first.level, second.handles.trans first.handles,
    fun h => (second.names h).trans (first.names h),
    fun h => (second.levels h).trans (first.levels h)⟩

/-- The attribute under the name privilegeToDelete is the same one. -/
theorem SameClass.privileged (same : c.SameClass c') (h : AttributeHandle) :
    c'.privileged h = c.privileged h := by
  have read : ∀ d : ObjectClass, d.privileged h =
      ((d.attribute? h).map (·.name)).any (fun name => decide (name = "privilegeToDelete")) := by
    intro d
    unfold ObjectClass.privileged
    cases d.attribute? h <;> rfl
  rw [read, read, same.names h]

/-! ## One attribute -/

/-- Storing an attribute under its own name and level keeps the class. -/
theorem setAttribute_sameClass {a b : ObjectClassAttribute} {h : AttributeHandle}
    (found : c.attribute? h = some a) (handle : b.handle = a.handle) (name : b.name = a.name)
    (level : b.level = a.level) : c.SameClass (c.setAttribute b) := by
  have is : a.handle = h := lookup_key found
  have kept : ∀ {β : Type} (g : ObjectClassAttribute → β), g b = g a →
      ∀ h', ((c.setAttribute b).attribute? h').map g = (c.attribute? h').map g := by
    intro β g same h'
    change (lookup ObjectClassAttribute.handle h' (replace ObjectClassAttribute.handle b
      c.attributes)).map g = (lookup ObjectClassAttribute.handle h' c.attributes).map g
    rw [replace, lookup_adjust (fun _ _ => rfl)]
    cases located : lookup ObjectClassAttribute.handle h' c.attributes with
    | none => rfl
    | some old =>
      have key : old.handle = h' := lookup_key located
      by_cases equal : old.handle = b.handle
      · have : some old = some a := by
          rw [← located, ← found, ← key, equal, handle, is]
          rfl
        cases this
        simp [equal, same]
      · simp [equal]
  exact ⟨rfl, rfl, rfl, map_key_replace b c.attributes, kept _ name, kept _ level⟩

theorem setAttribute_declaredBy {b : ObjectClassAttribute} (before : c.DeclaredBy p)
    (publishers : ∀ g ∈ b.publishers, p g) (subscribers : ∀ s ∈ b.subscribers, p s.handle) :
    (c.setAttribute b).DeclaredBy p :=
  forall_replace before ⟨publishers, subscribers⟩

/-- Rewriting every attribute under its own handle, name and level keeps the class. -/
theorem mapAttributes_sameClass {f : ObjectClassAttribute → ObjectClassAttribute}
    (handle : ∀ a, (f a).handle = a.handle) (name : ∀ a, (f a).name = a.name)
    (level : ∀ a, (f a).level = a.level) : c.SameClass (c.mapAttributes f) := by
  have kept : ∀ {β : Type} (g : ObjectClassAttribute → β), (∀ a, g (f a) = g a) →
      ∀ h, ((c.mapAttributes f).attribute? h).map g = (c.attribute? h).map g := by
    intro β g same h
    simp only [attribute?, mapAttributes, lookup, List.find?_map, Function.comp_def, handle,
      Option.map_map, same]
  refine ⟨rfl, rfl, rfl, ?_, kept _ name, kept _ level⟩
  rw [mapAttributes, List.map_map]
  exact List.map_congr_left fun a _ => handle a

theorem mapAttributes_declaredBy {f : ObjectClassAttribute → ObjectClassAttribute}
    (before : c.DeclaredBy p)
    (publishers : ∀ a ∈ c.attributes, ∀ g ∈ (f a).publishers, g ∈ a.publishers)
    (subscribers : ∀ a ∈ c.attributes, ∀ s ∈ (f a).subscribers, s ∈ a.subscribers) :
    (c.mapAttributes f).DeclaredBy p := by
  intro b member
  obtain ⟨a, belongs, rfl⟩ := List.mem_map.mp member
  exact ⟨fun g listed => (before a belongs).1 g (publishers a belongs g listed),
    fun s listed => (before a belongs).2 s (subscribers a belongs s listed)⟩

theorem getAttribute_ok {h : AttributeHandle} {a : ObjectClassAttribute}
    (found : c.getAttribute h = .ok a) : c.attribute? h = some a := by
  unfold getAttribute at found
  split at found
  · rename_i located
    cases found
    exact located
  · cases found

end ObjectClass

namespace ObjectClassAttribute

theorem publish_success {server : SecurityServer} {fed : FederateHandle}
    {a b : ObjectClassAttribute} (success : a.publish server fed = .ok b) :
    b = { a with publishers := insert fed a.publishers } := by
  unfold publish at success
  split at success
  · rename_i already
    cases success
    have member : fed ∈ a.publishers := by simpa [isPublishing] using already
    rw [Finset.insert_eq_of_mem member]
  · split at success
    · cases success
      rfl
    · cases success

/-- The pair is in the list afterwards, and nothing else is new. -/
theorem subscribe_success {server : SecurityServer} {fed : FederateHandle}
    {region : Option RegionHandle} {a b : ObjectClassAttribute}
    (success : a.subscribe server fed region = .ok b) :
    b = { a with subscribers := b.subscribers } ∧
      ∀ s, s ∈ b.subscribers ↔ s ∈ a.subscribers ∨ s = ⟨fed, region⟩ := by
  unfold subscribe at success
  split at success
  · rename_i already
    cases success
    have member : ⟨fed, region⟩ ∈ a.subscribers := by
      simpa [Subscribable.isSubscribedWith] using already
    refine ⟨rfl, fun s => ⟨.inl, ?_⟩⟩
    rintro (old | rfl)
    · exact old
    · exact member
  · split at success
    · cases success
      exact ⟨rfl, fun s => by simp⟩
    · cases success

end ObjectClassAttribute

namespace ObjectClass

variable {c c' c'' : ObjectClass} {server : SecurityServer} {fed : FederateHandle}
  {p : FederateHandle → Prop}

/-! ## Publishing -/

/-- The class is the same and only a federate that satisfies `p` may be new in its lists. -/
structure Redeclared (p : FederateHandle → Prop) (c c' : ObjectClass) : Prop where
  same : c.SameClass c'
  declared : c.DeclaredBy p → c'.DeclaredBy p

theorem Redeclared.refl (c : ObjectClass) : Redeclared p c c := ⟨.refl c, id⟩

theorem Redeclared.trans (first : Redeclared p c c') (second : Redeclared p c' c'') :
    Redeclared p c c'' :=
  ⟨first.same.trans second.same, fun before => second.declared (first.declared before)⟩

theorem publishStep_redeclared {h : AttributeHandle} {flag : Bool} (declarer : p fed)
    (success : publishStep server fed flag c h = .ok c') : Redeclared p c c' := by
  unfold publishStep at success
  cases found : c.getAttribute h with
  | error e =>
    rw [found] at success
    cases success
  | ok a =>
    rw [found] at success
    have located := getAttribute_ok found
    cases flag with
    | false =>
      cases success
      refine ⟨setAttribute_sameClass located rfl rfl rfl, fun before => ?_⟩
      have old := before a (lookup_mem located)
      exact setAttribute_declaredBy before
        (fun g listed => old.1 g (Finset.mem_of_mem_erase listed)) old.2
    | true =>
      cases published : a.publish server fed with
      | error e =>
        simp only [bind, Except.bind, if_true, published] at success
        cases success
      | ok b =>
        simp only [bind, Except.bind, if_true, published] at success
        cases success
        cases ObjectClassAttribute.publish_success published
        refine ⟨setAttribute_sameClass located rfl rfl rfl, fun before => ?_⟩
        have old := before a (lookup_mem located)
        refine setAttribute_declaredBy before ?_ old.2
        intro g listed
        rcases Finset.mem_insert.mp listed with rfl | earlier
        · exact declarer
        · exact old.1 g earlier

theorem publish_redeclared (declarer : p fed) (hs : List AttributeHandle) (flag : Bool) :
    Redeclared p c (c.publish server fed hs flag).1 := by
  unfold publish
  split
  · exact .refl c
  · split
    · have reset : Redeclared p c (c.mapAttributes (·.unpublish fed)) :=
        ⟨mapAttributes_sameClass (fun _ => rfl) (fun _ => rfl) (fun _ => rfl), fun before =>
          mapAttributes_declaredBy before (fun _ _ g listed => Finset.mem_of_mem_erase listed)
            (fun _ _ _ listed => listed)⟩
      refine sweep_invariant (p := fun d => Redeclared p c d) ?_ reset
      intro d h next _ holds success
      exact holds.trans (publishStep_redeclared declarer success)
    · exact .refl c

/-! ## Subscribing -/

theorem subscribeStep_success {region : Option RegionHandle} {h : AttributeHandle}
    (success : subscribeStep server fed region c h = .ok c') :
    ∃ a b, c.attribute? h = some a ∧ a.subscribe server fed region = .ok b ∧
      c' = c.setAttribute b := by
  unfold subscribeStep at success
  cases found : c.getAttribute h with
  | error e =>
    rw [found] at success
    cases success
  | ok a =>
    rw [found] at success
    cases subscribed : a.subscribe server fed region with
    | error e =>
      simp only [bind, Except.bind, subscribed] at success
      cases success
    | ok b =>
      simp only [bind, Except.bind, subscribed] at success
      cases success
      exact ⟨a, b, getAttribute_ok found, subscribed, rfl⟩

theorem subscribeStep_redeclared {region : Option RegionHandle} {h : AttributeHandle}
    (declarer : p fed) (success : subscribeStep server fed region c h = .ok c') :
    Redeclared p c c' := by
  obtain ⟨a, b, located, subscribed, rfl⟩ := subscribeStep_success success
  obtain ⟨rest, listed⟩ := ObjectClassAttribute.subscribe_success subscribed
  refine ⟨setAttribute_sameClass located (by rw [rest]) (by rw [rest]) (by rw [rest]), fun before => ?_⟩
  have old := before a (lookup_mem located)
  refine setAttribute_declaredBy before (by rw [rest]; exact old.1) ?_
  intro s member
  rcases (listed s).mp member with earlier | rfl
  · exact old.2 s earlier
  · exact declarer

theorem unsubscribeWith_redeclared (fed : FederateHandle) (region : Option RegionHandle) :
    Redeclared p c (c.unsubscribeWith fed region) :=
  ⟨mapAttributes_sameClass (fun _ => rfl) (fun _ => rfl) (fun _ => rfl), fun before =>
    mapAttributes_declaredBy before (fun _ _ _ listed => listed)
      (fun _ _ s listed => (Subscribable.mem_unsubscribeWith.mp listed).1)⟩

theorem subscribe_redeclared (declarer : p fed) (hs : List AttributeHandle)
    (region : Option RegionHandle) : Redeclared p c (c.subscribe server fed hs region).1 := by
  unfold subscribe
  split
  · split
    · exact .refl c
    · have raised : Redeclared p c (if hs.isEmpty then c
          else { c with maxSubscriberHandle := max fed c.maxSubscriberHandle }) := by
        split
        · exact .refl c
        · exact ⟨⟨rfl, rfl, rfl, rfl, fun _ => rfl, fun _ => rfl⟩, id⟩
      have step : ∀ d h next, h ∈ hs → Redeclared p c d →
          subscribeStep server fed region d h = .ok next → Redeclared p c next :=
        fun d h next _ holds success => holds.trans (subscribeStep_redeclared declarer success)
      have swept := sweep_invariant step (raised.trans (unsubscribeWith_redeclared fed region))
      dsimp only
      split <;> rename_i outcome <;> rw [outcome] at swept <;> exact swept
  · exact .refl c

theorem unsubscribe_redeclared : Redeclared p c (c.unsubscribe fed) := by
  refine ⟨mapAttributes_sameClass ?_ ?_ ?_, fun before => mapAttributes_declaredBy before ?_ ?_⟩
  · intro a
    split <;> rfl
  · intro a
    split <;> rfl
  · intro a
    split <;> rfl
  · intro a _ g listed
    split at listed <;> exact listed
  · intro a _ s listed
    split at listed
    · exact Subscribable.mem_unsubscribe listed
    · exact listed

/-! ## Departure -/

theorem killDeclarations_redeclared : Redeclared p c (RootObject.killDeclarations server fed c) := by
  have unpublished : Redeclared p c (c.publish server fed [] false).1 := by
    unfold publish checkAttributes
    simp only [List.all_nil, if_true]
    split
    · exact ⟨mapAttributes_sameClass (fun _ => rfl) (fun _ => rfl) (fun _ => rfl), fun before =>
        mapAttributes_declaredBy before (fun _ _ g listed => Finset.mem_of_mem_erase listed)
          (fun _ _ _ listed => listed)⟩
    · exact .refl c
  unfold RootObject.killDeclarations
  split
  · split <;> rename_i outcome <;> rw [outcome] at unpublished
    · exact unpublished
    · split
      · exact unpublished.trans unsubscribe_redeclared
      · exact unpublished
  · split
    · exact unsubscribe_redeclared
    · exact .refl c

end ObjectClass

namespace RootObject

variable {root root' : RootObject} {p : FederateHandle → Prop}

/-- The same class tree but for publishers and subscribers. -/
def SameClasses (root root' : RootObject) : Prop :=
  ∀ h, Option.Rel ObjectClass.SameClass (root.class? h) (root'.class? h)

/-- Nothing but who declared what is different. -/
structure Redeclares (root root' : RootObject) : Prop where
  classes : root.SameClasses root'
  handles : root'.classes.map ObjectClass.handle = root.classes.map ObjectClass.handle
  rest : root' = { root with classes := root'.classes, interactions := root'.interactions }

/-- Every publisher and subscriber of a class or interaction satisfies `p`. -/
structure DeclaredBy (p : FederateHandle → Prop) (root : RootObject) : Prop where
  classes : ∀ c ∈ root.classes, c.DeclaredBy p
  interactions : ∀ i ∈ root.interactions,
    (∀ g ∈ i.publishers, p g) ∧ ∀ s ∈ i.subscribers, p s.handle

theorem sameClasses_refl (root : RootObject) : root.SameClasses root := by
  intro h
  cases root.class? h with
  | none => exact .none
  | some c => exact .some (.refl c)

theorem sameClasses_trans {root'' : RootObject} (first : root.SameClasses root')
    (second : root'.SameClasses root'') : root.SameClasses root'' := by
  intro h
  have start := first h
  have next := second h
  generalize root.class? h = c at start ⊢
  generalize root''.class? h = c'' at next ⊢
  generalize root'.class? h = c' at start next
  cases start with
  | none =>
    cases next with
    | none => exact .none
  | some before =>
    cases next with
    | some after => exact .some (before.trans after)

theorem SameClasses.class? (same : root.SameClasses root') {h : ObjectClassHandle}
    {c : ObjectClass} (found : root.class? h = some c) :
    ∃ c', root'.class? h = some c' ∧ c.SameClass c' := by
  have related := same h
  rw [found] at related
  cases located : root'.class? h with
  | none =>
    rw [located] at related
    cases related
  | some c' =>
    rw [located] at related
    cases related with
    | some both => exact ⟨c', rfl, both⟩

theorem SameClasses.class?' (same : root.SameClasses root') {h : ObjectClassHandle}
    {c' : ObjectClass} (found : root'.class? h = some c') :
    ∃ c, root.class? h = some c ∧ c.SameClass c' := by
  have related := same h
  rw [found] at related
  cases located : root.class? h with
  | none =>
    rw [located] at related
    cases related
  | some c =>
    rw [located] at related
    cases related with
    | some both => exact ⟨c, rfl, both⟩

/-- Rewriting the class of a handle by `f` changes that class only. -/
theorem adjust_sameClasses {h : ObjectClassHandle} {f : ObjectClass → ObjectClass}
    (same : ∀ c, root.class? h = some c → c.SameClass (f c))
    (handles : ∀ c, c.handle = h → (f c).handle = h)
    (result : root'.classes = adjust ObjectClass.handle h f root.classes) :
    root.SameClasses root' := by
  intro h'
  simp only [RootObject.class?, result, lookup_adjust handles]
  cases located : lookup ObjectClass.handle h' root.classes with
  | none => exact .none
  | some c =>
    have key : c.handle = h' := lookup_key located
    by_cases equal : c.handle = h
    · simp only [Option.map_some, equal, if_true]
      have found : root.class? h = some c := by
        rw [← equal, key]
        exact located
      exact .some (same c found)
    · simp only [Option.map_some, equal, if_false]
      exact .some (.refl c)

theorem setClass_sameClasses {h : ObjectClassHandle} {c c' : ObjectClass}
    (found : root.class? h = some c) (same : c.SameClass c') :
    root.SameClasses (root.setClass c') := by
  have key : c.handle = h := lookup_key found
  have key' : c'.handle = h := same.handle.trans key
  refine adjust_sameClasses (h := c'.handle) (f := fun _ => c') ?_ (fun _ _ => rfl) rfl
  intro d located
  rw [key', found] at located
  cases located
  exact same

theorem setClass_declaredBy {h : ObjectClassHandle} {c c' : ObjectClass}
    (before : root.DeclaredBy p) (found : root.class? h = some c)
    (redeclared : ObjectClass.Redeclared p c c') : (root.setClass c').DeclaredBy p :=
  ⟨forall_replace before.classes
    (redeclared.declared (before.classes c (lookup_mem found))), before.interactions⟩

/-! ## Services -/

theorem Redeclares.refl (root : RootObject) : root.Redeclares root :=
  ⟨sameClasses_refl root, rfl, rfl⟩

theorem setClass_redeclares {h : ObjectClassHandle} {c c' : ObjectClass}
    (found : root.class? h = some c) (same : c.SameClass c') : root.Redeclares (root.setClass c') :=
  ⟨setClass_sameClasses found same, map_key_replace c' root.classes, rfl⟩

theorem publish_redeclares (root : RootObject) (fed : FederateHandle) (h : ObjectClassHandle)
    (hs : List AttributeHandle) (flag : Bool) :
    root.Redeclares (root.publish fed h hs flag).state := by
  unfold publish
  split
  · exact .refl root
  · rename_i c found
    exact setClass_redeclares found
      (ObjectClass.publish_redeclared (p := fun _ => True) trivial hs flag).same

theorem publish_declaredBy {fed : FederateHandle} (before : root.DeclaredBy p) (declarer : p fed)
    (h : ObjectClassHandle) (hs : List AttributeHandle) (flag : Bool) :
    (root.publish fed h hs flag).state.DeclaredBy p := by
  unfold publish
  split
  · exact before
  · rename_i c found
    exact setClass_declaredBy before found (ObjectClass.publish_redeclared declarer hs flag)

theorem subscribe_redeclares (root : RootObject) (fed : FederateHandle) (h : ObjectClassHandle)
    (hs : List AttributeHandle) (region : Option RegionHandle) :
    root.Redeclares (root.subscribe fed h hs region).state := by
  unfold subscribe
  split
  · exact .refl root
  · rename_i c found
    have redeclared : ObjectClass.Redeclared (fun _ => True) c
        (c.subscribe root.server fed hs region).1 :=
      ObjectClass.subscribe_redeclared trivial hs region
    split <;> rename_i outcome <;> rw [outcome] at redeclared <;>
      exact setClass_redeclares found redeclared.same

theorem subscribe_declaredBy {fed : FederateHandle} (before : root.DeclaredBy p)
    (declarer : p fed) (h : ObjectClassHandle) (hs : List AttributeHandle)
    (region : Option RegionHandle) : (root.subscribe fed h hs region).state.DeclaredBy p := by
  unfold subscribe
  split
  · exact before
  · rename_i c found
    have redeclared : ObjectClass.Redeclared p c (c.subscribe root.server fed hs region).1 :=
      ObjectClass.subscribe_redeclared declarer hs region
    split <;> rename_i outcome <;> rw [outcome] at redeclared <;>
      exact setClass_declaredBy before found redeclared

theorem unsubscribeWith_redeclares (root : RootObject) (fed : FederateHandle)
    (h : ObjectClassHandle) (region : Option RegionHandle) :
    root.Redeclares (root.unsubscribeWith fed h region).state := by
  unfold unsubscribeWith
  split
  · exact .refl root
  · rename_i c found
    exact setClass_redeclares found
      (ObjectClass.unsubscribeWith_redeclared (p := fun _ => True) fed region).same

theorem unsubscribeWith_declaredBy (before : root.DeclaredBy p) (fed : FederateHandle)
    (h : ObjectClassHandle) (region : Option RegionHandle) :
    (root.unsubscribeWith fed h region).state.DeclaredBy p := by
  unfold unsubscribeWith
  split
  · exact before
  · rename_i c found
    exact setClass_declaredBy before found (ObjectClass.unsubscribeWith_redeclared fed region)

theorem declareInteraction_redeclares (root : RootObject) (h : InteractionClassHandle)
    (f : Interaction → Except RTIException Interaction) :
    root.Redeclares (root.declareInteraction h f).state := by
  unfold declareInteraction
  split
  · exact .refl root
  · split
    · exact .refl root
    · exact ⟨sameClasses_refl root, rfl, rfl⟩

theorem declareInteraction_declaredBy {h : InteractionClassHandle}
    {f : Interaction → Except RTIException Interaction} (before : root.DeclaredBy p)
    (declared : ∀ i i', f i = .ok i' →
      (∀ g ∈ i'.publishers, g ∈ i.publishers ∨ p g) ∧
        ∀ s ∈ i'.subscribers, s ∈ i.subscribers ∨ p s.handle) :
    (root.declareInteraction h f).state.DeclaredBy p := by
  unfold declareInteraction
  split
  · exact before
  · rename_i i found
    split
    · exact before
    · rename_i i' success
      have member : i ∈ root.interactions := by
        unfold getInteraction at found
        split at found
        · rename_i located
          cases found
          exact lookup_mem located
        · cases found
      have old := before.interactions i member
      have new := declared i i' success
      refine ⟨before.classes, forall_replace before.interactions ⟨?_, ?_⟩⟩
      · intro g listed
        rcases new.1 g listed with earlier | declarer
        · exact old.1 g earlier
        · exact declarer
      · intro s listed
        rcases new.2 s listed with earlier | declarer
        · exact old.2 s earlier
        · exact declarer

theorem publishInteraction_declaredBy {fed : FederateHandle} (before : root.DeclaredBy p)
    (declarer : p fed) (h : InteractionClassHandle) (flag : Bool) :
    (root.publishInteraction fed h flag).state.DeclaredBy p := by
  refine declareInteraction_declaredBy before fun i i' success => ?_
  cases flag with
  | true =>
    simp only [if_true, Interaction.publish] at success
    split at success
    · cases success
      refine ⟨fun g listed => ?_, fun s listed => .inl listed⟩
      rcases Finset.mem_insert.mp listed with rfl | earlier
      · exact .inr declarer
      · exact .inl earlier
    · cases success
  | false =>
    simp only [Bool.false_eq_true, if_false, Interaction.unpublish] at success
    split at success
    · cases success
      exact ⟨fun g listed => .inl (Finset.mem_of_mem_erase listed), fun s listed => .inl listed⟩
    · cases success

theorem subscribeInteraction_declaredBy {fed : FederateHandle} (before : root.DeclaredBy p)
    (declarer : p fed) (h : InteractionClassHandle) (region : Option RegionHandle) (flag : Bool) :
    (root.subscribeInteraction fed h region flag).state.DeclaredBy p := by
  refine declareInteraction_declaredBy before fun i i' success => ?_
  cases flag with
  | true =>
    simp only [if_true, Interaction.subscribe] at success
    split at success
    · cases success
      exact ⟨fun g listed => .inl listed, fun s listed => .inl listed⟩
    · split at success
      · cases success
        refine ⟨fun g listed => .inl listed, fun s listed => ?_⟩
        rcases List.mem_append.mp listed with earlier | new
        · exact .inl earlier
        · cases List.mem_singleton.mp new
          exact .inr declarer
      · cases success
  | false =>
    simp only [Bool.false_eq_true, if_false] at success
    cases success
    exact ⟨fun g listed => .inl listed,
      fun s listed => .inl (Subscribable.mem_unsubscribeWith.mp listed).1⟩

/-- The loop over one class: the classes stay the same and the instances only go. -/
theorem killInClass_frame (fed : FederateHandle) (h : ObjectClassHandle) (owned : List Object) :
    ∀ root : RootObject, root.SameClasses (killInClass fed h root owned).1 ∧
      (∀ o ∈ (killInClass fed h root owned).1.objects, o ∈ root.objects) ∧
      (root.DeclaredBy p → (killInClass fed h root owned).1.DeclaredBy p) ∧
      (killInClass fed h root owned).1.interactions = root.interactions ∧
      (killInClass fed h root owned).1.server = root.server := by
  have declarations : ∀ root : RootObject, root.SameClasses (killDeclarationsOf root fed h) ∧
      (root.DeclaredBy p → (killDeclarationsOf root fed h).DeclaredBy p) := by
    intro root
    constructor
    · exact adjust_sameClasses (f := killDeclarations root.server fed) (h := h)
        (fun c _ => (ObjectClass.killDeclarations_redeclared (p := fun _ => True)).same)
        (fun c is => ((ObjectClass.killDeclarations_redeclared
          (p := fun _ => True)).same.handle).trans is) rfl
    · intro before
      exact ⟨forall_adjust before.classes
        (fun c _ _ old => ObjectClass.killDeclarations_redeclared.declared old),
        before.interactions⟩
  induction owned with
  | nil =>
    intro root
    exact ⟨(declarations root).1, fun _ member => member, (declarations root).2, rfl, rfl⟩
  | cons o rest ih =>
    intro root
    have step := ih { killDeclarationsOf root fed h with
      objects := drop Object.handle o.handle root.objects }
    refine ⟨sameClasses_trans (declarations root).1 step.1, ?_, ?_, step.2.2.2.1, step.2.2.2.2⟩
    · intro other member
      exact (mem_drop.mp (step.2.1 other member)).1
    · intro before
      have unpublished := (declarations root).2 before
      exact step.2.2.1 ⟨unpublished.classes, unpublished.interactions⟩

theorem killClasses_frame (fed : FederateHandle) (hs : List ObjectClassHandle) :
    ∀ root : RootObject, root.SameClasses (killClasses fed root hs).1 ∧
      (∀ o ∈ (killClasses fed root hs).1.objects, o ∈ root.objects) ∧
      (root.DeclaredBy p → (killClasses fed root hs).1.DeclaredBy p) ∧
      (killClasses fed root hs).1.interactions = root.interactions ∧
      (killClasses fed root hs).1.server = root.server := by
  induction hs with
  | nil => exact fun root => ⟨sameClasses_refl root, fun _ member => member, id, rfl, rfl⟩
  | cons h rest ih =>
    intro root
    have first := killInClass_frame (p := p) fed h
      (root.objects.filter (fun o => o.classHandle = h && o.owner = fed)) root
    have later := ih (killInClass fed h root
      (root.objects.filter (fun o => o.classHandle = h && o.owner = fed))).1
    exact ⟨sameClasses_trans first.1 later.1, fun o member => first.2.1 o (later.2.1 o member),
      fun before => later.2.2.1 (first.2.2.1 before), later.2.2.2.1.trans first.2.2.2.1,
      later.2.2.2.2.trans first.2.2.2.2⟩

end RootObject

end Certi
