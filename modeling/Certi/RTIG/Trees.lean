import Certi.LibCERTI.Killing
import Certi.RTIG.RegionRuns
import Certi.RTIG.Removal

/-!
# The class tree under requests

No request changes the tree of object classes, and the root object stays tidy.
-/
namespace Certi

open Keyed Federation Runs

namespace RootObject

/-- The same tree, up to who publishes and subscribes. -/
structure SameTree (root root' : RootObject) : Prop where
  classes : root.SameClasses root'
  handles : root'.classes.map ObjectClass.handle = root.classes.map ObjectClass.handle

variable {root root' root'' : RootObject} {fed : FederateHandle}

theorem sameTree_of_eq (classes : root'.classes = root.classes) : root.SameTree root' :=
  ⟨sameClasses_of_eq classes, congrArg _ classes⟩

theorem SameTree.trans (first : root.SameTree root') (second : root'.SameTree root'') :
    root.SameTree root'' :=
  ⟨sameClasses_trans first.classes second.classes, second.handles.trans first.handles⟩

theorem Redeclares.sameTree (same : root.Redeclares root') : root.SameTree root' :=
  ⟨same.classes, same.handles⟩

theorem RewritesInstance.sameTree {object : ObjectHandle} {p : Object → Object → Prop}
    (rewrites : RewritesInstance object p root root') : root.SameTree root' := by
  rcases rewrites with rfl | ⟨o, o', _, _, rfl⟩
  · exact sameTree_of_eq rfl
  · exact sameTree_of_eq rfl

theorem registerObjectInstance_sameTree (root : RootObject) (fed : FederateHandle)
    (h : ObjectClassHandle) (object : ObjectHandle) (name : String) :
    root.SameTree (root.registerObjectInstance fed h object name).state := by
  rcases registerObjectInstance_cases root fed h object name with
    ⟨e, refused⟩ | ⟨c, sent, registers⟩
  · rw [refused]
    exact sameTree_of_eq rfl
  · rw [registers.outcome]
    exact sameTree_of_eq rfl

theorem killFederate_sameTree (distinct : root.Distinct) (fed : FederateHandle) :
    root.SameTree (root.killFederate fed).1 :=
  ⟨(killFederate_frame (p := fun _ => True) root fed).1, killFederate_handles distinct fed⟩

theorem Rooted.sameTree (rooted : root.Rooted) (same : root.SameTree root') : root'.Rooted :=
  rooted.keep same.classes (same.handles ▸ rooted.forest.distinct)

end RootObject

namespace Federation

open RootObject

variable {f : Federation} {fed : FederateHandle} {service : RootObject → Outcome RootObject}

theorem memberOnRoot_sameTree (same : f.root.SameTree (service f.root).state) :
    f.root.SameTree (f.memberOnRoot fed service).state.root :=
  asMember_cases (p := fun outcome => f.root.SameTree outcome.state.root) (sameTree_of_eq rfl)
    fun _ => same

theorem memberWithRegion_sameTree {region : RegionHandle}
    (same : f.root.SameTree (service f.root).state) :
    f.root.SameTree (f.memberWithRegion fed region service).state.root := by
  refine memberOnRoot_sameTree ?_
  split
  · exact sameTree_of_eq rfl
  · exact same

theorem registerObjectWithRegion_sameTree (f : Federation) (fed : FederateHandle)
    (h : ObjectClassHandle) (name : String) (region : RegionHandle) (hs : List AttributeHandle) :
    f.root.SameTree (f.registerObjectWithRegion fed h name region hs).state.root := by
  refine asMember_cases (p := fun outcome => f.root.SameTree outcome.state.root)
    (sameTree_of_eq rfl) fun _ => ?_
  have registered : f.root.SameTree (f.registerObject fed h name).state.root :=
    registerObjectInstance_sameTree f.root fed h _ _
  have associated := registered.trans
    (RewritesInstance.sameTree (associate_cases _ f.nextObject region hs))
  dsimp only
  split
  · exact registered
  · split <;> exact associated

/-- No request changes the tree. -/
theorem perform_sameTree (tidy : f.root.Tidy) (e : Event) :
    f.root.SameTree (f.perform e).state.root := by
  have internal : e.isInternal = true → f.root.SameTree (f.perform e).state.root := by
    intro internal
    rw [(perform_internal f internal).root]
    exact sameTree_of_eq rfl
  cases e with
  | join name conditions =>
    rw [perform]
    rcases add_cases f name conditions with unchanged | ⟨_, _, _, _, root | root⟩
    · rw [unchanged]
      exact sameTree_of_eq rfl
    · exact sameTree_of_eq (by rw [root])
    · exact sameTree_of_eq (by rw [root])
  | resign fed =>
    rcases remove_cases f fed with refused | ⟨_, removed⟩
    · rw [perform, refused]
      exact sameTree_of_eq rfl
    · rw [perform, removed]
      exact sameTree_of_eq rfl
  | kill fed =>
    rcases kill_cases f fed with refused | ⟨_, result, _⟩
    · rw [perform, refused]
      exact sameTree_of_eq rfl
    · rw [perform, result]
      have closed : f.root.SameTree (f.closeLink fed).root := sameTree_of_eq rfl
      have distinct : (f.closeLink fed).root.Distinct :=
        ⟨tidy.distinct.classes, tidy.distinct.objects⟩
      exact closed.trans (killFederate_sameTree distinct fed)
  | publishObject fed c hs flag =>
    exact memberOnRoot_sameTree (publish_redeclares f.root fed c hs flag).sameTree
  | subscribeObject fed c hs =>
    exact memberOnRoot_sameTree (subscribe_redeclares f.root fed c hs none).sameTree
  | subscribeAttributesWR fed c region hs =>
    exact memberWithRegion_sameTree (subscribe_redeclares f.root fed c hs (some region)).sameTree
  | unsubscribeAttributesWR fed c region =>
    exact memberWithRegion_sameTree (unsubscribeWith_redeclares f.root fed c (some region)).sameTree
  | publishInteraction fed i flag =>
    exact memberOnRoot_sameTree (declareInteraction_redeclares f.root i _).sameTree
  | subscribeInteraction fed i flag =>
    exact memberOnRoot_sameTree (declareInteraction_redeclares f.root i _).sameTree
  | subscribeInteractionWR fed i region flag =>
    exact memberWithRegion_sameTree (declareInteraction_redeclares f.root i _).sameTree
  | createRegion fed space extents =>
    refine memberOnRoot_sameTree ?_
    rcases createRegion_cases f.root space extents with unchanged | ⟨r, _, result⟩
    · rw [unchanged]
      exact sameTree_of_eq rfl
    · rw [result]
      exact sameTree_of_eq rfl
  | associateRegion fed object region hs =>
    exact memberOnRoot_sameTree
      (RewritesInstance.sameTree (associate_cases f.root object region hs))
  | registerObject fed c name => exact registerObjectInstance_sameTree f.root fed c _ _
  | registerObjectWithRegion fed c name region hs =>
    exact registerObjectWithRegion_sameTree f fed c name region hs
  | deleteObject fed object =>
    refine memberOnRoot_sameTree ?_
    rcases deleteObjectInstance_cases f.root fed object with ⟨e, refused⟩ | ⟨o, sent, deletes⟩
    · rw [refused]
      exact sameTree_of_eq rfl
    · rw [deletes.outcome]
      exact sameTree_of_eq rfl
  | ownership service fed object hs =>
    rw [perform]
    refine asMember_cases (p := fun outcome => f.root.SameTree outcome.state.root)
      (sameTree_of_eq rfl) fun _ => ?_
    change f.root.SameTree (f.root.ownershipService object (service.perform fed hs)).1.state
    rcases ownershipService_cases f.root object (service.perform fed hs) with
      unchanged | ⟨o, c, _, _, result⟩
    · rw [unchanged]
      exact sameTree_of_eq rfl
    · rw [result]
      exact sameTree_of_eq rfl
  | _ => exact internal rfl

theorem performRegion_sameTree (tidy : f.root.Tidy) (e : RegionEvent) :
    f.root.SameTree (f.performRegion e).state.root := by
  cases e with
  | event e => exact perform_sameTree tidy e
  | modifyRegion fed region extents =>
    refine memberOnRoot_sameTree ?_
    rcases modifyRegion_cases f.root region extents with unchanged | ⟨r, result⟩
    · rw [unchanged]
      exact sameTree_of_eq rfl
    · rw [result]
      exact sameTree_of_eq rfl
  | deleteRegion fed region =>
    rcases deleteRegion_cases f fed region with unchanged | ⟨_, _, deleted⟩
    · rw [performRegion, unchanged]
      exact sameTree_of_eq rfl
    · rw [performRegion, deleted]
      rcases RootObject.deleteRegion_cases f.root region with ⟨unchanged, _⟩ | result
      · rw [unchanged]
        exact sameTree_of_eq rfl
      · rw [result]
        exact sameTree_of_eq rfl
  | unassociateRegion fed object region =>
    refine memberOnRoot_sameTree ?_
    unfold unassociate
    split <;> exact sameTree_of_eq rfl

theorem performRegion_tidy (tidy : f.root.Tidy) (e : RegionEvent) :
    (f.performRegion e).state.root.Tidy := by
  -- regions are not what tidiness is about
  have regions : ∀ regions, RootObject.Tidy { f.root with regions := regions } := fun _ =>
    ⟨⟨tidy.distinct.classes, tidy.distinct.objects⟩, tidy.below, tidy.classed⟩
  have member : ∀ {fed} {service : RootObject → Outcome RootObject},
      (service f.root).state.Tidy → (f.memberOnRoot fed service).state.root.Tidy :=
    fun {_ _} kept => asMember_cases (p := fun outcome => outcome.state.root.Tidy) tidy
      fun _ => kept
  cases e with
  | event e => exact (perform_keeps tidy e).1
  | modifyRegion fed region extents =>
    apply member
    rcases modifyRegion_cases f.root region extents with unchanged | ⟨r, result⟩
    · rw [unchanged]
      exact tidy
    · rw [result]
      exact regions _
  | deleteRegion fed region =>
    rcases deleteRegion_cases f fed region with unchanged | ⟨_, _, deleted⟩
    · rw [performRegion, unchanged]
      exact tidy
    · rw [performRegion, deleted]
      rcases RootObject.deleteRegion_cases f.root region with ⟨unchanged, _⟩ | result
      · rw [unchanged]
        exact tidy
      · rw [result]
        exact regions _
  | unassociateRegion fed object region =>
    apply member
    have rewrites : RewritesInstance object SameButRegions f.root
        (f.root.unassociate object region).state := by
      unfold unassociate
      split
      · exact .inl rfl
      · exact .inl rfl
      · rename_i o _ found
        refine .inr ⟨o, _, ?_, unassociate_sameButRegions o region, rfl⟩
        unfold getObject at found
        split at found
        · rename_i located
          cases found
          exact located
        · cases found
    refine (keeps_rewrites tidy rewrites (fun o o' same => ⟨same.handle, same.classHandle⟩) ?_).1
    rcases rewrites with unchanged | ⟨o, o', _, _, result⟩
    · rw [unchanged]
      exact tidy.distinct
    · rw [result]
      exact tidy.distinct.setObject o'

end Federation

end Certi
