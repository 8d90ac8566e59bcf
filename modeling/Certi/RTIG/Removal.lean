import Certi.LibCERTI.Removal
import Certi.RTIG.Discovery
import Certi.RTIG.OwnershipRuns

/-!
# Removal of instances over whole runs

An instance goes when its owner deletes it or is lost. Those who are told are
the subscribers of the moment, so they are those who should be told exactly when
the subscribers are the federates that discovered the instance. The maps of
instances that every class keeps are followed beside the object set.
-/
namespace Certi

open Keyed Federation Runs Responses

/-! ## The maps of the classes -/

/-- `_handleObjectMap` of every class: which class has which instance. -/
abbrev InstanceMaps := List (ObjectClassHandle × ObjectHandle)

/-- The maps after an event. `ObjectClass::registerObjectInstance` adds an entry,
`deleteInstance` erases one of the class that `getInstanceClass` finds, and `killFederate` all
those of the federate's instances. -/
def Federation.instanceMaps (f : Federation) (maps : InstanceMaps) : Event → InstanceMaps
  | .registerObject fed h name =>
    if (f.registerObject fed h name).error.isNone then maps ++ [(h, f.nextObject)] else maps
  | .registerObjectWithRegion fed h name _ _ =>
    if f.check fed && (f.registerObject fed h name).error.isNone then
      maps ++ [(h, f.nextObject)]
    else maps
  | .deleteObject fed object =>
    if (f.perform (.deleteObject fed object)).error.isNone then
      maps.eraseP fun entry => entry.2 = object
    else maps
  | .kill fed =>
    if f.isJoined fed then
      maps.filter fun entry => (f.root.object? entry.2).all fun o => o.owner ≠ fed
    else maps
  | _ => maps

/-- The RTIG with the maps of its classes. -/
def rtigWithMaps : Machine (Federation × InstanceMaps) Event Answer := fun s e =>
  (((rtig s.1 e).1, if s.1.crashed then s.2 else s.1.instanceMaps s.2 e), (rtig s.1 e).2)

/-! ## The statement -/

/-- Is the link of the federate open: its join has been answered and it was not lost since. -/
def connected (g : FederateHandle) (past : List (Event × Answer)) : Bool :=
  past.foldl (fun isOpen entry =>
    let joins := entry.2.1.any fun response => match response.2 with
      | .joinFederationExecution fed _ => fed = g
      | _ => false
    match entry.1 with
    | .kill fed => isOpen && fed ≠ g
    | _ => isOpen || joins) false

/-- The event deletes the instance: its owner asks for it, or its owner is lost. -/
def Federation.Removes (f : Federation) (o : Object) : Event → Prop
  | .deleteObject fed object =>
    f.crashed = false ∧ f.check fed = true ∧ object = o.handle ∧ o.owner = fed
  | .kill fed => f.crashed = false ∧ f.isJoined fed = true ∧ o.owner = fed
  | _ => False

/-- What the event does to the instances it deletes, as far as open links can tell. -/
structure RemovedSoundly (past : List (Event × Answer)) (s : Federation × InstanceMaps)
    (e : Event) : Prop where
  told : ∀ o ∈ s.1.root.objects, s.1.Removes o e → ∀ g, connected g past = true →
    removals g o.handle (rtigWithMaps s e).2.1 =
      if s.1.isJoined g = true ∧ g ≠ o.owner ∧ o.handle ∈ discoveries g past then 1 else 0
  gone : ∀ o ∈ s.1.root.objects, s.1.Removes o e →
    (∀ o' ∈ (rtigWithMaps s e).1.1.root.objects, o'.handle ≠ o.handle) ∧
      ∀ entry ∈ (rtigWithMaps s e).1.2, entry.2 ≠ o.handle
  only : ∀ g object, removals g object (rtigWithMaps s e).2.1 ≠ 0 →
    ∃ o ∈ s.1.root.objects, o.handle = object ∧ s.1.Removes o e

/-- The federates that an instance is now addressed to are the members that discovered it. -/
def HeardAsDiscovered (past : List (Event × Answer)) (f : Federation) (e : Event) : Prop :=
  ∀ o ∈ f.root.objects, f.Removes o e → ∀ g, connected g past = true → g ≠ o.owner →
    (f.root.Addressed g o.classHandle ↔ f.isJoined g = true ∧ o.handle ∈ discoveries g past)

/-! ## What every event keeps of the root object -/

namespace RootObject

/-- Handles are distinct, superclasses come first, and every instance is of some class. -/
structure Tidy (root : RootObject) : Prop where
  distinct : root.Distinct
  below : ∀ c ∈ root.classes, c.superClass < c.handle
  classed : ∀ o ∈ root.objects, o.classHandle ∈ root.classes.map ObjectClass.handle

variable {root root' : RootObject}

theorem Tidy.forest (tidy : root.Tidy) : root.ClassForest :=
  ⟨tidy.distinct.classes, tidy.below⟩

theorem Tidy.keep (tidy : root.Tidy) (same : root.SameClasses root') (distinct : root'.Distinct)
    (handles : root'.classes.map ObjectClass.handle = root.classes.map ObjectClass.handle)
    (objects : ∀ o' ∈ root'.objects, (∃ o ∈ root.objects, o.classHandle = o'.classHandle) ∨
      o'.classHandle ∈ root.classes.map ObjectClass.handle) : root'.Tidy := by
  refine ⟨distinct, fun c' member => ?_, fun o' member => ?_⟩
  · have found : root'.class? c'.handle = some c' := lookup_of_nodup distinct.classes member
    obtain ⟨c, before, both⟩ := same.class?' found
    have smaller := tidy.below c (lookup_mem before)
    rw [both.handle, both.superClass]
    exact smaller
  · rw [handles]
    rcases objects o' member with ⟨o, belongs, equal⟩ | listed
    · rw [← equal]
      exact tidy.classed o belongs
    · exact listed

theorem sameClasses_of_eq (classes : root'.classes = root.classes) : root.SameClasses root' := by
  intro h
  unfold class?
  rw [classes]
  exact sameClasses_refl root h

theorem Tidy.declare (tidy : root.Tidy) (same : root.Redeclares root') : root'.Tidy := by
  refine tidy.keep same.classes (tidy.distinct.declare same) same.handles fun o' member => ?_
  rw [same.rest] at member
  exact .inl ⟨o', member, rfl⟩

/-- The entry of an instance in the map of its class. -/
def entry (o : Object) : ObjectClassHandle × ObjectHandle := (o.classHandle, o.handle)

/-- The root object is tidy, and these are the maps of its classes. -/
def Keeps (root : RootObject) (maps : InstanceMaps) : Prop :=
  root.Tidy ∧ root.objects.map entry = maps

theorem keeps_declare (tidy : root.Tidy) (same : root.Redeclares root') :
    root'.Keeps (root.objects.map entry) :=
  ⟨tidy.declare same, by rw [same.rest]⟩

theorem keeps_rewrites (tidy : root.Tidy) {object : ObjectHandle}
    {p : Object → Object → Prop} (rewrites : RewritesInstance object p root root')
    (same : ∀ o o', p o o' → o'.handle = o.handle ∧ o'.classHandle = o.classHandle)
    (distinct : root'.Distinct) : root'.Keeps (root.objects.map entry) := by
  rcases rewrites with rfl | ⟨o, o', found, changed, rfl⟩
  · exact ⟨tidy, rfl⟩
  · obtain ⟨handle, classHandle⟩ := same o o' changed
    have entries : (root.setObject o').objects.map entry = root.objects.map entry := by
      unfold setObject replace adjust
      rw [List.map_map]
      refine List.map_congr_left fun p member => ?_
      dsimp only [Function.comp]
      split
      · rename_i equal
        obtain rfl : p = o := List.inj_on_of_nodup_map tidy.distinct.objects member
          (lookup_mem found) (equal.trans handle)
        rw [entry, entry, handle, classHandle]
      · rfl
    refine ⟨tidy.keep (sameClasses_of_eq rfl) distinct rfl fun p' member => ?_, entries⟩
    have listed := List.mem_map_of_mem (f := entry) member
    rw [entries] at listed
    obtain ⟨p, belongs, equal⟩ := List.mem_map.mp listed
    exact .inl ⟨p, belongs, congrArg Prod.fst equal⟩

theorem keeps_registers (tidy : root.Tidy) {fed : FederateHandle} {h : ObjectClassHandle}
    {object : ObjectHandle} {name : String} {c : ObjectClass} {sent : Responses}
    (registers : root.Registers fed h object name c sent) :
    (root.registerObjectInstance fed h object name).state.Keeps
      (root.objects.map entry ++ [(h, object)]) := by
  have distinct := registerObjectInstance_distinct tidy.distinct fed h object name
  rw [registers.outcome] at distinct ⊢
  refine ⟨tidy.keep (sameClasses_of_eq rfl) distinct rfl fun o' member => ?_, ?_⟩
  · rcases List.mem_append.mp member with old | new
    · exact .inl ⟨o', old, rfl⟩
    · right
      rw [List.mem_singleton.mp new]
      have handle : c.handle = h := lookup_key registers.found
      change h ∈ _
      rw [← handle]
      exact List.mem_map_of_mem (lookup_mem registers.found)
  · simp [Outcome.done, newInstance, entry]

/-- Erasing the entry found first erases the only one. -/
theorem eraseP_entry {objects : List Object} (distinct : (objects.map Object.handle).Nodup)
    (object : ObjectHandle) :
    (objects.map entry).eraseP (fun e => e.2 = object) =
      (drop Object.handle object objects).map entry := by
  induction objects with
  | nil => rfl
  | cons o rest ih =>
    rw [List.map_cons, List.nodup_cons] at distinct
    have later := ih distinct.2
    unfold drop at later ⊢
    by_cases here : o.handle = object
    · have absent : rest.filter (fun p => p.handle ≠ object) = rest := by
        apply List.filter_eq_self.mpr
        intro p member
        have other : p.handle ≠ o.handle := fun equal =>
          distinct.1 (equal ▸ List.mem_map_of_mem member)
        simpa [← here] using other
      rw [List.filter_cons_of_neg (by simp [here]), absent]
      simp [entry, here]
    · rw [List.filter_cons_of_pos (by simp [here]), List.map_cons, List.map_cons,
        List.eraseP_cons_of_neg (by simp [entry, here]), later]

theorem keeps_deletes (tidy : root.Tidy) (fed : FederateHandle) (object : ObjectHandle) :
    (root.deleteObjectInstance fed object).state.Keeps
      (if (root.deleteObjectInstance fed object).error.isNone then
        (root.objects.map entry).eraseP (fun e => e.2 = object) else root.objects.map entry) := by
  have distinct := deleteObjectInstance_distinct tidy.distinct fed object
  rcases deleteObjectInstance_cases root fed object with ⟨e, refused⟩ | ⟨o, sent, deletes⟩
  · rw [refused]
    exact ⟨tidy, rfl⟩
  · rw [deletes.outcome] at distinct ⊢
    refine ⟨tidy.keep (sameClasses_of_eq rfl) distinct rfl fun o' member => ?_, ?_⟩
    · exact .inl ⟨o', (mem_drop.mp member).1, rfl⟩
    · exact (eraseP_entry tidy.distinct.objects object).symm

theorem killFederate_handles (distinct : root.Distinct) (fed : FederateHandle) :
    (root.killFederate fed).1.classes.map ObjectClass.handle =
      root.classes.map ObjectClass.handle := by
  obtain ⟨classes, _⟩ := killClasses_exact fed _ root distinct.classes distinct.objects
  change (killClasses fed root (root.classes.map ObjectClass.handle)).1.classes.map _ = _
  rw [classes, List.map_map]
  refine List.map_congr_left fun c _ => ?_
  dsimp only [Function.comp_apply]
  split
  · exact killDeclarations_rounds_handle _ _ _ c
  · rfl

/-- The object set keeps the instances of other owners. -/
theorem killFederate_entries (tidy : root.Tidy) (fed : FederateHandle) :
    (root.killFederate fed).1.objects.map entry =
      (root.objects.filter (fun o => o.owner ≠ fed)).map entry := by
  obtain ⟨_, objects⟩ :=
    killClasses_exact fed _ root tidy.distinct.classes tidy.distinct.objects
  have kept : (root.killFederate fed).1.objects.map entry =
      ((killClasses fed root (root.classes.map ObjectClass.handle)).1.objects.filter
        (fun o => o.owner ≠ fed)).map entry := by
    simp only [killFederate, List.map_map]
    rfl
  rw [kept, objects, List.filter_filter]
  congr 1
  refine List.filter_congr fun o member => ?_
  by_cases owner : o.owner = fed <;> simp [owner]

theorem keeps_kill (tidy : root.Tidy) (fed : FederateHandle) :
    (root.killFederate fed).1.Keeps ((root.objects.map entry).filter fun e =>
      (root.object? e.2).all fun o => o.owner ≠ fed) := by
  have frame := killFederate_frame (p := fun _ => True) root fed
  refine ⟨tidy.keep frame.1 (killFederate_distinct tidy.distinct fed)
    (killFederate_handles tidy.distinct fed) fun o' member => ?_, ?_⟩
  · obtain ⟨o, belongs, _, rfl⟩ := frame.2.1 o' member
    exact .inl ⟨o, belongs, rfl⟩
  · rw [killFederate_entries tidy, List.filter_map]
    congr 1
    refine List.filter_congr fun o member => ?_
    have found : root.object? o.handle = some o := lookup_of_nodup tidy.distinct.objects member
    simp [entry, found]

end RootObject

namespace Federation

variable {f : Federation} {fed : FederateHandle} {service : RootObject → Outcome RootObject}
  {maps : InstanceMaps}

open RootObject

theorem asMember_keeps (tidy : f.root.Tidy)
    (kept : (service f.root).state.Keeps (f.root.objects.map entry)) :
    (f.memberOnRoot fed service).state.root.Keeps (f.root.objects.map entry) :=
  asMember_cases (p := fun outcome => outcome.state.root.Keeps (f.root.objects.map entry))
    ⟨tidy, rfl⟩ fun _ => kept

theorem withRegion_keeps (tidy : f.root.Tidy) {region : RegionHandle}
    (kept : (service f.root).state.Keeps (f.root.objects.map entry)) :
    (f.memberWithRegion fed region service).state.root.Keeps (f.root.objects.map entry) := by
  refine asMember_keeps tidy ?_
  split
  · exact ⟨tidy, rfl⟩
  · exact kept

theorem registerObject_keeps (tidy : f.root.Tidy) (fed : FederateHandle) (h : ObjectClassHandle)
    (name : String) : (f.registerObject fed h name).state.root.Keeps
      (if (f.registerObject fed h name).error.isNone then
        f.root.objects.map entry ++ [(h, f.nextObject)] else f.root.objects.map entry) := by
  have served : ∀ named, (f.root.registerObjectInstance fed h f.nextObject named).state.Keeps
      (if (f.root.registerObjectInstance fed h f.nextObject named).error.isNone then
        f.root.objects.map entry ++ [(h, f.nextObject)] else f.root.objects.map entry) := by
    intro named
    rcases registerObjectInstance_cases f.root fed h f.nextObject named with
      ⟨e, refused⟩ | ⟨c, sent, registers⟩
    · rw [refused]
      exact ⟨tidy, rfl⟩
    · have kept := keeps_registers tidy registers
      rw [registers.outcome] at kept ⊢
      exact kept
  exact served _

theorem registerObjectWithRegion_keeps (tidy : f.root.Tidy) (fed : FederateHandle)
    (h : ObjectClassHandle) (name : String) (region : RegionHandle) (hs : List AttributeHandle) :
    (f.registerObjectWithRegion fed h name region hs).state.root.Keeps
      (if f.check fed && (f.registerObject fed h name).error.isNone then
        f.root.objects.map entry ++ [(h, f.nextObject)] else f.root.objects.map entry) := by
  have registered := registerObject_keeps tidy fed h name
  unfold registerObjectWithRegion asMember
  split
  · rename_i member
    rw [member, Bool.true_and]
    dsimp only
    split
    · exact registered
    · rename_i accepted
      rw [accepted] at registered
      rw [accepted]
      have associated : ((f.registerObject fed h name).state.onRoot
          (·.associate f.nextObject region hs)).state.root.Keeps
            ((f.registerObject fed h name).state.root.objects.map entry) :=
        keeps_rewrites registered.1 (associate_cases _ f.nextObject region hs)
          (fun o o' same => ⟨same.handle, same.classHandle⟩)
          (associate_distinct registered.1.distinct f.nextObject region hs)
      rw [registered.2] at associated
      split <;> exact associated
  · rename_i outsider
    rw [Bool.not_eq_true] at outsider
    rw [outsider]
    exact ⟨tidy, rfl⟩

theorem internal_keeps (tidy : f.root.Tidy) {e : Event} (internal : e.isInternal = true) :
    (f.perform e).state.root.Keeps (f.root.objects.map entry) := by
  rw [(perform_internal f internal).root]
  exact ⟨tidy, rfl⟩

theorem kill_outsider (outsider : f.isJoined fed = false) :
    f.kill fed = .refused f .federateNotExecutionMember := by
  unfold isJoined at outsider
  rw [Option.isSome_eq_false_iff, Option.isNone_iff_eq_none] at outsider
  unfold kill withFederate
  rw [outsider]

theorem kill_member (joined : f.isJoined fed = true) :
    (f.kill fed).state = { ((f.closeLink fed).removeRegulator fed).state with
        federates := drop Federate.handle fed
          ((f.closeLink fed).removeRegulator fed).state.federates
        root := ((f.closeLink fed).root.killFederate fed).1 } ∧
      (f.kill fed).sent = ((f.closeLink fed).root.killFederate fed).2 ++
        [(fed, .resignFederationExecution fed)] := by
  rcases kill_cases f fed with refused | ⟨_, killed, sent, _⟩
  · obtain ⟨record, found⟩ := Option.isSome_iff_exists.mp joined
    unfold kill withFederate at refused
    rw [found] at refused
    cases congrArg Outcome.error refused
  · exact ⟨killed, sent⟩

/-- Every event keeps the root object tidy and its maps as the classes keep them. -/
theorem perform_keeps (tidy : f.root.Tidy) (e : Event) :
    (f.perform e).state.root.Keeps (f.instanceMaps (f.root.objects.map entry) e) := by
  cases e with
  | join name conditions =>
    rcases add_cases f name conditions with same | ⟨_, _, _, _, same | referenced⟩
    · rw [perform, same]
      exact ⟨tidy, rfl⟩
    · rw [perform, same]
      exact ⟨tidy, rfl⟩
    · rw [perform, referenced]
      exact ⟨⟨⟨tidy.distinct.classes, tidy.distinct.objects⟩, tidy.below, tidy.classed⟩, rfl⟩
  | resign fed =>
    rcases remove_cases f fed with refused | ⟨_, removed⟩
    · rw [perform, refused]
      exact ⟨tidy, rfl⟩
    · rw [perform, removed]
      exact ⟨tidy, rfl⟩
  | kill fed =>
    cases joined : f.isJoined fed with
    | false =>
      rw [perform, kill_outsider joined, instanceMaps, joined]
      exact ⟨tidy, rfl⟩
    | true =>
      obtain ⟨killed, _⟩ := kill_member joined
      rw [perform, killed, instanceMaps, if_pos joined]
      have closed : (f.closeLink fed).root.Tidy :=
        ⟨⟨tidy.distinct.classes, tidy.distinct.objects⟩, tidy.below, tidy.classed⟩
      exact keeps_kill closed fed
  | publishObject fed c hs flag =>
    exact asMember_keeps tidy (keeps_declare tidy (publish_redeclares f.root fed c hs flag))
  | subscribeObject fed c hs =>
    exact asMember_keeps tidy (keeps_declare tidy (subscribe_redeclares f.root fed c hs none))
  | subscribeAttributesWR fed c region hs =>
    exact withRegion_keeps tidy
      (keeps_declare tidy (subscribe_redeclares f.root fed c hs (some region)))
  | unsubscribeAttributesWR fed c region =>
    exact withRegion_keeps tidy
      (keeps_declare tidy (unsubscribeWith_redeclares f.root fed c (some region)))
  | publishInteraction fed i flag =>
    exact asMember_keeps tidy (keeps_declare tidy (declareInteraction_redeclares f.root i _))
  | subscribeInteraction fed i flag =>
    exact asMember_keeps tidy (keeps_declare tidy (declareInteraction_redeclares f.root i _))
  | subscribeInteractionWR fed i region flag =>
    exact withRegion_keeps tidy (keeps_declare tidy (declareInteraction_redeclares f.root i _))
  | createRegion fed space extents =>
    refine asMember_keeps tidy ?_
    unfold createRegion
    split
    · exact ⟨tidy, rfl⟩
    · split
      · exact ⟨tidy, rfl⟩
      · exact ⟨⟨⟨tidy.distinct.classes, tidy.distinct.objects⟩, tidy.below, tidy.classed⟩, rfl⟩
  | associateRegion fed object region hs =>
    exact asMember_keeps tidy (keeps_rewrites tidy (associate_cases f.root object region hs)
      (fun o o' same => ⟨same.handle, same.classHandle⟩)
      (associate_distinct tidy.distinct object region hs))
  | registerObject fed c name => exact registerObject_keeps tidy fed c name
  | registerObjectWithRegion fed c name region hs =>
    exact registerObjectWithRegion_keeps tidy fed c name region hs
  | deleteObject fed object =>
    have deleted := keeps_deletes tidy fed object
    rw [instanceMaps, perform, memberOnRoot, asMember]
    split
    · exact deleted
    · exact ⟨tidy, rfl⟩
  | ownership service fed object hs =>
    have distinct := ownershipService_distinct tidy.distinct object (service.perform fed hs)
    refine asMember_cases
      (p := fun outcome => outcome.state.root.Keeps (f.root.objects.map entry)) ⟨tidy, rfl⟩
      fun _ => ?_
    have rewrites : RewritesInstance object Object.SameInstance f.root
        (f.root.ownershipService object (service.perform fed hs)).1.state := by
      rcases ownershipService_cases f.root object (service.perform fed hs) with
        unchanged | ⟨o, c, found, _, result⟩
      · exact .inl unchanged
      · exact .inr ⟨o, _, found, service.perform_sameInstance fed hs c o, result⟩
    exact keeps_rewrites tidy rewrites (fun o o' same => ⟨same.handle, same.classHandle⟩) distinct
  | setTimeRegulating fed on date => exact internal_keeps tidy rfl
  | messageNull fed date => exact internal_keeps tidy rfl
  | setTimeConstrained fed on => exact internal_keeps tidy rfl
  | registerSynchronization fed label tag set => exact internal_keeps tidy rfl
  | synchronizationPointAchieved fed label => exact internal_keeps tidy rfl
  | requestFederationSave fed label timed => exact internal_keeps tidy rfl
  | federateSaveBegun fed => exact internal_keeps tidy rfl
  | federateSaveStatus fed complete => exact internal_keeps tidy rfl

/-! ## Who is told by each event -/

/-- No response is about a removal. -/
def RemovesNothing (sent : Responses) : Prop :=
  ∀ response ∈ sent, ∀ s c object, response.2 ≠ .removeObject s c object

theorem RemovesNothing.removals {sent : Responses} (nothing : RemovesNothing sent)
    (g : FederateHandle) (object : ObjectHandle) : Responses.removals g object sent = 0 := by
  apply List.countP_eq_zero.mpr
  intro response member
  split
  · rename_i s c removed message
    exact absurd message (nothing response member s c removed)
  · simp

theorem removesNothing_nil : RemovesNothing [] := by simp [RemovesNothing]

theorem removesNothing_of_about {topics : List Topic} {sent : Responses}
    (about : About topics sent) (other : .instances ∉ topics) : RemovesNothing sent := by
  intro response member s c object message
  have topic := about response member
  rw [message] at topic
  exact other topic

theorem removesNothing_broadcast {server : SecurityServer} {h : ObjectHandle} {name : String}
    {lines : BroadcastLines} {classes : List ObjectClass} {sent : Responses}
    (success : broadcastUp server fed (fun c => .discoverObject fed c h name) lines classes =
      .ok sent) : RemovesNothing sent := by
  intro response member s c object message
  obtain ⟨_, _, discovered⟩ := broadcastUp_sent success response member
  rw [message] at discovered
  cases discovered

theorem registerObject_removesNothing (f : Federation) (fed : FederateHandle)
    (h : ObjectClassHandle) (name : String) : RemovesNothing (f.registerObject fed h name).sent := by
  have served : ∀ named,
      RemovesNothing (f.root.registerObjectInstance fed h f.nextObject named).sent := by
    intro named
    rcases registerObjectInstance_cases f.root fed h f.nextObject named with
      ⟨e, refused⟩ | ⟨c, sent, registers⟩
    · rw [refused]
      exact removesNothing_nil
    · rw [registers.outcome]
      exact removesNothing_broadcast registers.broadcast
  exact served _

theorem subscribe_removesNothing (root : RootObject) (fed : FederateHandle)
    (h : ObjectClassHandle) (hs : List AttributeHandle) (region : Option RegionHandle) :
    RemovesNothing (root.subscribe fed h hs region).sent := by
  unfold RootObject.subscribe
  split
  · exact removesNothing_nil
  · split
    · exact removesNothing_nil
    · dsimp only [Outcome.done]
      split
      · intro response member s c object message
        obtain ⟨o, _, rfl⟩ := recursiveDiscovering_sent _ _ response member
        cases message
      · exact removesNothing_nil

/-- Only a deletion and the loss of a federate remove anything. -/
theorem perform_removesNothing (f : Federation) {e : Event} (delete : ∀ fed o, e ≠ .deleteObject fed o)
    (kill : ∀ fed, e ≠ .kill fed) : RemovesNothing (f.perform e).sent := by
  by_cases elsewhere : .instances ∉ e.topics
  · exact removesNothing_of_about (perform_about f e) elsewhere
  have member : ∀ {fed : FederateHandle} {service : RootObject → Outcome RootObject},
      RemovesNothing (service f.root).sent → RemovesNothing (f.memberOnRoot fed service).sent :=
    fun served => asMember_cases (p := fun outcome => RemovesNothing outcome.sent)
      removesNothing_nil fun _ => served
  have withRegion : ∀ {fed : FederateHandle} {region : RegionHandle}
      {service : RootObject → Outcome RootObject}, RemovesNothing (service f.root).sent →
        RemovesNothing (f.memberWithRegion fed region service).sent := by
    intro fed region service served
    refine member ?_
    split
    · exact removesNothing_nil
    · exact served
  cases e with
  | deleteObject fed object => exact absurd rfl (delete fed object)
  | kill fed => exact absurd rfl (kill fed)
  | publishObject fed c hs flag =>
    exact member (by rw [publish_sent]; exact removesNothing_nil)
  | subscribeObject fed c hs => exact member (subscribe_removesNothing f.root fed c hs none)
  | subscribeAttributesWR fed c region hs =>
    exact withRegion (subscribe_removesNothing f.root fed c hs (some region))
  | unsubscribeAttributesWR fed c region =>
    exact withRegion (by rw [unsubscribeWith_sent]; exact removesNothing_nil)
  | publishInteraction fed i flag =>
    exact member (by rw [publishInteraction, declareInteraction_sent]; exact removesNothing_nil)
  | subscribeInteraction fed i flag =>
    exact member (by rw [subscribeInteraction, declareInteraction_sent]; exact removesNothing_nil)
  | subscribeInteractionWR fed i region flag =>
    exact withRegion
      (by rw [subscribeInteraction, declareInteraction_sent]; exact removesNothing_nil)
  | createRegion fed space extents =>
    refine member ?_
    unfold createRegion
    split
    · exact removesNothing_nil
    · split <;> exact removesNothing_nil
  | associateRegion fed object region hs =>
    exact member (by rw [associate_sent]; exact removesNothing_nil)
  | registerObject fed c name => exact registerObject_removesNothing f fed c name
  | registerObjectWithRegion fed c name region hs =>
    refine asMember_cases (p := fun outcome => RemovesNothing outcome.sent) removesNothing_nil
      fun _ => ?_
    dsimp only
    split
    · exact registerObject_removesNothing f fed c name
    · split
      · exact removesNothing_nil
      · exact registerObject_removesNothing f fed c name
  | ownership service fed object hs =>
    refine asMember_cases (p := fun outcome => RemovesNothing outcome.sent) removesNothing_nil
      fun _ => ?_
    change RemovesNothing (f.root.ownershipService object (service.perform fed hs)).1.sent
    rw [ownershipService_sent]
    exact removesNothing_nil
  | _ => exact absurd (by simp [Event.topics]) elsewhere

/-- The owner of an instance can delete it. -/
theorem deletes_of_owner (tidy : f.root.Tidy) {o : Object} (member : o ∈ f.root.objects) :
    ∃ sent, f.root.Deletes o.owner o.handle o sent := by
  have found : f.root.object? o.handle = some o := lookup_of_nodup tidy.distinct.objects member
  obtain ⟨sent, success⟩ := removal_broadcast f.root o.owner o.handle o.classHandle
  refine ⟨sent, found, rfl, success, ?_⟩
  simp [deleteObjectInstance, found, success]

theorem delete_removals (tidy : f.root.Tidy) (running : f.crashed = false) (fed g : FederateHandle)
    (object : ObjectHandle) :
    (∀ o ∈ f.root.objects, f.Removes o (.deleteObject fed object) →
      removals g o.handle (f.perform (.deleteObject fed object)).sent =
        if g ≠ o.owner ∧ f.root.Addressed g o.classHandle then 1 else 0) ∧
    ∀ object', removals g object' (f.perform (.deleteObject fed object)).sent ≠ 0 →
      ∃ o ∈ f.root.objects, o.handle = object' ∧ f.Removes o (.deleteObject fed object) := by
  constructor
  · rintro o member ⟨_, passes, rfl, rfl⟩
    obtain ⟨sent, deletes⟩ := deletes_of_owner tidy member
    have answered : (f.perform (.deleteObject o.owner o.handle)).sent = sent := by
      rw [perform, memberOnRoot, asMember, if_pos passes, onRoot, deletes.outcome]
      rfl
    rw [answered, removal_told deletes.broadcast]
    simp
  · intro object' told
    rw [perform, memberOnRoot, asMember] at told
    split at told
    · rename_i passes
      rw [onRoot] at told
      rcases deleteObjectInstance_cases f.root fed object with ⟨e, refused⟩ | ⟨o, sent, deletes⟩
      · rw [refused] at told
        exact absurd rfl told
      · rw [deletes.outcome] at told
        dsimp only [Outcome.done] at told
        rw [removal_told deletes.broadcast] at told
        have handle : o.handle = object := lookup_key deletes.found
        have same : object = object' := by
          by_contra different
          simp [different] at told
        exact ⟨o, lookup_mem deletes.found, handle.trans same, running, passes, handle.symm,
          deletes.owner⟩
    · exact absurd rfl told

/-- Handles being distinct, a condition on an instance is counted once. -/
theorem countP_handle {objects : List Object} (distinct : (objects.map Object.handle).Nodup)
    {o : Object} (member : o ∈ objects) (p : Object → Bool) :
    objects.countP (fun other => other.handle = o.handle && p other) = if p o then 1 else 0 := by
  induction objects with
  | nil => cases member
  | cons first rest ih =>
    rw [List.map_cons, List.nodup_cons] at distinct
    rw [List.countP_cons]
    rcases List.mem_cons.mp member with rfl | later
    · have none : rest.countP (fun other => other.handle = o.handle && p other) = 0 := by
        apply List.countP_eq_zero.mpr
        intro other belongs
        have different : other.handle ≠ o.handle := fun equal =>
          distinct.1 (equal ▸ List.mem_map_of_mem belongs)
        simp [different]
      simp [none]
    · have different : first.handle ≠ o.handle := fun equal =>
        distinct.1 (equal ▸ List.mem_map_of_mem later)
      simp [ih distinct.2 later, different]

theorem kill_removals (tidy : f.root.Tidy) (running : f.crashed = false) (fed g : FederateHandle) :
    (∀ o ∈ f.root.objects, f.Removes o (.kill fed) →
      removals g o.handle (f.perform (.kill fed)).sent =
        if g ≠ o.owner ∧ f.root.Addressed g o.classHandle then 1 else 0) ∧
    ∀ object, removals g object (f.perform (.kill fed)).sent ≠ 0 →
      ∃ o ∈ f.root.objects, o.handle = object ∧ f.Removes o (.kill fed) := by
  cases joined : f.isJoined fed with
  | false =>
    rw [perform, kill_outsider joined]
    constructor
    · rintro o _ ⟨_, member, _⟩
      rw [joined] at member
      cases member
    · exact fun _ told => absurd rfl told
  | true =>
    have counted : ∀ object, removals g object (f.perform (.kill fed)).sent =
        f.root.objects.countP (fun o => o.handle = object &&
          (o.owner = fed && decide (g ≠ fed ∧ f.root.Addressed g o.classHandle))) := by
      intro object
      have closed : ∀ h, (f.closeLink fed).root.Addressed g h ↔ f.root.Addressed g h :=
        fun _ => Iff.rfl
      have removed := killClasses_removals fed g object
        ((f.closeLink fed).root.classes.map ObjectClass.handle) (f.closeLink fed).root
        tidy.distinct.classes tidy.distinct.objects
      have none : removals g object [(fed, .resignFederationExecution fed)] = 0 := rfl
      rw [perform, (kill_member joined).2, removals_append, none, Nat.add_zero]
      refine removed.trans (List.countP_congr fun o member => ?_)
      have inClass : o.classHandle ∈ (f.closeLink fed).root.classes.map ObjectClass.handle :=
        tidy.classed o member
      simp only [closed, inClass, decide_true, Bool.true_and, Bool.and_assoc]
    constructor
    · rintro o member ⟨_, _, rfl⟩
      rw [counted, countP_handle tidy.distinct.objects member
        (fun other => other.owner = o.owner &&
          decide (g ≠ o.owner ∧ f.root.Addressed g other.classHandle))]
      simp
    · intro object told
      rw [counted] at told
      obtain ⟨o, member, holds⟩ := List.countP_pos_iff.mp (Nat.pos_of_ne_zero told)
      simp only [Bool.and_eq_true, decide_eq_true_eq] at holds
      exact ⟨o, member, holds.1, running, joined, holds.2.1⟩

/-- An event tells once, of each instance it deletes, the others that it is addressed to. -/
theorem perform_removals (tidy : f.root.Tidy) (running : f.crashed = false) (e : Event)
    (g : FederateHandle) :
    (∀ o ∈ f.root.objects, f.Removes o e → removals g o.handle (f.perform e).sent =
      if g ≠ o.owner ∧ f.root.Addressed g o.classHandle then 1 else 0) ∧
    ∀ object, removals g object (f.perform e).sent ≠ 0 →
      ∃ o ∈ f.root.objects, o.handle = object ∧ f.Removes o e := by
  by_cases delete : ∃ fed object, e = .deleteObject fed object
  · obtain ⟨fed, object, rfl⟩ := delete
    exact delete_removals tidy running fed g object
  by_cases kill : ∃ fed, e = .kill fed
  · obtain ⟨fed, rfl⟩ := kill
    exact kill_removals tidy running fed g
  have nothing := perform_removesNothing f (e := e)
    (fun fed object equal => delete ⟨fed, object, equal⟩) (fun fed equal => kill ⟨fed, equal⟩)
  constructor
  · intro o _ removes
    cases e with
    | deleteObject fed object => exact absurd ⟨fed, object, rfl⟩ delete
    | kill fed => exact absurd ⟨fed, rfl⟩ kill
    | _ => exact absurd removes id
  · intro object told
    exact absurd (nothing.removals g object) told

/-- The instances that an event deletes are in no table afterwards. -/
theorem perform_gone (tidy : f.root.Tidy) {e : Event} {o : Object} (member : o ∈ f.root.objects)
    (removes : f.Removes o e) : ∀ o' ∈ (f.perform e).state.root.objects, o'.handle ≠ o.handle := by
  intro o' left same
  have listed := List.mem_map_of_mem (f := entry) left
  rw [(perform_keeps tidy e).2] at listed
  cases e with
  | deleteObject fed object =>
    obtain ⟨_, passes, rfl, rfl⟩ := removes
    obtain ⟨sent, deletes⟩ := deletes_of_owner tidy member
    have state : (f.perform (.deleteObject o.owner o.handle)).state.root.objects =
        drop Object.handle o.handle f.root.objects := by
      rw [perform, memberOnRoot, asMember, if_pos passes, onRoot, deletes.outcome]
      rfl
    rw [state] at left
    exact (mem_drop.mp left).2 same
  | kill fed =>
    obtain ⟨_, joined, rfl⟩ := removes
    rw [instanceMaps, if_pos joined, List.mem_filter] at listed
    have found : f.root.object? o.handle = some o := lookup_of_nodup tidy.distinct.objects member
    simp [entry, same, found] at listed
  | _ => exact removes

end Federation

/-! ## Whole runs -/

open RootObject

theorem create_keeps (fom : Fom) (withMom haveXml : Bool) :
    (create fom withMom haveXml).root.Keeps [] :=
  ⟨⟨create_distinct fom withMom haveXml, (create_forest fom withMom haveXml).below,
    by simp [create]⟩, rfl⟩

theorem rtigWithMaps_keeps (s : Federation × InstanceMaps) (e : Event)
    (kept : s.1.root.Keeps s.2) : (rtigWithMaps s e).1.1.root.Keeps (rtigWithMaps s e).1.2 := by
  unfold rtigWithMaps
  cases crashed : s.1.crashed with
  | true =>
    rw [rtig_crashed crashed]
    exact kept
  | false =>
    rw [rtig_perform crashed]
    have next := perform_keeps kept.1 e
    rw [kept.2] at next
    exact next

theorem Federation.Removes.running {f : Federation} {o : Object} {e : Event}
    (removes : f.Removes o e) : f.crashed = false := by
  cases e with
  | deleteObject fed object => exact removes.1
  | kill fed => exact removes.1
  | _ => exact absurd removes id

theorem removedSoundly_iff {past : List (Event × Answer)} {s : Federation × InstanceMaps}
    (kept : s.1.root.Keeps s.2) (e : Event) :
    RemovedSoundly past s e ↔ HeardAsDiscovered past s.1 e := by
  have counts : ∀ o ∈ s.1.root.objects, s.1.Removes o e → ∀ g,
      removals g o.handle (rtigWithMaps s e).2.1 =
        if g ≠ o.owner ∧ s.1.root.Addressed g o.classHandle then 1 else 0 := by
    intro o member removes g
    unfold rtigWithMaps
    rw [rtig_perform removes.running]
    exact (perform_removals kept.1 removes.running e g).1 o member removes
  constructor
  · intro sound o member removes g isOpen other
    have told := sound.told o member removes g isOpen
    rw [counts o member removes g] at told
    by_cases addressed : s.1.root.Addressed g o.classHandle <;>
      by_cases discovered : s.1.isJoined g = true ∧ o.handle ∈ discoveries g past <;>
      simp_all
  · intro heard
    refine ⟨fun o member removes g isOpen => ?_, fun o member removes => ?_, fun g object told => ?_⟩
    · rw [counts o member removes g]
      by_cases other : g = o.owner
      · simp [other]
      · have same := heard o member removes g isOpen other
        simp only [ne_eq, other, not_false_eq_true, true_and, same]
    · have gone : ∀ o' ∈ (rtigWithMaps s e).1.1.root.objects, o'.handle ≠ o.handle := by
        unfold rtigWithMaps
        rw [rtig_perform removes.running]
        exact perform_gone kept.1 member removes
      refine ⟨gone, fun mapped listed => ?_⟩
      rw [← (rtigWithMaps_keeps s e kept).2] at listed
      obtain ⟨o', left, rfl⟩ := List.mem_map.mp listed
      exact gone o' left
    · unfold rtigWithMaps at told
      cases crashed : s.1.crashed with
      | true =>
        rw [rtig_crashed crashed] at told
        exact absurd rfl told
      | false =>
        rw [rtig_perform crashed] at told
        exact (perform_removals kept.1 crashed e g).2 object told

/-- The second federate discovers an instance and withdraws its subscription. -/
def discoversAndLeaves : List Event :=
  [joinAs "a", joinAs "b", .publishObject 1 1 [2] true, .subscribeObject 2 1 [2],
    .registerObject 1 1 "", .subscribeObject 2 1 []]

end Certi
