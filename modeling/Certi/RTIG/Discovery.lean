import Certi.RTIG.Answers

/-!
# Discovery over whole runs

Each federate is told of an instance at most once, and has been told of every
live instance of another owner whose class, or a superclass of it, it is
subscribed to. This is so in every run of declarations, joins, registrations
and deletions that meets `Discovers`: nobody subscribes again, higher up or
lower down, to what it has been told of already.
-/
namespace Certi

open Keyed Federation Runs Responses

/-! ## The statement -/

/-- The instances a federate has been let discover so far. -/
def discoveries (g : FederateHandle) (past : List (Event × Answer)) : List ObjectHandle :=
  past.flatMap fun entry => discovered g entry.2.1

/-- Handles of instances are never given twice, so that an instance is told of at most once
between its registration and its deletion. Its owner is the federate that registered it. -/
structure DiscoveredSoundly (past : List (Event × Answer)) (f : Federation) : Prop where
  atMostOnce : ∀ g, (discoveries g past).Nodup
  told : ∀ o ∈ f.root.objects, ∀ g, g ≠ o.owner → f.root.Hears g o.classHandle →
    o.handle ∈ discoveries g past

namespace RootObject

/-- An instance of another owner, of the class or a class below it. -/
def Concerns (root : RootObject) (fed : FederateHandle) (h : ObjectClassHandle) (o : Object) :
    Prop :=
  o.owner ≠ fed ∧ ∃ d ∈ root.lineage o.classHandle, d.handle = h

/-- The instances a first subscription to the class finds: none below a subclass the
federate is subscribed to. -/
def Finds (root : RootObject) (fed : FederateHandle) (h : ObjectClassHandle) (o : Object) : Prop :=
  root.Concerns fed h o ∧
    ∀ d ∈ root.lineage o.classHandle, h < d.handle → d.isSubscribed fed = false

/-- The condition on a subscription that the class admits: one that is carried out finds no
instance the federate was told of before, and one that is refused halfway leaves it
subscribed to no instance it was not told of. -/
def OrderlySubscription (past : List (Event × Answer)) (root : RootObject) (fed : FederateHandle)
    (hs : List AttributeHandle) (c : ObjectClass) : Prop :=
  c.Admits root.server fed hs → hs ≠ [] → ¬c.RefusedAtOnce root.server fed hs →
    root.server.hasReferences fed = true ∧
      if ∀ h ∈ hs, c.Accessible root.server fed h then
        c.isSubscribed fed = false →
          ∀ o ∈ root.objects, root.Finds fed c.handle o → o.handle ∉ discoveries fed past
      else ∀ o ∈ root.objects, root.Concerns fed c.handle o → o.handle ∈ discoveries fed past

/-- The region and the attributes an instance is registered with exist. -/
def Associable (root : RootObject) (h : ObjectClassHandle) (region : RegionHandle)
    (hs : List AttributeHandle) : Prop :=
  (root.region? region).isSome = true ∧ ∀ c ∈ root.class? h, ∀ a ∈ hs, c.hasAttribute a = true

/-- Nobody else is subscribed to the class or a superclass. -/
def Unheard (root : RootObject) (fed : FederateHandle) (h : ObjectClassHandle) : Prop :=
  ∀ c ∈ root.lineage h, ∀ a ∈ c.attributes, ∀ s ∈ a.subscribers, s.handle = fed

end RootObject

/-- The condition on an event, in a run with its past. -/
def Discovers (run : List (Event × Answer) × Federation) : Event → Prop
  | .subscribeObject fed h hs =>
    run.2.check fed = true → ∀ c ∈ run.2.root.class? h,
      run.2.root.OrderlySubscription run.1 fed hs c
  | .subscribeAttributesWR fed h region hs =>
    run.2.check fed = true → (run.2.root.region? region).isSome = true →
      ∀ c ∈ run.2.root.class? h, run.2.root.OrderlySubscription run.1 fed hs c
  | .registerObjectWithRegion fed h _ region hs =>
    run.2.check fed = true → run.2.root.Associable h region hs ∨ run.2.root.Unheard fed h
  | .kill _ | .ownership .. => False
  | _ => True

/-! ## The invariant -/

/-- Whoever hears of the class of a live instance has been told of it, and nobody twice. -/
structure DiscoverySound (past : List (Event × Answer)) (f : Federation) : Prop where
  numbered : f.Numbered
  forest : f.root.ClassForest
  attributes : ∀ c ∈ f.root.classes, (c.attributes.map ObjectClassAttribute.handle).Nodup
  distinct : (f.root.objects.map Object.handle).Nodup
  audible : f.root.Audible
  reached : ∀ g, f.root.server.hasReferences g = true → 0 < g
  issued : ∀ o ∈ f.root.objects, o.handle < f.nextObject
  known : ∀ g, ∀ h ∈ discoveries g past, h < f.nextObject
  soundly : DiscoveredSoundly past f

theorem discoveries_snoc (g : FederateHandle) (past : List (Event × Answer))
    (entry : Event × Answer) :
    discoveries g (past ++ [entry]) = discoveries g past ++ discovered g entry.2.1 := by
  simp [discoveries]

theorem discovered_of_about {topics : List Topic} {sent : Responses} (about : About topics sent)
    (other : .instances ∉ topics) (g : FederateHandle) : discovered g sent = [] := by
  refine List.filterMap_eq_nil_iff.mpr fun response member => ?_
  have topic := about response member
  split
  · rename_i message
    rw [message] at topic
    exact absurd topic other
  · rfl

section

variable {past : List (Event × Answer)} {f f' : Federation} {entry : Event × Answer}

theorem hears_congr {root root' : RootObject} (classes : root'.classes = root.classes)
    {g : FederateHandle} {h : ObjectClassHandle} : root'.Hears g h ↔ root.Hears g h := by
  unfold RootObject.Hears RootObject.lineage
  rw [classes]

theorem discoveries_silent (past : List (Event × Answer)) (silent : ∀ g, discovered g entry.2.1 = []) (g : FederateHandle) :
    discoveries g (past ++ [entry]) = discoveries g past := by
  rw [discoveries_snoc, silent, List.append_nil]

/-- An event that announces nothing, declares nothing and takes instances away at most, or
changes what discovery does not look at. -/
theorem DiscoverySound.quiet (sound : DiscoverySound past f) (numbered : f'.Numbered)
    (classes : f'.root.classes = f.root.classes)
    (objects : (f'.root.objects.map fun o => (o.handle, o.owner, o.classHandle)).Sublist
      (f.root.objects.map fun o => (o.handle, o.owner, o.classHandle)))
    (next : f.nextObject ≤ f'.nextObject)
    (references : ∀ g, f.root.server.hasReferences g = true → f'.root.server.hasReferences g = true)
    (reached : ∀ g, f'.root.server.hasReferences g = true → 0 < g)
    (silent : ∀ g, discovered g entry.2.1 = []) :
    DiscoverySound (past ++ [entry]) f' := by
  have told := discoveries_silent past silent
  have before : ∀ o' ∈ f'.root.objects, ∃ o ∈ f.root.objects,
      o.handle = o'.handle ∧ o.owner = o'.owner ∧ o.classHandle = o'.classHandle := by
    intro o' member
    have listed := objects.subset (List.mem_map_of_mem
      (f := fun o : Object => (o.handle, o.owner, o.classHandle)) member)
    obtain ⟨o, belongs, equal⟩ := List.mem_map.mp listed
    simp only [Prod.mk.injEq] at equal
    exact ⟨o, belongs, equal⟩
  refine ⟨numbered, ?_, ?_, ?_, ?_, reached, ?_, ?_, ?_, ?_⟩
  · rw [RootObject.ClassForest, classes]
    exact sound.forest
  · rw [classes]
    exact sound.attributes
  · have handles := objects.map Prod.fst
    simp only [List.map_map, Function.comp_def] at handles
    exact sound.distinct.sublist handles
  · intro c member g subscribed
    rw [classes] at member
    obtain ⟨positive, bounded, reachable⟩ := sound.audible c member g subscribed
    exact ⟨positive, bounded, references g reachable⟩
  · intro o' member
    obtain ⟨o, belongs, handle, _⟩ := before o' member
    rw [← handle]
    exact Nat.lt_of_lt_of_le (sound.issued o belongs) next
  · intro g h listed
    rw [told] at listed
    exact Nat.lt_of_lt_of_le (sound.known g h listed) next
  · intro g
    rw [told]
    exact sound.soundly.atMostOnce g
  · intro o' member g other hears
    obtain ⟨o, belongs, handle, owner, inClass⟩ := before o' member
    rw [hears_congr classes, ← inClass] at hears
    rw [← owner] at other
    rw [told, ← handle]
    exact sound.soundly.told o belongs g other hears

/-! ## Declarations -/

/-- A class stored again, whatever was sent about it. -/
theorem DiscoverySound.declare (sound : DiscoverySound past f) {h : ObjectClassHandle}
    {c c' : ObjectClass} (found : f.root.class? h = some c) (same : c.SameClass c')
    (audible : ∀ g, c'.isSubscribed g = true →
      0 < g ∧ g ≤ c'.maxSubscriberHandle ∧ f.root.server.hasReferences g = true)
    (numbered : f'.Numbered) (root : f'.root = f.root.setClass c')
    (next : f'.nextObject = f.nextObject)
    (once : ∀ g, (discoveries g past ++ discovered g entry.2.1).Nodup)
    (known : ∀ g, ∀ object ∈ discovered g entry.2.1, object < f.nextObject)
    (told : ∀ o ∈ f.root.objects, ∀ g, g ≠ o.owner → c ∈ f.root.lineage o.classHandle →
      c'.isSubscribed g = true →
        o.handle ∈ discoveries g past ∨ o.handle ∈ discovered g entry.2.1) :
    DiscoverySound (past ++ [entry]) f' := by
  have member : c ∈ f.root.classes := lookup_mem found
  have stored : ∀ d ∈ (f.root.setClass c').classes, d = c' ∨ d ∈ f.root.classes := by
    intro d listed
    rcases mem_replace listed with rfl | ⟨old, _⟩
    · exact .inl rfl
    · exact .inr old
  refine ⟨numbered, ?_, ?_, by rw [root]; exact sound.distinct, ?_, ?_, ?_, ?_, ?_, ?_⟩
  · rw [root]
    exact RootObject.setClass_forest sound.forest member same
  · intro d listed
    rw [root] at listed
    rcases stored d listed with rfl | old
    · rw [same.handles]
      exact sound.attributes c member
    · exact sound.attributes d old
  · intro d listed
    rw [root] at listed ⊢
    rcases stored d listed with rfl | old
    · exact audible
    · exact sound.audible d old
  · rw [root]
    exact sound.reached
  · rw [root, next]
    exact sound.issued
  · intro g object listed
    rw [discoveries_snoc, List.mem_append] at listed
    rw [next]
    rcases listed with old | new
    · exact sound.known g object old
    · exact known g object new
  · intro g
    rw [discoveries_snoc]
    exact once g
  · intro o listed g other hears
    rw [root, RootObject.setClass_hears sound.forest member same] at hears
    rw [root] at listed
    rw [discoveries_snoc, List.mem_append]
    rcases hears with ⟨above, subscribed⟩ | ⟨d, above, _, subscribed⟩
    · exact told o listed g other above subscribed
    · exact .inl (sound.soundly.told o listed g other ⟨d, above, subscribed⟩)

/-- A class stored again without a new subscriber. -/
theorem DiscoverySound.narrow (sound : DiscoverySound past f) {h : ObjectClassHandle}
    {c c' : ObjectClass} (found : f.root.class? h = some c) (same : c.SameClass c')
    (max : c.maxSubscriberHandle ≤ c'.maxSubscriberHandle)
    (subscribed : ∀ g, c'.isSubscribed g = true → c.isSubscribed g = true)
    (numbered : f'.Numbered) (root : f'.root = f.root.setClass c')
    (next : f'.nextObject = f.nextObject) (silent : ∀ g, discovered g entry.2.1 = []) :
    DiscoverySound (past ++ [entry]) f' := by
  refine sound.declare found same ?_ numbered root next ?_ ?_ ?_
  · intro g hearing
    obtain ⟨positive, bounded, reachable⟩ :=
      sound.audible c (lookup_mem found) g (subscribed g hearing)
    exact ⟨positive, Nat.le_trans bounded max, reachable⟩
  · intro g
    rw [silent, List.append_nil]
    exact sound.soundly.atMostOnce g
  · intro g object listed
    rw [silent] at listed
    cases listed
  · intro o listed g other above hearing
    exact .inl (sound.soundly.told o listed g other ⟨c, above, subscribed g hearing⟩)

/-- Nobody new hears of what it has not been told of. -/
theorem DiscoverySound.join (sound : DiscoverySound past f) {h : ObjectClassHandle}
    {c c' : ObjectClass} {fed : FederateHandle} (found : f.root.class? h = some c)
    (same : c.SameClass c') (max : c'.maxSubscriberHandle = max fed c.maxSubscriberHandle)
    (subscribed : ∀ g, c'.isSubscribed g = true → c.isSubscribed g = true ∨ g = fed)
    (reachable : f.root.server.hasReferences fed = true)
    (orderly : ∀ o ∈ f.root.objects, f.root.Concerns fed c.handle o →
      o.handle ∈ discoveries fed past ∨ o.handle ∈ discovered fed entry.2.1)
    (numbered : f'.Numbered) (root : f'.root = f.root.setClass c')
    (next : f'.nextObject = f.nextObject)
    (once : ∀ g, (discoveries g past ++ discovered g entry.2.1).Nodup)
    (known : ∀ g, ∀ object ∈ discovered g entry.2.1, object < f.nextObject) :
    DiscoverySound (past ++ [entry]) f' := by
  have member : c ∈ f.root.classes := lookup_mem found
  refine sound.declare found same ?_ numbered root next once known ?_
  · intro g hearing
    rcases subscribed g hearing with old | rfl
    · obtain ⟨positive, bounded, stays⟩ := sound.audible c member g old
      exact ⟨positive, by rw [max]; exact Nat.le_trans bounded (Nat.le_max_right _ _), stays⟩
    · exact ⟨sound.reached g reachable, by rw [max]; exact Nat.le_max_left _ _, reachable⟩
  · intro o listed g other above hearing
    rcases subscribed g hearing with old | rfl
    · exact .inl (sound.soundly.told o listed g other ⟨c, above, old⟩)
    · exact orderly o listed ⟨Ne.symm other, c, above, rfl⟩

/-- What the descent of a first subscription announces, in terms of the state before it. -/
theorem subscription_discovered (sound : DiscoverySound past f) {h : ObjectClassHandle}
    {c c' : ObjectClass} {fed : FederateHandle} (found : f.root.class? h = some c)
    (same : c.SameClass c') {sent : Responses}
    (descent : sent = RootObject.recursiveDiscovering (f.root.setClass c').classes
      (f.root.setClass c').objects fed c'.handle ((f.root.setClass c').classes.length + 1) c') :
    (∀ g, (discovered g sent).Nodup) ∧ ∀ g object, object ∈ discovered g sent ↔
      g = fed ∧ ∃ o ∈ f.root.objects, o.handle = object ∧ f.root.Finds fed c.handle o := by
  have member : c ∈ f.root.classes := lookup_mem found
  have forest := RootObject.setClass_forest sound.forest member same
  have stored : c' ∈ (f.root.setClass c').classes :=
    mem_adjust.mpr (.inr ⟨c, member, same.handle.symm, rfl⟩)
  have above : ∀ {k}, c' ∈ (f.root.setClass c').lineage k ↔
      ∃ d ∈ f.root.lineage k, d.handle = c.handle := by
    intro k
    rw [RootObject.setClass_lineage sound.forest member same]
    constructor
    · intro listed
      obtain ⟨d, onClimb, equal⟩ := List.mem_map.mp listed
      split at equal
      · rename_i here
        exact ⟨d, onClimb, here.trans same.handle⟩
      · rename_i elsewhere
        exact absurd (congrArg ObjectClass.handle equal) elsewhere
    · rintro ⟨d, onClimb, handle⟩
      exact List.mem_map.mpr ⟨d, onClimb, if_pos (handle.trans same.handle.symm)⟩
  have below : ∀ {k}, (∀ d ∈ (f.root.setClass c').lineage k,
        c'.handle < d.handle → d.isSubscribed fed = false) ↔
      ∀ d ∈ f.root.lineage k, c.handle < d.handle → d.isSubscribed fed = false := by
    intro k
    rw [RootObject.setClass_lineage sound.forest member same, same.handle]
    constructor
    · intro clear d onClimb under
      exact clear d (List.mem_map.mpr ⟨d, onClimb, if_neg (Nat.ne_of_gt under)⟩) under
    · intro clear d' listed under
      obtain ⟨d, onClimb, rfl⟩ := List.mem_map.mp listed
      by_cases here : d.handle = c.handle
      · rw [if_pos here, same.handle] at under
        exact absurd under (Nat.lt_irrefl _)
      · rw [if_neg here] at under ⊢
        exact clear d onClimb under
  have told := fun g => RootObject.recursiveDiscovering_discovered (f.root.setClass c')
    forest sound.distinct stored fed g
  simp only [above, below] at told
  rw [descent]
  refine ⟨fun g => (told g).1, fun g object => ((told g).2 object).trans ?_⟩
  refine and_congr_right fun _ => exists_congr fun o => and_congr_right fun _ =>
    and_congr_right fun _ => ?_
  exact (and_assoc).symm

/-- The federate subscribes to the class for the first time and is told of what it finds. -/
theorem DiscoverySound.gain (sound : DiscoverySound past f) {h : ObjectClassHandle}
    {c c' : ObjectClass} {fed : FederateHandle} (found : f.root.class? h = some c)
    (same : c.SameClass c') (max : c'.maxSubscriberHandle = max fed c.maxSubscriberHandle)
    (subscribed : ∀ g, c'.isSubscribed g = true → c.isSubscribed g = true ∨ g = fed)
    (reachable : f.root.server.hasReferences fed = true)
    (orderly : ∀ o ∈ f.root.objects, f.root.Finds fed c.handle o →
      o.handle ∉ discoveries fed past) (numbered : f'.Numbered)
    (root : f'.root = f.root.setClass c') (next : f'.nextObject = f.nextObject)
    (sent : entry.2.1 = RootObject.recursiveDiscovering (f.root.setClass c').classes
      (f.root.setClass c').objects fed c'.handle ((f.root.setClass c').classes.length + 1) c') :
    DiscoverySound (past ++ [entry]) f' := by
  obtain ⟨nodup, told⟩ := subscription_discovered sound found same sent
  refine sound.join found same max subscribed reachable ?_ numbered root next ?_ ?_
  · intro o listed concerns
    by_cases clear : ∀ d ∈ f.root.lineage o.classHandle,
        c.handle < d.handle → d.isSubscribed fed = false
    · exact .inr ((told fed o.handle).mpr ⟨rfl, o, listed, rfl, concerns, clear⟩)
    · -- hidden by a subscription below, through which it was told of
      simp only [not_forall] at clear
      obtain ⟨d, onIt, under, hidden⟩ := clear
      exact .inl (sound.soundly.told o listed fed (Ne.symm concerns.1)
        ⟨d, onIt, by simpa using hidden⟩)
  · intro g
    refine List.nodup_append.mpr ⟨sound.soundly.atMostOnce g, nodup g, ?_⟩
    intro object old object' new
    rintro rfl
    obtain ⟨rfl, o, listed, rfl, finds⟩ := (told g object).mp new
    exact orderly o listed finds old
  · intro g object new
    obtain ⟨_, o, listed, rfl, _⟩ := (told g object).mp new
    exact sound.issued o listed

/-- A class that is not there, or is stored as it was. -/
theorem DiscoverySound.unchanged (sound : DiscoverySound past f) (numbered : f'.Numbered)
    (root : f'.root = f.root) (next : f.nextObject ≤ f'.nextObject)
    (silent : ∀ g, discovered g entry.2.1 = []) : DiscoverySound (past ++ [entry]) f' := by
  refine sound.quiet numbered ?_ ?_ next ?_ ?_ silent
  · rw [root]
  · rw [root]
  · rw [root]
    exact fun _ reachable => reachable
  · rw [root]
    exact sound.reached

/-- `ObjectClassSet::subscribe` in every outcome that the condition leaves. -/
theorem DiscoverySound.subscribe (sound : DiscoverySound past f) {fed : FederateHandle}
    {h : ObjectClassHandle} {hs : List AttributeHandle} {region : Option RegionHandle}
    (orderly : ∀ c ∈ f.root.class? h, f.root.OrderlySubscription past fed hs c)
    (numbered : f'.Numbered) (root : f'.root = (f.root.subscribe fed h hs region).state)
    (next : f'.nextObject = f.nextObject)
    (sent : entry.2.1 = (f.root.subscribe fed h hs region).sent) :
    DiscoverySound (past ++ [entry]) f' := by
  unfold RootObject.subscribe at root sent
  cases found : f.root.class? h with
  | none =>
    rw [found] at root sent
    exact sound.unchanged numbered root (Nat.le_of_eq next.symm) (fun g => by rw [sent]; rfl)
  | some c =>
    rw [found] at root sent
    dsimp only at root sent
    have distinct := sound.attributes c (lookup_mem found)
    by_cases admits : c.Admits f.root.server fed hs
    · by_cases empty : hs = []
      · subst empty
        rw [ObjectClass.subscribe_empty admits] at root sent
        refine sound.narrow found
          (ObjectClass.unsubscribeWith_redeclared (p := fun _ => True) fed region).same
          (Nat.le_refl _) (fun g => ObjectClass.unsubscribeWith_isSubscribed) numbered root next ?_
        exact fun g => by rw [sent]; rfl
      · by_cases refused : c.RefusedAtOnce f.root.server fed hs
        · obtain ⟨e, outcome⟩ := ObjectClass.subscribe_refused region admits refused
          rw [outcome] at root sent
          refine sound.narrow found (ObjectClass.raised_sameClass c fed region)
            (Nat.le_max_right _ _) (fun g => ObjectClass.unsubscribeWith_isSubscribed) numbered
            root next ?_
          exact fun g => by rw [sent]; rfl
        · obtain ⟨reachable, condition⟩ := orderly c found admits empty refused
          by_cases accessible : ∀ a ∈ hs, c.Accessible f.root.server fed a
          · rw [if_pos accessible] at condition
            obtain ⟨d, outcome, same, max, subscribed⟩ :=
              ObjectClass.subscribe_accepted region admits distinct empty accessible
            have gained : ∀ g, d.isSubscribed g = true → c.isSubscribed g = true ∨ g = fed :=
              fun g hearing => ((subscribed g).mp hearing).imp_left
                ObjectClass.unsubscribeWith_isSubscribed
            rw [outcome] at root sent
            cases before : c.isSubscribed fed with
            | true =>
              rw [before] at sent
              refine sound.narrow found same (by rw [max]; exact Nat.le_max_right _ _) ?_ numbered
                root next (fun g => by rw [sent]; rfl)
              intro g hearing
              rcases gained g hearing with old | rfl
              · exact old
              · exact before
            | false =>
              rw [before] at sent
              have handle : d.handle = h := same.handle.trans (lookup_key found)
              rw [← handle] at sent
              exact sound.gain found same max gained reachable (condition before) numbered root
                next sent
          · rw [if_neg accessible] at condition
            obtain ⟨d, e, outcome, same, max, subscribed⟩ :=
              ObjectClass.subscribe_interrupted region admits distinct accessible
            rw [outcome] at root sent
            have silent : ∀ g, discovered g entry.2.1 = [] := fun g => by rw [sent]; rfl
            refine sound.join found same max subscribed reachable
              (fun o listed concerns => .inl (condition o listed concerns)) numbered root next
              (fun g => ?_) (fun g object listed => ?_)
            · rw [silent, List.append_nil]
              exact sound.soundly.atMostOnce g
            · rw [silent] at listed
              cases listed
    · obtain ⟨e, outcome⟩ := ObjectClass.subscribe_denied region admits
      rw [outcome] at root sent
      exact sound.narrow found (.refl c) (Nat.le_refl _) (fun _ hearing => hearing) numbered root
        next (fun g => by rw [sent]; rfl)

theorem DiscoverySound.unsubscribe (sound : DiscoverySound past f) {fed : FederateHandle}
    {h : ObjectClassHandle} {region : Option RegionHandle} (numbered : f'.Numbered)
    (root : f'.root = (f.root.unsubscribeWith fed h region).state)
    (next : f'.nextObject = f.nextObject) (silent : ∀ g, discovered g entry.2.1 = []) :
    DiscoverySound (past ++ [entry]) f' := by
  unfold RootObject.unsubscribeWith at root
  cases found : f.root.class? h with
  | none =>
    rw [found] at root
    exact sound.unchanged numbered root (Nat.le_of_eq next.symm) silent
  | some c =>
    rw [found] at root
    exact sound.narrow found
      (ObjectClass.unsubscribeWith_redeclared (p := fun _ => True) fed region).same
      (Nat.le_refl _) (fun g => ObjectClass.unsubscribeWith_isSubscribed) numbered root next silent

theorem DiscoverySound.publish (sound : DiscoverySound past f) {fed : FederateHandle}
    {h : ObjectClassHandle} {hs : List AttributeHandle} {flag : Bool} (numbered : f'.Numbered)
    (root : f'.root = (f.root.publish fed h hs flag).state)
    (next : f'.nextObject = f.nextObject) (silent : ∀ g, discovered g entry.2.1 = []) :
    DiscoverySound (past ++ [entry]) f' := by
  unfold RootObject.publish at root
  cases found : f.root.class? h with
  | none =>
    rw [found] at root
    exact sound.unchanged numbered root (Nat.le_of_eq next.symm) silent
  | some c =>
    rw [found] at root
    obtain ⟨max, subscribed⟩ := ObjectClass.publish_subscribers c f.root.server fed hs flag
    exact sound.narrow found
      (ObjectClass.publish_redeclared (p := fun _ => True) trivial hs flag).same
      (Nat.le_of_eq max.symm) subscribed numbered root next silent

/-! ## Instances -/

/-- A registration that is carried out is announced to all who hear of the class. -/
theorem DiscoverySound.register (sound : DiscoverySound past f) {fed : FederateHandle}
    {h : ObjectClassHandle} {name : String} {c : ObjectClass} {sent : Responses}
    (registers : f.root.Registers fed h f.nextObject name c sent) (numbered : f'.Numbered)
    (classes : f'.root.classes = f.root.classes)
    (objects : f'.root.objects.map (fun o => (o.handle, o.owner, o.classHandle)) =
      f.root.objects.map (fun o => (o.handle, o.owner, o.classHandle)) ++ [(f.nextObject, fed, h)])
    (server : f'.root.server = f.root.server) (next : f'.nextObject = f.nextObject + 1)
    (announced : entry.2.1 = sent ∨ entry.2.1 = [] ∧ ∀ g ≠ fed, ¬f.root.Hears g h) :
    DiscoverySound (past ++ [entry]) f' := by
  have told : ∀ g, discovered g entry.2.1 = if g ≠ fed ∧ f.root.Hears g h then [f.nextObject]
      else [] := by
    intro g
    rcases announced with sends | ⟨sends, unheard⟩
    · rw [sends]
      exact RootObject.register_discovered sound.forest sound.audible registers.broadcast g
    · rw [sends, if_neg fun ⟨other, hears⟩ => unheard g other hears]
      rfl
  have before : ∀ o' ∈ f'.root.objects,
      (∃ o ∈ f.root.objects, o.handle = o'.handle ∧ o.owner = o'.owner ∧
        o.classHandle = o'.classHandle) ∨
      f.nextObject = o'.handle ∧ fed = o'.owner ∧ h = o'.classHandle := by
    intro o' member
    have listed := List.mem_map_of_mem
      (f := fun o : Object => (o.handle, o.owner, o.classHandle)) member
    rw [objects, List.mem_append, List.mem_singleton] at listed
    rcases listed with old | new
    · obtain ⟨o, belongs, equal⟩ := List.mem_map.mp old
      simp only [Prod.mk.injEq] at equal
      exact .inl ⟨o, belongs, equal⟩
    · simp only [Prod.mk.injEq] at new
      exact .inr ⟨new.1.symm, new.2.1.symm, new.2.2.symm⟩
  refine ⟨numbered, ?_, ?_, ?_, ?_, ?_, ?_, ?_, ?_, ?_⟩
  · rw [RootObject.ClassForest, classes]
    exact sound.forest
  · rw [classes]
    exact sound.attributes
  · have handles := congrArg (List.map Prod.fst) objects
    simp only [List.map_map, Function.comp_def, List.map_append, List.map_cons, List.map_nil]
      at handles
    rw [handles, List.nodup_append]
    refine ⟨sound.distinct, by simp, fun k old k' new => ?_⟩
    obtain ⟨o, member, rfl⟩ := List.mem_map.mp old
    rw [List.mem_singleton.mp new]
    exact Nat.ne_of_lt (sound.issued o member)
  · intro d member g subscribed
    rw [classes] at member
    rw [server]
    exact sound.audible d member g subscribed
  · rw [server]
    exact sound.reached
  · intro o' member
    rw [next]
    rcases before o' member with ⟨o, belongs, handle, _⟩ | ⟨handle, _⟩
    · rw [← handle]
      exact Nat.lt_succ_of_lt (sound.issued o belongs)
    · rw [← handle]
      exact Nat.lt_succ_self _
  · intro g k listed
    rw [next]
    rw [discoveries_snoc, List.mem_append, told] at listed
    rcases listed with old | new
    · exact Nat.lt_succ_of_lt (sound.known g k old)
    · split at new
      · rw [List.mem_singleton.mp new]
        exact Nat.lt_succ_self _
      · cases new
  · intro g
    rw [discoveries_snoc, told]
    split
    · refine List.nodup_append.mpr ⟨sound.soundly.atMostOnce g, by simp, fun k old k' new => ?_⟩
      rw [List.mem_singleton.mp new]
      exact Nat.ne_of_lt (sound.known g k old)
    · rw [List.append_nil]
      exact sound.soundly.atMostOnce g
  · intro o' member g other hears
    rw [hears_congr classes] at hears
    rw [discoveries_snoc, List.mem_append, told]
    rcases before o' member with ⟨o, belongs, handle, owner, inClass⟩ | ⟨handle, owner, inClass⟩
    · rw [← inClass] at hears
      rw [← owner] at other
      rw [← handle]
      exact .inl (sound.soundly.told o belongs g other hears)
    · rw [← inClass] at hears
      rw [← owner] at other
      rw [if_pos ⟨other, hears⟩, ← handle]
      exact .inr List.mem_cons_self

/-- The instances that remain are those there were, changed in nothing discovery looks at. -/
theorem DiscoverySound.fewer (sound : DiscoverySound past f) (numbered : f'.Numbered)
    (classes : f'.root.classes = f.root.classes)
    (objects : (f'.root.objects.map fun o => (o.handle, o.owner, o.classHandle)).Sublist
      (f.root.objects.map fun o => (o.handle, o.owner, o.classHandle)))
    (server : f'.root.server = f.root.server) (next : f.nextObject ≤ f'.nextObject)
    (silent : ∀ g, discovered g entry.2.1 = []) : DiscoverySound (past ++ [entry]) f' :=
  sound.quiet numbered classes objects next (by rw [server]; exact fun _ reachable => reachable)
    (by rw [server]; exact sound.reached) silent

theorem associate_instances (root : RootObject) (object : ObjectHandle) (region : RegionHandle)
    (hs : List AttributeHandle) (distinct : (root.objects.map Object.handle).Nodup) :
    (root.associate object region hs).state.classes = root.classes ∧
      (root.associate object region hs).state.objects.map
          (fun o => (o.handle, o.owner, o.classHandle)) =
        root.objects.map fun o => (o.handle, o.owner, o.classHandle) := by
  rcases RootObject.associate_cases root object region hs with
    unchanged | ⟨o, o', found, same, result⟩
  · rw [unchanged]
    exact ⟨rfl, rfl⟩
  · rw [result]
    refine ⟨rfl, ?_⟩
    unfold RootObject.setObject replace adjust
    rw [List.map_map]
    refine List.map_congr_left fun p member => ?_
    dsimp only [Function.comp]
    split
    · rename_i equal
      obtain rfl : p = o := List.inj_on_of_nodup_map distinct member (lookup_mem found)
        (equal.trans same.handle)
      rw [same.handle, same.owner, same.classHandle]
    · rfl

/-- A root object with one more instance. -/
def RootObject.withInstance (root : RootObject) (fed : FederateHandle) (h : ObjectClassHandle)
    (object : ObjectHandle) (name : String) (c : ObjectClass) : RootObject :=
  { root with
    objects := root.objects ++ [RootObject.newInstance c fed h object name]
    reservedNames := drop Prod.fst name root.reservedNames }

theorem fresh_instance_distinct (sound : DiscoverySound past f) (name : String)
    (fed : FederateHandle) (h : ObjectClassHandle) (c : ObjectClass) :
    ((f.root.withInstance fed h f.nextObject name c).objects.map Object.handle).Nodup := by
  simp only [RootObject.withInstance, List.map_append, List.map_cons, List.map_nil,
    RootObject.newInstance]
  refine List.nodup_append.mpr ⟨sound.distinct, by simp, fun k old k' new => ?_⟩
  obtain ⟨o, member, rfl⟩ := List.mem_map.mp old
  rw [List.mem_singleton.mp new]
  exact Nat.ne_of_lt (sound.issued o member)

/-- A new instance is associated with a region that exists, for attributes of its class. -/
theorem associate_new (root : RootObject) {fed : FederateHandle} {h : ObjectClassHandle}
    {object : ObjectHandle} {name : String} {region : RegionHandle} {hs : List AttributeHandle}
    {c : ObjectClass} {sent : Responses} (registers : root.Registers fed h object name c sent)
    (associable : root.Associable h region hs) :
    ((root.withInstance fed h object name c).associate object region hs).error = none := by
  obtain ⟨known, defined⟩ := associable
  obtain ⟨r, region'⟩ := Option.isSome_iff_exists.mp known
  have found : (root.withInstance fed h object name c).object? object =
      some (RootObject.newInstance c fed h object name) := by
    have absent : lookup Object.handle object root.objects = none := registers.freshHandle
    unfold lookup at absent
    simp [RootObject.object?, RootObject.withInstance, lookup, absent, RootObject.newInstance]
  have looked : (root.withInstance fed h object name c).getRegion region = .ok r := by
    have same : (root.withInstance fed h object name c).region? region = some r := region'
    rw [RootObject.getRegion, same]
  have got : (root.withInstance fed h object name c).getObject object =
      .ok (RootObject.newInstance c fed h object name) := by
    rw [RootObject.getObject, found]
  unfold RootObject.associate
  rw [looked, got]
  refine Sweep.sweep_no_error (p := fun o : Object =>
    ∀ a ∈ hs, a ∈ o.attributes.map ObjectAttribute.handle) ?_ ?_
  · intro o a member handles
    obtain ⟨oa, belongs, handle⟩ := List.mem_map.mp (handles a member)
    obtain ⟨oa', located⟩ := lookup_of_mem belongs handle
    refine ⟨o.setAttribute { oa' with region := some region }, ?_, fun a' member' => ?_⟩
    · simp [Object.getAttribute, Object.attribute?, located, bind, Except.bind, pure, Except.pure]
    · have kept : (o.setAttribute { oa' with region := some region }).attributes.map
          ObjectAttribute.handle = o.attributes.map ObjectAttribute.handle :=
        map_key_replace _ _
      rw [kept]
      exact handles a' member'
  · intro a member
    obtain ⟨oca, located⟩ := Option.isSome_iff_exists.mp (defined c registers.found a member)
    have handles : ((RootObject.newInstance c fed h object name).unassociate region).attributes.map
        ObjectAttribute.handle = c.attributes.map ObjectClassAttribute.handle := by
      simp only [Object.unassociate, RootObject.newInstance, ObjectClass.instanceAttributes,
        List.map_map]
      refine List.map_congr_left fun oca _ => ?_
      dsimp only [Function.comp]
      split <;> rfl
    rw [handles, ← lookup_key located]
    exact List.mem_map_of_mem (lookup_mem located)

end

/-! ## One event -/

namespace Federation

variable {past : List (Event × Answer)} {f : Federation} {fed : FederateHandle}
  {service : RootObject → Outcome RootObject} {e : Event}

/-- What an event leaves, with its answer added to the past. -/
def Leaves (past : List (Event × Answer)) (e : Event) (outcome : Outcome Federation) : Prop :=
  DiscoverySound (past ++ [(e, (outcome.sent, outcome.error))]) outcome.state

theorem leaves_refused (sound : DiscoverySound past f) (error : RTIException) :
    Leaves past e (.refused f error) :=
  sound.unchanged sound.numbered rfl (Nat.le_refl _) fun _ => rfl

theorem leaves_asMember (sound : DiscoverySound past f) {served : Outcome Federation}
    (leaves : f.check fed = true → Leaves past e served) :
    Leaves past e (f.asMember fed served) :=
  asMember_cases (p := Leaves past e) (leaves_refused sound _) leaves

theorem leaves_memberWithRegion (sound : DiscoverySound past f) {region : RegionHandle}
    (leaves : f.check fed = true → (f.root.region? region).isSome = true →
      Leaves past e (f.onRoot service)) :
    Leaves past e (f.memberWithRegion fed region service) := by
  refine leaves_asMember sound fun member => ?_
  cases known : f.root.region? region with
  | none =>
    simp only [onRoot, RootObject.getRegion, known]
    exact leaves_refused sound _
  | some r =>
    have served := leaves member (by rw [known]; rfl)
    simpa only [onRoot, RootObject.getRegion, known] using served

/-- A service that only touches the interactions or the regions. -/
theorem leaves_elsewhere (sound : DiscoverySound past f)
    (classes : (service f.root).state.classes = f.root.classes)
    (objects : (service f.root).state.objects = f.root.objects)
    (server : (service f.root).state.server = f.root.server)
    (sent : (service f.root).sent = []) : Leaves past e (f.onRoot service) :=
  sound.fewer (sound.numbered.congr rfl rfl) classes (by rw [onRoot, objects]) server
    (Nat.le_refl _) fun g => by rw [onRoot, sent]; rfl

theorem leaves_interaction (sound : DiscoverySound past f) (h : InteractionClassHandle)
    (change : Interaction → Except RTIException Interaction) :
    Leaves past e (f.onRoot (·.declareInteraction h change)) := by
  refine leaves_elsewhere sound ?_ ?_ ?_ (RootObject.declareInteraction_sent h change)
  all_goals
    unfold RootObject.declareInteraction
    split
    · rfl
    · split <;> rfl

theorem leaves_registerObject (sound : DiscoverySound past f) (fed : FederateHandle)
    (h : ObjectClassHandle) (name : String) : Leaves past e (f.registerObject fed h name) := by
  unfold registerObject
  dsimp only
  generalize (if name = "" then "HLAObject_" ++ toString f.nextObject else name) = named
  have numbered : ∀ root, { f with nextObject := f.nextObject + 1, root := root }.Numbered :=
    fun _ => sound.numbered.congr rfl rfl
  rcases RootObject.registerObjectInstance_cases f.root fed h f.nextObject named with
    ⟨error, refused⟩ | ⟨c, sent, registers⟩
  · unfold onRoot
    dsimp only
    rw [refused]
    exact sound.unchanged (numbered f.root) rfl (Nat.le_succ _) fun _ => rfl
  · unfold onRoot
    dsimp only
    rw [registers.outcome]
    refine sound.register registers (numbered _) rfl ?_ rfl rfl (.inl rfl)
    simp [Outcome.done, RootObject.newInstance]

/-- A registration with a region that fails after all has told nobody. -/
theorem leaves_registerObjectWithRegion (sound : DiscoverySound past f) (fed : FederateHandle)
    (h : ObjectClassHandle) (name : String) (region : RegionHandle) (hs : List AttributeHandle)
    (ok : f.check fed = true → f.root.Associable h region hs ∨ f.root.Unheard fed h) :
    Leaves past e (f.registerObjectWithRegion fed h name region hs) := by
  refine leaves_asMember sound fun member => ?_
  dsimp only
  split
  · exact leaves_registerObject sound fed h name
  · rename_i accepted
    unfold registerObject at accepted ⊢
    dsimp only at accepted ⊢
    generalize (if name = "" then "HLAObject_" ++ toString f.nextObject else name) = named at *
    rcases RootObject.registerObjectInstance_cases f.root fed h f.nextObject named with
      ⟨error, refused⟩ | ⟨c, sent, registers⟩
    · unfold onRoot at accepted
      dsimp only at accepted
      rw [refused] at accepted
      cases accepted
    · have registered : ({ f with nextObject := f.nextObject + 1 }.onRoot
          (·.registerObjectInstance fed h f.nextObject named)) =
          .done { f with
            nextObject := f.nextObject + 1
            root := f.root.withInstance fed h f.nextObject named c } sent := by
        unfold onRoot
        dsimp only
        rw [registers.outcome]
        rfl
      rw [registered]
      dsimp only [Outcome.done, onRoot]
      have handles := fresh_instance_distinct sound named fed h c
      obtain ⟨classes, objects⟩ := associate_instances
        (f.root.withInstance fed h f.nextObject named c) f.nextObject region hs handles
      have server := RootObject.associate_server
        (f.root.withInstance fed h f.nextObject named c) f.nextObject region hs
      have listed := objects.trans (by
        simp [RootObject.withInstance, RootObject.newInstance] :
          (f.root.withInstance fed h f.nextObject named c).objects.map
              (fun o => (o.handle, o.owner, o.classHandle)) =
            f.root.objects.map (fun o => (o.handle, o.owner, o.classHandle)) ++
              [(f.nextObject, fed, h)])
      split
      · rename_i error failed
        refine sound.register registers (sound.numbered.congr rfl rfl) classes listed server rfl
          (.inr ⟨rfl, ?_⟩)
        rcases ok member with associable | unheard
        · have total := associate_new f.root registers associable
          rw [total] at failed
          cases failed
        · rintro g other ⟨d, above, subscribed⟩
          obtain ⟨a, belongs, s, subscriber, rfl⟩ := ObjectClass.isSubscribed_iff.mp subscribed
          exact other (unheard d above a belongs s subscriber)
      · exact sound.register registers (sound.numbered.congr rfl rfl) classes listed server rfl
          (.inl rfl)

theorem leaves_join (sound : DiscoverySound past f) (name : String) (conditions : JoinConditions) :
    Leaves past e (f.add name conditions) := by
  have silent : ∀ g, discovered g (f.add name conditions).sent = [] :=
    discovered_of_about (add_about name conditions) (by decide)
  have numbered := add_numbered sound.numbered name conditions
  rcases add_cases f name conditions with same | ⟨_, _, next, _, root⟩
  · exact sound.unchanged numbered (congrArg Federation.root same :)
      (Nat.le_of_eq (congrArg Federation.nextObject same.symm :)) silent
  · rcases root with same | referenced
    · exact sound.unchanged numbered same (Nat.le_of_eq next.symm) silent
    · refine sound.quiet numbered ?_ ?_ (Nat.le_of_eq next.symm) ?_ ?_ silent
      · rw [referenced]
      · rw [referenced]
      · rw [referenced]
        intro g reachable
        exact SecurityServer.hasReferences_setReferences.mpr (.inl reachable)
      · rw [referenced]
        intro g reachable
        rcases SecurityServer.hasReferences_setReferences.mp reachable with old | rfl
        · exact sound.reached g old
        · exact sound.numbered.positive

theorem leaves_delete (sound : DiscoverySound past f) (object : ObjectHandle) :
    Leaves past e (f.onRoot (·.deleteObjectInstance fed object)) := by
  rcases RootObject.deleteObjectInstance_cases f.root fed object with
    ⟨error, refused⟩ | ⟨o, sent, deletes⟩
  · unfold onRoot
    dsimp only
    rw [refused]
    exact leaves_refused sound error
  · unfold onRoot
    dsimp only
    rw [deletes.outcome]
    refine sound.fewer (sound.numbered.congr rfl rfl) rfl (List.filter_sublist.map _) rfl
      (Nat.le_refl _) fun g => List.filterMap_eq_nil_iff.mpr fun response member => ?_
    obtain ⟨_, _, message⟩ := RootObject.broadcastUp_sent deletes.broadcast response member
    rw [message]

theorem perform_leaves (sound : DiscoverySound past f) (ok : Discovers (past, f) e) :
    Leaves past e (f.perform e) := by
  by_cases internal : e.isInternal = true
  · have same := perform_internal f internal
    refine sound.unchanged (perform_numbered sound.numbered e) same.root
      (Nat.le_of_eq same.nextObject.symm) (discovered_of_about (perform_about f e) ?_)
    cases e <;> simp [Event.isInternal, Event.topics] at internal ⊢
  cases e with
  | join name conditions => exact leaves_join sound name conditions
  | resign fed =>
    rcases remove_cases f fed with refused | ⟨_, removed⟩
    · rw [perform, refused]
      exact leaves_refused sound _
    · rw [perform, removed]
      exact sound.unchanged (sound.numbered.drop fed rfl rfl) rfl (Nat.le_refl _) fun _ => rfl
  | kill fed => exact absurd ok id
  | ownership service fed object hs => exact absurd ok id
  | publishObject fed c hs flag =>
    exact leaves_asMember sound fun _ => sound.publish (sound.numbered.congr rfl rfl) rfl rfl
      fun g => by rw [onRoot, RootObject.publish_sent]; rfl
  | subscribeObject fed c hs =>
    exact leaves_asMember sound fun member =>
      sound.subscribe (ok member) (sound.numbered.congr rfl rfl) rfl rfl rfl
  | subscribeAttributesWR fed c region hs =>
    exact leaves_memberWithRegion sound fun member known =>
      sound.subscribe (ok member known) (sound.numbered.congr rfl rfl) rfl rfl rfl
  | unsubscribeAttributesWR fed c region =>
    exact leaves_memberWithRegion sound fun _ _ =>
      sound.unsubscribe (sound.numbered.congr rfl rfl) rfl rfl
        fun g => by rw [onRoot, RootObject.unsubscribeWith_sent]; rfl
  | publishInteraction fed i flag =>
    exact leaves_asMember sound fun _ => leaves_interaction sound i _
  | subscribeInteraction fed i flag =>
    exact leaves_asMember sound fun _ => leaves_interaction sound i _
  | subscribeInteractionWR fed i region flag =>
    exact leaves_memberWithRegion sound fun _ _ => leaves_interaction sound i _
  | createRegion fed space extents =>
    refine leaves_asMember sound fun _ => leaves_elsewhere sound ?_ ?_ ?_ ?_
    all_goals
      unfold RootObject.createRegion
      split
      · rfl
      · split <;> rfl
  | associateRegion fed object region hs =>
    refine leaves_asMember sound fun _ => ?_
    obtain ⟨classes, objects⟩ := associate_instances f.root object region hs sound.distinct
    refine sound.fewer (sound.numbered.congr rfl rfl) classes ?_
      (RootObject.associate_server f.root object region hs) (Nat.le_refl _) fun g => ?_
    · unfold onRoot
      rw [objects]
    · rw [onRoot, RootObject.associate_sent]
      rfl
  | registerObject fed c name => exact leaves_registerObject sound fed c name
  | registerObjectWithRegion fed c name region hs =>
    exact leaves_registerObjectWithRegion sound fed c name region hs ok
  | deleteObject fed object => exact leaves_asMember sound fun _ => leaves_delete sound object
  | _ => exact absurd rfl internal

theorem create_forest (fom : Fom) (withMom haveXml : Bool) :
    (create fom withMom haveXml).root.ClassForest := by
  refine ⟨(create_distinct fom withMom haveXml).classes, fun c member => ?_⟩
  obtain ⟨declared, belongs, rfl⟩ := List.mem_map.mp member
  exact Nat.lt_succ_of_le (fom.superClasses declared belongs)

theorem create_attributes (fom : Fom) (withMom haveXml : Bool) :
    ∀ c ∈ (create fom withMom haveXml).root.classes,
      (c.attributes.map ObjectClassAttribute.handle).Nodup := by
  intro c member
  obtain ⟨declared, _, rfl⟩ := List.mem_map.mp member
  have handles : (declared.1.create (declared.2 + 1)).attributes.map ObjectClassAttribute.handle =
      List.range' 1 declared.1.attributes.length := by
    simp only [FomClass.create, List.map_map]
    rw [← List.zipIdx_map_snd 1 declared.1.attributes, List.zipIdx_succ]
    simp [Function.comp_def]
  rw [handles]
  exact List.nodup_range'

theorem create_unsubscribed (fom : Fom) (withMom haveXml : Bool) :
    ∀ c ∈ (create fom withMom haveXml).root.classes, ∀ g, c.isSubscribed g = false := by
  intro c member g
  obtain ⟨declared, _, rfl⟩ := List.mem_map.mp member
  simp [ObjectClass.isSubscribed, FomClass.create, ObjectClassAttribute.isSubscribed,
    Subscribable.isSubscribed]

theorem create_discoverySound (fom : Fom) (withMom haveXml : Bool) :
    DiscoverySound [] (create fom withMom haveXml) := by
  refine ⟨create_numbered fom withMom haveXml, create_forest fom withMom haveXml,
    create_attributes fom withMom haveXml, List.nodup_nil, ?_, ?_, by simp [create],
    by simp [discoveries], fun _ => List.nodup_nil, by simp [create]⟩
  · intro c member g subscribed
    rw [create_unsubscribed fom withMom haveXml c member g] at subscribed
    cases subscribed
  · intro g reachable
    cases withMom with
    | false => simp [create, SecurityServer.hasReferences] at reachable
    | true =>
      simp only [create, SecurityServer.hasReferences, if_true, Option.some.injEq,
        List.contains_nil, Bool.or_false, decide_eq_true_eq] at reachable
      rw [← reachable]
      exact Nat.one_pos

theorem rtig_discoverySound {past : List (Event × Answer)} {f : Federation} {e : Event}
    (sound : DiscoverySound past f) (ok : Discovers (past, f) e) :
    DiscoverySound (past ++ [(e, (rtig f e).2)]) (rtig f e).1 := by
  cases crashed : f.crashed with
  | true =>
    rw [rtig_crashed crashed]
    exact sound.unchanged sound.numbered rfl (Nat.le_refl _) fun _ => rfl
  | false =>
    rw [rtig_perform crashed]
    exact perform_leaves sound ok

end Federation

/-- In every run that meets the condition nobody is told of an instance twice, and whoever is
subscribed to the class of a live instance or a superclass has been told of it. -/
theorem discoveries_sound (fom : Fom) (withMom haveXml : Bool) (es : List Event)
    (ok : rtig.recorded.Meets Discovers ([], create fom withMom haveXml) es) :
    DiscoveredSoundly (rtig.trace (create fom withMom haveXml) es)
      (rtig.exec (create fom withMom haveXml) es) := by
  have reached := Machine.exec_invariant rtig.recorded
    (p := fun run => DiscoverySound run.1 run.2) (fun _ _ => rtig_discoverySound)
    (create_discoverySound fom withMom haveXml) ok
  rw [Machine.exec_recorded, List.nil_append] at reached
  exact reached.soundly

namespace RootObject

instance (root : RootObject) (fed : FederateHandle) (h : ObjectClassHandle) (o : Object) :
    Decidable (root.Concerns fed h o) :=
  inferInstanceAs (Decidable (_ ∧ ∃ d ∈ root.lineage o.classHandle, _))

instance (root : RootObject) (fed : FederateHandle) (h : ObjectClassHandle) (o : Object) :
    Decidable (root.Finds fed h o) :=
  inferInstanceAs (Decidable (_ ∧ ∀ d ∈ root.lineage o.classHandle, _ → _))

instance (past : List (Event × Answer)) (root : RootObject) (fed : FederateHandle)
    (hs : List AttributeHandle) (c : ObjectClass) :
    Decidable (root.OrderlySubscription past fed hs c) :=
  inferInstanceAs (Decidable (_ → _ → _ → _ ∧
    if ∀ h ∈ hs, c.Accessible root.server fed h then _ → ∀ o ∈ root.objects, _ → _
    else ∀ o ∈ root.objects, _ → _))

instance (root : RootObject) (h : ObjectClassHandle) (region : RegionHandle)
    (hs : List AttributeHandle) : Decidable (root.Associable h region hs) :=
  inferInstanceAs (Decidable (_ ∧ ∀ c ∈ root.class? h, ∀ a ∈ hs, _))

instance (root : RootObject) (fed : FederateHandle) (h : ObjectClassHandle) :
    Decidable (root.Unheard fed h) :=
  inferInstanceAs (Decidable (∀ c ∈ root.lineage h, ∀ a ∈ c.attributes, ∀ s ∈ a.subscribers, _))

end RootObject

instance (run : List (Event × Answer) × Federation) : ∀ e, Decidable (Discovers run e)
  | .subscribeObject _ h _ =>
    inferInstanceAs (Decidable (_ → ∀ c ∈ run.2.root.class? h, _))
  | .subscribeAttributesWR _ h _ _ =>
    inferInstanceAs (Decidable (_ → _ → ∀ c ∈ run.2.root.class? h, _))
  | .registerObjectWithRegion _ _ _ _ _ => inferInstanceAs (Decidable (_ → _ ∨ _))
  | .kill _ | .ownership .. => .isFalse id
  | .join .. | .resign .. | .setTimeRegulating .. | .messageNull .. | .setTimeConstrained ..
  | .registerSynchronization .. | .synchronizationPointAchieved .. | .requestFederationSave ..
  | .federateSaveBegun .. | .federateSaveStatus .. | .publishObject ..
  | .unsubscribeAttributesWR .. | .publishInteraction .. | .subscribeInteraction ..
  | .subscribeInteractionWR .. | .createRegion .. | .associateRegion .. | .registerObject ..
  | .deleteObject .. => .isTrue trivial

/-- A class with one attribute, and a subclass that inherits it. -/
def twoLevelFom : Fom :=
  { classes := [⟨0, [⟨"privilegeToDelete", 0⟩, ⟨"x", 0⟩], 0⟩,
      ⟨1, [⟨"privilegeToDelete", 0⟩, ⟨"x", 0⟩], 0⟩]
    interactions := []
    spaces := []
    superClasses := by decide
    superInteractions := noInteractions_ordered }

/-- The second federate subscribes to the subclass, of which it discovers an instance, and
then to the class; it is told of an instance registered after that once. -/
def subscribingUpwards : List Event :=
  [joinAs "a", joinAs "b", .publishObject 1 2 [2] true, .registerObject 1 2 "",
    .subscribeObject 2 2 [2], .subscribeObject 2 1 [2], .registerObject 1 2 "",
    .subscribeObject 2 1 []]

theorem discoveries_sound_upwards :
    discoveries 2 (rtig.trace (create twoLevelFom false true) subscribingUpwards) = [1, 2] ∧
      DiscoveredSoundly (rtig.trace (create twoLevelFom false true) subscribingUpwards)
        (rtig.exec (create twoLevelFom false true) subscribingUpwards) :=
  ⟨by decide +kernel, discoveries_sound twoLevelFom false true subscribingUpwards
    (by decide +kernel)⟩

/-- Subscribing to a class and then to its subclass discovers an instance of it twice. -/
theorem discovered_twice :
    ¬ ∀ (fom : Fom) (withMom haveXml : Bool) (es : List Event),
      DiscoveredSoundly (rtig.trace (create fom withMom haveXml) es)
        (rtig.exec (create fom withMom haveXml) es) := by
  intro always
  have sound := always twoLevelFom false true
    [joinAs "a", joinAs "b", .publishObject 1 2 [2] true, .registerObject 1 2 "",
      .subscribeObject 2 1 [2], .subscribeObject 2 2 [2]]
  exact absurd (sound.atMostOnce 2) (by decide +kernel)

end Certi
