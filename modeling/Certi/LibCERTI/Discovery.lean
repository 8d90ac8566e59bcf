import Certi.LibCERTI.Instances

/-!
# Who is told of an instance

An instance is announced on two paths: its registration climbs from its class
to the root, and a subscription descends from the class subscribed to. Each is
characterised by whom it tells of what, once.
-/
namespace Certi

open Keyed Sweep

/-- The instances a list of responses lets the federate discover. -/
def Responses.discovered (g : FederateHandle) (sent : Responses) : List ObjectHandle :=
  sent.filterMap fun response => match response.2 with
    | .discoverObject _ _ object _ => if response.1 = g then some object else none
    | _ => none

open Responses

@[simp] theorem discovered_nil (g : FederateHandle) : discovered g [] = [] := rfl

@[simp] theorem discovered_append (g : FederateHandle) (sent sent' : Responses) :
    discovered g (sent ++ sent') = discovered g sent ++ discovered g sent' :=
  List.filterMap_append

/-! ## Lines of a broadcast about a whole instance -/

namespace BroadcastLines

variable {lines next : BroadcastLines} {fed g : FederateHandle}

/-- Attribute 0 is never above the greatest handle. -/
theorem addFederate_zero (lines : BroadcastLines) (fed : FederateHandle) :
    ∃ next, addFederate 0 lines fed 0 = .ok next := by
  unfold addFederate
  rw [if_neg (Nat.lt_irrefl 0)]
  split
  · exact ⟨_, rfl⟩
  · split <;> exact ⟨_, rfl⟩

end BroadcastLines

namespace RootObject

open BroadcastLines

variable {root : RootObject} {server : SecurityServer} {fed sender g : FederateHandle}

/-- Every federate of an audience waits afterwards, unless it was told before. -/
theorem addAudience_spec (feds : List FederateHandle) :
    ∀ lines : BroadcastLines, lines.Distinct → ∃ next, addAudience lines feds = .ok next ∧
      next.Distinct ∧ ∀ g, next.status g 0 =
        if g ∈ feds ∧ lines.status g 0 ≠ .sent then .waiting else lines.status g 0 := by
  induction feds with
  | nil =>
    intro lines distinct
    exact ⟨lines, rfl, distinct, fun g => by simp⟩
  | cons fed rest ih =>
    intro lines distinct
    obtain ⟨added, success⟩ := addFederate_zero lines fed
    obtain ⟨_, stays, changed⟩ := addFederate_success distinct success
    obtain ⟨next, later, still, status⟩ := ih added stays
    refine ⟨next, ?_, still, fun g => ?_⟩
    · unfold addAudience at later ⊢
      rw [List.foldlM_cons, success]
      exact later
    · rw [status, changed]
      by_cases told : lines.status g 0 = .sent
      · simp [told]
      · by_cases here : g = fed
        · subst here
          simp [told]
        · simp [told, here]

/-- Whoever waited is told, and nobody twice. -/
theorem preparePendingDO_spec (server : SecurityServer) (message : NetworkMessage) {lines : BroadcastLines}
    (distinct : lines.Distinct) :
    (preparePendingDO server message lines).1.Distinct ∧
      (∀ g, (preparePendingDO server message lines).1.status g 0 =
        if lines.status g 0 = .waiting then .sent else lines.status g 0) ∧
      ((preparePendingDO server message lines).2.map Prod.fst).Nodup ∧
      ∀ g, g ∈ (preparePendingDO server message lines).2.map Prod.fst ↔
        lines.status g 0 = .waiting ∧ server.hasReferences g = true := by
  have federates : (lines.map (·.markSent 0)).map ObjectBroadcastLine.federate =
      lines.map ObjectBroadcastLine.federate := by
    rw [List.map_map]
    exact List.map_congr_left fun line _ => line.markSent_federate 0
  refine ⟨?_, fun g => ?_, ?_, fun g => ?_⟩
  · unfold BroadcastLines.Distinct preparePendingDO
    rw [federates]
    exact distinct
  · have found : line? (lines.map (·.markSent 0)) g = (lines.line? g).map (·.markSent 0) :=
      lookup_map (fun line _ => line.markSent_federate 0) g
    change BroadcastLines.status (lines.map (·.markSent 0)) g 0 = _
    unfold BroadcastLines.status
    rw [found]
    cases located : lines.line? g with
    | none => simp
    | some line => simp [ObjectBroadcastLine.stateFor_markSent]
  · simp only [preparePendingDO, List.map_map, Function.comp_def]
    exact distinct.sublist (List.filter_sublist.map _)
  · simp only [preparePendingDO, List.map_map, Function.comp_def, List.mem_map, List.mem_filter,
      Bool.and_eq_true, decide_eq_true_eq]
    constructor
    · rintro ⟨line, ⟨member, waits, reachable⟩, rfl⟩
      exact ⟨by rw [status_of_mem distinct member]; exact waits, reachable⟩
    · rintro ⟨waits, reachable⟩
      cases found : lines.line? g with
      | none => simp [status, found] at waits
      | some line =>
        obtain rfl : line.federate = g := lookup_key found
        refine ⟨line, ⟨lookup_mem found, ?_, reachable⟩, rfl⟩
        rw [← status_of_mem distinct (lookup_mem found)]
        exact waits

/-- A broadcast to the root sends nothing but its message, for one class or another. -/
theorem broadcastUp_sent {message : ObjectClassHandle → NetworkMessage} :
    ∀ {classes : List ObjectClass} {lines : BroadcastLines} {sent : Responses},
      broadcastUp server sender message lines classes = .ok sent →
        ∀ response ∈ sent, ∃ c ∈ classes, response.2 = message c.handle := by
  intro classes
  induction classes with
  | nil =>
    intro lines sent success
    cases success
    simp
  | cons c rest ih =>
    intro lines sent success
    unfold broadcastUp at success
    cases added : addAudience lines (audience c sender) with
    | error e =>
      rw [added] at success
      cases success
    | ok listed =>
      rw [added] at success
      simp only [bind, Except.bind] at success
      cases later : broadcastUp server sender message
          (preparePendingDO server (message c.handle) listed).1 rest with
      | error e =>
        rw [later] at success
        cases success
      | ok sent' =>
        rw [later] at success
        cases success
        intro response member
        rcases List.mem_append.mp member with here | above
        · obtain ⟨line, _, rfl⟩ := List.mem_map.mp here
          exact ⟨c, List.mem_cons_self, rfl⟩
        · obtain ⟨d, belongs, result⟩ := ih later response above
          exact ⟨d, List.mem_cons_of_mem c belongs, result⟩

/-- A broadcast to the root succeeds, and tells once everybody in the audience of one of the
classes who can be reached and was not told before. -/
theorem broadcastUp_recipients (server : SecurityServer) (sender : FederateHandle)
    (message : ObjectClassHandle → NetworkMessage) (classes : List ObjectClass) :
    ∀ lines : BroadcastLines, lines.Distinct → (∀ g, lines.status g 0 ≠ .waiting) →
      ∃ sent, broadcastUp server sender message lines classes = .ok sent ∧
        (sent.map Prod.fst).Nodup ∧ ∀ g, g ∈ sent.map Prod.fst ↔
          lines.status g 0 ≠ .sent ∧ server.hasReferences g = true ∧
            ∃ c ∈ classes, g ∈ audience c sender := by
  induction classes with
  | nil =>
    intro lines _ _
    exact ⟨[], rfl, List.nodup_nil, by simp⟩
  | cons c rest ih =>
    intro lines distinct settled
    obtain ⟨listed, added, stays, status⟩ := addAudience_spec (audience c sender) lines distinct
    obtain ⟨still, told, once, recipients⟩ :=
      preparePendingDO_spec server (message c.handle) stays
    have resettled : ∀ g, (preparePendingDO server (message c.handle) listed).1.status g 0 ≠
        .waiting := by
      intro g
      rw [told]
      split
      · decide
      · assumption
    obtain ⟨sent, success, nodup, later⟩ :=
      ih (preparePendingDO server (message c.handle) listed).1 still resettled
    refine ⟨(preparePendingDO server (message c.handle) listed).2 ++ sent, ?_, ?_, fun g => ?_⟩
    · unfold broadcastUp
      rw [added]
      simp only [bind, Except.bind]
      rw [success]
      rfl
    · rw [List.map_append, List.nodup_append]
      refine ⟨once, nodup, fun a here b above => ?_⟩
      rintro rfl
      -- who is told here is not told again further up
      have waits := ((recipients a).mp here).1
      refine ((later a).mp above).1 ?_
      rw [told, if_pos waits]
    · rw [List.map_append, List.mem_append, recipients, later, told, status]
      have quiet := settled g
      by_cases before : lines.status g 0 = .sent
      · simp [before]
      · by_cases here : g ∈ audience c sender
        · simp [before, here]
        · simp [before, here, quiet]

/-- What a federate discovers through messages that all announce one instance. -/
theorem discovered_single {object : ObjectHandle} {name : String} (sent : Responses)
    (about : ∀ response ∈ sent, ∃ s c, response.2 = .discoverObject s c object name) :
    discovered g sent = List.replicate ((sent.map Prod.fst).count g) object := by
  induction sent with
  | nil => rfl
  | cons response rest ih =>
    have later := ih fun r member => about r (List.mem_cons_of_mem response member)
    obtain ⟨s, c, message⟩ := about response List.mem_cons_self
    unfold discovered at later ⊢
    rw [List.filterMap_cons, later, message, List.map_cons, List.count_cons]
    by_cases same : response.1 = g
    · simp [same, List.replicate_succ]
    · simp [same]

/-- The registering federate apart, whoever is subscribed to the class or a superclass. -/
def Hears (root : RootObject) (g : FederateHandle) (h : ObjectClassHandle) : Prop :=
  ∃ c ∈ root.lineage h, c.isSubscribed g = true

instance (root : RootObject) (g : FederateHandle) (h : ObjectClassHandle) :
    Decidable (root.Hears g h) :=
  inferInstanceAs (Decidable (∃ c ∈ root.lineage h, _))

/-- A subscriber has a handle the loops over handles reach, and can be reached itself. -/
def Audible (root : RootObject) : Prop :=
  ∀ c ∈ root.classes, ∀ g, c.isSubscribed g = true →
    0 < g ∧ g ≤ c.maxSubscriberHandle ∧ root.server.hasReferences g = true

abbrev ClassForest (root : RootObject) : Prop :=
  Forest.Ordered ObjectClass.handle ObjectClass.superClass root.classes

/-- A registration is announced once to each other federate that hears of the class. -/
theorem register_discovered (forest : root.ClassForest) (audible : root.Audible)
    {classHandle : ObjectClassHandle} {object : ObjectHandle} {name : String} {sent : Responses}
    (success : broadcastUp root.server fed (fun h => .discoverObject fed h object name)
      (BroadcastLines.start fed) (root.lineage classHandle) = .ok sent) (g : FederateHandle) :
    discovered g sent = if g ≠ fed ∧ root.Hears g classHandle then [object] else [] := by
  have settled : ∀ g, (start fed).status g 0 ≠ .waiting := by
    intro g
    rw [status_start]
    split <;> decide
  obtain ⟨sent', result, nodup, recipients⟩ := broadcastUp_recipients root.server fed
    (fun h => .discoverObject fed h object name) (root.lineage classHandle)
    (start fed) (start_distinct fed) settled
  obtain rfl : sent' = sent := Except.ok.inj (result.symm.trans success)
  have about : ∀ response ∈ sent', ∃ s c, response.2 = .discoverObject s c object name := by
    intro response member
    obtain ⟨c, _, message⟩ := broadcastUp_sent result response member
    exact ⟨fed, c.handle, message⟩
  have heard : g ∈ sent'.map Prod.fst ↔ g ≠ fed ∧ root.Hears g classHandle := by
    rw [recipients, status_start]
    constructor
    · rintro ⟨_, _, c, above, member⟩
      simp only [audience, List.mem_filter, Bool.and_eq_true, decide_eq_true_eq] at member
      exact ⟨member.2.2, c, above, member.2.1⟩
    · rintro ⟨other, c, above, subscribed⟩
      obtain ⟨positive, bounded, reachable⟩ :=
        audible c (Forest.ancestors_mem forest above) g subscribed
      refine ⟨by simp [other], reachable, c, above, ?_⟩
      simp only [audience, List.mem_filter, Bool.and_eq_true, decide_eq_true_eq]
      exact ⟨mem_handles.mpr ⟨positive, bounded⟩, subscribed, other⟩
  rw [discovered_single sent' about, nodup.count]
  by_cases told : g ≠ fed ∧ root.Hears g classHandle
  · rw [if_pos (heard.mpr told), if_pos told]
    rfl
  · rw [if_neg (mt heard.mp told), if_neg told]
    rfl

/-! ## The descent of a subscription -/

/-- A subclass the federate is subscribed to is left out of the descent. -/
def skipped (fed : FederateHandle) (subscription : ObjectClassHandle) (c : ObjectClass) : Bool :=
  c.handle ≠ subscription && c.isSubscribed fed

theorem recursiveDiscovering_visit (classes : List ObjectClass) (objects : List Object)
    (fed : FederateHandle) (subscription : ObjectClassHandle) (n : Nat) :
    ∀ c, recursiveDiscovering classes objects fed subscription n c =
      (Forest.visit ObjectClass.handle ObjectClass.superClass classes (skipped fed subscription)
        n c).flatMap (discoverInstances objects · fed subscription) := by
  induction n with
  | zero => exact fun _ => rfl
  | succ n ih =>
    intro c
    unfold recursiveDiscovering Forest.visit
    rw [show (decide (c.handle ≠ subscription) && c.isSubscribed fed) =
      skipped fed subscription c from rfl]
    by_cases turn : skipped fed subscription c = true
    · rw [if_pos turn, if_pos turn]
      rfl
    · rw [if_neg turn, if_neg turn, List.flatMap_cons, List.flatMap_assoc]
      congr 1
      exact List.flatMap_congr fun sub _ => ih sub

theorem discovered_discoverInstances (objects : List Object) (c : ObjectClass)
    (fed g : FederateHandle) (subscription : ObjectClassHandle) :
    discovered g (discoverInstances objects c fed subscription) =
      if g = fed then
        (objects.filter (fun o => o.classHandle = c.handle && o.owner ≠ fed)).map Object.handle
      else [] := by
  unfold discovered discoverInstances
  rw [List.filterMap_map]
  by_cases same : g = fed
  · simp [same]
  · simp [same, Ne.symm same]

/-- Nothing is announced twice, and only instances of others in the classes visited. -/
theorem visited_discovered {classes visited : List ObjectClass} {objects : List Object}
    (distinct : (objects.map Object.handle).Nodup) (once : visited.Nodup)
    (classesDistinct : (classes.map ObjectClass.handle).Nodup) (known : ∀ c ∈ visited, c ∈ classes)
    (fed g : FederateHandle) (subscription : ObjectClassHandle) :
    (discovered g (visited.flatMap (discoverInstances objects · fed subscription))).Nodup ∧
      ∀ h, h ∈ discovered g (visited.flatMap (discoverInstances objects · fed subscription)) ↔
        g = fed ∧ ∃ o ∈ objects, o.handle = h ∧ o.owner ≠ fed ∧
          ∃ c ∈ visited, c.handle = o.classHandle := by
  have parts : discovered g (visited.flatMap (discoverInstances objects · fed subscription)) =
      visited.flatMap fun c => discovered g (discoverInstances objects c fed subscription) := by
    unfold discovered
    exact List.filterMap_flatMap
  rw [parts]
  by_cases same : g = fed
  · subst same
    simp only [discovered_discoverInstances, if_true, true_and]
    constructor
    · refine List.nodup_flatMap.mpr ⟨fun c _ => distinct.sublist (List.filter_sublist.map _), ?_⟩
      refine once.imp_of_mem fun {c d} inC inD different => ?_
      refine List.disjoint_left.mpr fun h viaC viaD => ?_
      obtain ⟨o, member, rfl⟩ := List.mem_map.mp viaC
      obtain ⟨o', member', equal⟩ := List.mem_map.mp viaD
      simp only [List.mem_filter, Bool.and_eq_true, decide_eq_true_eq] at member member'
      obtain rfl : o' = o := List.inj_on_of_nodup_map distinct member'.1 member.1 equal
      have handles : c.handle = d.handle := member.2.1.symm.trans member'.2.1
      exact different (List.inj_on_of_nodup_map classesDistinct (known c inC) (known d inD) handles)
    · intro h
      simp only [List.mem_flatMap, List.mem_map, List.mem_filter, Bool.and_eq_true,
        decide_eq_true_eq]
      constructor
      · rintro ⟨c, visits, o, ⟨member, inClass, other⟩, rfl⟩
        exact ⟨o, member, rfl, other, c, visits, inClass.symm⟩
      · rintro ⟨o, member, rfl, other, c, visits, inClass⟩
        exact ⟨c, visits, o, ⟨member, inClass.symm, other⟩, rfl⟩
  · have silent : (visited.flatMap fun c =>
        discovered g (discoverInstances objects c fed subscription)) = [] :=
      List.flatMap_eq_nil_iff.mpr fun c _ => by rw [discovered_discoverInstances, if_neg same]
    rw [silent]
    simp [same]

/-- A first subscription to a class announces, once each, the instances of others in it and
in the subclasses not cut off by a subscription below it. -/
theorem recursiveDiscovering_discovered (root : RootObject) (forest : root.ClassForest)
    (distinct : (root.objects.map Object.handle).Nodup) {c : ObjectClass}
    (member : c ∈ root.classes) (fed g : FederateHandle) :
    (discovered g (recursiveDiscovering root.classes root.objects fed c.handle
        (root.classes.length + 1) c)).Nodup ∧
      ∀ h, h ∈ discovered g (recursiveDiscovering root.classes root.objects fed c.handle
          (root.classes.length + 1) c) ↔
        g = fed ∧ ∃ o ∈ root.objects, o.handle = h ∧ o.owner ≠ fed ∧
          c ∈ root.lineage o.classHandle ∧
            ∀ d ∈ root.lineage o.classHandle, c.handle < d.handle → d.isSubscribed fed = false := by
  have visits : ∀ d, d ∈ Forest.visit ObjectClass.handle ObjectClass.superClass root.classes
      (skipped fed c.handle) (root.classes.length + 1) c ↔ _ :=
    fun d => Forest.mem_visit_iff forest (skipped fed c.handle) (Nat.lt_succ_self _) member
  obtain ⟨nodup, told⟩ := visited_discovered distinct
    (Forest.visit_nodup forest (skipped fed c.handle) (root.classes.length + 1) c member)
    forest.distinct (fun d visited => ((visits d).mp visited).1) fed g c.handle
  rw [recursiveDiscovering_visit]
  refine ⟨nodup, fun h => (told h).trans (and_congr_right fun _ => ?_)⟩
  refine exists_congr fun o => and_congr_right fun _ => and_congr_right fun _ =>
    and_congr_right fun _ => ?_
  constructor
  · rintro ⟨d, visited, inClass⟩
    obtain ⟨_, onClimb, clear⟩ := (visits d).mp visited
    rw [inClass] at onClimb clear
    refine ⟨onClimb, fun x above below => ?_⟩
    have kept := clear x above (Nat.le_of_lt below)
    simpa [skipped, Nat.ne_of_gt below] using kept
  · rintro ⟨onClimb, clear⟩
    -- the class of the instance begins the climb
    obtain ⟨d, rest, climbed⟩ := List.exists_cons_of_ne_nil (List.ne_nil_of_mem onClimb)
    obtain ⟨found, _⟩ := Forest.ancestors_cons forest climbed
    have inClass : d.handle = o.classHandle := lookup_key found
    refine ⟨d, (visits d).mpr ⟨lookup_mem found, ?_, fun x above below => ?_⟩, inClass⟩
    · rw [inClass]
      exact onClimb
    · rw [inClass] at above
      rcases Nat.lt_or_eq_of_le below with strictly | equal
      · simp [skipped, clear x above strictly]
      · simp [skipped, equal]

end RootObject

/-! ## What a subscription changes of a class -/

namespace ObjectClass

variable {c d : ObjectClass} {server : SecurityServer} {fed g : FederateHandle}
  {region : Option RegionHandle}

theorem isSubscribed_iff : c.isSubscribed g = true ↔
    ∃ a ∈ c.attributes, ∃ s ∈ a.subscribers, s.handle = g := by
  simp [isSubscribed, ObjectClassAttribute.isSubscribed, Subscribable.isSubscribed]

theorem unsubscribeWith_isSubscribed_other (other : g ≠ fed) :
    (c.unsubscribeWith fed region).isSubscribed g = c.isSubscribed g := by
  rw [Bool.eq_iff_iff, isSubscribed_iff, isSubscribed_iff]
  constructor
  · rintro ⟨b, member, s, listed, handle⟩
    obtain ⟨a, belongs, rfl⟩ := List.mem_map.mp member
    exact ⟨a, belongs, s, (Subscribable.mem_unsubscribeWith.mp listed).1, handle⟩
  · rintro ⟨a, member, s, listed, rfl⟩
    refine ⟨_, List.mem_map.mpr ⟨a, member, rfl⟩, s, ?_, rfl⟩
    refine Subscribable.mem_unsubscribeWith.mpr ⟨listed, ?_⟩
    rintro rfl
    exact other rfl

theorem unsubscribeWith_isSubscribed (subscribed : (c.unsubscribeWith fed region).isSubscribed g = true) :
    c.isSubscribed g = true := by
  rw [isSubscribed_iff] at subscribed ⊢
  obtain ⟨b, member, s, listed, handle⟩ := subscribed
  obtain ⟨a, belongs, rfl⟩ := List.mem_map.mp member
  exact ⟨a, belongs, s, (Subscribable.mem_unsubscribeWith.mp listed).1, handle⟩

/-- One attribute subscribed to. -/
theorem subscribeStep_isSubscribed {h : AttributeHandle}
    (distinct : (c.attributes.map ObjectClassAttribute.handle).Nodup)
    (success : subscribeStep server fed region c h = .ok d) :
    c.SameClass d ∧ d.maxSubscriberHandle = c.maxSubscriberHandle ∧
      (d.isSubscribed g = true ↔ c.isSubscribed g = true ∨ g = fed) := by
  have same := (subscribeStep_redeclared (p := fun _ => True) trivial success).same
  obtain ⟨a, b, located, subscribed, rfl⟩ := subscribeStep_success success
  obtain ⟨rest, listed⟩ := ObjectClassAttribute.subscribe_success subscribed
  have handle : b.handle = a.handle := by rw [rest]
  refine ⟨same, rfl, ?_⟩
  rw [isSubscribed_iff, isSubscribed_iff]
  constructor
  · rintro ⟨a', member, s, belongs, rfl⟩
    rcases mem_replace member with rfl | ⟨old, _⟩
    · rcases (listed s).mp belongs with earlier | rfl
      · exact .inl ⟨a, lookup_mem located, s, earlier, rfl⟩
      · exact .inr rfl
    · exact .inl ⟨a', old, s, belongs, rfl⟩
  · have stored : b ∈ (c.setAttribute b).attributes :=
      mem_adjust.mpr (.inr ⟨a, lookup_mem located, handle.symm, rfl⟩)
    rintro (⟨a', member, s, belongs, rfl⟩ | rfl)
    · by_cases replaced : a'.handle = b.handle
      · -- with distinct handles it is the attribute that was stored again
        obtain rfl : a' = a := List.inj_on_of_nodup_map distinct member (lookup_mem located)
          (replaced.trans handle)
        exact ⟨b, stored, s, (listed s).mpr (.inl belongs), rfl⟩
      · exact ⟨a', mem_adjust.mpr (.inl ⟨member, replaced⟩), s, belongs, rfl⟩
    · exact ⟨b, stored, _, (listed _).mpr (.inr rfl), rfl⟩

theorem publishStep_subscribers {h : AttributeHandle} {flag : Bool}
    (success : publishStep server fed flag c h = .ok d) :
    d.maxSubscriberHandle = c.maxSubscriberHandle ∧
      ∀ g, d.isSubscribed g = true → c.isSubscribed g = true := by
  obtain ⟨a, b, located, subscribers, rfl⟩ : ∃ a b, c.attribute? h = some a ∧
      b.subscribers = a.subscribers ∧ d = c.setAttribute b := by
    unfold publishStep at success
    cases found : c.getAttribute h with
    | error e =>
      rw [found] at success
      cases success
    | ok a =>
      rw [found] at success
      cases flag with
      | false =>
        cases success
        exact ⟨a, a.unpublish fed, getAttribute_ok found, rfl, rfl⟩
      | true =>
        cases published : a.publish server fed with
        | error e =>
          simp only [bind, Except.bind, if_true, published] at success
          cases success
        | ok b =>
          simp only [bind, Except.bind, if_true, published] at success
          cases success
          exact ⟨a, b, getAttribute_ok found,
            by rw [ObjectClassAttribute.publish_success published], rfl⟩
  refine ⟨rfl, fun g subscribed => ?_⟩
  rw [isSubscribed_iff] at subscribed ⊢
  obtain ⟨a', member, s, listed, handle⟩ := subscribed
  rcases mem_replace member with rfl | ⟨old, _⟩
  · rw [subscribers] at listed
    exact ⟨a, lookup_mem located, s, listed, handle⟩
  · exact ⟨a', old, s, listed, handle⟩

/-- Publishing adds no subscriber. -/
theorem publish_subscribers (c : ObjectClass) (server : SecurityServer) (fed : FederateHandle)
    (hs : List AttributeHandle) (flag : Bool) :
    (c.publish server fed hs flag).1.maxSubscriberHandle = c.maxSubscriberHandle ∧
      ∀ g, (c.publish server fed hs flag).1.isSubscribed g = true → c.isSubscribed g = true := by
  unfold publish
  split
  · exact ⟨rfl, fun _ => id⟩
  · split
    · refine sweep_invariant (p := fun d : ObjectClass =>
        d.maxSubscriberHandle = c.maxSubscriberHandle ∧ ∀ g, d.isSubscribed g = true → c.isSubscribed g = true) ?_ ⟨rfl, fun g subscribed => ?_⟩
      · intro d h next _ holds success
        obtain ⟨max, subscribed⟩ := publishStep_subscribers success
        exact ⟨max.trans holds.1, fun g hearing => holds.2 g (subscribed g hearing)⟩
      · rw [isSubscribed_iff] at subscribed ⊢
        obtain ⟨b, member, s, listed, handle⟩ := subscribed
        obtain ⟨a, belongs, rfl⟩ := List.mem_map.mp member
        exact ⟨a, belongs, s, listed, handle⟩
    · exact ⟨rfl, fun _ => id⟩

/-- The attribute exists and its level does not keep the federate out. -/
def Accessible (server : SecurityServer) (fed : FederateHandle) (c : ObjectClass)
    (h : AttributeHandle) : Prop :=
  ∀ a ∈ c.attribute? h, server.canFederateAccessData fed a.level = true

instance (server : SecurityServer) (fed : FederateHandle) (c : ObjectClass) (h : AttributeHandle) :
    Decidable (Accessible server fed c h) :=
  inferInstanceAs (Decidable (∀ a ∈ c.attribute? h, _))

theorem SameClass.hasAttribute (same : c.SameClass d) (h : AttributeHandle) :
    d.hasAttribute h = c.hasAttribute h := by
  have known := congrArg Option.isSome (same.levels h)
  rw [Option.isSome_map, Option.isSome_map] at known
  exact known

theorem SameClass.accessible_iff (same : c.SameClass d) {h : AttributeHandle} :
    Accessible server fed d h ↔ Accessible server fed c h := by
  have byLevel : ∀ c : ObjectClass, Accessible server fed c h ↔
      ∀ level ∈ (c.attribute? h).map ObjectClassAttribute.level,
        server.canFederateAccessData fed level = true := by
    intro c
    unfold Accessible
    cases c.attribute? h <;> simp
  rw [byLevel, byLevel, same.levels]

theorem subscribeStep_accessible (region : Option RegionHandle) {h : AttributeHandle}
    (defined : c.hasAttribute h = true)
    (accessible : Accessible server fed c h) :
    ∃ d, subscribeStep server fed region c h = .ok d := by
  obtain ⟨a, found⟩ := Option.isSome_iff_exists.mp defined
  have access := accessible a found
  have subscribed : ∃ b, a.subscribe server fed region = .ok b := by
    unfold ObjectClassAttribute.subscribe
    split <;> exact ⟨_, rfl⟩
  obtain ⟨b, success⟩ := subscribed
  refine ⟨c.setAttribute b, ?_⟩
  unfold subscribeStep getAttribute
  rw [found]
  simp [bind, Except.bind, success, pure, Except.pure]

/-- Subscribing to attributes one by one, all of them accessible. -/
theorem subscribeSweep_spec (hs : List AttributeHandle) :
    ∀ c : ObjectClass, (c.attributes.map ObjectClassAttribute.handle).Nodup →
      (∀ h ∈ hs, c.hasAttribute h = true ∧ Accessible server fed c h) →
      ∃ d, sweep (subscribeStep server fed region) c hs = (d, none) ∧ c.SameClass d ∧
        d.maxSubscriberHandle = c.maxSubscriberHandle ∧
        ∀ g, d.isSubscribed g = true ↔ c.isSubscribed g = true ∨ (g = fed ∧ hs ≠ []) := by
  induction hs with
  | nil =>
    intro c _ _
    exact ⟨c, rfl, .refl c, rfl, by simp⟩
  | cons h rest ih =>
    intro c distinct accessible
    obtain ⟨next, success⟩ := subscribeStep_accessible region
      (accessible h List.mem_cons_self).1 (accessible h List.mem_cons_self).2
    have first := fun g => subscribeStep_isSubscribed (g := g) distinct success
    obtain ⟨same, max, _⟩ := first fed
    have still : ∀ h' ∈ rest, next.hasAttribute h' = true ∧ Accessible server fed next h' := by
      intro h' member
      obtain ⟨defined, access⟩ := accessible h' (List.mem_cons_of_mem h member)
      exact ⟨by rw [same.hasAttribute]; exact defined, same.accessible_iff.mpr access⟩
    obtain ⟨d, swept, later, maxLater, subscribed⟩ :=
      ih next (by rw [same.handles]; exact distinct) still
    refine ⟨d, ?_, same.trans later, maxLater.trans max, fun g => ?_⟩
    · rw [sweep_cons_ok rest success]
      exact swept
    · rw [subscribed, (first g).2.2]
      tauto

/-- A subscription passes the checks of the class. -/
def Admits (server : SecurityServer) (fed : FederateHandle) (c : ObjectClass)
    (hs : List AttributeHandle) : Prop :=
  server.canFederateAccessData fed c.securityLevelId = true ∧ ∀ h ∈ hs, c.hasAttribute h = true

instance (server : SecurityServer) (fed : FederateHandle) (c : ObjectClass)
    (hs : List AttributeHandle) : Decidable (Admits server fed c hs) :=
  inferInstanceAs (Decidable (_ ∧ ∀ h ∈ hs, _))

theorem subscribe_denied (region : Option RegionHandle) {hs : List AttributeHandle}
    (denied : ¬Admits server fed c hs) :
    ∃ e, c.subscribe server fed hs region = (c, .error e) := by
  unfold subscribe
  split
  · rename_i access
    unfold checkAttributes
    rw [if_neg fun defined => denied ⟨access, List.all_eq_true.mp defined⟩]
    exact ⟨_, rfl⟩
  · exact ⟨_, rfl⟩

/-- An empty list withdraws the subscription. -/
theorem subscribe_empty (admits : Admits server fed c []) :
    c.subscribe server fed [] region = (c.unsubscribeWith fed region, .ok false) := by
  unfold subscribe
  rw [if_pos admits.1]
  rfl

/-- A subscription that may be refused only at its first attribute, if at all. -/
def RefusedAtOnce (server : SecurityServer) (fed : FederateHandle) (c : ObjectClass)
    (hs : List AttributeHandle) : Prop := ∃ h ∈ hs.head?, ¬Accessible server fed c h

instance (server : SecurityServer) (fed : FederateHandle) (c : ObjectClass)
    (hs : List AttributeHandle) : Decidable (RefusedAtOnce server fed c hs) :=
  inferInstanceAs (Decidable (∃ h ∈ hs.head?, _))

/-- The class as a subscription to some attributes finds it. -/
def raised (c : ObjectClass) (fed : FederateHandle) (region : Option RegionHandle) : ObjectClass :=
  { c with maxSubscriberHandle := max fed c.maxSubscriberHandle }.unsubscribeWith fed region

theorem raised_sameClass (c : ObjectClass) (fed : FederateHandle) (region : Option RegionHandle) :
    c.SameClass (c.raised fed region) := by
  have lifted : c.SameClass { c with maxSubscriberHandle := max fed c.maxSubscriberHandle } :=
    ⟨rfl, rfl, rfl, rfl, fun _ => rfl, fun _ => rfl⟩
  exact lifted.trans (unsubscribeWith_redeclared (p := fun _ => True) fed region).same

theorem raised_isSubscribed : (c.raised fed region).isSubscribed g =
    (c.unsubscribeWith fed region).isSubscribed g := rfl

section Sweeping

variable {region : Option RegionHandle} {hs : List AttributeHandle} {d : ObjectClass}

/-- With attributes a subscription is the sweep over them, as far as it gets. -/
theorem subscribe_stopped (admits : Admits server fed c hs) (some' : hs ≠ []) {e : RTIException}
    (swept : sweep (subscribeStep server fed region) (c.raised fed region) hs = (d, some e)) :
    c.subscribe server fed hs region = (d, .error e) := by
  have raised : sweep (subscribeStep server fed region)
      ({ c with maxSubscriberHandle := max fed c.maxSubscriberHandle }.unsubscribeWith fed region)
      hs = (d, some e) := swept
  have filled : hs.isEmpty = false := by simpa using some'
  unfold subscribe checkAttributes
  rw [if_pos admits.1, if_pos (List.all_eq_true.mpr admits.2), filled]
  dsimp only
  rw [if_neg Bool.false_ne_true, raised]

theorem subscribe_swept (admits : Admits server fed c hs) (some' : hs ≠ [])
    (swept : sweep (subscribeStep server fed region) (c.raised fed region) hs = (d, none)) :
    c.subscribe server fed hs region = (d, .ok (!hs.isEmpty && !c.isSubscribed fed)) := by
  have raised : sweep (subscribeStep server fed region)
      ({ c with maxSubscriberHandle := max fed c.maxSubscriberHandle }.unsubscribeWith fed region)
      hs = (d, none) := swept
  have filled : hs.isEmpty = false := by simpa using some'
  unfold subscribe checkAttributes
  rw [if_pos admits.1, if_pos (List.all_eq_true.mpr admits.2), filled]
  dsimp only
  rw [if_neg Bool.false_ne_true, raised]

end Sweeping

theorem subscribe_refused (region : Option RegionHandle) {hs : List AttributeHandle}
    (admits : Admits server fed c hs)
    (refused : RefusedAtOnce server fed c hs) :
    ∃ e, c.subscribe server fed hs region = (c.raised fed region, .error e) := by
  obtain ⟨h, first, denied⟩ := refused
  cases hs with
  | nil => cases first
  | cons h' rest =>
    cases first
    have access : ∃ a, c.attribute? h = some a ∧ ¬server.canFederateAccessData fed a.level = true := by
      by_contra all
      refine denied fun a found => ?_
      by_contra closed
      exact all ⟨a, found, closed⟩
    obtain ⟨a, found, closed⟩ := access
    have there : (c.raised fed region).attribute? h = some (a.unsubscribeWith fed region) := by
      have read : (c.raised fed region).attribute? h =
          (c.attribute? h).map (·.unsubscribeWith fed region) :=
        lookup_map (f := fun a : ObjectClassAttribute => a.unsubscribeWith fed region)
          (fun _ _ => rfl) h
      rw [read, found]
      rfl
    have step : subscribeStep server fed region (c.raised fed region) h =
        .error .securityError := by
      unfold subscribeStep getAttribute
      rw [there]
      have absent : Subscribable.isSubscribedWith (a.unsubscribeWith fed region).subscribers fed
          region = false := by
        simp [Subscribable.isSubscribedWith, ObjectClassAttribute.unsubscribeWith,
          Subscribable.unsubscribeWith]
      simp [bind, Except.bind, ObjectClassAttribute.subscribe, absent,
        show (a.unsubscribeWith fed region).level = a.level from rfl, closed]
    exact ⟨.securityError, subscribe_stopped admits (List.cons_ne_nil h rest)
      (sweep_cons_error rest step)⟩

/-- Every subscription of the federate with the region is to an attribute open to it. -/
def Granted (server : SecurityServer) (fed : FederateHandle) (region : Option RegionHandle)
    (c : ObjectClass) : Prop :=
  ∀ a ∈ c.attributes, ⟨fed, region⟩ ∈ a.subscribers →
    server.canFederateAccessData fed a.level = true

theorem raised_granted (server : SecurityServer) (c : ObjectClass) (fed : FederateHandle)
    (region : Option RegionHandle) : Granted server fed region (c.raised fed region) := by
  intro a member listed
  obtain ⟨old, _, rfl⟩ := List.mem_map.mp member
  exact absurd rfl (Subscribable.mem_unsubscribeWith.mp listed).2

theorem subscribeStep_granted {h : AttributeHandle} (granted : Granted server fed region c)
    (success : subscribeStep server fed region c h = .ok d) :
    Granted server fed region d ∧ Accessible server fed c h := by
  obtain ⟨a, b, located, subscribed, rfl⟩ := subscribeStep_success success
  have access : server.canFederateAccessData fed a.level = true := by
    unfold ObjectClassAttribute.subscribe at subscribed
    split at subscribed
    · rename_i already
      exact granted a (lookup_mem located) (by simpa [Subscribable.isSubscribedWith] using already)
    · split at subscribed
      · assumption
      · cases subscribed
  obtain ⟨rest, _⟩ := ObjectClassAttribute.subscribe_success subscribed
  constructor
  · intro a' member listed
    rcases mem_replace member with rfl | ⟨old, _⟩
    · rw [rest]
      exact access
    · exact granted a' old listed
  · intro a' found
    rw [Option.mem_def.mp found] at located
    cases located
    exact access

/-- A subscription to attributes of which one is closed to the federate is interrupted there. -/
theorem subscribeSweep_interrupted (region : Option RegionHandle) (hs : List AttributeHandle) :
    ∀ d : ObjectClass, c.SameClass d → Granted server fed region d →
      (∃ h ∈ hs, ¬Accessible server fed c h) →
        ∃ e, (sweep (subscribeStep server fed region) d hs).2 = some e := by
  induction hs with
  | nil => simp
  | cons h rest ih =>
    intro d same granted closed
    cases taken : subscribeStep server fed region d h with
    | error e =>
      rw [sweep_cons_error rest taken]
      exact ⟨e, rfl⟩
    | ok next =>
      rw [sweep_cons_ok rest taken]
      obtain ⟨still, access⟩ := subscribeStep_granted granted taken
      have later := same.trans (subscribeStep_redeclared (p := fun _ => True) trivial taken).same
      refine ih next later still ?_
      obtain ⟨h', member, denied⟩ := closed
      rcases List.mem_cons.mp member with rfl | further
      · exact absurd (same.accessible_iff.mp access) denied
      · exact ⟨h', further, denied⟩

theorem subscribe_interrupted (region : Option RegionHandle) {hs : List AttributeHandle}
    (admits : Admits server fed c hs)
    (distinct : (c.attributes.map ObjectClassAttribute.handle).Nodup)
    (closed : ¬∀ h ∈ hs, Accessible server fed c h) :
    ∃ d e, c.subscribe server fed hs region = (d, .error e) ∧ c.SameClass d ∧
      d.maxSubscriberHandle = max fed c.maxSubscriberHandle ∧
      ∀ g, d.isSubscribed g = true → c.isSubscribed g = true ∨ g = fed := by
  have some' : hs ≠ [] := by
    rintro rfl
    exact closed (by simp)
  have denied : ∃ h ∈ hs, ¬Accessible server fed c h := by
    simpa only [not_forall, exists_prop] using closed
  have same : c.SameClass (c.raised fed region) := raised_sameClass c fed region
  obtain ⟨e, stopped⟩ := subscribeSweep_interrupted region hs (c.raised fed region)
    same (raised_granted server c fed region) denied
  have reached : c.SameClass (sweep (subscribeStep server fed region) (c.raised fed region) hs).1 ∧
      (sweep (subscribeStep server fed region) (c.raised fed region) hs).1.maxSubscriberHandle =
        max fed c.maxSubscriberHandle ∧
      ∀ g, (sweep (subscribeStep server fed region) (c.raised fed region) hs).1.isSubscribed g =
        true → c.isSubscribed g = true ∨ g = fed := by
    refine sweep_invariant (p := fun d : ObjectClass => c.SameClass d ∧
      d.maxSubscriberHandle = max fed c.maxSubscriberHandle ∧
        ∀ g, d.isSubscribed g = true → c.isSubscribed g = true ∨ g = fed) ?_
      ⟨same, rfl, fun g hearing => .inl (unsubscribeWith_isSubscribed hearing)⟩
    intro d h next _ holds taken
    obtain ⟨before, max, subscribed⟩ := holds
    have step := fun g => subscribeStep_isSubscribed (g := g)
      (by rw [before.handles]; exact distinct) taken
    refine ⟨before.trans (step fed).1, (step fed).2.1.trans max, fun g hearing => ?_⟩
    rcases (step g).2.2.mp hearing with old | new
    · exact subscribed g old
    · exact .inr new
  refine ⟨(sweep (subscribeStep server fed region) (c.raised fed region) hs).1, e, ?_, reached⟩
  exact subscribe_stopped admits some' (Prod.ext rfl stopped)

theorem subscribe_accepted (region : Option RegionHandle) {hs : List AttributeHandle}
    (admits : Admits server fed c hs)
    (distinct : (c.attributes.map ObjectClassAttribute.handle).Nodup) (some' : hs ≠ [])
    (accessible : ∀ h ∈ hs, Accessible server fed c h) :
    ∃ d, c.subscribe server fed hs region = (d, .ok (!c.isSubscribed fed)) ∧ c.SameClass d ∧
      d.maxSubscriberHandle = max fed c.maxSubscriberHandle ∧
      ∀ g, d.isSubscribed g = true ↔
        (c.unsubscribeWith fed region).isSubscribed g = true ∨ g = fed := by
  have same : c.SameClass (c.raised fed region) := raised_sameClass c fed region
  have still : ∀ h ∈ hs, (c.raised fed region).hasAttribute h = true ∧
      Accessible server fed (c.raised fed region) h := fun h member =>
    ⟨by rw [same.hasAttribute]; exact admits.2 h member, same.accessible_iff.mpr (accessible h member)⟩
  obtain ⟨d, swept, later, kept, subscribed⟩ :=
    subscribeSweep_spec hs (c.raised fed region) (by rw [same.handles]; exact distinct) still
  refine ⟨d, ?_, same.trans later, kept, fun g => ?_⟩
  · rw [subscribe_swept admits some' swept]
    have filled : hs.isEmpty = false := by simpa using some'
    rw [filled]
    rfl
  · rw [subscribed, raised_isSubscribed]
    simp [some']

end ObjectClass

/-! ## Who hears of a class after a declaration -/

namespace RootObject

variable {root : RootObject} {fed g : FederateHandle} {c c' : ObjectClass} {h : ObjectClassHandle}

theorem setClass_lineage (forest : root.ClassForest) (member : c ∈ root.classes)
    (same : c.SameClass c') (h : ObjectClassHandle) :
    (root.setClass c').lineage h =
      (root.lineage h).map fun d => if d.handle = c'.handle then c' else d := by
  refine Forest.ancestors_map (fun d belongs => ?_) (fun d belongs => ?_) h
  · split
    · rename_i equal
      exact equal.symm
    · rfl
  · split
    · rename_i equal
      obtain rfl : d = c :=
        List.inj_on_of_nodup_map forest.distinct belongs member (equal.trans same.handle)
      exact same.superClass
    · rfl

theorem setClass_forest (forest : root.ClassForest) (member : c ∈ root.classes)
    (same : c.SameClass c') : (root.setClass c').ClassForest := by
  refine Forest.Ordered.map forest (fun d belongs => ?_) (fun d belongs => ?_)
  · split
    · rename_i equal
      exact equal.symm
    · rfl
  · split
    · rename_i equal
      obtain rfl : d = c :=
        List.inj_on_of_nodup_map forest.distinct belongs member (equal.trans same.handle)
      exact same.superClass
    · rfl

/-- A federate hears of a class through the class stored, or through another above. -/
theorem setClass_hears (forest : root.ClassForest) (member : c ∈ root.classes)
    (same : c.SameClass c') : (root.setClass c').Hears g h ↔
      (c ∈ root.lineage h ∧ c'.isSubscribed g = true) ∨
        ∃ d ∈ root.lineage h, d.handle ≠ c.handle ∧ d.isSubscribed g = true := by
  have stored : ∀ d ∈ root.lineage h, d.handle = c'.handle → d = c := fun d above equal =>
    List.inj_on_of_nodup_map forest.distinct (Forest.ancestors_mem forest above) member
      (equal.trans same.handle)
  unfold Hears
  rw [setClass_lineage forest member same]
  constructor
  · rintro ⟨d', above, subscribed⟩
    obtain ⟨d, onClimb, rfl⟩ := List.mem_map.mp above
    split at subscribed
    · rename_i equal
      obtain rfl := stored d onClimb equal
      exact .inl ⟨onClimb, subscribed⟩
    · rename_i different
      rw [same.handle] at different
      exact .inr ⟨d, onClimb, different, subscribed⟩
  · rintro (⟨onClimb, subscribed⟩ | ⟨d, onClimb, different, subscribed⟩)
    · exact ⟨_, List.mem_map.mpr ⟨c, onClimb, rfl⟩, by rw [if_pos same.handle.symm]; exact subscribed⟩
    · refine ⟨_, List.mem_map.mpr ⟨d, onClimb, rfl⟩, ?_⟩
      rw [if_neg (by rw [same.handle]; exact different)]
      exact subscribed

theorem hears_iff (forest : root.ClassForest) (member : c ∈ root.classes) : root.Hears g h ↔
    (c ∈ root.lineage h ∧ c.isSubscribed g = true) ∨
      ∃ d ∈ root.lineage h, d.handle ≠ c.handle ∧ d.isSubscribed g = true := by
  constructor
  · rintro ⟨d, above, subscribed⟩
    by_cases equal : d.handle = c.handle
    · obtain rfl : d = c := List.inj_on_of_nodup_map forest.distinct
        (Forest.ancestors_mem forest above) member equal
      exact .inl ⟨above, subscribed⟩
    · exact .inr ⟨d, above, equal, subscribed⟩
  · rintro (⟨above, subscribed⟩ | ⟨d, above, _, subscribed⟩)
    · exact ⟨c, above, subscribed⟩
    · exact ⟨d, above, subscribed⟩

/-- Who is subscribed to the stored class as before hears as before. -/
theorem setClass_hears_of_same (forest : root.ClassForest) (member : c ∈ root.classes)
    (same : c.SameClass c') (subscribed : c'.isSubscribed g = c.isSubscribed g) :
    (root.setClass c').Hears g h ↔ root.Hears g h := by
  rw [setClass_hears forest member same, hears_iff forest member, subscribed]

end RootObject

end Certi
