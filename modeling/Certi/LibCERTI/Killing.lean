import Certi.Lib.Collect
import Certi.Lib.Course
import Certi.LibCERTI.Departure
import Certi.LibCERTI.Discovery
import Certi.LibCERTI.ObjectNames

/-!
# The loops of a departure

`ObjectClassSet::killFederate`, `ObjectClass::killFederate` and
`ObjectSet::killFederate` with their loops as the source has them: the class is
asked again until it deletes no instance, the climb to the superclasses only
advances when a class is found, and the object set is searched from its
beginning after every deletion. `RootObject.killFederate` is what comes out
where the superclasses lead to the root. Instances of a class that is no longer
found under its handle are hidden from the search.
-/
namespace Certi

open Keyed Course

namespace RootObject

/-- `broadcastClassMessage` for the removal of an instance, on one class. -/
def broadcastRemoval (root : RootObject) (fed : FederateHandle) (object : ObjectHandle)
    (c : ObjectClass) (lines : BroadcastLines) :
    Except RTIException (BroadcastLines × Responses) := do
  let listed ← addAudience lines (audience c fed)
  return preparePendingDO root.server (.removeObject fed c.handle object) listed

/-- The inner `while`: where no class is found, the exception is caught and nothing has
advanced. -/
def passRemoval (root : RootObject) (fed : FederateHandle) (object : ObjectHandle) :
    Nat → ObjectClassHandle → BroadcastLines → ExceptT RTIException Option Responses
  | 0, _, _ => unfinished
  | fuel + 1, current, lines =>
    if current = 0 then return []
    else match root.class? current with
      | none => passRemoval root fed object fuel current lines
      | some c => do
        let (told, sent) ← atOnce (root.broadcastRemoval fed object c lines)
        return sent ++ (← passRemoval root fed object fuel c.superClass told)

/-- The instance leaves the list of its class. -/
def eraseInstance (root : RootObject) (object : ObjectHandle) : RootObject :=
  { root with objects := drop Object.handle object root.objects }

/-- `ObjectClass::killFederate` deletes at most one instance. `canFederateAccessData` throws for a
federate without references, and only a SecurityError is caught. -/
def killFederateOf (root : RootObject) (hidden : List ObjectHandle) (fed : FederateHandle)
    (c : ObjectClass) :
    Except RTIException (RootObject × Option (ObjectHandle × BroadcastLines × Responses)) :=
  if c.isFederatePublisher fed && !root.server.hasReferences fed then
    .error .federateNotExecutionMember
  else
    let unpublished := killDeclarationsOf root fed c.handle
    match unpublished.objects.find? fun o =>
      o.classHandle = c.handle && o.owner = fed && o.handle ∉ hidden with
    | none => return (unpublished, none)
    | some o => do
      let (lines, sent) ← unpublished.broadcastRemoval fed o.handle
        (killDeclarations root.server fed c) (BroadcastLines.start fed)
      return (unpublished.eraseInstance o.handle, some (o.handle, lines, sent))

/-- The `do … while` on the class of a handle. -/
def killRounds (hidden : List ObjectHandle) (fed : FederateHandle) (h : ObjectClassHandle) :
    Nat → RootObject → ExceptT RTIException Option (RootObject × Responses)
  | 0, _ => unfinished
  | fuel + 1, root =>
    match root.class? h with
    | none => return (root, [])
    | some c => do
      let (next, list) ← atOnce (root.killFederateOf hidden fed c)
      match list with
      | none => return (next, [])
      | some (object, lines, sent) => do
        let above ← passRemoval next fed object fuel c.superClass lines
        let (final, later) ← killRounds hidden fed h fuel next
        return (final, sent ++ above ++ later)

/-- `ObjectClassSet::killFederate`, over the handles of the map. -/
def killClassSet (hidden : List ObjectHandle) (fed : FederateHandle) (fuel : Nat) :
    RootObject → List ObjectClassHandle → ExceptT RTIException Option (RootObject × Responses)
  | root, [] => return (root, [])
  | root, h :: rest => do
    let (after, sent) ← killRounds hidden fed h fuel root
    let (final, later) ← killClassSet hidden fed fuel after rest
    return (final, sent ++ later)

/-- `ObjectSet::killFederate`: the search begins again after a deletion. -/
def killObjects (fed : FederateHandle) :
    Nat → List Object → List Object → ExceptT RTIException Option (List Object)
  | 0, _, _ => unfinished
  | fuel + 1, before, o :: rest =>
    if o.owner = fed then killObjects fed fuel [] (before ++ rest)
    else killObjects fed fuel (before ++ [o.killFederate fed]) rest
  | _ + 1, before, [] => return before

/-- What is left of the root object, and what its classes contain. -/
structure Killed where
  root : RootObject
  contents : List Object
  sent : Responses

/-- `RootObject::killFederate`. The object set still has the instances that the classes have
deleted. -/
def killFederateRounds (root : RootObject) (hidden : List ObjectHandle) (fed : FederateHandle)
    (fuel : Nat) : ExceptT RTIException Option Killed := do
  let (after, sent) ← killClassSet hidden fed fuel root (root.classes.map ObjectClass.handle)
  let objects ← killObjects fed fuel [] root.objects
  return ⟨{ after with
    interactions := after.interactions.map (·.killFederate fed)
    objects := objects }, after.objects, sent⟩

/-! ## Where the loops end -/

/-- Every superclass is a class of the table, with a smaller handle. -/
structure Rooted (root : RootObject) : Prop where
  forest : root.ClassForest
  known : ∀ c ∈ root.classes, c.superClass = 0 ∨ (root.class? c.superClass).isSome = true

variable {root root' : RootObject} {fed : FederateHandle}

theorem Rooted.keep (rooted : root.Rooted) (same : root.SameClasses root')
    (distinct : (root'.classes.map ObjectClass.handle).Nodup) : root'.Rooted := by
  have older : ∀ c' ∈ root'.classes, ∃ c ∈ root.classes, c.SameClass c' := by
    intro c' member
    obtain ⟨c, found, both⟩ := same.class?' (lookup_of_nodup distinct member)
    exact ⟨c, lookup_mem found, both⟩
  refine ⟨⟨distinct, fun c' member => ?_⟩, fun c' member => ?_⟩
  · obtain ⟨c, before, both⟩ := older c' member
    rw [both.handle, both.superClass]
    exact rooted.forest.below c before
  · obtain ⟨c, before, both⟩ := older c' member
    rw [both.superClass]
    refine (rooted.known c before).imp id fun found => ?_
    obtain ⟨p, located⟩ := Option.isSome_iff_exists.mp found
    obtain ⟨p', located', _⟩ := same.class? located
    rw [located']
    rfl

/-- The climb returns what the broadcast to all classes above gives. The induction is on the
handle, which decreases. -/
theorem passRemoval_returns (rooted : root.Rooted) (object : ObjectHandle)
    (h : ObjectClassHandle) : h = 0 ∨ (root.class? h).isSome = true →
      ∀ {lines : BroadcastLines} {sent : Responses},
        broadcastUp root.server fed (fun h => .removeObject fed h object) lines (root.lineage h) =
          .ok sent → Returns (fun fuel => root.passRemoval fed object fuel h lines) sent := by
  induction h using Nat.strongRecOn with
  | ind h ih =>
    intro reached lines sent broadcast
    rcases reached with rfl | found
    · have empty : root.lineage 0 = [] := Forest.ancestors_of_none rooted.forest.zero
      rw [empty] at broadcast
      cases broadcast
      exact Returns.round (fun fuel => rfl) (Returns.pure [])
    · obtain ⟨c, found⟩ := Option.isSome_iff_exists.mp found
      have climbs : root.lineage h = c :: root.lineage c.superClass :=
        Forest.ancestors_of_lookup rooted.forest found
      have lower := rooted.forest.below c (lookup_mem found)
      rw [lookup_key found] at lower
      rw [climbs] at broadcast
      obtain ⟨listed, added, told⟩ := Collect.bind_success broadcast
      obtain ⟨above, later, all⟩ := Collect.bind_success told
      cases all
      have here : root.broadcastRemoval fed object c lines =
          .ok (preparePendingDO root.server (.removeObject fed c.handle object) listed) := by
        rw [broadcastRemoval, added]
        rfl
      have nonzero : h ≠ 0 := by omega
      have climbed := ih c.superClass lower (rooted.known c (lookup_mem found)) later
      refine Returns.round (fun fuel => ?_) (Returns.bind
        (f := fun above _ => pure ((preparePendingDO root.server
          (.removeObject fed c.handle object) listed).2 ++ above)) climbed (Returns.pure _))
      rw [passRemoval, if_neg nonzero, found]
      simp only [here, atOnce_ok, pure_bind]
      rfl

/-- What the search of a class finds, and what it then has deleted. -/
theorem find_owned {objects : List Object} {p : Object → Bool} {o : Object} {rest : List Object}
    (distinct : (objects.map Object.handle).Nodup) (owned : objects.filter p = o :: rest) :
    objects.find? p = some o ∧ (drop Object.handle o.handle objects).filter p = rest := by
  constructor
  · rw [← List.head?_filter, owned]
    rfl
  · have kept : (drop Object.handle o.handle objects).filter p =
        drop Object.handle o.handle (o :: rest) := by
      unfold drop
      rw [List.filter_comm, owned]
    have others : ∀ other ∈ rest, other.handle ≠ o.handle := by
      have handles := (List.filter_sublist (p := p) (l := objects)).map Object.handle
      rw [owned] at handles
      have apart := (List.nodup_cons.mp (distinct.sublist handles)).1
      intro other member same
      exact apart (same ▸ List.mem_map_of_mem member)
    rw [kept, drop, List.filter_cons_of_neg (by simp)]
    exact List.filter_eq_self.mpr fun other member => by simpa using others other member

theorem killDeclarationsOf_sameClasses (root : RootObject) (fed : FederateHandle)
    (h : ObjectClassHandle) : root.SameClasses (killDeclarationsOf root fed h) := by
  refine adjust_sameClasses (fun c _ => ?_) (fun c same => ?_) rfl
  · exact (ObjectClass.killDeclarations_redeclared (p := fun _ => True)).same
  · rw [killDeclarations_handle, same]

theorem Rooted.withdraw (rooted : root.Rooted) (fed : FederateHandle) (h : ObjectClassHandle) :
    (killDeclarationsOf root fed h).Rooted := by
  refine rooted.keep (killDeclarationsOf_sameClasses root fed h) ?_
  have handles : (killDeclarationsOf root fed h).classes.map ObjectClass.handle =
      root.classes.map ObjectClass.handle :=
    map_adjust (fun c => killDeclarations_handle root.server fed c) root.classes
  rw [handles]
  exact rooted.forest.distinct

/-- The `do … while` returns what the instances deleted one after the other give. The induction
is on the instances of the class that the federate owns. -/
theorem killRounds_returns {h : ObjectClassHandle} (owned : List Object) :
    ∀ {root : RootObject}, root.Rooted → (root.objects.map Object.handle).Nodup →
      root.server.hasReferences fed = true → (root.class? h).isSome = true →
      root.objects.filter (fun o => o.classHandle = h && o.owner = fed) = owned →
        Returns (fun fuel => killRounds [] fed h fuel root) (killInClass fed h root owned) := by
  induction owned with
  | nil =>
    intro root rooted distinct referenced found none
    obtain ⟨c, found⟩ := Option.isSome_iff_exists.mp found
    have handle : c.handle = h := lookup_key found
    have absent : root.objects.find? (fun o => o.classHandle = h && o.owner = fed &&
        o.handle ∉ ([] : List ObjectHandle)) = .none := by
      rw [← List.head?_filter]
      simp [none]
    have asked : root.killFederateOf [] fed c = .ok (killDeclarationsOf root fed h, .none) := by
      unfold killFederateOf
      simp only [referenced, handle, Bool.not_true, Bool.and_false, Bool.false_eq_true, if_false]
      rw [show (killDeclarationsOf root fed h).objects = root.objects from rfl, absent]
      rfl
    refine Returns.round (fun fuel => ?_) (Returns.pure _)
    rw [killRounds, found]
    simp only [asked, atOnce_ok, pure_bind]
    rfl
  | cons o rest ih =>
    intro root rooted distinct referenced found owned
    obtain ⟨c, found⟩ := Option.isSome_iff_exists.mp found
    have handle : c.handle = h := lookup_key found
    obtain ⟨located, others⟩ := find_owned distinct owned
    have withdrawn := rooted.withdraw fed h
    -- the class itself, then the climb
    have declared : (killDeclarationsOf root fed h).class? h =
        some (killDeclarations root.server fed c) := by
      change lookup ObjectClass.handle h (adjust ObjectClass.handle h _ root.classes) = _
      rw [lookup_adjust fun c same => (killDeclarations_handle root.server fed c).trans same,
        show lookup ObjectClass.handle h root.classes = some c from found]
      simp [handle]
    have above : (killDeclarations root.server fed c).superClass = c.superClass :=
      (ObjectClass.killDeclarations_redeclared (p := fun _ => True)).same.superClass
    have climbs : (killDeclarationsOf root fed h).lineage h = killDeclarations root.server fed c ::
        (killDeclarationsOf root fed h).lineage c.superClass := by
      rw [← above]
      exact Forest.ancestors_of_lookup withdrawn.forest declared
    obtain ⟨all, broadcast⟩ := broadcastUp_total root.server fed
      (fun h => .removeObject fed h o.handle) ((killDeclarationsOf root fed h).lineage h)
      (BroadcastLines.start fed)
    have split := broadcast
    rw [climbs] at split
    obtain ⟨listed, added, told⟩ := Collect.bind_success split
    obtain ⟨sent, later, both⟩ := Collect.bind_success told
    cases both
    have asked : root.killFederateOf [] fed c =
        .ok ((killDeclarationsOf root fed h).eraseInstance o.handle,
          some (o.handle, preparePendingDO root.server
            (.removeObject fed (killDeclarations root.server fed c).handle o.handle) listed)) := by
      have first : (killDeclarationsOf root fed h).objects.find? (fun o => o.classHandle = h &&
          o.owner = fed && o.handle ∉ ([] : List ObjectHandle)) = some o := by
        change root.objects.find? _ = some o
        simpa using located
      have told : (killDeclarationsOf root fed h).broadcastRemoval fed o.handle
          (killDeclarations root.server fed c) (BroadcastLines.start fed) =
            .ok (preparePendingDO root.server
              (.removeObject fed (killDeclarations root.server fed c).handle o.handle) listed) := by
        rw [broadcastRemoval, added]
        rfl
      unfold killFederateOf
      simp only [referenced, handle, Bool.not_true, Bool.and_false, Bool.false_eq_true, if_false,
        first, told]
      rfl
    -- the superclasses of what is left, and the rest of the instances
    have next : ((killDeclarationsOf root fed h).eraseInstance o.handle).Rooted :=
      ⟨withdrawn.forest, withdrawn.known⟩
    have climbed := passRemoval_returns next o.handle c.superClass
      (above ▸ next.known _ (lookup_mem declared)) later
    have repeated := ih next (distinct.sublist (List.filter_sublist.map _)) referenced
      (Option.isSome_iff_exists.mpr ⟨_, declared⟩) others
    generalize reaches : (preparePendingDO root.server (.removeObject fed
      (killDeclarations root.server fed c).handle o.handle) listed).2 = here at *
    have closed : killInClass fed h root (o :: rest) =
        ((killInClass fed h ((killDeclarationsOf root fed h).eraseInstance o.handle) rest).1,
          here ++ sent ++
          (killInClass fed h ((killDeclarationsOf root fed h).eraseInstance o.handle) rest).2) := by
      rw [killInClass]
      simp only [broadcast, ← reaches]
      rfl
    rw [closed]
    refine Returns.round (fun fuel => ?_) (Returns.bind
      (f := fun above fuel => do
        let (final, later) ← killRounds [] fed h fuel
          ((killDeclarationsOf root fed h).eraseInstance o.handle)
        return (final, here ++ above ++ later)) climbed
      (Returns.bind (f := fun after _ => pure (after.1, here ++ sent ++ after.2)) repeated
        (Returns.pure _)))
    rw [killRounds, found]
    simp only [asked, atOnce_ok, pure_bind, ← reaches]
    rfl

theorem killClassSet_returns (hs : List ObjectClassHandle) :
    ∀ {root : RootObject}, root.Rooted → (root.objects.map Object.handle).Nodup →
      root.server.hasReferences fed = true → (∀ h ∈ hs, (root.class? h).isSome = true) →
        Returns (fun fuel => killClassSet [] fed fuel root hs) (killClasses fed root hs) := by
  induction hs with
  | nil => exact fun {_} _ _ _ _ => Returns.pure _
  | cons h rest ih =>
    intro root rooted distinct referenced known
    have first := killRounds_returns _ rooted distinct referenced (known h List.mem_cons_self) rfl
    obtain ⟨same, _, _, _, server⟩ := killInClass_frame (p := fun _ => True) fed h
      (root.objects.filter fun o => o.classHandle = h && o.owner = fed) root
    have classes := killInClass_classes fed h
      (root.objects.filter fun o => o.classHandle = h && o.owner = fed) root
    have objects := killInClass_objects fed h
      (root.objects.filter fun o => o.classHandle = h && o.owner = fed) root
    rw [killClasses]
    dsimp only
    generalize killInClass fed h root
      (root.objects.filter fun o => o.classHandle = h && o.owner = fed) = after at *
    have handles : after.1.classes.map ObjectClass.handle = root.classes.map ObjectClass.handle := by
      rw [classes]
      exact map_adjust (killDeclarations_rounds_handle root.server fed _) root.classes
    have next : after.1.Rooted := rooted.keep same (handles ▸ rooted.forest.distinct)
    have known' : ∀ h' ∈ rest, (after.1.class? h').isSome = true := by
      intro h' member
      obtain ⟨c, found⟩ := Option.isSome_iff_exists.mp (known h' (List.mem_cons_of_mem h member))
      obtain ⟨c', found', _⟩ := same.class? found
      rw [found']
      rfl
    have later := ih next (objects ▸ distinct.sublist (List.filter_sublist.map _))
      (server ▸ referenced) known'
    exact Returns.bind (f := fun after fuel => do
      let (final, later) ← killClassSet [] fed fuel after.1 rest
      return (final, after.2 ++ later)) first
      (Returns.bind (f := fun final _ => pure (final.1, after.2 ++ final.2)) later
        (Returns.pure _))

theorem killFederate_idem (o : Object) (fed : FederateHandle) :
    (o.killFederate fed).killFederate fed = o.killFederate fed := by
  unfold Object.killFederate
  simp only [List.map_map]
  congr 1
  refine List.map_congr_left fun oa _ => ?_
  by_cases owned : oa.owner = fed
  · simp [owned, ObjectAttribute.setOwner]
  · simp [owned]

/-- The object set loses what the federate owns. The inductions are on the number of such objects,
and between two deletions on the objects not yet visited. -/
theorem killObjects_returns (fed : FederateHandle) (owned : Nat) :
    ∀ rest before : List Object, rest.countP (fun o => o.owner = fed) = owned →
      (∀ o ∈ before, o.owner ≠ fed ∧ o.killFederate fed = o) →
        Returns (ε := RTIException) (fun fuel => killObjects fed fuel before rest)
          (before ++ (rest.filter fun o => o.owner ≠ fed).map (·.killFederate fed)) := by
  induction owned using Nat.strongRecOn with
  | ind owned fewer =>
    intro rest
    induction rest with
    | nil =>
      intro before _ _
      rw [List.filter_nil, List.map_nil, List.append_nil]
      exact Returns.round (fun fuel => rfl) (Returns.pure before)
    | cons o rest visited =>
      intro before count kept
      by_cases owner : o.owner = fed
      · have alone : before.countP (fun o => o.owner = fed) = 0 := by
          rw [List.countP_eq_zero]
          intro other member
          simpa using (kept other member).1
        have searched : before.filter (fun o => o.owner ≠ fed) = before :=
          List.filter_eq_self.mpr fun other member => by simpa using (kept other member).1
        have unchanged : before.map (·.killFederate fed) = before := by
          rw [List.map_congr_left fun other member => (kept other member).2, List.map_id']
        have again := fewer (rest.countP fun o => o.owner = fed)
          (by rw [← count, List.countP_cons_of_pos (by simpa using owner)]; omega)
          (before ++ rest) [] (by rw [List.countP_append, alone, Nat.zero_add])
          (by simp)
        rw [List.filter_append, List.map_append, searched, unchanged, List.nil_append] at again
        rw [List.filter_cons_of_neg (by simpa using owner)]
        exact Returns.round (fun fuel => by rw [killObjects, if_pos owner]) again
      · have passed := visited (before ++ [o.killFederate fed])
          (by rw [← count, List.countP_cons_of_neg (by simpa using owner)]) (by
            intro other member
            rcases List.mem_append.mp member with old | new
            · exact kept other old
            · cases List.mem_singleton.mp new
              exact ⟨owner, killFederate_idem o fed⟩)
        rw [List.filter_cons_of_pos (by simpa using owner), List.map_cons]
        rw [List.append_assoc] at passed
        exact Returns.round (fun fuel => by rw [killObjects, if_neg owner]) passed

/-- The class set is left without an instance of the federate. -/
theorem killClasses_owners (rooted : root.Rooted)
    (distinct : (root.objects.map Object.handle).Nodup)
    (classed : ∀ o ∈ root.objects, o.classHandle ∈ root.classes.map ObjectClass.handle) :
    ∀ o ∈ (killClasses fed root (root.classes.map ObjectClass.handle)).1.objects,
      o.owner ≠ fed := by
  intro o member owner
  rw [(killClasses_exact fed _ root rooted.forest.distinct distinct).2] at member
  obtain ⟨present, other⟩ := List.mem_filter.mp member
  simp [classed o present, owner] at other

/-- The loops return what the closed form says. -/
theorem killFederateRounds_returns (rooted : root.Rooted)
    (distinct : (root.objects.map Object.handle).Nodup)
    (referenced : root.server.hasReferences fed = true) :
    Returns (fun fuel => root.killFederateRounds [] fed fuel)
      ⟨(root.killFederate fed).1,
        (killClasses fed root (root.classes.map ObjectClass.handle)).1.objects,
        (root.killFederate fed).2⟩ := by
  have known : ∀ h ∈ root.classes.map ObjectClass.handle, (root.class? h).isSome = true := by
    intro h member
    obtain ⟨c, belongs, rfl⟩ := List.mem_map.mp member
    rw [show root.class? c.handle = some c from lookup_of_nodup rooted.forest.distinct belongs]
    rfl
  have classes := killClassSet_returns _ rooted distinct referenced known
  have objects := killObjects_returns fed _ root.objects [] rfl (by simp)
  have final : root.killFederate fed =
      ({ (killClasses fed root (root.classes.map ObjectClass.handle)).1 with
        interactions := (killClasses fed root
          (root.classes.map ObjectClass.handle)).1.interactions.map (·.killFederate fed)
        objects := [] ++ (root.objects.filter fun o => o.owner ≠ fed).map (·.killFederate fed) },
        (killClasses fed root (root.classes.map ObjectClass.handle)).2) := by
    have left := (killClasses_exact fed _ root rooted.forest.distinct distinct).2
    have same : (killClasses fed root (root.classes.map ObjectClass.handle)).1.objects.filter
        (fun o => o.owner ≠ fed) = root.objects.filter fun o => o.owner ≠ fed := by
      rw [left, List.filter_filter]
      refine List.filter_congr fun o _ => ?_
      by_cases owner : o.owner = fed <;> simp [owner]
    rw [List.nil_append, ← same]
    rfl
  rw [final]
  generalize killClasses fed root (root.classes.map ObjectClass.handle) = after at classes ⊢
  exact Returns.bind (f := fun (after : RootObject × Responses) fuel => do
      let objects ← killObjects fed fuel [] root.objects
      return Killed.mk { after.1 with
        interactions := after.1.interactions.map fun i => Interaction.killFederate i fed
        objects := objects } after.1.objects after.2) classes
    (Returns.bind (f := fun objects _ => pure (Killed.mk { after.1 with
        interactions := after.1.interactions.map fun i => Interaction.killFederate i fed
        objects := objects } after.1.objects after.2)) objects (Returns.pure _))

end RootObject

end Certi
