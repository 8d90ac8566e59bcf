import Certi.RTIG.NameRuns

/-!
# Registering an instance with a region

`Federation::registerObjectWithRegion` registers the instance, then looks the
region up, then the attributes one after the other. A service that throws sends
nothing, but what was registered stays.
-/
namespace Certi

open Keyed Federation RootObject

namespace NameAnswer

/-- Whom the service tells of what. -/
def sent : NameAnswer → Responses
  | .event answer => answer.1
  | .reservation _ => []

end NameAnswer

namespace NamedFederation

variable {s : NamedFederation} {fed : FederateHandle} {classHandle : ObjectClassHandle}
  {name : String} {region : RegionHandle} {hs : List AttributeHandle}

/-- A registration with a region happens as a whole or not at all. -/
structure RegistersAtomically (s : NamedFederation) (registration : NameEvent)
    (region : RegionHandle) (hs : List AttributeHandle) : Prop where
  failed : accepted (naming s registration).2 = false →
    (naming s registration).1.root = s.root ∧ (naming s registration).1.perName = s.perName ∧
      (naming s registration).2.sent = []
  succeeded : accepted (naming s registration).2 = true →
    ∃ o, (naming s registration).1.root.object? s.federation.nextObject = some o ∧
      (∀ h, o.regionOf h = if h ∈ hs then some region else none) ∧
      ∀ earlier ∈ s.root.objects, earlier ∈ (naming s registration).1.root.objects

/-- A new instance is associated with no region. -/
theorem newInstance_regionOf (c : ObjectClass) (fed : FederateHandle)
    (classHandle : ObjectClassHandle) (object : ObjectHandle) (name : String)
    (h : AttributeHandle) : (newInstance c fed classHandle object name).regionOf h = none := by
  unfold Object.regionOf
  rw [Option.bind_eq_none_iff]
  intro oa found
  obtain ⟨oca, _, rfl⟩ := List.mem_map.mp (Object.attribute?_mem found)
  rfl

/-- The association of an instance that has no region yet gives it exactly the attributes listed,
and leaves the other instances alone. -/
theorem associate_new {root : RootObject} {object : ObjectHandle} {o : Object}
    (found : root.object? object = some o) (unassociated : ∀ h, o.regionOf h = none)
    (success : (root.associate object region hs).error = none) :
    ∃ o', (root.associate object region hs).state.object? object = some o' ∧
      (∀ h, o'.regionOf h = if h ∈ hs then some region else none) ∧
      ∀ other ∈ root.objects, other.handle ≠ object →
        other ∈ (root.associate object region hs).state.objects := by
  have known : (root.region? region).isSome = true := by
    by_contra unknown
    have refused : ((root.region? region).isSome && (root.object? object).isSome) = false := by
      simp [unknown]
    exact (associate_refused refused).2 success
  obtain ⟨r, known⟩ := Option.isSome_iff_exists.mp known
  obtain ⟨associated, all⟩ := Object.associate_associated o region hs
  have outcome : root.associate object region hs =
      ⟨root.setObject ((o.unassociate region).associate region hs).1, [],
        ((o.unassociate region).associate region hs).2⟩ := by
    simp only [associate, getRegion, getObject, known, found]
    rfl
  rw [outcome] at success ⊢
  rw [all.mp success] at associated
  generalize ((o.unassociate region).associate region hs).1 = o' at associated
  have handle : o'.handle = object := associated.handle.trans (lookup_key found)
  refine ⟨o', ?_, fun h => ?_, fun other member different => ?_⟩
  · change lookup Object.handle object (replace Object.handle o' root.objects) = some o'
    rw [lookup_replace_eq, if_pos handle.symm, show lookup Object.handle object root.objects = some o
      from found, Option.map_some]
  · rw [associated.exactly h, unassociated h]
    simp
  · exact mem_adjust.mpr (.inl ⟨member, by rw [handle]; exact different⟩)

/-- The registration of a member's instance is followed by the association. -/
theorem registerObjectWithRegion_eq (member : s.federation.check fed = true)
    (accepted : (s.registerObject fed classHandle name).error = none) :
    s.registerObjectWithRegion fed classHandle name region hs =
      (s.registerObject fed classHandle name).state.associateRegistered s.federation.nextObject
        region hs (s.registerObject fed classHandle name).sent := by
  simp only [registerObjectWithRegion, member, if_true, accepted]

/-- A registration that is refused sends nothing. -/
theorem registerObjectWithRegion_silent {e : RTIException}
    (failed : (s.registerObjectWithRegion fed classHandle name region hs).error = some e) :
    (s.registerObjectWithRegion fed classHandle name region hs).sent = [] := by
  cases member : s.federation.check fed with
  | false => simp [registerObjectWithRegion, member, Outcome.refused]
  | true =>
    cases admitted : s.root.admitsObject s.perName fed classHandle s.federation.nextObject
        (s.instanceName name) with
    | false =>
      obtain ⟨e', outcome⟩ := registerNamed_refused admitted
      simp [registerObjectWithRegion, registerObject, member, outcome, Outcome.refused]
    | true =>
      obtain ⟨c, sent, registers⟩ := registerNamed_admitted admitted
      have accepted : (s.registerObject fed classHandle name).error = none := by
        simp [registerObject, registers.outcome, Outcome.done]
      rw [registerObjectWithRegion_eq member accepted] at failed ⊢
      unfold associateRegistered at failed ⊢
      dsimp only at failed ⊢
      split
      · rfl
      · rename_i associated
        simp [associated, Outcome.done] at failed

/-- An admitted registration whose region and attributes are found. -/
theorem registers_whole (holds : s.NamesInvariant) (member : s.federation.check fed = true)
    (admitted : s.root.admitsObject s.perName fed classHandle s.federation.nextObject
      (s.instanceName name) = true)
    (success : (s.registerObjectWithRegion fed classHandle name region hs).error = none) :
    ∃ o, (s.registerObjectWithRegion fed classHandle name region hs).state.root.object?
        s.federation.nextObject = some o ∧
      (∀ h, o.regionOf h = if h ∈ hs then some region else none) ∧
      ∀ earlier ∈ s.root.objects, earlier ∈
        (s.registerObjectWithRegion fed classHandle name region hs).state.root.objects := by
  obtain ⟨c, sent, registers⟩ := registerNamed_admitted admitted
  obtain ⟨c', _, accepted, _, found, gains⟩ := registerObject_admitted holds admitted
  have objects : (s.registerObject fed classHandle name).state.root.objects =
      s.root.objects ++ [newInstance c fed classHandle s.federation.nextObject
        (s.instanceName name)] := by
    simp only [registerObject, registers.outcome]
    rfl
  rw [registerObjectWithRegion_eq member accepted] at success ⊢
  obtain ⟨root, _, error, _⟩ := associateRegistered_names gains.tidy.distinct
    s.federation.nextObject region hs (s.registerObject fed classHandle name).sent
  rw [error] at success
  rw [root]
  obtain ⟨o, located, regions, others⟩ :=
    associate_new found (newInstance_regionOf c' fed classHandle _ _) success
  refine ⟨o, located, regions, fun earlier belongs => ?_⟩
  refine others earlier (by rw [objects]; exact List.mem_append_left _ belongs) ?_
  exact lookup_eq_none.mp registers.freshHandle earlier belongs

/-- After every run a registration with a region is atomic exactly when, once the instance is
admitted, the region and all the attributes are found. -/
theorem registration_atomic_iff (fom : Fom) (withMom haveXml : Bool) (es : List NameEvent)
    (fed : FederateHandle) (classHandle : ObjectClassHandle) (name : String)
    (region : RegionHandle) (hs : List AttributeHandle) :
    RegistersAtomically (naming.exec (create fom withMom haveXml) es)
        (.event (.registerObjectWithRegion fed classHandle name region hs)) region hs ↔
      (naming.exec (create fom withMom haveXml) es).RegistersWholly
        (.event (.registerObjectWithRegion fed classHandle name region hs)) := by
  have holds : (naming.exec (create fom withMom haveXml) es).NamesInvariant :=
    naming.exec_always (p := NamesInvariant) (fun _ e before => naming_invariant before e)
      (create_names fom withMom haveXml) es
  generalize naming.exec (create fom withMom haveXml) es = s at holds ⊢
  cases crashed : s.federation.crashed with
  | true =>
    have same := naming_crashed (e := .event (.registerObjectWithRegion fed classHandle name region
      hs)) crashed
    refine iff_of_true ⟨fun _ => ?_, fun answered => ?_⟩
      fun live => absurd (crashed.symm.trans live) (by decide)
    · rw [same]
      exact ⟨rfl, rfl, rfl⟩
    · rw [same] at answered
      cases answered
  | false =>
    have step : naming s (.event (.registerObjectWithRegion fed classHandle name region hs)) =
        ((s.registerObjectWithRegion fed classHandle name region hs).state,
          .event ((s.registerObjectWithRegion fed classHandle name region hs).sent,
            (s.registerObjectWithRegion fed classHandle name region hs).error)) :=
      naming_event crashed
    cases admitted : s.federation.check fed && s.root.admitsObject s.perName fed classHandle
        s.federation.nextObject (s.instanceName name) with
    | false =>
      obtain ⟨root, perName, e, failed⟩ := registerObjectWithRegion_refused
        region hs admitted
      refine iff_of_true ⟨fun _ => ?_, fun answered => ?_⟩ fun _ member admits => ?_
      · rw [step]
        exact ⟨root, perName, registerObjectWithRegion_silent failed⟩
      · rw [step] at answered
        simp [accepted, failed] at answered
      · rw [member, admits] at admitted
        cases admitted
    | true =>
      obtain ⟨member, admits⟩ := Bool.and_eq_true_iff.mp admitted
      obtain ⟨gains, answered⟩ := registerObjectWithRegion_admitted holds region hs
        member admits
      constructor
      · intro atomic _ _ _
        refine answered.mp ?_
        by_contra thrown
        -- the instance has come all the same
        have answer : accepted (naming s (.event (.registerObjectWithRegion fed classHandle name
            region hs))).2 = false := by
          rw [step]
          simpa [accepted, Option.isSome_iff_ne_none] using thrown
        have same := (atomic.failed answer).1
        rw [step] at same
        dsimp only at same
        have entries := congrArg List.length gains.entries
        simp [same] at entries
      · intro whole
        have success := answered.mpr (whole crashed member admits)
        refine ⟨fun refused => ?_, fun _ => ?_⟩
        · rw [step] at refused
          simp [accepted, success] at refused
        · rw [step]
          exact registers_whole holds member admits success

/-- A member publishes its class and registers with a region that does not exist: the instance
stays. -/
theorem registered_despite_refusal : ¬∀ (es : List NameEvent) (fed : FederateHandle)
    (classHandle : ObjectClassHandle) (name : String) (region : RegionHandle)
    (hs : List AttributeHandle),
      RegistersAtomically (naming.exec (create smallFom false true) es)
        (.event (.registerObjectWithRegion fed classHandle name region hs)) region hs := by
  intro always
  have failed := (always [.event (joinAs "a"), .event (.publishObject 1 1 [2] true)]
    1 1 "x" 7 []).failed (by decide +kernel)
  exact absurd (congrArg (fun root : RootObject => root.objects.length) failed.1)
    (by decide +kernel)

end NamedFederation

end Certi
