import Certi.LibCERTI.ObjectNames
import Certi.RTIG.Removal

/-!
# Object names over whole runs

The RTIG with both maps of its object set and with the reservations of names. A
registration either happens as a whole or not at all, but for one: with a
region, the instance is registered before the region and the attributes are
looked up, and stays when that fails.
-/
namespace Certi

open Keyed Sweep Federation Runs

structure NamedFederation where
  federation : Federation
  perName : ObjectsPerName

inductive NameEvent where
  | event (e : Event)
  | reserveObjectInstanceName (fed : FederateHandle) (name : String)

/-- A reservation is answered with success or failure. -/
inductive NameAnswer where
  | event (answer : Answer)
  | reservation (succeeded : Bool)

namespace NamedFederation

variable (s : NamedFederation)

/-- The name an instance gets. -/
def instanceName (name : String) : String :=
  if name = "" then "HLAObject_" ++ toString s.federation.nextObject else name

def registerObject (h : FederateHandle) (classHandle : ObjectClassHandle) (name : String) :
    Outcome NamedFederation :=
  let object := s.federation.nextObject
  let (outcome, perName) := s.federation.root.registerNamed s.perName h classHandle object
    (s.instanceName name)
  ⟨⟨{ s.federation with nextObject := object + 1, root := outcome.state }, perName⟩,
    outcome.sent, outcome.error⟩

/-- The association of `registerObjectWithRegion`, with the instance just registered. -/
def associateRegistered (object : ObjectHandle) (region : RegionHandle)
    (hs : List AttributeHandle) (sent : Responses) : Outcome NamedFederation :=
  let associated := s.federation.root.associate object region hs
  let state : NamedFederation := { s with federation.root := associated.state }
  match associated.error with
  | some e => .refused state e
  | none => .done state sent

def registerObjectWithRegion (h : FederateHandle) (classHandle : ObjectClassHandle)
    (name : String) (region : RegionHandle) (hs : List AttributeHandle) :
    Outcome NamedFederation :=
  if s.federation.check h then
    let registered := s.registerObject h classHandle name
    match registered.error with
    | some _ => registered
    | none => registered.state.associateRegistered s.federation.nextObject region hs registered.sent
  else .refused s .federateNotExecutionMember

/-- The second map after an event that registers nothing. -/
def namesAfter : Event → ObjectsPerName
  | .deleteObject fed object =>
    if (s.federation.perform (.deleteObject fed object)).error.isNone then
      s.federation.root.eraseName s.perName object
    else s.perName
  | .kill fed =>
    if s.federation.isJoined fed then s.federation.root.eraseNamesOf s.perName fed
    else s.perName
  | _ => s.perName

def perform : Event → Outcome NamedFederation
  | .registerObject fed c name => s.registerObject fed c name
  | .registerObjectWithRegion fed c name region hs =>
    s.registerObjectWithRegion fed c name region hs
  | e =>
    let outcome := s.federation.perform e
    ⟨⟨outcome.state, s.namesAfter e⟩, outcome.sent, outcome.error⟩

end NamedFederation

/-- The RTIG with its names. -/
def naming : Machine NamedFederation NameEvent NameAnswer := fun s e =>
  if s.federation.crashed then (s, .event ([], some .networkError))
  else match e with
    | .event e =>
      let outcome := s.perform e
      (outcome.state, .event (outcome.sent, outcome.error))
    | .reserveObjectInstanceName fed name =>
      let (root, succeeded) :=
        s.federation.root.reserveObjectInstanceName s.perName fed name
      ({ s with federation.root := root }, .reservation succeeded)

/-! ## The statement -/

namespace NamedFederation

variable (s : NamedFederation)

abbrev root : RootObject := s.federation.root

/-- Handles and names are those of one live instance, by either map, and a reserved name is
that of none. -/
structure NamesSound : Prop where
  handles : (s.root.objects.map Object.handle).Nodup
  names : (s.root.objects.map Object.name).Nodup
  byName : ∀ name o, s.root.getObjectByName s.perName name = some o ↔
    s.root.object? o.handle = some o ∧ o.name = name
  pointers : ∀ entry ∈ s.perName, (s.root.object? entry.2).isSome = true
  reserved : ∀ r ∈ s.root.reservedNames, ∀ o ∈ s.root.objects, o.name ≠ r.1

/-- The federate and the name of a registration. -/
def registration : NameEvent → Option (FederateHandle × String)
  | .event (.registerObject fed _ name) => some (fed, name)
  | .event (.registerObjectWithRegion fed _ name _ _) => some (fed, name)
  | _ => none

def accepted : NameAnswer → Bool
  | .event answer => answer.2.isNone
  | .reservation succeeded => succeeded

/-- What an event does about names. -/
structure KeepsNames (e : NameEvent) : Prop where
  sound : (naming s e).1.NamesSound
  granted : ∀ o ∈ (naming s e).1.root.objects, o.handle ∉ s.root.objects.map Object.handle →
    ∀ r ∈ s.root.reservedNames, r.1 = o.name → r.2 = o.owner
  ends : ∀ r ∈ s.root.reservedNames, r ∉ (naming s e).1.root.reservedNames ↔
    registration e = some (r.2, r.1) ∧ accepted (naming s e).2 = true
  failed : (registration e).isSome = true → accepted (naming s e).2 = false →
    (naming s e).1.root.objects = s.root.objects ∧ (naming s e).1.perName = s.perName ∧
      (naming s e).1.root.reservedNames = s.root.reservedNames

/-- A registration with region that the object set and the class admit names a live region and
attributes of the class. -/
def RegistersWholly : NameEvent → Prop
  | .event (.registerObjectWithRegion fed c name region hs) =>
    s.federation.crashed = false → s.federation.check fed = true →
      s.root.admitsObject s.perName fed c s.federation.nextObject (s.instanceName name) = true →
      (s.root.region? region).isSome = true ∧
        (s.root.class? c).any (fun c => hs.all c.hasAttribute) = true
  | _ => True

end NamedFederation

/-! ## Instances keep their names -/

namespace RootObject

variable {root root' root'' : RootObject}

/-- The instances have the same handles and names, and the reservations are the same. -/
structure NamesKept (root root' : RootObject) : Prop where
  entries : root'.objects.map Object.entry = root.objects.map Object.entry
  reserved : root'.reservedNames = root.reservedNames

theorem NamesKept.refl (root : RootObject) : root.NamesKept root := ⟨rfl, rfl⟩

theorem Redeclares.namesKept (same : root.Redeclares root') : root.NamesKept root' :=
  ⟨by rw [same.rest], by rw [same.rest]⟩

theorem namesKept_rewrites (distinct : root.Distinct) {object : ObjectHandle}
    {p : Object → Object → Prop} (rewrites : RewritesInstance object p root root')
    (same : ∀ o o', p o o' → o'.handle = o.handle ∧ o'.name = o.name) : root.NamesKept root' := by
  rcases rewrites with rfl | ⟨o, o', found, changed, rfl⟩
  · exact .refl _
  · obtain ⟨handle, name⟩ := same o o' changed
    refine ⟨?_, rfl⟩
    unfold setObject replace adjust
    rw [List.map_map]
    refine List.map_congr_left fun p member => ?_
    dsimp only [Function.comp]
    split
    · rename_i equal
      obtain rfl : p = o := List.inj_on_of_nodup_map distinct.objects member
        (lookup_mem found) (equal.trans handle)
      rw [Object.entry, Object.entry, handle, name]
    · rfl

theorem createRegion_namesKept (root : RootObject) (space : SpaceHandle) (extents : Nat) :
    root.NamesKept (root.createRegion space extents).state := by
  unfold createRegion
  split
  · exact .refl root
  · split <;> exact ⟨rfl, rfl⟩

theorem killInClass_reserved (fed : FederateHandle) (h : ObjectClassHandle)
    (owned : List Object) : ∀ root : RootObject,
      (killInClass fed h root owned).1.reservedNames = root.reservedNames := by
  induction owned with
  | nil => exact fun _ => rfl
  | cons o rest ih =>
    intro root
    exact ih { killDeclarationsOf root fed h with
      objects := drop Object.handle o.handle root.objects }

theorem killClasses_reserved (fed : FederateHandle) (hs : List ObjectClassHandle) :
    ∀ root : RootObject, (killClasses fed root hs).1.reservedNames = root.reservedNames := by
  induction hs with
  | nil => exact fun _ => rfl
  | cons h rest ih =>
    intro root
    exact (ih _).trans (killInClass_reserved fed h _ root)

/-- The object set keeps the names of the instances of other owners. -/
theorem killFederate_names (tidy : root.Tidy) (fed : FederateHandle) :
    (root.killFederate fed).1.objects.map Object.entry =
        (root.objects.filter (fun o => o.owner ≠ fed)).map Object.entry ∧
      (root.killFederate fed).1.reservedNames = root.reservedNames := by
  obtain ⟨_, objects⟩ :=
    killClasses_exact fed _ root tidy.distinct.classes tidy.distinct.objects
  have kept : (root.killFederate fed).1.objects.map Object.entry =
      ((killClasses fed root (root.classes.map ObjectClass.handle)).1.objects.filter
        (fun o => o.owner ≠ fed)).map Object.entry := by
    simp only [killFederate, List.map_map]
    rfl
  refine ⟨?_, killClasses_reserved fed _ root⟩
  rw [kept, objects, List.filter_filter]
  congr 1
  refine List.filter_congr fun o member => ?_
  by_cases owner : o.owner = fed <;> simp [owner]

/-- An association gives no instance another handle, name or owner. -/
theorem associate_member (root : RootObject) (object : ObjectHandle) (region : RegionHandle)
    (hs : List AttributeHandle) : ∀ o' ∈ (root.associate object region hs).state.objects,
      ∃ o ∈ root.objects, o'.handle = o.handle ∧ o'.name = o.name ∧ o'.owner = o.owner := by
  intro o' member
  rcases associate_cases root object region hs with unchanged | ⟨o, changed, found, same, result⟩
  · rw [unchanged] at member
    exact ⟨o', member, rfl, rfl, rfl⟩
  · rw [result] at member
    rcases mem_replace member with rfl | ⟨belongs, _⟩
    · exact ⟨o, lookup_mem found, same.handle, same.name, same.owner⟩
    · exact ⟨o', belongs, rfl, rfl, rfl⟩

theorem newInstance_attribute? (c : ObjectClass) (fed : FederateHandle)
    (classHandle : ObjectClassHandle) (object : ObjectHandle) (name : String)
    (h : AttributeHandle) :
    ((newInstance c fed classHandle object name).attribute? h).isSome = c.hasAttribute h := by
  unfold ObjectClass.hasAttribute ObjectClass.attribute? Object.attribute? lookup newInstance
    ObjectClass.instanceAttributes
  dsimp only
  rw [List.find?_map, Option.isSome_map]
  rfl

/-- The association of an instance just registered succeeds exactly with a live region and
attributes of the class. -/
theorem associate_registered {c : ObjectClass} {fed : FederateHandle}
    {classHandle : ObjectClassHandle} {object : ObjectHandle} {name : String}
    (found : root'.object? object = some (newInstance c fed classHandle object name))
    (regions : root'.regions = root.regions) (region : RegionHandle) (hs : List AttributeHandle) :
    (root'.associate object region hs).error = none ↔
      (root.region? region).isSome = true ∧ hs.all c.hasAttribute = true := by
  have live : (root'.region? region).isSome = (root.region? region).isSome := by
    rw [region?, region?, regions]
  cases known : (root.region? region).isSome with
  | false =>
    have unknown : ((root'.region? region).isSome && (root'.object? object).isSome) = false := by
      rw [live, known]
      rfl
    have refused : (root'.associate object region hs).error ≠ none := (associate_refused unknown).2
    simp [refused]
  | true =>
    have both : ((root'.region? region).isSome && (root'.object? object).isSome) = true := by
      rw [live, known, found]
      rfl
    rw [(@associate_carriedOut root' (fun _ => true) fed object region hs rfl both).2,
      List.takeWhile_eq_self_iff, found]
    simp [newInstance_attribute?]

end RootObject

/-! ## The invariant -/

namespace NamedFederation

variable {s s' : NamedFederation}

structure NamesInvariant (s : NamedFederation) : Prop where
  tidy : s.root.Tidy
  agree : s.root.NamesAgree s.perName
  names : (s.root.objects.map Object.name).Nodup
  keys : (s.root.reservedNames.map Prod.fst).Nodup
  reserved : ∀ r ∈ s.root.reservedNames, ∀ o ∈ s.root.objects, o.name ≠ r.1
  proper : ∀ r ∈ s.root.reservedNames, r.1 ≠ "" ∧ hasHLAPrefix r.1 = false

theorem entries_names (objects : List Object) :
    (objects.map Object.entry).map Prod.fst = objects.map Object.name := by
  rw [List.map_map]
  rfl

theorem entries_handles (objects : List Object) :
    (objects.map Object.entry).map Prod.snd = objects.map Object.handle := by
  rw [List.map_map]
  rfl

/-- With distinct names the second map finds an instance under its name. -/
theorem NamesInvariant.lookup_name (holds : s.NamesInvariant) {o : Object}
    (member : o ∈ s.root.objects) : lookup Prod.fst o.name s.perName = some o.entry := by
  have distinct : (s.perName.map Prod.fst).Nodup := by
    rw [holds.agree, entries_names]
    exact holds.names
  have listed : o.entry ∈ s.perName := by
    rw [holds.agree]
    exact List.mem_map_of_mem member
  exact lookup_of_nodup distinct listed

theorem NamesInvariant.sound (holds : s.NamesInvariant) : s.NamesSound := by
  have found : ∀ o ∈ s.root.objects, s.root.object? o.handle = some o :=
    fun o member => lookup_of_nodup holds.tidy.distinct.objects member
  refine ⟨holds.tidy.distinct.objects, holds.names, fun name o => ?_, fun entry listed => ?_,
    holds.reserved⟩
  · constructor
    · intro located
      obtain ⟨entry, named, points⟩ := Option.bind_eq_some_iff.mp located
      have listed := lookup_mem named
      rw [holds.agree] at listed
      obtain ⟨p, member, rfl⟩ := List.mem_map.mp listed
      have same : p = o := Option.some.inj ((found p member).symm.trans points)
      have key : p.entry.1 = name := lookup_key named
      rw [← same]
      exact ⟨found p member, key⟩
    · rintro ⟨known, rfl⟩
      have member := lookup_mem known
      rw [RootObject.getObjectByName, holds.lookup_name member]
      exact known
  · rw [holds.agree] at listed
    obtain ⟨o, member, rfl⟩ := List.mem_map.mp listed
    exact Option.isSome_iff_exists.mpr ⟨o, found o member⟩

/-- A reservation that is not another federate's is the federate's own. -/
theorem NamesInvariant.reservation (holds : s.NamesInvariant) {fed : FederateHandle}
    {r : String × FederateHandle} (member : r ∈ s.root.reservedNames)
    (free : s.root.isReservedByOther fed r.1 = false) : r.2 = fed := by
  have found : lookup Prod.fst r.1 s.root.reservedNames = some r :=
    lookup_of_nodup holds.keys member
  simpa [RootObject.isReservedByOther, found] using free

/-- Instances only go, from both maps, and the reservations stay. -/
structure Shrinks (s s' : NamedFederation) : Prop where
  tidy : s'.root.Tidy
  entries : (s'.root.objects.map Object.entry).Sublist (s.root.objects.map Object.entry)
  agree : s'.root.NamesAgree s'.perName
  reserved : s'.root.reservedNames = s.root.reservedNames

theorem Shrinks.earlier (shrinks : s.Shrinks s') {o' : Object} (member : o' ∈ s'.root.objects) :
    ∃ o ∈ s.root.objects, o.handle = o'.handle ∧ o.name = o'.name := by
  have listed := shrinks.entries.subset (List.mem_map_of_mem member)
  obtain ⟨o, belongs, equal⟩ := List.mem_map.mp listed
  exact ⟨o, belongs, congrArg Prod.snd equal, congrArg Prod.fst equal⟩

theorem NamesInvariant.shrink (holds : s.NamesInvariant) (shrinks : s.Shrinks s') :
    s'.NamesInvariant := by
  refine ⟨shrinks.tidy, shrinks.agree, ?_, ?_, ?_, ?_⟩
  · have names := shrinks.entries.map Prod.fst
    rw [entries_names, entries_names] at names
    exact holds.names.sublist names
  · rw [shrinks.reserved]
    exact holds.keys
  · intro r member o' belongs
    rw [shrinks.reserved] at member
    obtain ⟨o, earlier, _, name⟩ := shrinks.earlier belongs
    rw [← name]
    exact holds.reserved r member o earlier
  · rw [shrinks.reserved]
    exact holds.proper

/-- An event that registers nothing and takes instances away at most. -/
theorem keepsNames_of_shrinks (holds : s.NamesInvariant) {e : NameEvent}
    (shrinks : s.Shrinks (naming s e).1) (registers : registration e = none) :
    s.KeepsNames e := by
  refine ⟨(holds.shrink shrinks).sound, fun o' member fresh => ?_, fun r member => ?_, ?_⟩
  · obtain ⟨o, belongs, handle, _⟩ := shrinks.earlier member
    exact absurd (handle ▸ List.mem_map_of_mem belongs) fresh
  · rw [shrinks.reserved, registers]
    simp [member]
  · simp [registers]

/-! ## Events that register nothing -/

/-- The federation with names does what the federation does. -/
theorem registerObject_federation (agree : s.root.NamesAgree s.perName) (h : FederateHandle)
    (classHandle : ObjectClassHandle) (name : String) :
    (s.registerObject h classHandle name).state.federation =
        (s.federation.registerObject h classHandle name).state ∧
      (s.registerObject h classHandle name).sent =
        (s.federation.registerObject h classHandle name).sent ∧
      (s.registerObject h classHandle name).error =
        (s.federation.registerObject h classHandle name).error := by
  have same : (s.root.registerNamed s.perName h classHandle s.federation.nextObject
      (s.instanceName name)).1 = s.root.registerObjectInstance h classHandle
        s.federation.nextObject (s.instanceName name) := RootObject.registerNamed_eq agree
  have both : s.federation.registerObject h classHandle name =
      { s.federation with nextObject := s.federation.nextObject + 1 }.onRoot
        (·.registerObjectInstance h classHandle s.federation.nextObject (s.instanceName name)) :=
    rfl
  rw [both, onRoot]
  dsimp only
  rw [← same]
  exact ⟨rfl, rfl, rfl⟩

theorem registerObjectWithRegion_federation (agree : s.root.NamesAgree s.perName)
    (h : FederateHandle) (classHandle : ObjectClassHandle) (name : String) (region : RegionHandle)
    (hs : List AttributeHandle) :
    (s.registerObjectWithRegion h classHandle name region hs).state.federation =
      (s.federation.registerObjectWithRegion h classHandle name region hs).state := by
  obtain ⟨federation, _, error⟩ := registerObject_federation agree h classHandle name
  unfold registerObjectWithRegion Federation.registerObjectWithRegion asMember
  split
  · cases failed : (s.federation.registerObject h classHandle name).error with
    | some e =>
      simp only [error, failed]
      exact federation
    | none =>
      simp only [error, failed, associateRegistered, onRoot, federation]
      cases ((s.federation.registerObject h classHandle name).state.root.associate
        s.federation.nextObject region hs).error <;> rfl
  · rfl

theorem perform_federation (agree : s.root.NamesAgree s.perName) (e : Event) :
    (s.perform e).state.federation = (s.federation.perform e).state := by
  cases e with
  | registerObject fed c name => exact (registerObject_federation agree fed c name).1
  | registerObjectWithRegion fed c name region hs =>
    exact registerObjectWithRegion_federation agree fed c name region hs
  | _ => rfl

theorem perform_tidy (tidy : s.root.Tidy) (agree : s.root.NamesAgree s.perName) (e : Event) :
    (s.perform e).state.root.Tidy := by
  rw [root, perform_federation agree]
  exact (perform_keeps tidy e).1

/-- Where the root object keeps all names, so does the federation with its second map. -/
theorem shrinks_of_kept (holds : s.NamesInvariant) (tidy : s'.root.Tidy)
    (kept : s.root.NamesKept s'.root) (perName : s'.perName = s.perName) : s.Shrinks s' := by
  refine ⟨tidy, ?_, ?_, kept.reserved⟩
  · rw [kept.entries]
  · rw [RootObject.NamesAgree, perName, kept.entries]
    exact holds.agree

theorem memberOnRoot_namesKept {f : Federation} {fed : FederateHandle}
    {service : RootObject → Outcome RootObject}
    (kept : f.root.NamesKept (service f.root).state) :
    f.root.NamesKept (f.memberOnRoot fed service).state.root :=
  asMember_cases (p := fun outcome => f.root.NamesKept outcome.state.root) (.refl f.root)
    fun _ => kept

theorem memberWithRegion_namesKept {f : Federation} {fed : FederateHandle}
    {region : RegionHandle} {service : RootObject → Outcome RootObject}
    (kept : f.root.NamesKept (service f.root).state) :
    f.root.NamesKept (f.memberWithRegion fed region service).state.root := by
  refine memberOnRoot_namesKept ?_
  split
  · exact .refl f.root
  · exact kept

/-- A deletion takes the instance out of both maps. -/
theorem eraseName_agree (holds : s.NamesInvariant) {object : ObjectHandle} {o : Object}
    (found : s.root.object? object = some o) :
    s.root.eraseName s.perName object =
      (drop Object.handle object s.root.objects).map Object.entry := by
  have member := lookup_mem found
  have handle : o.handle = object := lookup_key found
  rw [RootObject.eraseName, found]
  dsimp only
  rw [holds.agree, drop, drop, List.filter_map]
  congr 1
  refine List.filter_congr fun p belongs => ?_
  have same : p.name = o.name ↔ p.handle = object := by
    constructor
    · intro named
      rw [List.inj_on_of_nodup_map holds.names belongs member named]
      exact handle
    · intro equal
      rw [List.inj_on_of_nodup_map holds.tidy.distinct.objects belongs member
        (equal.trans handle.symm)]
  simp [Object.entry, same]

theorem foldl_drop (owned : List Object) : ∀ perName : ObjectsPerName,
    owned.foldl (fun names o => drop Prod.fst o.name names) perName =
      perName.filter fun entry => owned.all fun o => entry.1 ≠ o.name := by
  induction owned with
  | nil => simp
  | cons o rest ih =>
    intro perName
    rw [List.foldl_cons, ih, drop, List.filter_filter]
    refine List.filter_congr fun entry _ => ?_
    simp [Bool.and_comm]

/-- A departure takes the instances of the federate out of both maps. -/
theorem eraseNamesOf_agree (holds : s.NamesInvariant) (fed : FederateHandle) :
    s.root.eraseNamesOf s.perName fed =
      (s.root.objects.filter (fun o => o.owner ≠ fed)).map Object.entry := by
  rw [RootObject.eraseNamesOf, foldl_drop, holds.agree, List.filter_map]
  congr 1
  refine List.filter_congr fun p belongs => ?_
  have same : (∀ o ∈ s.root.objects, o.owner = fed → p.name ≠ o.name) ↔ p.owner ≠ fed := by
    constructor
    · exact fun others owner => others p belongs owner rfl
    · intro owner o member owned named
      rw [List.inj_on_of_nodup_map holds.names belongs member named] at owner
      exact owner owned
  refine Bool.eq_iff_iff.mpr (Iff.trans ?_ (same.trans decide_eq_true_iff.symm))
  rw [Function.comp_apply, List.all_eq_true]
  constructor
  · intro others o member owned
    exact of_decide_eq_true (others o (List.mem_filter.mpr ⟨member, decide_eq_true owned⟩))
  · intro others o member
    obtain ⟨belongs, owned⟩ := List.mem_filter.mp member
    exact decide_eq_true (others o belongs (of_decide_eq_true owned))

theorem delete_shrinks (holds : s.NamesInvariant) (fed : FederateHandle)
    (object : ObjectHandle) : s.Shrinks (s.perform (.deleteObject fed object)).state := by
  have tidy := perform_tidy holds.tidy holds.agree (.deleteObject fed object)
  have same : s.Shrinks s := shrinks_of_kept holds holds.tidy (.refl _) rfl
  have kept : ∀ outcome : Outcome Federation,
      s.federation.perform (.deleteObject fed object) = outcome → outcome.state = s.federation →
        outcome.error.isNone = false → s.Shrinks (s.perform (.deleteObject fed object)).state := by
    rintro outcome performed unchanged refused
    have whole : (s.perform (.deleteObject fed object)).state = s := by
      simp [perform, namesAfter, performed, unchanged, refused]
    rw [whole]
    exact same
  cases member : s.federation.check fed with
  | false =>
    refine kept (.refused s.federation .federateNotExecutionMember) ?_ rfl rfl
    simp [Federation.perform, memberOnRoot, asMember, member]
  | true =>
    rcases RootObject.deleteObjectInstance_cases s.root fed object with
      ⟨e, refused⟩ | ⟨o, sent, deletes⟩
    · refine kept (.refused s.federation e) ?_ rfl rfl
      simp [Federation.perform, memberOnRoot, asMember, member, onRoot, refused, Outcome.refused]
    · have performed : s.federation.perform (.deleteObject fed object) =
          .done { s.federation with root := { s.root with
            objects := drop Object.handle object s.root.objects } } sent := by
        simp [Federation.perform, memberOnRoot, asMember, member, onRoot, deletes.outcome,
          Outcome.done]
      have whole : (s.perform (.deleteObject fed object)).state =
          ⟨{ s.federation with root := { s.root with
            objects := drop Object.handle object s.root.objects } },
            s.root.eraseName s.perName object⟩ := by
        simp [perform, namesAfter, performed, Outcome.done]
      rw [whole] at tidy ⊢
      exact ⟨tidy, List.filter_sublist.map _, eraseName_agree holds deletes.found, rfl⟩

theorem kill_shrinks (holds : s.NamesInvariant) (fed : FederateHandle) :
    s.Shrinks (s.perform (.kill fed)).state := by
  have tidy := perform_tidy holds.tidy holds.agree (.kill fed)
  cases joined : s.federation.isJoined fed with
  | false =>
    have whole : (s.perform (.kill fed)).state = s := by
      simp [perform, namesAfter, Federation.perform, kill_outsider joined, joined,
        Outcome.refused]
    rw [whole]
    exact shrinks_of_kept holds holds.tidy (.refl _) rfl
  | true =>
    have closed : (s.federation.closeLink fed).root.Tidy :=
      ⟨⟨holds.tidy.distinct.classes, holds.tidy.distinct.objects⟩, holds.tidy.below,
        holds.tidy.classed⟩
    obtain ⟨entries, reserved⟩ := RootObject.killFederate_names closed fed
    have after : (s.perform (.kill fed)).state.root =
        ((s.federation.closeLink fed).root.killFederate fed).1 := by
      rw [root, perform_federation holds.agree, Federation.perform, (kill_member joined).1]
    have names : (s.perform (.kill fed)).state.perName = s.root.eraseNamesOf s.perName fed := by
      simp [perform, namesAfter, joined]
    refine ⟨tidy, ?_, ?_, ?_⟩
    · rw [after, entries]
      exact List.filter_sublist.map _
    · rw [RootObject.NamesAgree, names, after, entries]
      exact eraseNamesOf_agree holds fed
    · rw [after, reserved]
      rfl

/-- The events that neither register nor remove an instance. -/
theorem perform_namesKept (holds : s.NamesInvariant) {e : Event}
    (registers : registration (.event e) = none)
    (deletes : ∀ fed object, e ≠ .deleteObject fed object) (kills : ∀ fed, e ≠ .kill fed) :
    s.root.NamesKept (s.federation.perform e).state.root := by
  have internal : e.isInternal = true → s.root.NamesKept (s.federation.perform e).state.root := by
    intro internal
    rw [(perform_internal s.federation internal).root]
    exact .refl _
  cases e with
  | join name conditions =>
    rw [Federation.perform]
    rcases add_cases s.federation name conditions with unchanged | ⟨_, _, _, _, same | same⟩
    · rw [unchanged]
      exact .refl _
    · rw [same]
      exact .refl _
    · rw [same]
      exact ⟨rfl, rfl⟩
  | resign fed =>
    rcases remove_cases s.federation fed with refused | ⟨_, removed⟩
    · rw [Federation.perform, refused]
      exact .refl _
    · rw [Federation.perform, removed]
      exact .refl _
  | kill fed => exact absurd rfl (kills fed)
  | deleteObject fed object => exact absurd rfl (deletes fed object)
  | publishObject fed c hs flag =>
    exact memberOnRoot_namesKept (RootObject.publish_redeclares s.root fed c hs flag).namesKept
  | subscribeObject fed c hs =>
    exact memberOnRoot_namesKept (RootObject.subscribe_redeclares s.root fed c hs none).namesKept
  | subscribeAttributesWR fed c region hs =>
    exact memberWithRegion_namesKept
      (RootObject.subscribe_redeclares s.root fed c hs (some region)).namesKept
  | unsubscribeAttributesWR fed c region =>
    exact memberWithRegion_namesKept
      (RootObject.unsubscribeWith_redeclares s.root fed c (some region)).namesKept
  | publishInteraction fed i flag =>
    exact memberOnRoot_namesKept (RootObject.declareInteraction_redeclares s.root i _).namesKept
  | subscribeInteraction fed i flag =>
    exact memberOnRoot_namesKept (RootObject.declareInteraction_redeclares s.root i _).namesKept
  | subscribeInteractionWR fed i region flag =>
    exact memberWithRegion_namesKept
      (RootObject.declareInteraction_redeclares s.root i _).namesKept
  | createRegion fed space extents =>
    exact memberOnRoot_namesKept (RootObject.createRegion_namesKept s.root space extents)
  | associateRegion fed object region hs =>
    exact memberOnRoot_namesKept (RootObject.namesKept_rewrites holds.tidy.distinct
      (RootObject.associate_cases s.root object region hs)
      fun o o' same => ⟨same.handle, same.name⟩)
  | registerObject fed c name => cases registers
  | registerObjectWithRegion fed c name region hs => cases registers
  | ownership service fed object hs =>
    rw [Federation.perform]
    refine asMember_cases (p := fun outcome => s.root.NamesKept outcome.state.root) (.refl _)
      fun _ => ?_
    have rewrites : RootObject.RewritesInstance object Object.SameInstance s.root
        (s.root.ownershipService object (service.perform fed hs)).1.state := by
      rcases RootObject.ownershipService_cases s.root object (service.perform fed hs) with
        unchanged | ⟨o, c, found, _, result⟩
      · exact .inl unchanged
      · exact .inr ⟨o, _, found, service.perform_sameInstance fed hs c o, result⟩
    exact RootObject.namesKept_rewrites holds.tidy.distinct rewrites
      fun o o' same => ⟨same.handle, same.name⟩
  | _ => exact internal rfl

/-- No event but a registration adds an instance or touches a reservation. -/
theorem perform_shrinks (holds : s.NamesInvariant) {e : Event}
    (registers : registration (.event e) = none) : s.Shrinks (s.perform e).state := by
  by_cases deletes : ∃ fed object, e = .deleteObject fed object
  · obtain ⟨fed, object, rfl⟩ := deletes
    exact delete_shrinks holds fed object
  · by_cases kills : ∃ fed, e = .kill fed
    · obtain ⟨fed, rfl⟩ := kills
      exact kill_shrinks holds fed
    · have kept := perform_namesKept holds registers
        (fun fed object equal => deletes ⟨fed, object, equal⟩) fun fed equal => kills ⟨fed, equal⟩
      refine shrinks_of_kept holds (perform_tidy holds.tidy holds.agree e) ?_ ?_
      · rw [root, root, perform_federation holds.agree]
        exact kept
      · cases e with
        | registerObject fed c name => cases registers
        | registerObjectWithRegion fed c name region hs => cases registers
        | deleteObject fed object => exact absurd ⟨fed, object, rfl⟩ deletes
        | kill fed => exact absurd ⟨fed, rfl⟩ kills
        | _ => rfl

/-! ## Registrations -/

variable {fed : FederateHandle} {classHandle : ObjectClassHandle} {name : String}

/-- One instance comes, under its name in both maps, and a reservation of the name goes. -/
structure Gains (s s' : NamedFederation) (fed : FederateHandle) (name : String) : Prop where
  tidy : s'.root.Tidy
  entries : s'.root.objects.map Object.entry =
    s.root.objects.map Object.entry ++ [(name, s.federation.nextObject)]
  owner : ∀ o ∈ s'.root.objects, o.handle ∉ s.root.objects.map Object.handle → o.owner = fed
  perName : s'.perName = s.perName ++ [(name, s.federation.nextObject)]
  reserved : s'.root.reservedNames = drop Prod.fst name s.root.reservedNames
  fresh : lookup Prod.fst name s.perName = none
  free : s.root.isReservedByOther fed name = false

/-- Every instance afterwards is an earlier one or the new one. -/
theorem Gains.each (gains : s.Gains s' fed name) {o' : Object} (member : o' ∈ s'.root.objects) :
    (∃ o ∈ s.root.objects, o.handle = o'.handle ∧ o.name = o'.name) ∨ o'.name = name := by
  have listed := List.mem_map_of_mem (f := Object.entry) member
  rw [gains.entries] at listed
  rcases List.mem_append.mp listed with earlier | new
  · obtain ⟨o, belongs, equal⟩ := List.mem_map.mp earlier
    exact .inl ⟨o, belongs, congrArg Prod.snd equal, congrArg Prod.fst equal⟩
  · exact .inr (congrArg Prod.fst (List.mem_singleton.mp new))

theorem NamesInvariant.gain (holds : s.NamesInvariant) (gains : s.Gains s' fed name) :
    s'.NamesInvariant := by
  have unnamed : ∀ o ∈ s.root.objects, o.name ≠ name := by
    intro o member named
    have found := holds.lookup_name member
    rw [named, gains.fresh] at found
    cases found
  refine ⟨gains.tidy, ?_, ?_, ?_, ?_, ?_⟩
  · rw [RootObject.NamesAgree, gains.perName, gains.entries, holds.agree]
  · rw [← entries_names, gains.entries, List.map_append, entries_names, List.nodup_append]
    refine ⟨holds.names, by simp, fun a listed b new => ?_⟩
    obtain ⟨o, member, rfl⟩ := List.mem_map.mp listed
    rw [List.mem_singleton.mp new]
    exact unnamed o member
  · rw [gains.reserved]
    exact holds.keys.sublist (List.filter_sublist.map _)
  · intro r member o' belongs
    rw [gains.reserved] at member
    obtain ⟨before, other⟩ := mem_drop.mp member
    rcases gains.each belongs with ⟨o, earlier, _, named⟩ | named
    · rw [← named]
      exact holds.reserved r before o earlier
    · rw [named]
      exact Ne.symm other
  · intro r member
    rw [gains.reserved] at member
    exact holds.proper r (mem_drop.mp member).1

theorem toList_default (n : Nat) : hasHLAPrefix ("HLAObject_" ++ toString n) = true := by
  simp [hasHLAPrefix, String.toList_append]

/-- A reserved name is the name of an instance only when it was asked for. -/
theorem instanceName_reserved (holds : s.NamesInvariant) {r : String × FederateHandle}
    (member : r ∈ s.root.reservedNames) : r.1 = s.instanceName name ↔ r.1 = name := by
  obtain ⟨nonempty, ordinary⟩ := holds.proper r member
  unfold instanceName
  split
  · rename_i empty
    rw [empty]
    constructor
    · intro equal
      rw [equal, toList_default] at ordinary
      cases ordinary
    · exact fun equal => absurd equal nonempty
  · rfl

theorem keepsNames_of_gains (holds : s.NamesInvariant) {e : NameEvent}
    (gains : s.Gains (naming s e).1 fed (s.instanceName name))
    (registers : registration e = some (fed, name)) (success : accepted (naming s e).2 = true) :
    s.KeepsNames e := by
  have owned : ∀ r ∈ s.root.reservedNames, r.1 = s.instanceName name → r.2 = fed := by
    intro r member named
    exact holds.reservation member (by rw [named]; exact gains.free)
  refine ⟨(holds.gain gains).sound, fun o' member fresh r reserved named => ?_,
    fun r member => ?_, fun _ refused => ?_⟩
  · rcases gains.each member with ⟨o, belongs, handle, _⟩ | new
    · exact absurd (handle ▸ List.mem_map_of_mem belongs) fresh
    · rw [gains.owner o' member fresh]
      exact owned r reserved (named.trans new)
  · have gone : r ∉ (naming s e).1.root.reservedNames ↔ r.1 = s.instanceName name := by
      rw [gains.reserved, mem_drop]
      simp [member]
    rw [gone, registers, success]
    constructor
    · intro named
      rw [owned r member named, (instanceName_reserved holds member).mp named]
      exact ⟨rfl, rfl⟩
    · rintro ⟨equal, _⟩
      cases equal
      exact (instanceName_reserved holds member).mpr rfl
  · rw [success] at refused
    cases refused

/-- An event that is refused and leaves instances and reservations alone. -/
theorem keepsNames_of_refused (holds : s.NamesInvariant) {e : NameEvent}
    (root : (naming s e).1.root = s.root) (perName : (naming s e).1.perName = s.perName)
    (refused : accepted (naming s e).2 = false) : s.KeepsNames e := by
  have shrinks : s.Shrinks (naming s e).1 :=
    shrinks_of_kept holds (by rw [root]; exact holds.tidy) (by rw [root]; exact .refl _) perName
  refine ⟨(holds.shrink shrinks).sound, fun o' member fresh => ?_, fun r member => ?_,
    fun _ _ => ⟨by rw [root], perName, by rw [root]⟩⟩
  · obtain ⟨o, belongs, handle, _⟩ := shrinks.earlier member
    exact absurd (handle ▸ List.mem_map_of_mem belongs) fresh
  · rw [shrinks.reserved, refused]
    simp [member]

theorem registerObject_refused
    (refused : s.root.admitsObject s.perName fed classHandle s.federation.nextObject
      (s.instanceName name) = false) :
    (s.registerObject fed classHandle name).state.root = s.root ∧
      (s.registerObject fed classHandle name).state.perName = s.perName ∧
      ∃ e, (s.registerObject fed classHandle name).error = some e := by
  obtain ⟨e, outcome⟩ := RootObject.registerNamed_refused refused
  simp only [registerObject, outcome, Outcome.refused]
  exact ⟨trivial, trivial, e, rfl⟩

/-- An admitted registration, with the instance that both maps get. -/
theorem registerObject_admitted (holds : s.NamesInvariant)
    (admitted : s.root.admitsObject s.perName fed classHandle s.federation.nextObject
      (s.instanceName name) = true) :
    ∃ c, s.root.class? classHandle = some c ∧
      (s.registerObject fed classHandle name).error = none ∧
      (s.registerObject fed classHandle name).state.root.regions = s.root.regions ∧
      (s.registerObject fed classHandle name).state.root.object? s.federation.nextObject =
        some (RootObject.newInstance c fed classHandle s.federation.nextObject
          (s.instanceName name)) ∧
      s.Gains (s.registerObject fed classHandle name).state fed (s.instanceName name) := by
  have tidy : (s.registerObject fed classHandle name).state.root.Tidy :=
    perform_tidy holds.tidy holds.agree (.registerObject fed classHandle name)
  obtain ⟨c, sent, registers⟩ := RootObject.registerNamed_admitted admitted
  have objects : (s.registerObject fed classHandle name).state.root.objects =
      s.root.objects ++ [RootObject.newInstance c fed classHandle s.federation.nextObject
        (s.instanceName name)] := by
    simp only [registerObject, registers.outcome]
    rfl
  refine ⟨c, registers.found, ?_, ?_, ?_, tidy, ?_, ?_, ?_, ?_, registers.freshName,
    registers.free⟩
  · simp only [registerObject, registers.outcome, Outcome.done]
  · simp only [registerObject, registers.outcome]
    rfl
  · have member : RootObject.newInstance c fed classHandle s.federation.nextObject
        (s.instanceName name) ∈ (s.registerObject fed classHandle name).state.root.objects := by
      rw [objects]
      exact List.mem_append_right _ List.mem_cons_self
    exact lookup_of_nodup tidy.distinct.objects member
  · rw [objects, List.map_append]
    rfl
  · intro o member fresh
    rw [objects] at member
    rcases List.mem_append.mp member with earlier | new
    · exact absurd (List.mem_map_of_mem earlier) fresh
    · rw [List.mem_singleton.mp new]
      rfl
  · simp only [registerObject, registers.outcome]
  · simp only [registerObject, registers.outcome]
    rfl

/-- Nothing afterwards depends on whether the region and the attributes were there. -/
theorem associateRegistered_names (distinct : s.root.Distinct) (object : ObjectHandle)
    (region : RegionHandle) (hs : List AttributeHandle) (sent : Responses) :
    (s.associateRegistered object region hs sent).state.root =
        (s.root.associate object region hs).state ∧
      (s.associateRegistered object region hs sent).state.perName = s.perName ∧
      (s.associateRegistered object region hs sent).error =
        (s.root.associate object region hs).error ∧
      s.root.NamesKept (s.associateRegistered object region hs sent).state.root := by
  have kept := RootObject.namesKept_rewrites distinct
    (RootObject.associate_cases s.root object region hs) fun _ _ same => ⟨same.handle, same.name⟩
  have same : (s.associateRegistered object region hs sent).state =
      { s with federation.root := (s.root.associate object region hs).state } ∧
        (s.associateRegistered object region hs sent).error =
          (s.root.associate object region hs).error := by
    unfold associateRegistered
    dsimp only [root]
    cases (s.federation.root.associate object region hs).error <;> exact ⟨rfl, rfl⟩
  rw [same.1, same.2]
  exact ⟨rfl, rfl, rfl, kept⟩

theorem registerObjectWithRegion_refused (region : RegionHandle) (hs : List AttributeHandle)
    (refused : (s.federation.check fed && s.root.admitsObject s.perName fed classHandle
      s.federation.nextObject (s.instanceName name)) = false) :
    (s.registerObjectWithRegion fed classHandle name region hs).state.root = s.root ∧
      (s.registerObjectWithRegion fed classHandle name region hs).state.perName = s.perName ∧
      ∃ e, (s.registerObjectWithRegion fed classHandle name region hs).error = some e := by
  unfold registerObjectWithRegion
  cases member : s.federation.check fed with
  | false => exact ⟨rfl, rfl, _, rfl⟩
  | true =>
    rw [member, Bool.true_and] at refused
    obtain ⟨root, perName, e, failed⟩ := registerObject_refused refused
    simp only [if_true, failed]
    exact ⟨root, perName, e, rfl⟩

/-- An admitted registration with region gains the instance, whether or not the region and the
attributes are then found. -/
theorem registerObjectWithRegion_admitted (holds : s.NamesInvariant) (region : RegionHandle)
    (hs : List AttributeHandle) (member : s.federation.check fed = true)
    (admitted : s.root.admitsObject s.perName fed classHandle s.federation.nextObject
      (s.instanceName name) = true) :
    s.Gains (s.registerObjectWithRegion fed classHandle name region hs).state fed
        (s.instanceName name) ∧
      ((s.registerObjectWithRegion fed classHandle name region hs).error = none ↔
        (s.root.region? region).isSome = true ∧
          (s.root.class? classHandle).any (fun c => hs.all c.hasAttribute) = true) := by
  have tidy : (s.registerObjectWithRegion fed classHandle name region hs).state.root.Tidy :=
    perform_tidy holds.tidy holds.agree (.registerObjectWithRegion fed classHandle name region hs)
  obtain ⟨c, found, accepted, regions, instance', gains⟩ := registerObject_admitted holds admitted
  obtain ⟨root, perName, error, kept⟩ := associateRegistered_names gains.tidy.distinct
    s.federation.nextObject region hs (s.registerObject fed classHandle name).sent
  have whole : s.registerObjectWithRegion fed classHandle name region hs =
      (s.registerObject fed classHandle name).state.associateRegistered s.federation.nextObject
        region hs (s.registerObject fed classHandle name).sent := by
    simp only [registerObjectWithRegion, member, if_true, accepted]
  rw [whole] at tidy ⊢
  constructor
  · refine ⟨tidy, ?_, ?_, ?_, ?_, gains.fresh, gains.free⟩
    · rw [kept.entries, gains.entries]
    · intro o' belongs fresh
      rw [root] at belongs
      obtain ⟨o, earlier, handle, _, owner⟩ := RootObject.associate_member _ _ _ _ o' belongs
      rw [owner]
      exact gains.owner o earlier (handle ▸ fresh)
    · rw [perName, gains.perName]
    · rw [kept.reserved, gains.reserved]
  · rw [error, RootObject.associate_registered instance' regions, found, Option.any_some]

/-! ## One event -/

theorem reservation_named (name : String) :
    s.root.reserveObjectInstanceName s.perName fed name = (s.root, false) ∨
      (name ≠ "" ∧ hasHLAPrefix name = false ∧ s.root.getObjectByName s.perName name = none ∧
        lookup Prod.fst name s.root.reservedNames = none ∧
        s.root.reserveObjectInstanceName s.perName fed name =
          ({ s.root with reservedNames := s.root.reservedNames ++ [(name, fed)] }, true)) := by
  unfold RootObject.reserveObjectInstanceName
  split
  · exact .inl rfl
  · rename_i nonempty
    split
    · exact .inl rfl
    · rename_i ordinary
      split
      · exact .inl rfl
      · rename_i unused
        split
        · exact .inl rfl
        · rename_i unreserved
          rw [Bool.not_eq_true, Option.isSome_eq_false_iff, Option.isNone_iff_eq_none]
            at unused unreserved
          exact .inr ⟨nonempty, Bool.eq_false_of_not_eq_true ordinary, unused, unreserved, rfl⟩

/-- A reservation is of a name that no instance has. -/
theorem NamesInvariant.reserve (holds : s.NamesInvariant) (nonempty : name ≠ "")
    (ordinary : hasHLAPrefix name = false)
    (unused : s.root.getObjectByName s.perName name = none)
    (unreserved : lookup Prod.fst name s.root.reservedNames = none) :
    NamesInvariant { s with federation.root := { s.root with
      reservedNames := s.root.reservedNames ++ [(name, fed)] } } := by
  have unnamed : ∀ o ∈ s.root.objects, o.name ≠ name := by
    intro o member named
    have found := (holds.sound.byName name o).mpr
      ⟨lookup_of_nodup holds.tidy.distinct.objects member, named⟩
    rw [unused] at found
    cases found
  refine ⟨⟨⟨holds.tidy.distinct.classes, holds.tidy.distinct.objects⟩, holds.tidy.below,
    holds.tidy.classed⟩, holds.agree, holds.names, ?_, ?_, ?_⟩
  · dsimp only [root]
    rw [List.map_append, List.nodup_append]
    refine ⟨holds.keys, by simp, fun a listed b new => ?_⟩
    obtain ⟨r, member, rfl⟩ := List.mem_map.mp listed
    rw [List.mem_singleton.mp new]
    exact lookup_eq_none.mp unreserved r member
  · intro r member o belongs
    rcases List.mem_append.mp member with earlier | new
    · exact holds.reserved r earlier o belongs
    · rw [List.mem_singleton.mp new]
      exact unnamed o belongs
  · intro r member
    rcases List.mem_append.mp member with earlier | new
    · exact holds.proper r earlier
    · rw [List.mem_singleton.mp new]
      exact ⟨nonempty, ordinary⟩

theorem naming_crashed {e : NameEvent} (crashed : s.federation.crashed = true) :
    naming s e = (s, .event ([], some .networkError)) := by
  unfold naming
  rw [if_pos crashed]

theorem naming_event {e : Event} (live : s.federation.crashed = false) :
    naming s (.event e) =
      ((s.perform e).state, .event ((s.perform e).sent, (s.perform e).error)) := by
  unfold naming
  rw [if_neg (by simp [live])]

theorem naming_reserve (live : s.federation.crashed = false) :
    naming s (.reserveObjectInstanceName fed name) =
      ({ s with federation.root :=
          (s.root.reserveObjectInstanceName s.perName fed name).1 },
        .reservation (s.root.reserveObjectInstanceName s.perName fed name).2) := by
  unfold naming
  rw [if_neg (by simp [live])]

/-- What became of the names: nothing was registered, the registration was refused, or it gained
its instance. -/
inductive NamesStep (s : NamedFederation) (e : NameEvent) : Prop where
  | shrinks (step : s.Shrinks (naming s e).1) (registers : registration e = none)
  | refused (root : (naming s e).1.root = s.root) (perName : (naming s e).1.perName = s.perName)
      (failed : accepted (naming s e).2 = false) (whole : s.RegistersWholly e)
  | gains (fed : FederateHandle) (name : String)
      (step : s.Gains (naming s e).1 fed (s.instanceName name))
      (registers : registration e = some (fed, name))
      (answered : accepted (naming s e).2 = true ↔ s.RegistersWholly e)
  | reserves (fed : FederateHandle) (name : String) (registers : registration e = none)
      (holds : (naming s e).1.NamesInvariant)
      (objects : (naming s e).1.root.objects = s.root.objects)
      (reserved : (naming s e).1.root.reservedNames = s.root.reservedNames ++ [(name, fed)])

theorem isNone_false_of_some {α : Type*} {o : Option α} {a : α} (found : o = some a) :
    o.isNone = false := by
  rw [found]
  rfl

theorem registerObject_step (holds : s.NamesInvariant) (live : s.federation.crashed = false)
    (fed : FederateHandle) (c : ObjectClassHandle) (name : String) :
    s.NamesStep (.event (.registerObject fed c name)) := by
  have step : naming s (.event (.registerObject fed c name)) =
      ((s.registerObject fed c name).state, .event ((s.registerObject fed c name).sent,
        (s.registerObject fed c name).error)) := naming_event live
  cases admitted : s.root.admitsObject s.perName fed c s.federation.nextObject
      (s.instanceName name) with
  | false =>
    obtain ⟨root, perName, e, failed⟩ := registerObject_refused admitted
    refine .refused ?_ ?_ ?_ trivial
    · rw [step]
      exact root
    · rw [step]
      exact perName
    · rw [step]
      exact isNone_false_of_some failed
  | true =>
    obtain ⟨_, _, accepts, _, _, gains⟩ := registerObject_admitted holds admitted
    refine .gains fed name ?_ rfl ?_
    · rw [step]
      exact gains
    · rw [step]
      simp [accepted, accepts, RegistersWholly]

theorem registerObjectWithRegion_step (holds : s.NamesInvariant)
    (live : s.federation.crashed = false) (fed : FederateHandle) (c : ObjectClassHandle)
    (name : String) (region : RegionHandle) (hs : List AttributeHandle) :
    s.NamesStep (.event (.registerObjectWithRegion fed c name region hs)) := by
  have step : naming s (.event (.registerObjectWithRegion fed c name region hs)) =
      ((s.registerObjectWithRegion fed c name region hs).state,
        .event ((s.registerObjectWithRegion fed c name region hs).sent,
          (s.registerObjectWithRegion fed c name region hs).error)) := naming_event live
  cases admitted : s.federation.check fed && s.root.admitsObject s.perName fed c
      s.federation.nextObject (s.instanceName name) with
  | false =>
    obtain ⟨root, perName, e, failed⟩ := registerObjectWithRegion_refused _ _ admitted
    refine .refused ?_ ?_ ?_ ?_
    · rw [step]
      exact root
    · rw [step]
      exact perName
    · rw [step]
      exact isNone_false_of_some failed
    · intro _ member admits
      rw [member, admits] at admitted
      cases admitted
  | true =>
    obtain ⟨member, admits⟩ := Bool.and_eq_true_iff.mp admitted
    obtain ⟨gains, answered⟩ := registerObjectWithRegion_admitted holds _ _ member admits
    refine .gains fed name ?_ rfl ?_
    · rw [step]
      exact gains
    · rw [step]
      simp only [accepted, Option.isNone_iff_eq_none]
      rw [answered]
      exact ⟨fun whole _ _ _ => whole, fun whole => whole live member admits⟩

theorem reserve_step (holds : s.NamesInvariant) (live : s.federation.crashed = false)
    (fed : FederateHandle) (name : String) :
    s.NamesStep (.reserveObjectInstanceName fed name) := by
  rcases @reservation_named s fed name with
    refused | ⟨nonempty, ordinary, unused, unreserved, reserves⟩
  · have same : (naming s (.reserveObjectInstanceName fed name)).1 = s := by
      rw [naming_reserve live, refused]
    refine .shrinks ?_ rfl
    rw [same]
    exact shrinks_of_kept holds holds.tidy (.refl _) rfl
  · have step := @naming_reserve s fed name live
    rw [reserves] at step
    refine .reserves fed name rfl ?_ ?_ ?_
    · rw [step]
      exact holds.reserve nonempty ordinary unused unreserved
    · rw [step]
    · rw [step]

theorem names_step (holds : s.NamesInvariant) (e : NameEvent) : s.NamesStep e := by
  cases crashed : s.federation.crashed with
  | true =>
    have same := naming_crashed (e := e) crashed
    cases registers : registration e with
    | none =>
      refine .shrinks ?_ registers
      rw [same]
      exact shrinks_of_kept holds holds.tidy (.refl _) rfl
    | some r =>
      refine .refused (by rw [same]) (by rw [same]) (by rw [same]; rfl) ?_
      unfold RegistersWholly
      split
      · exact fun live => absurd (crashed.symm.trans live) (by decide)
      · trivial
  | false =>
    cases e with
    | reserveObjectInstanceName fed name => exact reserve_step holds crashed fed name
    | event e =>
      cases registers : registration (.event e) with
      | none =>
        refine .shrinks ?_ registers
        rw [naming_event crashed]
        exact perform_shrinks holds registers
      | some r =>
        cases e with
        | registerObject fed c name => exact registerObject_step holds crashed fed c name
        | registerObjectWithRegion fed c name region hs =>
          exact registerObjectWithRegion_step holds crashed fed c name region hs
        | _ => cases registers

theorem naming_invariant (holds : s.NamesInvariant) (e : NameEvent) :
    (naming s e).1.NamesInvariant := by
  rcases names_step holds e with ⟨shrinks, _⟩ | ⟨root, perName, _, _⟩ | ⟨_, _, gains, _, _⟩ |
    ⟨_, _, _, after, _, _⟩
  · exact holds.shrink shrinks
  · have tidy : (naming s e).1.root.Tidy := by
      rw [root]
      exact holds.tidy
    exact holds.shrink (shrinks_of_kept holds tidy (by rw [root]; exact .refl _) perName)
  · exact holds.gain gains
  · exact after

/-- An event keeps the names as it should exactly when it registers with a region and attributes
that are there. -/
theorem keepsNames_iff (holds : s.NamesInvariant) (e : NameEvent) :
    s.KeepsNames e ↔ s.RegistersWholly e := by
  have quiet : registration e = none → s.RegistersWholly e := by
    intro registers
    unfold RegistersWholly
    split
    · cases registers
    · trivial
  rcases names_step holds e with ⟨shrinks, registers⟩ | ⟨root, perName, failed, whole⟩ |
    ⟨fed, name, gains, registers, answered⟩ | ⟨fed, name, registers, after, objects, reserved⟩
  · exact iff_of_true (keepsNames_of_shrinks holds shrinks registers) (quiet registers)
  · exact iff_of_true (keepsNames_of_refused holds root perName failed) whole
  · rw [← answered]
    constructor
    · intro keeps
      refine Bool.eq_true_of_not_eq_false fun failed => ?_
      have same := (keeps.failed (by rw [registers]; rfl) failed).1
      have entries := congrArg List.length gains.entries
      simp [same] at entries
    · exact keepsNames_of_gains holds gains registers
  · refine iff_of_true ⟨after.sound, fun o member fresh => ?_, fun r member => ?_, ?_⟩
      (quiet registers)
    · rw [objects] at member
      exact absurd (List.mem_map_of_mem member) fresh
    · rw [reserved, registers]
      simp [member]
    · simp [registers]

/-! ## Every run -/

/-- A federation just created, before the instances of its MOM. -/
def create (fom : Fom) (withMom haveXml : Bool) : NamedFederation :=
  ⟨Federation.create fom withMom haveXml, []⟩

theorem create_names (fom : Fom) (withMom haveXml : Bool) :
    (create fom withMom haveXml).NamesInvariant := by
  have keeps := create_keeps fom withMom haveXml
  have objects : (create fom withMom haveXml).root.objects = [] := rfl
  have reservations : (create fom withMom haveXml).root.reservedNames = [] := rfl
  refine ⟨keeps.1, ?_, ?_, ?_, ?_, ?_⟩
  · rw [RootObject.NamesAgree, objects]
    rfl
  · simp [objects]
  · simp [reservations]
  · simp [reservations]
  · simp [reservations]

/-- Over every run names are unique, either map has every instance, and reservations are kept and
end as they should, exactly when the registrations with a region find what they name. -/
theorem names_kept_iff (fom : Fom) (withMom haveXml : Bool) (es : List NameEvent) :
    naming.Meets KeepsNames (create fom withMom haveXml) es ↔
      naming.Meets RegistersWholly (create fom withMom haveXml) es := by
  have same : ∀ (s : NamedFederation) e, s.NamesInvariant →
      (s.KeepsNames e ↔ s.RegistersWholly e) := fun _ e holds => keepsNames_iff holds e
  have step : ∀ (s : NamedFederation) e, s.NamesInvariant → s.KeepsNames e →
      (naming s e).1.NamesInvariant := fun _ e holds _ => naming_invariant holds e
  exact naming.meets_congr same step (create_names fom withMom haveXml) es

/-- A reservation, and a registration under the name with a region that does not exist. -/
def registersInRegion : List NameEvent :=
  [.event (joinAs "a"), .event (.publishObject 1 1 [2] true),
    .reserveObjectInstanceName 1 "x", .event (.registerObjectWithRegion 1 1 "x" 7 [])]

/-- The registration is refused; the instance is there all the same, and the reservation gone. -/
theorem registration_left_behind :
    ¬ ∀ (fom : Fom) (withMom haveXml : Bool) (es : List NameEvent),
      naming.Meets KeepsNames (create fom withMom haveXml) es := by
  intro always
  have meets := always smallFom false true registersInRegion
  simp only [registersInRegion, Machine.meets_cons] at meets
  have failed := meets.2.2.2.1.failed rfl (by decide +kernel)
  have same := congrArg List.length failed.1
  exact absurd same (by decide +kernel)

end NamedFederation

end Certi
