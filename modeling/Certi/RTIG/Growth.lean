import Certi.LibCERTI.FomCompatibility
import Certi.LibCERTI.Killing
import Certi.RTIG.Trees

/-!
# A federation whose class tree grows

`Federation::openFomModules` reads FOM modules when the federation is created
and when a federate joins with modules of its own; between two modules the
federation is served as in `RegionRuns.lean`. The maps of the class set are by
handle, and a class that comes with a handle that is taken replaces the class
that had it: the instances of the replaced class stay in the object set but are
no longer found in a class.
-/
namespace Certi

open Keyed Ascending Course Runs Federation

/-- The levels of the classes and attributes of a module, by the full name of the class. -/
structure Levels where
  ofClass : String → SecurityLevelID
  ofAttribute : String → AttributeHandle → SecurityLevelID
  ofInteraction : String → SecurityLevelID

namespace Levels

/-- A class as its reader leaves it: nobody has published or subscribed yet. -/
def objectClass (levels : Levels) (c : Modules.ClassEntry Unit Modules.Attribute) :
    ObjectClass where
  handle := c.handle
  superClass := c.superClass
  securityLevelId := levels.ofClass c.name
  attributes := c.members.map fun m =>
    { handle := m.1, name := m.2.name, level := levels.ofAttribute c.name m.1
      publishers := ∅, subscribers := [] }
  maxSubscriberHandle := 0

def interaction (levels : Levels) (i : Modules.ClassEntry Modules.Delivery Modules.Parameter) :
    Interaction where
  handle := i.handle
  superClass := i.superClass
  securityLevelId := levels.ofInteraction i.name
  parameters := i.members.map Prod.fst
  publishers := ∅
  subscribers := []

end Levels

/-- `hidden` are the instances whose class has been replaced. -/
structure GrowingFederation where
  federation : Federation
  fom : Modules.RootObject
  hidden : List ObjectHandle

namespace GrowingFederation

def root (s : GrowingFederation) : RootObject := s.federation.root

/-- What `fom` has beyond `old`, in the order in which it was read. -/
def newClasses {σ μ : Type} (old fom : Modules.ClassSet σ μ) : List (Modules.ClassEntry σ μ) :=
  (fom.filter fun c => (Modules.named old c.name).isNone).reverse

/-- The class set, once `fom` has been read. -/
def grow (s : GrowingFederation) (fom : Modules.RootObject) (levels : Levels) :
    GrowingFederation :=
  let classes := newClasses s.fom.objectClasses fom.objectClasses
  let interactions := newClasses s.fom.interactions fom.interactions
  { federation := { s.federation with root := { s.root with
      classes := stores ObjectClass.handle s.root.classes (classes.map levels.objectClass)
      interactions :=
        stores Interaction.handle s.root.interactions (interactions.map levels.interaction)
      spaces := fom.spaces.map fun rs => rs.dimensions.length } }
    fom := fom
    hidden := s.hidden ++ (s.root.objects.filter fun o =>
      o.classHandle ∈ classes.map Modules.ClassEntry.handle).map Object.handle }

/-- `openFomModules` for one module: it is read into a temporary root object first, and one that
cannot be added is refused. What makes a MIM a valid one is left out. -/
def openModule (s : GrowingFederation) (isMim : Bool) (doc : Modules.Document) (levels : Levels) :
    GrowingFederation :=
  match Modules.parseModuleInto false doc {} with
  | .error _ _ => s
  | .ok _ temporary =>
    if isMim || (temporary.canBeAddedTo s.fom).toOption.getD false then
      s.grow (Modules.readInto s.fom doc) levels
    else s

/-- A request, where every instance is found in its class. -/
def serve (s : GrowingFederation) (e : RegionEvent) : GrowingFederation :=
  { s with federation := (regional s.federation e).1 }

/-- `Federation::kill`, called once the link is closed, with what the classes then contain. Only
that the federate is no member is caught on the way. -/
def kill (s : GrowingFederation) (fed : FederateHandle) (fuel : Nat) :
    ExceptT RTIException Option (GrowingFederation × List Object) :=
  if s.federation.isJoined fed then do
    let unregulated := ((s.federation.closeLink fed).removeRegulator fed).state
    let killed ← unregulated.root.killFederateRounds s.hidden fed fuel
    return ({ s with federation := ({ unregulated with root := killed.root }.remove fed).state },
      killed.contents)
  else return ({ s with federation := s.federation.closeLink fed }, s.root.objects)

/-- `ObjectClassSet::killFederate`. -/
def killFederate (s : GrowingFederation) (fed : FederateHandle) (fuel : Nat) :
    ExceptT RTIException Option (RootObject × Responses) :=
  s.root.killClassSet s.hidden fed fuel (s.root.classes.map ObjectClass.handle)

end GrowingFederation

/-! ## Runs -/

inductive GrowthEvent where
  | opened (isMim : Bool) (doc : Modules.Document) (levels : Levels)
  | served (e : RegionEvent)
  | killed (fed : FederateHandle)

namespace GrowingFederation

/-- A federation before its first module, with levels for the principals. -/
def created (withMom haveXml : Bool) (principals : List (FederateHandle × SecurityLevelID)) :
    GrowingFederation :=
  let empty := Federation.create ⟨[], [], [], by simp, by simp⟩ withMom haveXml
  { federation := { empty with
      root := { empty.root with server := { empty.root.server with principals := principals } } }
    fom := {}
    hidden := [] }

/-- A kill, of a federate that the socket server has references for, is a step when it returns.
Requests are followed as long as no instance is hidden. -/
inductive Step : GrowingFederation → GrowthEvent → GrowingFederation → Prop
  | opened (s : GrowingFederation) (isMim : Bool) (doc : Modules.Document) (levels : Levels) :
      Step s (.opened isMim doc levels) (s.openModule isMim doc levels)
  | served (s : GrowingFederation) (e : RegionEvent) (other : ∀ fed, e ≠ .event (.kill fed))
      (found : s.hidden = []) : Step s (.served e) (s.serve e)
  | killed (s s' : GrowingFederation) (fed : FederateHandle) (contents : List Object)
      (referenced : s.root.server.hasReferences fed = true)
      (returns : Returns (s.kill fed) (s', contents)) : Step s (.killed fed) s'

/-- The states of the runs whose events all meet a condition. -/
inductive Reached (meets : GrowingFederation → GrowthEvent → Prop) : GrowingFederation → Prop
  | created (withMom haveXml : Bool) (principals : List (FederateHandle × SecurityLevelID)) :
      Reached meets (created withMom haveXml principals)
  | step {s s' : GrowingFederation} {e : GrowthEvent} (reached : Reached meets s)
      (met : meets s e) (next : Step s e s') : Reached meets s'

/-- Every class of the tree has a handle of its own, above that of its superclass. -/
def Numbered (fom : Modules.RootObject) : Prop :=
  (fom.objectClasses.map Modules.ClassEntry.handle).Nodup ∧
    ∀ c ∈ fom.objectClasses, c.superClass < c.handle

instance Numbered.decidable (fom : Modules.RootObject) : Decidable (Numbered fom) :=
  inferInstanceAs (Decidable (_ ∧ _))

/-- A module leaves such a tree behind. -/
def KeepsNumbered (s : GrowingFederation) : GrowthEvent → Prop
  | .opened isMim doc levels => Numbered (s.openModule isMim doc levels).fom
  | _ => True

/-- `ObjectClassSet::killFederate` returns, and no class contains an instance of the federate. -/
def ClassSetCleared (s : GrowingFederation) (fed : FederateHandle) : Prop :=
  ∃ after, Returns (s.killFederate fed) after ∧ ∀ o ∈ after.1.objects, o.owner ≠ fed

/-- `Federation::kill` returns, and no class contains an instance of the federate. -/
def Cleared (s : GrowingFederation) (fed : FederateHandle) : Prop :=
  ∃ s' contents, Returns (s.kill fed) (s', contents) ∧ ∀ o ∈ contents, o.owner ≠ fed

end GrowingFederation

/-! ## The invariant -/

namespace GrowingFederation

open RootObject

variable {s s' : GrowingFederation} {fed : FederateHandle} {fom : Modules.RootObject}

/-- The class set has the handles of the FOM, in order, and every instance is found. -/
structure Lawful (s : GrowingFederation) : Prop where
  sound : s.fom.Sound
  tidy : s.root.Tidy
  rooted : s.root.Rooted
  ascends : Ascends ObjectClass.handle s.root.classes
  handles : ∀ h, h ∈ s.root.classes.map ObjectClass.handle ↔
    h ∈ s.fom.objectClasses.map Modules.ClassEntry.handle
  visible : s.hidden = []

theorem Lawful.sameTree (lawful : s.Lawful) (same : s.root.SameTree s'.root) (tidy : s'.root.Tidy)
    (fom : s'.fom = s.fom) (hidden : s'.hidden = s.hidden) : s'.Lawful := by
  have sorted := List.pairwise_map.mpr lawful.ascends
  rw [← same.handles] at sorted
  refine ⟨fom ▸ lawful.sound, tidy, lawful.rooted.sameTree same, List.pairwise_map.mp sorted, ?_,
    hidden.trans lawful.visible⟩
  intro h
  rw [same.handles, fom]
  exact lawful.handles h

section Growing

variable {old new : Modules.ClassSet Unit Modules.Attribute}

theorem mem_newClasses {c : Modules.ClassEntry Unit Modules.Attribute} :
    c ∈ newClasses old new ↔ c ∈ new ∧ c.name ∉ old.map Modules.ClassEntry.name := by
  unfold newClasses
  rw [List.mem_reverse, List.mem_filter, Option.isNone_iff_eq_none, Modules.named,
    lookup_eq_none]
  simp

/-- An entry of the old tree is in the new one, but for its subclasses. -/
theorem extended (grown : ∀ v ∈ Modules.views old, v ∈ Modules.views new)
    {d : Modules.ClassEntry Unit Modules.Attribute} (member : d ∈ old) :
    ∃ d' ∈ new, d'.handle = d.handle ∧ d'.name = d.name := by
  obtain ⟨d', present, same⟩ := List.mem_map.mp (grown _ (List.mem_map_of_mem member))
  have handle := congrArg Modules.ClassEntry.handle same
  have name := congrArg Modules.ClassEntry.name same
  exact ⟨d', present, handle, name⟩

/-- In a tree with distinct handles a new class has a handle that is not taken. -/
theorem newClasses_fresh (grown : ∀ v ∈ Modules.views old, v ∈ Modules.views new)
    (distinct : (new.map Modules.ClassEntry.handle).Nodup)
    {c : Modules.ClassEntry Unit Modules.Attribute} (member : c ∈ newClasses old new) :
    c.handle ∉ old.map Modules.ClassEntry.handle := by
  intro taken
  obtain ⟨d, before, handle⟩ := List.mem_map.mp taken
  obtain ⟨d', present, handle', name⟩ := extended grown before
  obtain ⟨inside, absent⟩ := mem_newClasses.mp member
  have equal : d' = c := List.inj_on_of_nodup_map distinct present inside (handle'.trans handle)
  rw [← equal, name] at absent
  exact absent (List.mem_map_of_mem before)

theorem newClasses_cover (grown : ∀ v ∈ Modules.views old, v ∈ Modules.views new)
    (names : (new.map Modules.ClassEntry.name).Nodup) (h : Nat) :
    h ∈ new.map Modules.ClassEntry.handle ↔
      h ∈ (newClasses old new).map Modules.ClassEntry.handle ∨
        h ∈ old.map Modules.ClassEntry.handle := by
  constructor
  · intro member
    obtain ⟨c, inside, rfl⟩ := List.mem_map.mp member
    by_cases known : c.name ∈ old.map Modules.ClassEntry.name
    · obtain ⟨d, before, same⟩ := List.mem_map.mp known
      obtain ⟨d', present, handle, name⟩ := extended grown before
      have equal : d' = c := List.inj_on_of_nodup_map names present inside (name.trans same)
      rw [← equal, handle]
      exact .inr (List.mem_map_of_mem before)
    · exact .inl (List.mem_map_of_mem (mem_newClasses.mpr ⟨inside, known⟩))
  · rintro (added | before)
    · obtain ⟨c, member, rfl⟩ := List.mem_map.mp added
      exact List.mem_map_of_mem (mem_newClasses.mp member).1
    · obtain ⟨d, member, rfl⟩ := List.mem_map.mp before
      obtain ⟨d', present, handle, _⟩ := extended grown member
      rw [← handle]
      exact List.mem_map_of_mem present

end Growing

/-- Classes with handles of their own replace no class. -/
theorem Lawful.grow (lawful : s.Lawful) (sound : fom.Sound) (grown : s.fom.Extends fom)
    (numbered : Numbered fom) (levels : Levels) : (s.grow fom levels).Lawful := by
  generalize listed : newClasses s.fom.objectClasses fom.objectClasses = new
  have fresh : ∀ c ∈ new, c.handle ∉ s.root.classes.map ObjectClass.handle := by
    intro c member taken
    rw [← listed] at member
    exact newClasses_fresh grown.objectClasses numbered.1 member ((lawful.handles _).mp taken)
  have distinct : ((new.map levels.objectClass).map ObjectClass.handle).Nodup := by
    have whole := List.nodup_reverse.mpr numbered.1
    rw [← List.map_reverse] at whole
    rw [List.map_map, ← listed]
    exact whole.sublist (List.filter_sublist.reverse.map _)
  have table : (s.grow fom levels).root.classes =
      stores ObjectClass.handle s.root.classes (new.map levels.objectClass) := by
    rw [← listed]
    rfl
  have entered : ∀ c', c' ∈ (s.grow fom levels).root.classes ↔
      (∃ c ∈ new, levels.objectClass c = c') ∨ c' ∈ s.root.classes := by
    intro c'
    rw [table, mem_stores distinct lawful.ascends, List.mem_map]
    constructor
    · rintro (added | ⟨old, _⟩)
      · exact .inl added
      · exact .inr old
    · rintro (added | old)
      · exact .inl added
      · refine .inr ⟨old, fun taken => ?_⟩
        rw [List.map_map] at taken
        obtain ⟨c, member, same⟩ := List.mem_map.mp taken
        have handle : c'.handle = c.handle := same.symm
        exact fresh c member (handle ▸ List.mem_map_of_mem old)
  have handles : ∀ h, h ∈ (s.grow fom levels).root.classes.map ObjectClass.handle ↔
      h ∈ fom.objectClasses.map Modules.ClassEntry.handle := by
    have names : (fom.objectClasses.map Modules.ClassEntry.name).Nodup := by
      have names := sound.objectClasses.names
      rwa [List.map_map] at names
    intro h
    rw [newClasses_cover grown.objectClasses names, listed, ← lawful.handles, List.mem_map]
    constructor
    · rintro ⟨c', member, rfl⟩
      rcases (entered c').mp member with ⟨c, added, rfl⟩ | old
      · exact .inl (List.mem_map_of_mem (f := Modules.ClassEntry.handle) added)
      · exact .inr (List.mem_map_of_mem old)
    · rintro (added | old)
      · obtain ⟨c, member, rfl⟩ := List.mem_map.mp added
        exact ⟨levels.objectClass c, (entered _).mpr (.inl ⟨c, member, rfl⟩), rfl⟩
      · obtain ⟨c', member, same⟩ := List.mem_map.mp old
        exact ⟨c', (entered c').mpr (.inr member), same⟩
  have ascends : Ascends ObjectClass.handle (s.grow fom levels).root.classes :=
    table ▸ ascends_stores _ lawful.ascends
  have below : ∀ c' ∈ (s.grow fom levels).root.classes, c'.superClass < c'.handle := by
    intro c' member
    rcases (entered c').mp member with ⟨c, added, rfl⟩ | old
    · rw [← listed] at added
      exact numbered.2 c (mem_newClasses.mp added).1
    · exact lawful.tidy.below c' old
  have tidy : (s.grow fom levels).root.Tidy := by
    refine ⟨⟨ascends.nodup_keys, lawful.tidy.distinct.objects⟩, below, fun o member => ?_⟩
    have classed := lawful.tidy.classed o member
    rw [List.mem_map] at classed ⊢
    obtain ⟨c', inside, same⟩ := classed
    exact ⟨c', (entered c').mpr (.inr inside), same⟩
  have known : ∀ c' ∈ (s.grow fom levels).root.classes, c'.superClass = 0 ∨
      ((s.grow fom levels).root.class? c'.superClass).isSome = true := by
    have found : ∀ h, h ∈ fom.objectClasses.map Modules.ClassEntry.handle →
        ((s.grow fom levels).root.class? h).isSome = true := by
      intro h member
      obtain ⟨c', inside, rfl⟩ := List.mem_map.mp ((handles h).mpr member)
      rw [show (s.grow fom levels).root.class? c'.handle = some c' from
        lookup_of_nodup ascends.nodup_keys inside]
      rfl
    intro c' member
    by_cases top : c'.superClass = 0
    · exact .inl top
    · right
      apply found
      rcases (entered c').mp member with ⟨c, added, rfl⟩ | old
      · rw [← listed] at added
        obtain ⟨v, parent, handle, _⟩ := sound.objectClasses.parents (Modules.view c)
          (List.mem_map_of_mem (mem_newClasses.mp added).1) top
        obtain ⟨p, present, rfl⟩ := List.mem_map.mp parent
        exact List.mem_map.mpr ⟨p, present, handle⟩
      · obtain ⟨p, located⟩ := Option.isSome_iff_exists.mp
          ((lawful.rooted.known c' old).resolve_left top)
        refine (handles _).mp (List.mem_map.mpr ⟨p, ?_, lookup_key located⟩)
        exact (entered p).mpr (.inr (lookup_mem located))
  refine ⟨sound, tidy, ⟨⟨ascends.nodup_keys, below⟩, known⟩, ascends, handles, ?_⟩
  -- no instance is of a class with one of the new handles
  have none : (s.root.objects.filter fun o =>
      o.classHandle ∈ new.map Modules.ClassEntry.handle) = [] := by
    rw [List.filter_eq_nil_iff]
    intro o member taken
    rw [decide_eq_true_eq] at taken
    obtain ⟨c, added, same⟩ := List.mem_map.mp taken
    exact fresh c added (same ▸ lawful.tidy.classed o member)
  change s.hidden ++ (s.root.objects.filter _).map Object.handle = []
  rw [listed, none, lawful.visible]
  rfl

theorem Lawful.openModule (lawful : s.Lawful) (isMim : Bool) (doc : Modules.Document)
    (levels : Levels) (numbered : Numbered (s.openModule isMim doc levels).fom) :
    (s.openModule isMim doc levels).Lawful := by
  unfold GrowingFederation.openModule at numbered ⊢
  split
  · exact lawful
  · rename_i read
    rw [read] at numbered
    dsimp only at numbered
    split
    · rename_i accepted
      rw [if_pos accepted] at numbered
      obtain ⟨sound, grown⟩ := Modules.readInto_grown lawful.sound doc
      exact lawful.grow sound grown numbered levels
    · exact lawful

theorem Lawful.serve (lawful : s.Lawful) (e : RegionEvent) : (s.serve e).Lawful := by
  have outcome : (s.serve e).federation = s.federation ∨
      (s.serve e).federation = (s.federation.performRegion e).state := by
    unfold GrowingFederation.serve regional
    split
    · exact .inl rfl
    · exact .inr rfl
  have reached : ∀ f : Federation, (s.serve e).federation = f → (s.serve e).root = f.root :=
    fun _ same => congrArg Federation.root same
  rcases outcome with same | served
  · have kept : (s.serve e).root = s.root := reached _ same
    exact lawful.sameTree (sameTree_of_eq (by rw [kept])) (kept ▸ lawful.tidy) rfl rfl
  · have changed := reached _ served
    exact lawful.sameTree (changed ▸ performRegion_sameTree lawful.tidy e)
      (changed ▸ performRegion_tidy lawful.tidy e) rfl rfl

theorem created_lawful (withMom haveXml : Bool)
    (principals : List (FederateHandle × SecurityLevelID)) :
    (created withMom haveXml principals).Lawful := by
  refine ⟨Modules.built_sound [], ⟨⟨List.nodup_nil, List.nodup_nil⟩, ?_, ?_⟩,
    ⟨⟨List.nodup_nil, ?_⟩, ?_⟩, List.Pairwise.nil, fun h => Iff.rfl, rfl⟩
  all_goals
    intro x member
    cases member

/-! ## Killing -/

theorem killFederate_returns (lawful : s.Lawful)
    (referenced : s.root.server.hasReferences fed = true) : s.ClassSetCleared fed := by
  have known : ∀ h ∈ s.root.classes.map ObjectClass.handle, (s.root.class? h).isSome = true := by
    intro h member
    obtain ⟨c, inside, rfl⟩ := List.mem_map.mp member
    rw [show s.root.class? c.handle = some c from
      lookup_of_nodup lawful.rooted.forest.distinct inside]
    rfl
  refine ⟨_, ?_, killClasses_owners lawful.rooted lawful.tidy.distinct.objects lawful.tidy.classed⟩
  have returns := killClassSet_returns (s.root.classes.map ObjectClass.handle) lawful.rooted
    lawful.tidy.distinct.objects referenced known
  exact Returns.congr (fun fuel => by rw [killFederate, lawful.visible]) returns

/-- A member is killed as the closed form of `RootObject.killFederate` says. -/
theorem kill_member (lawful : s.Lawful) (referenced : s.root.server.hasReferences fed = true)
    (joined : s.federation.isJoined fed = true) :
    ∃ s' contents, Returns (s.kill fed) (s', contents) ∧ s'.Lawful ∧
      ∀ o ∈ contents, o.owner ≠ fed := by
  generalize unregulated : ((s.federation.closeLink fed).removeRegulator fed).state = f
  have root : f.root = (s.federation.closeLink fed).root := by
    rw [← unregulated]
    exact (sameMembers_of_timeless (removeRegulator_timeless _ fed)).root
  have closed : s.root.SameTree f.root := sameTree_of_eq (by rw [root]; rfl)
  have tidy : f.root.Tidy := by
    rw [root]
    exact ⟨⟨lawful.tidy.distinct.classes, lawful.tidy.distinct.objects⟩, lawful.tidy.below,
      lawful.tidy.classed⟩
  have rooted := lawful.rooted.sameTree closed
  have reachable : f.root.server.hasReferences fed = true := by
    rw [root]
    exact referenced
  have killed := killFederateRounds_returns rooted tidy.distinct.objects reachable
  refine ⟨{ s with federation :=
      ({ f with root := (f.root.killFederate fed).1 }.remove fed).state }, _, ?_, ?_, killClasses_owners rooted tidy.distinct.objects tidy.classed⟩
  · refine Returns.congr (fun fuel => ?_) (Returns.bind
      (f := fun killed _ => pure
        ({ s with federation := ({ f with root := killed.root }.remove fed).state },
          killed.contents)) killed (Returns.pure _))
    rw [kill, if_pos joined, unregulated, lawful.visible]
  · have removed : ∀ g : Federation, (g.remove fed).state.root = g.root := by
      intro g
      rcases remove_cases g fed with refused | ⟨_, done⟩
      · rw [refused]
        rfl
      · rw [done]
        rfl
    refine lawful.sameTree (closed.trans ?_) ?_ rfl rfl
    · change f.root.SameTree (Federation.remove _ fed).state.root
      rw [removed]
      exact killFederate_sameTree tidy.distinct fed
    · change (Federation.remove _ fed).state.root.Tidy
      rw [removed]
      exact (keeps_kill tidy fed).1

/-- For any other federate there is nothing to do. -/
theorem kill_outsider (outsider : s.federation.isJoined fed = false) :
    Returns (s.kill fed)
      ({ s with federation := s.federation.closeLink fed }, s.root.objects) := by
  refine Returns.congr (fun fuel => ?_) (Returns.pure _)
  rw [kill, if_neg (by rw [outsider]; simp)]

/-! ## Runs -/

theorem Lawful.step {e : GrowthEvent} (lawful : s.Lawful) (met : s.KeepsNumbered e)
    (next : Step s e s') : s'.Lawful := by
  cases next with
  | opened isMim doc levels => exact lawful.openModule isMim doc levels met
  | served e other found => exact lawful.serve e
  | killed _ fed contents referenced returns =>
    cases joined : s.federation.isJoined fed with
    | true =>
      obtain ⟨s'', contents', cleared, after, _⟩ := kill_member lawful referenced joined
      cases returns.unique cleared
      exact after
    | false =>
      cases returns.unique (kill_outsider joined)
      exact lawful.sameTree (sameTree_of_eq rfl) ⟨⟨lawful.tidy.distinct.classes,
        lawful.tidy.distinct.objects⟩, lawful.tidy.below, lawful.tidy.classed⟩ rfl rfl

theorem Reached.lawful (reached : Reached KeepsNumbered s) : s.Lawful := by
  induction reached with
  | created withMom haveXml principals => exact created_lawful withMom haveXml principals
  | step _ met next ih => exact ih.step met next

/-- Where no module brings a handle twice, a kill always returns. It leaves no instance of the
federate in a class, unless the federate has resigned and still owns one. -/
theorem kill_clears_iff (reached : Reached KeepsNumbered s)
    (referenced : s.root.server.hasReferences fed = true) :
    s.ClassSetCleared fed ∧ (∃ s' contents, Returns (s.kill fed) (s', contents)) ∧
      (s.Cleared fed ↔ s.federation.isJoined fed = true ∨ ∀ o ∈ s.root.objects, o.owner ≠ fed) := by
  have lawful := reached.lawful
  refine ⟨killFederate_returns lawful referenced, ?_⟩
  cases joined : s.federation.isJoined fed with
  | true =>
    obtain ⟨s', contents, returns, _, cleared⟩ := kill_member lawful referenced joined
    exact ⟨⟨s', contents, returns⟩, fun _ => .inl rfl, fun _ => ⟨s', contents, returns, cleared⟩⟩
  | false =>
    have returns := kill_outsider joined
    refine ⟨⟨_, _, returns⟩, ?_, ?_⟩
    · rintro ⟨s', contents, others, cleared⟩
      cases others.unique returns
      exact .inr cleared
    · rintro (impossible | nothing)
      · cases impossible
      · exact ⟨_, _, returns, nothing⟩

/-! ## A federate that resigns before its link is lost -/

/-- One class with one attribute. -/
def oneClass : Modules.Document :=
  .xml [] [.objects (.subclass "C" () (.member
    { name := "a", order := Modules.RECEIVE, transport := Modules.RELIABLE } .done) .done)]

def opened : GrowingFederation :=
  (created false true []).openModule false oneClass ⟨fun _ => 0, fun _ _ => 0, fun _ => 0⟩

/-- A federate registers an instance and resigns. -/
def resigned : GrowingFederation :=
  [joinAs "A", .publishObject 1 1 [1] true, .registerObject 1 1 "o", .resign 1].foldl
    (fun s e => s.serve (.event e)) opened

theorem resigned_reached {meets : GrowingFederation → GrowthEvent → Prop}
    (opens : ∀ isMim doc levels,
      Numbered ((created false true []).openModule isMim doc levels).fom →
      meets (created false true []) (.opened isMim doc levels))
    (serves : ∀ s e, meets s (.served e)) : Reached meets resigned := by
  have first : Reached meets opened :=
    (Reached.created false true []).step (opens _ _ _ (by decide +kernel)) (.opened _ _ _ _)
  have joined := first.step (serves _ (.event (joinAs "A"))) (.served _ _ nofun rfl)
  have published := joined.step (serves _ (.event (.publishObject 1 1 [1] true)))
    (.served _ _ nofun rfl)
  have registered := published.step (serves _ (.event (.registerObject 1 1 "o")))
    (.served _ _ nofun rfl)
  exact registered.step (serves _ (.event (.resign 1))) (.served _ _ nofun rfl)

theorem kill_clears_iff_resigned : ¬resigned.Cleared 1 ∧ resigned.ClassSetCleared 1 := by
  have reached : Reached KeepsNumbered resigned :=
    resigned_reached (fun _ _ _ numbered => numbered) fun _ _ => trivial
  have referenced : resigned.root.server.hasReferences 1 = true := by decide +kernel
  obtain ⟨classes, _, cleared⟩ := kill_clears_iff reached referenced
  exact ⟨fun holds => absurd (cleared.mp holds) (by decide +kernel), classes⟩

theorem resigned_not_cleared :
    ¬∀ (s : GrowingFederation) (fed : FederateHandle), Reached (fun _ _ => True) s →
      s.root.server.hasReferences fed = true → s.ClassSetCleared fed ∧ s.Cleared fed := by
  intro claim
  obtain ⟨_, s', contents, returns, cleared⟩ := claim resigned 1
    (resigned_reached (fun _ _ _ _ => trivial) fun _ _ => trivial) (by decide +kernel)
  cases returns.unique (kill_outsider (by decide +kernel))
  exact absurd cleared (by decide +kernel)

end GrowingFederation

end Certi
