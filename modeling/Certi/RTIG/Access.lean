import Certi.LibCERTI.Audience
import Certi.LibCERTI.SecurityLevels
import Certi.RTIG.Trees

/-!
# Mandatory access control over whole runs

Access to a class is checked when a federate publishes or subscribes; the
broadcasts of values trust the lists of subscribers. The levels come from a FED.
A broadcast drops the attributes or parameters that a superclass does not have,
but not their values.
-/
namespace Certi

open Keyed Federation RootObject Runs SecurityServer

/-! ## A federation of a FED -/

structure SecuredFed where
  spaces : List Nat
  objects : Fed.Classes
  interactions : Fed.Classes

namespace Fed

def Class.objectClass (c : Class) : FomClass :=
  ⟨c.superClass, c.members.map fun m => ⟨m.name, m.level⟩, c.level⟩

def Class.interaction (c : Class) : FomInteraction :=
  ⟨c.superClass, c.members.map Member.handle, c.level⟩

theorem Levelled.ordered {table : List Class} (levelled : Levelled table) :
    ∀ c ∈ table.zipIdx, c.1.superClass ≤ c.2 := by
  intro c member
  have found := List.mk_mem_zipIdx_iff_getElem?.mp member
  by_cases top : c.1.superClass = 0
  · omega
  · obtain ⟨_, _, bound, _⟩ := (levelled c.2 c.1 found).above top
    exact bound

theorem ordered_map {α : Type} {table : List Class} {f : Class → α} {superClass : α → Nat}
    (same : ∀ c, superClass (f c) = c.superClass)
    (ordered : ∀ c ∈ table.zipIdx, c.1.superClass ≤ c.2) :
    ∀ c ∈ (table.map f).zipIdx, superClass c.1 ≤ c.2 := by
  intro c member
  rw [List.zipIdx_map] at member
  obtain ⟨d, inside, rfl⟩ := List.mem_map.mp member
  simpa [same] using ordered d inside

end Fed

namespace SecuredFed

def objectTable (fed : SecuredFed) : Except RTIException Fed.Table :=
  Fed.read false fed.objects (0, Fed.Class.top) ⟨[], 0⟩

def interactionTable (fed : SecuredFed) : Except RTIException Fed.Table :=
  Fed.read true fed.interactions (0, Fed.Class.top) ⟨[], 0⟩

/-- The FOM of a FED whose levels are all accepted. -/
def fom (fed : SecuredFed) : Except RTIException Fom :=
  match objects : fed.objectTable, interactions : fed.interactionTable with
  | .error e, _ => .error e
  | .ok _, .error e => .error e
  | .ok o, .ok i => .ok
    { classes := o.classes.map Fed.Class.objectClass
      interactions := i.classes.map Fed.Class.interaction
      spaces := fed.spaces
      superClasses := Fed.ordered_map (fun _ => rfl) (Fed.read_tree objects).ordered
      superInteractions := Fed.ordered_map (fun _ => rfl) (Fed.read_tree interactions).ordered }

/-- The level of a parameter of a class. -/
def parameterLevel (fed : SecuredFed) (i : InteractionClassHandle) (p : ParameterHandle) :
    Option SecurityLevelID :=
  match fed.interactionTable with
  | .ok t => if i = 0 then none else t.classes[i - 1]?.bind (·.level? p)
  | .error _ => none

end SecuredFed

/-- A newly created federation, and the levels of the principals behind its secure links. -/
def Federation.secured (fom : Fom) (withMom haveXml : Bool)
    (principals : List (FederateHandle × SecurityLevelID)) : Federation :=
  let f := Federation.create fom withMom haveXml
  { f with root := { f.root with server := { f.root.server with principals := principals } } }

/-! ## The statement -/

/-- A level that is public or the one of the class. -/
def Falls (level : SecurityLevelID) (above : SecurityLevelID) : Prop :=
  above = PublicLevelID ∨ above = level

def ObjectClass.Declares (c : ObjectClass) (g : FederateHandle) : Prop :=
  ∃ a ∈ c.attributes, g ∈ a.publishers ∨ ∃ s ∈ a.subscribers, s.handle = g

def Interaction.Declares (i : Interaction) (g : FederateHandle) : Prop :=
  g ∈ i.publishers ∨ i.HeardBy g

def ObjectClass.levelOf (c : ObjectClass) (h : AttributeHandle) : Option SecurityLevelID :=
  (c.attribute? h).map ObjectClassAttribute.level

/-- The level of an attribute of an instance. -/
def RootObject.attributeLevel (root : RootObject) (o : Object) (h : AttributeHandle) :
    Option SecurityLevelID :=
  (root.class? o.classHandle).bind (·.levelOf h)

/-- No update takes a value past a class without its attribute to a subscriber that has no access
to it. -/
def RootObject.UpdateCovered (root : RootObject) (o : Object) (hs : List AttributeHandle) : Prop :=
  ∀ c ∈ root.lineage o.classHandle, ∀ g, c.HearsOf hs g → ∀ h ∈ hs, c.hasAttribute h = true ∨
    ∀ level ∈ root.attributeLevel o h, root.server.canFederateAccessData g level = true

/-- The same for an interaction. -/
def SecuredFed.InteractionCovered (fed : SecuredFed) (root : RootObject)
    (interaction : InteractionClassHandle) (ps : List ParameterHandle) : Prop :=
  ∀ i ∈ root.interactionLineage interaction, ∀ g, i.HeardBy g → ∀ p ∈ ps,
    i.hasParameter p = true ∨ ∀ level ∈ fed.parameterLevel interaction p,
      root.server.canFederateAccessData g level = true

/-- What access control asks of a state for one federate, with conditions on the updates and the
interactions. A value carries the handle of the attribute or parameter it was given for. -/
structure AccessControlled (fed : SecuredFed)
    (updates : RootObject → Object → List AttributeHandle → Prop)
    (interactions : RootObject → InteractionClassHandle → List ParameterHandle → Prop)
    (root : RootObject) (g : FederateHandle) : Prop where
  classes : ∀ c ∈ root.classes, c.Declares g →
    root.server.canFederateAccessData g c.securityLevelId = true
  interactionClasses : ∀ i ∈ root.interactions, i.Declares g →
    root.server.canFederateAccessData g i.securityLevelId = true
  classLevels : ∀ h, (root.lineage h).IsChain fun c above =>
    Falls c.securityLevelId above.securityLevelId
  interactionLevels : ∀ h, (root.interactionLineage h).IsChain fun i above =>
    Falls i.securityLevelId above.securityLevelId
  reflected : ∀ {W : Type} (region : RegionHandle → RTIRegion)
    (checkSizeData : ObjectClassHandle → AttributeHandle → AttributeHandle × W → Except Stop Unit)
    (date : Option Date) (sender : FederateHandle) (o : Object)
    (values : List (AttributeHandle × W)) (tag : String)
    (sent : List (FederateHandle × AttributeMessage (AttributeHandle × W))),
    root.updateAttributeValues region (fun c => c.updateDated (checkSizeData c.handle)
      root.server region date sender o (values.map Prod.fst) values tag) o = .ok sent →
    updates root o (values.map Prod.fst) →
    ∀ message, (g, AttributeMessage.rav message) ∈ sent → ∀ v ∈ message.values,
      ∀ level ∈ root.attributeLevel o v.1, root.server.canFederateAccessData g level = true
  received : ∀ {W : Type} (region : RegionHandle → RTIRegion) (update : Option RegionHandle)
    (checkSizeData : InteractionClassHandle → ParameterHandle → ParameterHandle × W →
      Except Stop Unit)
    (date : Option Date) (sender : FederateHandle) (interaction : InteractionClassHandle)
    (values : List (ParameterHandle × W)) (tag : String)
    (sent : InteractionResponses (ParameterHandle × W)),
    root.broadcastInteraction region (fun i => i.sendDated (checkSizeData i.handle)
      root.server region date sender (values.map Prod.fst) values update tag) interaction update =
        .ok sent →
    interactions root interaction (values.map Prod.fst) →
    ∀ r ∈ sent, g ∈ r.1 → ∀ v ∈ r.2.values, ∀ level ∈ fed.parameterLevel interaction v.1,
      root.server.canFederateAccessData g level = true

/-! ## Levels of the tree -/

/-- Levels fall towards the root, and members keep theirs on the way down. -/
structure RootObject.Levelled (fed : SecuredFed) (root : RootObject) : Prop where
  classes : ∀ h c, root.class? h = some c → ∀ p, root.class? c.superClass = some p →
    Falls c.securityLevelId p.securityLevelId ∧
      ∀ k level, p.levelOf k = some level → c.levelOf k = some level
  attributes : ∀ h c, root.class? h = some c → ∀ k level, c.levelOf k = some level →
    Falls c.securityLevelId level
  interactions : ∀ h i, lookup Interaction.handle h root.interactions = some i →
    ∀ p, lookup Interaction.handle i.superClass root.interactions = some p →
      Falls i.securityLevelId p.securityLevelId ∧ ∀ k level,
        fed.parameterLevel p.handle k = some level → fed.parameterLevel i.handle k = some level
  parameters : ∀ h i, lookup Interaction.handle h root.interactions = some i →
    ∀ k level, fed.parameterLevel i.handle k = some level → Falls i.securityLevelId level
  parameterised : ∀ h i, lookup Interaction.handle h root.interactions = some i →
    ∀ k, i.hasParameter k = true → (fed.parameterLevel i.handle k).isSome = true

/-- Everything the federate has declared, it may. -/
structure RootObject.Permits (root : RootObject) (g : FederateHandle)
    (allowed : SecurityLevelID → Prop) : Prop where
  classes : ∀ c ∈ root.classes, c.Declares g → allowed c.securityLevelId
  interactions : ∀ i ∈ root.interactions, i.Declares g → allowed i.securityLevelId

abbrev RootObject.InteractionForest (root : RootObject) : Prop :=
  Forest.Ordered Interaction.handle Interaction.superClass root.interactions

section Levels

variable {fed : SecuredFed} {root : RootObject} {g : FederateHandle}

/-- Who has access to a class has access to all levels that it can fall to. -/
theorem canFederateAccessData_falls {server : SecurityServer} {level above : SecurityLevelID}
    (falls : Falls level above) (access : server.canFederateAccessData g level = true) :
    server.canFederateAccessData g above = true := by
  rcases falls with rfl | rfl
  · simp [canFederateAccessData, dominates]
  · exact access

theorem hears_declares {c : ObjectClass} {hs : List AttributeHandle} (hears : c.HearsOf hs g) :
    c.Declares g := by
  obtain ⟨a, member, _, subscribed⟩ := hears
  exact ⟨a, member, .inr subscribed⟩

/-- Attributes that a superclass has too are at the same level. -/
theorem RootObject.Levelled.lineage_level (levelled : root.Levelled fed) (forest : root.ClassForest)
    {h : ObjectClassHandle} {c d : ObjectClass} (found : root.class? h = some c)
    (member : d ∈ root.lineage h) {k : AttributeHandle} {level : SecurityLevelID}
    (at' : d.levelOf k = some level) : c.levelOf k = some level :=
  Forest.ancestors_inherits forest (q := fun c => c.levelOf k = some level)
    (fun a inside p above => (levelled.classes a.handle a
      (lookup_of_nodup forest.distinct inside) p above).2 k level) h found d member at'

theorem RootObject.Levelled.lineage_parameter (levelled : root.Levelled fed)
    (forest : root.InteractionForest) {h : InteractionClassHandle} {i d : Interaction}
    (found : lookup Interaction.handle h root.interactions = some i)
    (member : d ∈ root.interactionLineage h) {k : ParameterHandle} {level : SecurityLevelID}
    (at' : fed.parameterLevel d.handle k = some level) :
    fed.parameterLevel i.handle k = some level :=
  Forest.ancestors_inherits forest (q := fun i => fed.parameterLevel i.handle k = some level)
    (fun a inside p above => (levelled.interactions a.handle a
      (lookup_of_nodup forest.distinct inside) p above).2 k level) h found d member at'

theorem levelOf_isSome {c : ObjectClass} {k : AttributeHandle} (has : c.hasAttribute k = true) :
    ∃ level, c.levelOf k = some level := by
  obtain ⟨a, found⟩ := Option.isSome_iff_exists.mp has
  exact ⟨a.level, by rw [ObjectClass.levelOf, found]; rfl⟩

/-- A value that an update takes to `g` is at a level to which `g` has access. -/
theorem RootObject.Permits.reflected (levelled : root.Levelled fed) (forest : root.ClassForest)
    (permits : root.Permits g fun level => root.server.canFederateAccessData g level = true)
    {o : Object} {hs : List AttributeHandle} (covered : root.UpdateCovered o hs) {d : ObjectClass}
    (member : d ∈ root.lineage o.classHandle) (hears : d.HearsOf hs g) {h : AttributeHandle}
    (given : h ∈ hs) {level : SecurityLevelID} (at' : level ∈ root.attributeLevel o h) :
    root.server.canFederateAccessData g level = true := by
  rcases covered d member g hears h given with has | access
  · obtain ⟨c, found, own⟩ := Option.bind_eq_some_iff.mp at'
    obtain ⟨level', above⟩ := levelOf_isSome has
    have same : level' = level := by
      have inherited := levelled.lineage_level forest found member above
      rw [own] at inherited
      exact (Option.some.inj inherited).symm
    have inside := Forest.ancestors_mem forest member
    have falls := levelled.attributes d.handle d (lookup_of_nodup forest.distinct inside) h level'
      above
    exact canFederateAccessData_falls (same ▸ falls)
      (permits.classes d inside (hears_declares hears))
  · exact access level at'

theorem RootObject.Permits.received (levelled : root.Levelled fed) (forest : root.InteractionForest)
    (permits : root.Permits g fun level => root.server.canFederateAccessData g level = true)
    {interaction : InteractionClassHandle} {ps : List ParameterHandle}
    (covered : fed.InteractionCovered root interaction ps) {i d : Interaction}
    (found : lookup Interaction.handle interaction root.interactions = some i)
    (member : d ∈ root.interactionLineage interaction) (hears : d.HeardBy g) {p : ParameterHandle}
    (given : p ∈ ps) {level : SecurityLevelID} (at' : level ∈ fed.parameterLevel interaction p) :
    root.server.canFederateAccessData g level = true := by
  rcases covered d member g hears p given with has | access
  · have inside := Forest.ancestors_mem forest member
    have located := lookup_of_nodup forest.distinct inside
    obtain ⟨level', above⟩ := Option.isSome_iff_exists.mp (levelled.parameterised _ d located p has)
    have handle : i.handle = interaction := lookup_key found
    have same : level' = level := by
      have inherited := levelled.lineage_parameter forest found member above
      rw [handle, at'] at inherited
      exact (Option.some.inj inherited).symm
    have falls := levelled.parameters _ d located p level' above
    exact canFederateAccessData_falls (same ▸ falls) (permits.interactions d inside (.inr hears))
  · exact access level at'

/-- Access control follows from the checks at declaration. -/
theorem RootObject.Permits.controlled (levelled : root.Levelled fed) (forest : root.ClassForest)
    (forest' : root.InteractionForest)
    (permits : root.Permits g fun level => root.server.canFederateAccessData g level = true) :
    AccessControlled fed UpdateCovered fed.InteractionCovered root g where
  classes := permits.classes
  interactionClasses := permits.interactions
  classLevels := Forest.ancestors_isChain forest fun c inside p above =>
    (levelled.classes c.handle c (lookup_of_nodup forest.distinct inside) p above).1
  interactionLevels := Forest.ancestors_isChain forest' fun i inside p above =>
    (levelled.interactions i.handle i (lookup_of_nodup forest'.distinct inside) p above).1
  reflected := by
    intro W region checkSizeData date sender o values tag sent done covered message told v member
      level at'
    obtain ⟨⟨d, inside, hears⟩, within⟩ := updateAttributeValues_within forest done _ told
    exact Permits.reflected levelled forest permits covered inside hears
      (List.mem_map_of_mem (within.2 v member)) at'
  received := by
    intro W region update checkSizeData date sender interaction values tag sent done covered r told
      listed v member level at'
    obtain ⟨audience, within⟩ := broadcastInteraction_within forest' done r told
    obtain ⟨d, inside, hears⟩ := audience g listed
    obtain ⟨i, found, _⟩ := Collect.bind_success done
    exact Permits.received levelled forest' permits covered (getInteraction_ok (Stop.lift_ok found))
      inside hears (List.mem_map_of_mem (within v member)) at'

end Levels

/-! ## What a request declares -/

/-- The interaction without its publishers and subscribers. -/
def Interaction.bare (i : Interaction) : Interaction :=
  { i with publishers := ∅, subscribers := [] }

/-- The same interaction classes, the same access for `g`, and whatever `g` declares was declared
before or checked now. -/
structure RootObject.Admits (g : FederateHandle) (root root' : RootObject) : Prop where
  interactions : ∀ h, (lookup Interaction.handle h root'.interactions).map Interaction.bare =
    (lookup Interaction.handle h root.interactions).map Interaction.bare
  handles : root'.interactions.map Interaction.handle = root.interactions.map Interaction.handle
  access : ∀ level, root'.server.canFederateAccessData g level =
    root.server.canFederateAccessData g level
  permits : ∀ allowed : SecurityLevelID → Prop,
    (∀ level, root.server.canFederateAccessData g level = true → allowed level) →
      root.Permits g allowed → root'.Permits g allowed

section Declaring

variable {root root' root'' : RootObject} {g fed : FederateHandle} {server : SecurityServer}
  {allowed : SecurityLevelID → Prop} {c : ObjectClass}

theorem admits_of_eq (classes : root'.classes = root.classes)
    (interactions : root'.interactions = root.interactions)
    (access : ∀ level, root'.server.canFederateAccessData g level =
      root.server.canFederateAccessData g level) : root.Admits g root' :=
  ⟨fun _ => by rw [interactions], by rw [interactions], access, fun _ _ before =>
    ⟨by rw [classes]; exact before.classes, by rw [interactions]; exact before.interactions⟩⟩

theorem admits_refl (root : RootObject) (g : FederateHandle) : root.Admits g root :=
  admits_of_eq rfl rfl fun _ => rfl

theorem RootObject.Admits.trans (first : root.Admits g root') (second : root'.Admits g root'') :
    root.Admits g root'' := by
  refine ⟨fun h => (second.interactions h).trans (first.interactions h),
    second.handles.trans first.handles,
    fun level => (second.access level).trans (first.access level),
    fun allowed grants before => second.permits allowed (fun level can => ?_)
      (first.permits allowed grants before)⟩
  exact grants level ((first.access level) ▸ can)

theorem declares_iff {q : Prop} :
    (c.Declares g → q) ↔ c.DeclaredBy fun h => h = g → q := by
  constructor
  · intro declares a member
    exact ⟨fun h listed same => declares ⟨a, member, .inl (same ▸ listed)⟩,
      fun s listed same => declares ⟨a, member, .inr ⟨s, listed, same⟩⟩⟩
  · rintro declared ⟨a, member, published | ⟨s, listed, same⟩⟩
    · exact (declared a member).1 g published rfl
    · exact (declared a member).2 s listed same

/-- Publishing a class is checked against its level. -/
theorem publish_permits
    (grants : ∀ level, server.canFederateAccessData g level = true → allowed level)
    (before : c.Declares g → allowed c.securityLevelId) (fed : FederateHandle)
    (hs : List AttributeHandle) (flag : Bool) :
    (c.publish server fed hs flag).1.Declares g →
      allowed (c.publish server fed hs flag).1.securityLevelId := by
  by_cases can : server.canFederateAccessData fed c.securityLevelId = true
  · have redeclared : ObjectClass.Redeclared (fun h => h = g → allowed c.securityLevelId) c
        (c.publish server fed hs flag).1 :=
      ObjectClass.publish_redeclared (fun same => grants _ (same ▸ can)) hs flag
    rw [redeclared.same.level]
    exact declares_iff.mpr (redeclared.declared (declares_iff.mp before))
  · have unchanged : (c.publish server fed hs flag).1 = c := by
      unfold ObjectClass.publish
      split
      · rfl
      · rw [if_neg can]
    rw [unchanged]
    exact before

/-- So is subscribing to it. -/
theorem subscribe_permits
    (grants : ∀ level, server.canFederateAccessData g level = true → allowed level)
    (before : c.Declares g → allowed c.securityLevelId) (fed : FederateHandle)
    (hs : List AttributeHandle) (region : Option RegionHandle) :
    (c.subscribe server fed hs region).1.Declares g →
      allowed (c.subscribe server fed hs region).1.securityLevelId := by
  by_cases can : server.canFederateAccessData fed c.securityLevelId = true
  · have redeclared : ObjectClass.Redeclared (fun h => h = g → allowed c.securityLevelId) c
        (c.subscribe server fed hs region).1 :=
      ObjectClass.subscribe_redeclared (fun same => grants _ (same ▸ can)) hs region
    rw [redeclared.same.level]
    exact declares_iff.mpr (redeclared.declared (declares_iff.mp before))
  · have unchanged : (c.subscribe server fed hs region).1 = c := by
      unfold ObjectClass.subscribe
      rw [if_neg can]
    rw [unchanged]
    exact before

/-- Nothing is new in the lists of the class. -/
theorem redeclared_permits {c' : ObjectClass}
    (redeclared : ∀ p, ObjectClass.Redeclared p c c')
    (before : c.Declares g → allowed c.securityLevelId) :
    c'.Declares g → allowed c'.securityLevelId := by
  have again := redeclared fun h => h = g → allowed c.securityLevelId
  rw [again.same.level]
  exact declares_iff.mpr (again.declared (declares_iff.mp before))

theorem setClass_admits {h : ObjectClassHandle} {c' : ObjectClass} (found : root.class? h = some c)
    (declares : ∀ allowed : SecurityLevelID → Prop,
      (∀ level, root.server.canFederateAccessData g level = true → allowed level) →
        (c.Declares g → allowed c.securityLevelId) → c'.Declares g → allowed c'.securityLevelId) :
    root.Admits g (root.setClass c') :=
  ⟨fun _ => rfl, rfl, fun _ => rfl, fun allowed grants before =>
    ⟨forall_replace before.classes (declares allowed grants (before.classes c (lookup_mem found))),
      before.interactions⟩⟩

theorem publish_admits (root : RootObject) (g fed : FederateHandle) (h : ObjectClassHandle)
    (hs : List AttributeHandle) (flag : Bool) :
    root.Admits g (root.publish fed h hs flag).state := by
  unfold RootObject.publish
  split
  · exact admits_refl root g
  · rename_i c found
    exact setClass_admits found fun _ grants before => publish_permits grants before fed hs flag

theorem subscribe_admits (root : RootObject) (g fed : FederateHandle) (h : ObjectClassHandle)
    (hs : List AttributeHandle) (region : Option RegionHandle) :
    root.Admits g (root.subscribe fed h hs region).state := by
  unfold subscribe
  split
  · exact admits_refl root g
  · rename_i c found
    have declares : ∀ allowed : SecurityLevelID → Prop,
        (∀ level, root.server.canFederateAccessData g level = true → allowed level) →
          (c.Declares g → allowed c.securityLevelId) →
            (c.subscribe root.server fed hs region).1.Declares g →
              allowed (c.subscribe root.server fed hs region).1.securityLevelId :=
      fun _ grants before => subscribe_permits grants before fed hs region
    split <;> rename_i outcome <;> rw [outcome] at declares <;> exact setClass_admits found declares

theorem unsubscribeWith_admits (root : RootObject) (g fed : FederateHandle) (h : ObjectClassHandle)
    (region : Option RegionHandle) :
    root.Admits g (root.unsubscribeWith fed h region).state := by
  unfold unsubscribeWith
  split
  · exact admits_refl root g
  · rename_i c found
    exact setClass_admits found fun _ _ before =>
      redeclared_permits (fun _ => ObjectClass.unsubscribeWith_redeclared fed region) before

theorem declareInteraction_admits (root : RootObject) (h : InteractionClassHandle)
    {f : Interaction → Except RTIException Interaction}
    (declares : ∀ i i', f i = .ok i' → i'.bare = i.bare ∧ (i'.Declares g → i.Declares g ∨
      root.server.canFederateAccessData g i.securityLevelId = true)) :
    root.Admits g (root.declareInteraction h f).state := by
  unfold declareInteraction
  split
  · exact admits_refl root g
  · rename_i i found
    have located := getInteraction_ok found
    split
    · exact admits_refl root g
    · rename_i i' success
      obtain ⟨bare, new⟩ := declares i i' success
      have handle : i'.handle = i.handle := (congrArg Interaction.handle bare :)
      have level : i'.securityLevelId = i.securityLevelId :=
        (congrArg Interaction.securityLevelId bare :)
      refine ⟨fun h' => ?_, map_key_replace i' root.interactions, fun _ => rfl,
        fun allowed grants before => ⟨before.classes, forall_replace before.interactions ?_⟩⟩
      · change (lookup Interaction.handle h' (replace Interaction.handle i' root.interactions)).map
          Interaction.bare = _
        rw [lookup_replace_eq]
        by_cases same : h' = i'.handle
        · have there : lookup Interaction.handle h' root.interactions = some i := by
            rw [same, handle, lookup_key located]
            exact located
          rw [if_pos same, there]
          exact congrArg some bare
        · rw [if_neg same]
      · intro declared
        rw [level]
        rcases new declared with old | can
        · exact before.interactions i (lookup_mem located) old
        · exact grants _ can

theorem publishInteraction_admits (root : RootObject) (g fed : FederateHandle)
    (h : InteractionClassHandle) (flag : Bool) :
    root.Admits g (root.publishInteraction fed h flag).state := by
  refine declareInteraction_admits root h fun i i' success => ?_
  cases flag with
  | true =>
    simp only [if_true, Interaction.publish] at success
    split at success
    · rename_i can
      cases success
      refine ⟨rfl, ?_⟩
      rintro (published | heard)
      · rcases Finset.mem_insert.mp published with rfl | old
        · exact .inr can
        · exact .inl (.inl old)
      · exact .inl (.inr heard)
    · cases success
  | false =>
    simp only [Bool.false_eq_true, if_false, Interaction.unpublish] at success
    split at success
    · cases success
      exact ⟨rfl, fun declares => .inl (declares.imp Finset.mem_of_mem_erase id)⟩
    · cases success

theorem subscribeInteraction_admits (root : RootObject) (g fed : FederateHandle)
    (h : InteractionClassHandle) (region : Option RegionHandle) (flag : Bool) :
    root.Admits g (root.subscribeInteraction fed h region flag).state := by
  refine declareInteraction_admits root h fun i i' success => ?_
  cases flag with
  | true =>
    simp only [if_true, Interaction.subscribe] at success
    split at success
    · cases success
      exact ⟨rfl, .inl⟩
    · split at success
      · rename_i can
        cases success
        refine ⟨rfl, ?_⟩
        rintro (published | ⟨s, listed, rfl⟩)
        · exact .inl (.inl published)
        · rcases List.mem_append.mp listed with old | new
          · exact .inl (.inr ⟨s, old, rfl⟩)
          · rw [List.mem_singleton.mp new]
            exact .inr can
      · cases success
  | false =>
    simp only [Bool.false_eq_true, if_false] at success
    cases success
    refine ⟨rfl, fun declares => .inl (declares.imp id ?_)⟩
    rintro ⟨s, listed, same⟩
    exact ⟨s, (Subscribable.mem_unsubscribeWith.mp listed).1, same⟩

/-- A departure only takes declarations away. -/
theorem killFederate_admits (distinct : root.Distinct) (g fed : FederateHandle) :
    root.Admits g (root.killFederate fed).1 := by
  have frame := killClasses_frame (p := fun _ => True) fed
    (root.classes.map ObjectClass.handle) root
  have interactions : (root.killFederate fed).1.interactions =
      root.interactions.map (·.killFederate fed) := by
    rw [← frame.2.2.2.1]
    rfl
  have handle : ∀ i : Interaction, (i.killFederate fed).handle = i.handle := by
    intro i
    unfold Interaction.killFederate
    dsimp only
    split <;> rfl
  have bare : ∀ i : Interaction, (i.killFederate fed).bare = i.bare := by
    intro i
    unfold Interaction.killFederate
    dsimp only
    split <;> rfl
  have server : (root.killFederate fed).1.server = root.server := frame.2.2.2.2
  refine ⟨fun h => ?_, ?_, fun level => by rw [server], fun allowed _ before => ⟨?_, ?_⟩⟩
  · rw [interactions, lookup_map (fun i _ => handle i), Option.map_map]
    congr 1
    funext i
    exact bare i
  · rw [interactions, List.map_map]
    exact List.map_congr_left fun i _ => handle i
  · intro c' member
    change c' ∈ (killClasses fed root (root.classes.map ObjectClass.handle)).1.classes at member
    rw [(killClasses_exact fed _ root distinct.classes distinct.objects).1] at member
    obtain ⟨c, inside, rfl⟩ := List.mem_map.mp member
    refine redeclared_permits (fun p => ?_) (before.classes c inside)
    split
    · induction ownedCount root fed c.handle + 1 with
      | zero => exact .refl c
      | succ rounds ih =>
        rw [Function.iterate_succ_apply']
        exact ih.trans ObjectClass.killDeclarations_redeclared
    · exact .refl c
  · intro i' member
    rw [interactions] at member
    obtain ⟨i, inside, rfl⟩ := List.mem_map.mp member
    intro declares
    have level : (i.killFederate fed).securityLevelId = i.securityLevelId :=
      (congrArg Interaction.securityLevelId (bare i) :)
    rw [level]
    refine before.interactions i inside ?_
    unfold Interaction.killFederate at declares
    dsimp only at declares
    split at declares
    · rcases declares with published | ⟨s, listed, same⟩
      · exact .inl (Finset.mem_of_mem_erase published)
      · exact .inr ⟨s, Subscribable.mem_unsubscribe listed, same⟩
    · exact declares.imp Finset.mem_of_mem_erase id

end Declaring

/-! ## Events -/

namespace Federation

variable {f : Federation} {g fed : FederateHandle} {service : RootObject → Outcome RootObject}

theorem memberOnRoot_admits (admits : f.root.Admits g (service f.root).state) :
    f.root.Admits g (f.memberOnRoot fed service).state.root :=
  asMember_cases (p := fun outcome => f.root.Admits g outcome.state.root) (admits_refl f.root g)
    fun _ => admits

theorem memberWithRegion_admits {region : RegionHandle}
    (admits : f.root.Admits g (service f.root).state) :
    f.root.Admits g (f.memberWithRegion fed region service).state.root := by
  refine memberOnRoot_admits ?_
  split
  · exact admits_refl f.root g
  · exact admits

theorem rewritesInstance_admits {object : ObjectHandle} {p : Object → Object → Prop}
    {root root' : RootObject} (rewrites : RewritesInstance object p root root') :
    root.Admits g root' := by
  rcases rewrites with rfl | ⟨o, o', _, _, rfl⟩
  · exact admits_refl root' g
  · exact admits_of_eq rfl rfl fun _ => rfl

theorem registerObjectInstance_admits (root : RootObject) (g fed : FederateHandle)
    (h : ObjectClassHandle) (object : ObjectHandle) (name : String) :
    root.Admits g (root.registerObjectInstance fed h object name).state := by
  rcases registerObjectInstance_cases root fed h object name with
    ⟨e, refused⟩ | ⟨c, sent, registers⟩
  · rw [refused]
    exact admits_refl root g
  · rw [registers.outcome]
    exact admits_of_eq rfl rfl fun _ => rfl

theorem registerObjectWithRegion_admits (f : Federation) (g fed : FederateHandle)
    (h : ObjectClassHandle) (name : String) (region : RegionHandle) (hs : List AttributeHandle) :
    f.root.Admits g (f.registerObjectWithRegion fed h name region hs).state.root := by
  refine asMember_cases (p := fun outcome => f.root.Admits g outcome.state.root)
    (admits_refl f.root g) fun _ => ?_
  have registered : f.root.Admits g (f.registerObject fed h name).state.root :=
    registerObjectInstance_admits f.root g fed h _ _
  have associated := registered.trans
    (rewritesInstance_admits (g := g) (associate_cases _ f.nextObject region hs))
  dsimp only
  split
  · exact registered
  · split <;> exact associated

/-- The link of `g` stays open. -/
def LeavesOpen (g : FederateHandle) : RegionEvent → Prop
  | .event (.kill fed) => fed ≠ g
  | _ => True

theorem closeLink_access (apart : fed ≠ g) (level : SecurityLevelID) :
    (f.closeLink fed).root.server.canFederateAccessData g level =
      f.root.server.canFederateAccessData g level := by
  have found : lookup Prod.fst g (drop Prod.fst fed f.root.server.principals) =
      lookup Prod.fst g f.root.server.principals := by
    simp only [lookup, drop, List.find?_filter]
    congr 1
    funext principal
    by_cases same : principal.1 = g
    · simp [same, Ne.symm apart]
    · simp [same]
  unfold canFederateAccessData federateLevel closeLink SecurityServer.closeLink
  dsimp only
  rw [found]

theorem perform_admits (distinct : f.root.Distinct) {e : Event}
    (leaves : LeavesOpen g (.event e)) : f.root.Admits g (f.perform e).state.root := by
  have internal : e.isInternal = true → f.root.Admits g (f.perform e).state.root := by
    intro internal
    rw [(perform_internal f internal).root]
    exact admits_refl f.root g
  cases e with
  | join name conditions =>
    rw [perform]
    rcases add_cases f name conditions with unchanged | ⟨_, _, _, _, root | root⟩
    · rw [unchanged]
      exact admits_refl f.root g
    · rw [root]
      exact admits_refl f.root g
    · rw [root]
      exact admits_of_eq rfl rfl fun _ => rfl
  | resign fed =>
    rcases remove_cases f fed with refused | ⟨_, removed⟩
    · rw [perform, refused]
      exact admits_refl f.root g
    · rw [perform, removed]
      exact admits_refl f.root g
  | kill fed =>
    rcases kill_cases f fed with refused | ⟨_, result, _⟩
    · rw [perform, refused]
      exact admits_refl f.root g
    · rw [perform, result]
      have closed : f.root.Admits g (f.closeLink fed).root :=
        admits_of_eq rfl rfl (closeLink_access leaves)
      have distinct' : (f.closeLink fed).root.Distinct := ⟨distinct.classes, distinct.objects⟩
      exact closed.trans (killFederate_admits distinct' g fed)
  | publishObject fed c hs flag => exact memberOnRoot_admits (publish_admits f.root g fed c hs flag)
  | subscribeObject fed c hs => exact memberOnRoot_admits (subscribe_admits f.root g fed c hs none)
  | subscribeAttributesWR fed c region hs =>
    exact memberWithRegion_admits (subscribe_admits f.root g fed c hs (some region))
  | unsubscribeAttributesWR fed c region =>
    exact memberWithRegion_admits (unsubscribeWith_admits f.root g fed c (some region))
  | publishInteraction fed i flag =>
    exact memberOnRoot_admits (publishInteraction_admits f.root g fed i flag)
  | subscribeInteraction fed i flag =>
    exact memberOnRoot_admits (subscribeInteraction_admits f.root g fed i none flag)
  | subscribeInteractionWR fed i region flag =>
    exact memberWithRegion_admits (subscribeInteraction_admits f.root g fed i (some region) flag)
  | createRegion fed space extents =>
    refine memberOnRoot_admits ?_
    rcases createRegion_cases f.root space extents with unchanged | ⟨r, _, result⟩
    · rw [unchanged]
      exact admits_refl f.root g
    · rw [result]
      exact admits_of_eq rfl rfl fun _ => rfl
  | associateRegion fed object region hs =>
    exact memberOnRoot_admits (rewritesInstance_admits (associate_cases f.root object region hs))
  | registerObject fed c name => exact registerObjectInstance_admits f.root g fed c _ _
  | registerObjectWithRegion fed c name region hs =>
    exact registerObjectWithRegion_admits f g fed c name region hs
  | deleteObject fed object =>
    refine memberOnRoot_admits ?_
    rcases deleteObjectInstance_cases f.root fed object with ⟨e, refused⟩ | ⟨o, sent, deletes⟩
    · rw [refused]
      exact admits_refl f.root g
    · rw [deletes.outcome]
      exact admits_of_eq rfl rfl fun _ => rfl
  | ownership service fed object hs =>
    rw [perform]
    refine asMember_cases (p := fun outcome => f.root.Admits g outcome.state.root)
      (admits_refl f.root g) fun _ => ?_
    change f.root.Admits g (f.root.ownershipService object (service.perform fed hs)).1.state
    rcases ownershipService_cases f.root object (service.perform fed hs) with
      unchanged | ⟨o, c, _, _, result⟩
    · rw [unchanged]
      exact admits_refl f.root g
    · rw [result]
      exact admits_of_eq rfl rfl fun _ => rfl
  | _ => exact internal rfl

theorem performRegion_admits (distinct : f.root.Distinct) {e : RegionEvent}
    (leaves : LeavesOpen g e) : f.root.Admits g (f.performRegion e).state.root := by
  cases e with
  | event e => exact perform_admits distinct leaves
  | modifyRegion fed region extents =>
    refine memberOnRoot_admits ?_
    rcases modifyRegion_cases f.root region extents with unchanged | ⟨r, result⟩
    · rw [unchanged]
      exact admits_refl f.root g
    · rw [result]
      exact admits_of_eq rfl rfl fun _ => rfl
  | deleteRegion fed region =>
    rcases deleteRegion_cases f fed region with unchanged | ⟨_, _, deleted⟩
    · rw [performRegion, unchanged]
      exact admits_refl f.root g
    · rw [performRegion, deleted]
      rcases RootObject.deleteRegion_cases f.root region with ⟨unchanged, _⟩ | result
      · rw [unchanged]
        exact admits_refl f.root g
      · rw [result]
        exact admits_of_eq rfl rfl fun _ => rfl
  | unassociateRegion fed object region =>
    refine memberOnRoot_admits ?_
    unfold unassociate
    split
    · exact admits_refl f.root g
    · exact admits_refl f.root g
    · exact admits_of_eq rfl rfl fun _ => rfl

end Federation

/-! ## Runs -/

/-- The state of a run, as far as access control goes. -/
structure RootObject.Secured (fed : SecuredFed) (g : FederateHandle) (root : RootObject) :
    Prop where
  tidy : root.Tidy
  forest : root.InteractionForest
  levelled : root.Levelled fed
  permits : root.Permits g fun level => root.server.canFederateAccessData g level = true

section Runs

variable {fed : SecuredFed} {root root' : RootObject} {g : FederateHandle}

theorem RootObject.Admits.interaction? (admits : root.Admits g root')
    {h : InteractionClassHandle} {i' : Interaction}
    (found : lookup Interaction.handle h root'.interactions = some i') :
    ∃ i, lookup Interaction.handle h root.interactions = some i ∧ i'.bare = i.bare := by
  have same := admits.interactions h
  rw [found] at same
  obtain ⟨i, there, bare⟩ := Option.map_eq_some_iff.mp same.symm
  exact ⟨i, there, bare.symm⟩

theorem RootObject.Levelled.keep (levelled : root.Levelled fed) (same : root.SameClasses root')
    (admits : root.Admits g root') : root'.Levelled fed := by
  have levels : ∀ {c c' : ObjectClass}, c.SameClass c' → ∀ k, c'.levelOf k = c.levelOf k :=
    fun both k => both.levels k
  constructor
  · intro h c' found p' above
    obtain ⟨c, before, both⟩ := same.class?' found
    rw [both.superClass] at above
    obtain ⟨p, parent, both'⟩ := same.class?' above
    obtain ⟨falls, inherits⟩ := levelled.classes h c before p parent
    rw [both.level, both'.level]
    refine ⟨falls, fun k level at' => ?_⟩
    rw [levels both', ] at at'
    rw [levels both]
    exact inherits k level at'
  · intro h c' found k level at'
    obtain ⟨c, before, both⟩ := same.class?' found
    rw [levels both] at at'
    rw [both.level]
    exact levelled.attributes h c before k level at'
  · intro h i' found p' above
    obtain ⟨i, before, bare⟩ := admits.interaction? found
    have superClass : i'.superClass = i.superClass := (congrArg Interaction.superClass bare :)
    rw [superClass] at above
    obtain ⟨p, parent, bare'⟩ := admits.interaction? above
    obtain ⟨falls, inherits⟩ := levelled.interactions h i before p parent
    have level : i'.securityLevelId = i.securityLevelId :=
      (congrArg Interaction.securityLevelId bare :)
    have level' : p'.securityLevelId = p.securityLevelId :=
      (congrArg Interaction.securityLevelId bare' :)
    have handle : i'.handle = i.handle := (congrArg Interaction.handle bare :)
    have handle' : p'.handle = p.handle := (congrArg Interaction.handle bare' :)
    rw [level, level', handle, handle']
    exact ⟨falls, inherits⟩
  · intro h i' found k level at'
    obtain ⟨i, before, bare⟩ := admits.interaction? found
    have own : i'.securityLevelId = i.securityLevelId :=
      (congrArg Interaction.securityLevelId bare :)
    have handle : i'.handle = i.handle := (congrArg Interaction.handle bare :)
    rw [handle] at at'
    rw [own]
    exact levelled.parameters h i before k level at'
  · intro h i' found k has
    obtain ⟨i, before, bare⟩ := admits.interaction? found
    have handle : i'.handle = i.handle := (congrArg Interaction.handle bare :)
    have parameters : i'.parameters = i.parameters := (congrArg Interaction.parameters bare :)
    rw [handle]
    refine levelled.parameterised h i before k ?_
    unfold Interaction.hasParameter at has ⊢
    rwa [parameters] at has

theorem RootObject.Secured.step (secured : root.Secured fed g) (same : root.SameTree root')
    (tidy : root'.Tidy) (admits : root.Admits g root') : root'.Secured fed g := by
  refine ⟨tidy, ⟨admits.handles ▸ secured.forest.distinct, fun i' member => ?_⟩,
    secured.levelled.keep same.classes admits, ?_⟩
  · have located : lookup Interaction.handle i'.handle root'.interactions = some i' :=
      lookup_of_nodup (admits.handles ▸ secured.forest.distinct) member
    obtain ⟨i, before, bare⟩ := admits.interaction? located
    have handle : i'.handle = i.handle := (congrArg Interaction.handle bare :)
    have superClass : i'.superClass = i.superClass := (congrArg Interaction.superClass bare :)
    rw [handle, superClass]
    exact secured.forest.below i (lookup_mem before)
  · have permits := admits.permits _ (fun _ can => can) secured.permits
    simp only [admits.access]
    exact permits

theorem regional_secured {f : Federation} (secured : f.root.Secured fed g) {e : RegionEvent}
    (leaves : LeavesOpen g e) : (regional f e).1.root.Secured fed g := by
  unfold regional
  split
  · exact secured
  · exact secured.step (performRegion_sameTree secured.tidy e) (performRegion_tidy secured.tidy e)
      (performRegion_admits secured.tidy.distinct leaves)

end Runs

/-! ## A newly created federation -/

section Creation

variable {fed : SecuredFed} {fom : Fom} {withMom haveXml : Bool}
  {principals : List (FederateHandle × SecurityLevelID)} {g : FederateHandle}

/-- The tables that the FOM comes from. -/
theorem SecuredFed.fom_ok (reads : fed.fom = .ok fom) :
    ∃ o i : Fed.Table, fed.interactionTable = .ok i ∧
      Fed.Levelled o.classes ∧ Fed.Levelled i.classes ∧
      fom.classes = o.classes.map Fed.Class.objectClass ∧
      fom.interactions = i.classes.map Fed.Class.interaction := by
  unfold SecuredFed.fom at reads
  split at reads
  · cases reads
  · cases reads
  · rename_i o i objects interactions
    cases reads
    exact ⟨o, i, interactions, Fed.read_tree objects, Fed.read_tree interactions, rfl, rfl⟩

theorem levelOf_create (c : FomClass) (h : ObjectClassHandle) (k : Nat) :
    (c.create h).levelOf k =
      if k = 0 then none else c.attributes[k - 1]?.map FomAttribute.level := by
  have handles := c.create_handles h
  have distinct : ((c.create h).attributes.map ObjectClassAttribute.handle).Nodup :=
    handles ▸ List.nodup_range'
  by_cases inside : 1 ≤ k ∧ k - 1 < c.attributes.length
  · obtain ⟨positive, bound⟩ := inside
    have member : { handle := k - 1 + 1, name := c.attributes[k - 1].name
                    level := c.attributes[k - 1].level
                    publishers := ∅, subscribers := [] } ∈ (c.create h).attributes := by
      refine List.mem_map.mpr ⟨(c.attributes[k - 1], k - 1), ?_, rfl⟩
      exact List.mk_mem_zipIdx_iff_getElem?.mpr (List.getElem?_eq_getElem bound)
    have found := lookup_of_nodup distinct member
    dsimp only at found
    rw [show k - 1 + 1 = k by omega] at found
    rw [if_neg (by omega), List.getElem?_eq_getElem bound, ObjectClass.levelOf,
      ObjectClass.attribute?, found]
    rfl
  · have absent : lookup ObjectClassAttribute.handle k (c.create h).attributes = none := by
      rw [lookup_eq_none]
      intro a member same
      have listed := List.mem_map_of_mem (f := ObjectClassAttribute.handle) member
      rw [handles, same, List.mem_range'_1] at listed
      omega
    rw [ObjectClass.levelOf, ObjectClass.attribute?, absent]
    split
    · rfl
    · rw [List.getElem?_eq_none (by omega)]
      rfl

theorem secured_class {o : List Fed.Class} (classes : fom.classes = o.map Fed.Class.objectClass)
    {h : ObjectClassHandle} {c : ObjectClass}
    (found : (Federation.secured fom withMom haveXml principals).root.class? h = some c) :
    ∃ d, h ≠ 0 ∧ o[h - 1]? = some d ∧ c = d.objectClass.create h := by
  obtain ⟨declared, belongs, rfl⟩ := List.mem_map.mp (lookup_mem found)
  have handle : (declared.1.create (declared.2 + 1)).handle = h := lookup_key found
  change declared.2 + 1 = h at handle
  have read := List.mk_mem_zipIdx_iff_getElem?.mp belongs
  rw [classes, List.getElem?_map] at read
  obtain ⟨d, there, same⟩ := Option.map_eq_some_iff.mp read
  refine ⟨d, handle ▸ Nat.succ_ne_zero _, ?_, by rw [same, handle]⟩
  rw [← handle, Nat.add_sub_cancel]
  exact there

theorem secured_interaction {t : List Fed.Class}
    (interactions : fom.interactions = t.map Fed.Class.interaction)
    {h : InteractionClassHandle} {i : Interaction}
    (found : lookup Interaction.handle h
      (Federation.secured fom withMom haveXml principals).root.interactions = some i) :
    ∃ d, h ≠ 0 ∧ t[h - 1]? = some d ∧ i = d.interaction.create h := by
  obtain ⟨declared, belongs, rfl⟩ := List.mem_map.mp (lookup_mem found)
  have handle : (declared.1.create (declared.2 + 1)).handle = h := lookup_key found
  change declared.2 + 1 = h at handle
  have read := List.mk_mem_zipIdx_iff_getElem?.mp belongs
  rw [interactions, List.getElem?_map] at read
  obtain ⟨d, there, same⟩ := Option.map_eq_some_iff.mp read
  refine ⟨d, handle ▸ Nat.succ_ne_zero _, ?_, by rw [same, handle]⟩
  rw [← handle, Nat.add_sub_cancel]
  exact there

/-- A level of the created class is that of a member of the text. -/
theorem levelOf_member {d : Fed.Class} {h : ObjectClassHandle} {k : AttributeHandle}
    {level : SecurityLevelID} (at' : (d.objectClass.create h).levelOf k = some level) :
    k ≠ 0 ∧ ∃ m, d.members[k - 1]? = some m ∧ m.level = level := by
  rw [levelOf_create] at at'
  split at at'
  · cases at'
  · rename_i positive
    obtain ⟨a, there, same⟩ := Option.map_eq_some_iff.mp at'
    rw [Fed.Class.objectClass, List.getElem?_map] at there
    obtain ⟨m, read, rfl⟩ := Option.map_eq_some_iff.mp there
    exact ⟨positive, m, read, same⟩

theorem secured_levelled (reads : fed.fom = .ok fom) :
    (Federation.secured fom withMom haveXml principals).root.Levelled fed := by
  obtain ⟨o, t, table, levelled, levelled', classes, interactions⟩ := SecuredFed.fom_ok reads
  have parameterLevel : ∀ {h d}, h ≠ 0 → t.classes[h - 1]? = some d → ∀ k,
      fed.parameterLevel h k = d.level? k := by
    intro h d positive there k
    unfold SecuredFed.parameterLevel
    rw [table]
    dsimp only
    rw [if_neg positive, there]
    rfl
  constructor
  · intro h c found p above
    obtain ⟨d, positive, there, rfl⟩ := secured_class classes found
    obtain ⟨d', positive', there', rfl⟩ := secured_class classes above
    obtain ⟨p, parent, _, falls, more, handed⟩ := (levelled _ d there).above positive'
    cases Option.some.inj (there'.symm.trans parent)
    refine ⟨falls, fun k level at' => ?_⟩
    obtain ⟨positive, m, read, same⟩ := levelOf_member at'
    have bound := (List.getElem?_eq_some_iff.mp read).1
    rw [levelOf_create, if_neg positive, Fed.Class.objectClass, List.getElem?_map, ← handed,
      List.getElem?_append_left bound, read]
    exact congrArg some same
  · intro h c found k level at'
    obtain ⟨d, positive, there, rfl⟩ := secured_class classes found
    obtain ⟨_, m, read, rfl⟩ := levelOf_member at'
    exact (levelled _ d there).members m (List.mem_of_getElem? read)
  · intro h i found p above
    obtain ⟨d, positive, there, rfl⟩ := secured_interaction interactions found
    obtain ⟨d', positive', there', rfl⟩ := secured_interaction interactions above
    obtain ⟨p, parent, _, falls, more, handed⟩ := (levelled' _ d there).above positive'
    cases Option.some.inj (there'.symm.trans parent)
    refine ⟨falls, fun k level at' => ?_⟩
    change fed.parameterLevel d.superClass k = some level at at'
    change fed.parameterLevel h k = some level
    rw [parameterLevel (h := d.superClass) positive' there', Fed.Class.level?] at at'
    rw [parameterLevel positive there, Fed.Class.level?]
    obtain ⟨m, first, same⟩ := Option.map_eq_some_iff.mp at'
    rw [← handed, List.find?_append, first]
    exact congrArg some same
  · intro h i found k level at'
    obtain ⟨d, positive, there, rfl⟩ := secured_interaction interactions found
    change fed.parameterLevel h k = some level at at'
    rw [parameterLevel positive there] at at'
    obtain ⟨m, first, rfl⟩ := Option.map_eq_some_iff.mp at'
    exact (levelled' _ d there).members m (List.mem_of_find?_eq_some first)
  · intro h i found k has
    obtain ⟨d, positive, there, rfl⟩ := secured_interaction interactions found
    change (fed.parameterLevel h k).isSome = true
    rw [parameterLevel positive there]
    unfold Interaction.hasParameter at has
    rw [decide_eq_true_eq] at has
    obtain ⟨m, member, same⟩ := List.mem_map.mp has
    rw [Fed.Class.level?, Option.isSome_map, List.find?_isSome]
    exact ⟨m, member, by simpa using same⟩

theorem secured_start (reads : fed.fom = .ok fom) :
    (Federation.secured fom withMom haveXml principals).root.Secured fed g := by
  have handles : (Federation.create fom withMom haveXml).root.interactions.map Interaction.handle =
      List.range' 1 fom.interactions.length := by
    simp only [Federation.create, List.map_map]
    rw [← List.zipIdx_map_snd 1 fom.interactions, List.zipIdx_succ]
    simp [Function.comp_def, FomInteraction.create]
  have nobody := create_declaredBy fom withMom haveXml fun _ => False
  refine ⟨⟨⟨(create_distinct fom withMom haveXml).classes, List.nodup_nil⟩,
    (create_forest fom withMom haveXml).below, by simp [Federation.secured, Federation.create]⟩,
    ⟨?_, ?_⟩, secured_levelled reads, ⟨?_, ?_⟩⟩
  · exact handles ▸ List.nodup_range'
  · intro i member
    obtain ⟨declared, belongs, rfl⟩ := List.mem_map.mp member
    exact Nat.lt_succ_of_le (fom.superInteractions declared belongs)
  · rintro c member ⟨a, inside, published | ⟨s, listed, _⟩⟩
    · exact ((nobody.classes c member a inside).1 g published).elim
    · exact ((nobody.classes c member a inside).2 s listed).elim
  · rintro i member (published | ⟨s, listed, _⟩)
    · exact ((nobody.interactions i member).1 g published).elim
    · exact ((nobody.interactions i member).2 s listed).elim

end Creation

/-! ## A value that leaks -/

/-- A public attribute, and below it a class at level 1 with one more. -/
def leakingFed : SecuredFed where
  spaces := []
  objects := .node none ["x"] (.node (some 1) ["y"] .done .done) .done
  interactions := .done

def leakingFom : Fom where
  classes := [⟨0, [⟨"x", 0⟩], 0⟩, ⟨1, [⟨"x", 0⟩, ⟨"y", 1⟩], 1⟩]
  interactions := []
  spaces := []
  superClasses := by decide
  superInteractions := noInteractions_ordered

/-- The first federate, which has level 1, registers an instance; the second, which is public,
subscribes to the public attribute. -/
def leakingRun : List RegionEvent :=
  [.event (joinAs "P"), .event (.publishObject 1 2 [1, 2] true), .event (.registerObject 1 2 "o"),
    .event (joinAs "Q"), .event (.subscribeObject 2 1 [1])]

def leaking : RootObject :=
  (regional.exec (Federation.secured leakingFom false true [(1, 1)]) leakingRun).root

theorem leakingFom_read : leakingFed.fom = .ok leakingFom := rfl

theorem leakingRun_open : regional.Meets (fun _ => LeavesOpen 2)
    (Federation.secured leakingFom false true [(1, 1)]) leakingRun :=
  ⟨trivial, trivial, trivial, trivial, trivial, trivial⟩

end Certi
