import Certi.LibCERTI.ClassTreeRules
import Certi.LibCERTI.FomModules

/-!
# What reading FOM modules leaves behind

`Sound` holds of every class tree the readers build, also of what a reader
leaves when it gives up half way. `Grown` adds that the classes of an earlier
tree are still there as they were: a reader only adds members to classes it has
added itself.
-/
namespace Certi.Modules

open Keyed Ascending Throwing

section Trees

variable {σ μ : Type}

structure Sound (t : ClassSet σ μ) : Prop where
  names : (t.map ClassEntry.name).Nodup
  positive : ∀ c ∈ t, c.handle ≠ 0
  members : ∀ c ∈ t, Ascends Prod.fst c.members
  parents : ∀ c ∈ t, c.superClass ≠ 0 →
    ∃ p ∈ t, p.handle = c.superClass ∧ ∃ short, c.name = hierarchicalName p.name short

theorem sound_nil : Sound ([] : ClassSet σ μ) where
  names := List.nodup_nil
  positive c member := absurd member List.not_mem_nil
  members c member := absurd member List.not_mem_nil
  parents c member := absurd member List.not_mem_nil

/-- A new class under a class of the tree, or at the top. -/
theorem Sound.child {t : ClassSet σ μ} (sound : Sound t) {parent : Option (ClassEntry σ μ)}
    (inside : ∀ p, parent = some p → view p ∈ t) {name : String} {h : Nat} {props : σ}
    (positive : h ≠ 0) (absent : (childOf parent name h props).name ∉ t.map ClassEntry.name) :
    Sound (childOf parent name h props :: t) := by
  refine ⟨?_, ?_, ?_, ?_⟩
  · rw [List.map_cons]
    exact List.nodup_cons.mpr ⟨absent, sound.names⟩
  · intro c member
    rcases List.mem_cons.mp member with rfl | before
    · rw [childOf_handle]
      exact positive
    · exact sound.positive c before
  · intro c member
    rcases List.mem_cons.mp member with rfl | before
    · cases parent with
      | none => exact List.Pairwise.nil
      | some p => exact sound.members (view p) (inside p rfl)
    · exact sound.members c before
  · intro c member under
    rcases List.mem_cons.mp member with rfl | before
    · cases parent with
      | none => exact absurd rfl under
      | some p => exact ⟨view p, List.mem_cons_of_mem _ (inside p rfl), rfl, name, rfl⟩
    · obtain ⟨p, present, found⟩ := sound.parents c before under
      exact ⟨p, List.mem_cons_of_mem _ present, found⟩

theorem Sound.withMember {t : ClassSet σ μ} (sound : Sound t) (n : String) (h : Nat) (m : μ) :
    Sound (adjust ClassEntry.name n (withMember h m) t) := by
  refine ⟨?_, ?_, ?_, ?_⟩
  · rw [names_withMember]
    exact sound.names
  · exact forall_adjust sound.positive fun c _ _ before => before
  · exact forall_adjust sound.members fun c _ _ before => ascends_store before
  · have moved : ∀ c ∈ t, ∃ c' ∈ adjust ClassEntry.name n (Modules.withMember h m) t,
        c'.handle = c.handle ∧ c'.name = c.name := by
      intro c member
      by_cases same : c.name = n
      · exact ⟨_, mem_adjust.mpr (.inr ⟨c, member, same, rfl⟩), rfl, rfl⟩
      · exact ⟨c, mem_adjust.mpr (.inl ⟨member, same⟩), rfl, rfl⟩
    have each : ∀ c ∈ t, c.superClass ≠ 0 →
        ∃ p ∈ adjust ClassEntry.name n (Modules.withMember h m) t,
          p.handle = c.superClass ∧ ∃ short, c.name = hierarchicalName p.name short := by
      intro c member under
      obtain ⟨p, present, handle, short, name⟩ := sound.parents c member under
      obtain ⟨p', present', handle', name'⟩ := moved p present
      exact ⟨p', present', handle'.trans handle, short, by rw [name', name]⟩
    exact forall_adjust each fun c _ _ before => before

/-- The tree is sound, has the `old` classes as they were, and classes of all the names `ns`. -/
structure Grown (old : ClassSet σ μ) (ns : List String) (t : ClassSet σ μ) : Prop where
  sound : Sound (views t)
  keeps : ∀ v ∈ old, v ∈ views t
  present : ∀ n ∈ ns, n ∈ t.map ClassEntry.name

variable {old : ClassSet σ μ} {ns : List String}

theorem Grown.of_views {t t' : ClassSet σ μ} (grown : Grown old ns t) (same : views t' = views t) :
    Grown old ns t' where
  sound := same ▸ grown.sound
  keeps := same ▸ grown.keeps
  present n member := by
    have before := grown.present n member
    rw [← names_views, ← same, names_views] at before
    exact before

theorem Grown.not_old {t : ClassSet σ μ} (grown : Grown old ns t) {n : String}
    (absent : n ∉ t.map ClassEntry.name) : n ∉ old.map ClassEntry.name := by
  intro member
  obtain ⟨v, was, rfl⟩ := List.mem_map.mp member
  apply absent
  rw [← names_views]
  exact List.mem_map_of_mem (grown.keeps v was)

theorem addClass_grown (name : String) {h : Nat} (props : σ) (parent : Option String)
    (positive : h ≠ 0) :
    Spec (Grown old ns) (addClass (μ := μ) name h props parent)
      (fun c t => Grown old (c :: ns) t ∧ c ∉ old.map ClassEntry.name) (Grown old ns) := by
  intro t grown
  cases reached : addClass name h props parent t with
  | error e t' => exact grown.of_views (addClass_error reached)
  | ok c t' =>
    obtain ⟨named', absent, added, _⟩ := addClass_ok reached
    have inside : ∀ p, parent.bind (named t) = some p → view p ∈ views t := by
      intro p found
      obtain ⟨_, _, member⟩ := Option.bind_eq_some_iff.mp found
      exact List.mem_map_of_mem (lookup_mem member)
    refine ⟨⟨?_, ?_, ?_⟩, grown.not_old absent⟩
    · rw [added]
      apply grown.sound.child inside positive
      rw [← named', names_views]
      exact absent
    · intro v was
      rw [added]
      exact List.mem_cons_of_mem _ (grown.keeps v was)
    · intro n member
      rw [← names_views, added, List.map_cons, names_views]
      rcases List.mem_cons.mp member with rfl | before
      · rw [named']
        exact List.mem_cons_self
      · exact List.mem_cons_of_mem _ (grown.present n before)

theorem addMember_grown {c : String} {h : Nat} {m : μ} (new : c ∉ old.map ClassEntry.name) :
    Spec (Grown old ns) (addMember (σ := σ) c h m) (fun _ => Grown old ns) (Grown old ns) := by
  intro t grown
  cases reached : addMember c h m t with
  | error e t' =>
    rw [addMember_error reached]
    exact grown
  | ok a t' =>
    rw [addMember_ok reached]
    refine ⟨?_, ?_, ?_⟩
    · rw [views_withMember]
      exact grown.sound.withMember c h m
    · intro v was
      rw [views_withMember]
      refine mem_adjust.mpr (.inl ⟨grown.keeps v was, ?_⟩)
      rintro rfl
      exact new (List.mem_map_of_mem was)
    · intro n member
      rw [names_withMember]
      exact grown.present n member

end Trees

/-! ## The readers -/

section Reading

variable {κ δ σ μ : Type} (rd : Reader κ δ σ μ) {old : ClassSet σ μ} {ns : List String}

abbrev GrownIn (old : ClassSet σ μ) (ns : List String) (g : Growing σ μ) : Prop :=
  Grown old ns g.tree

theorem onTree_grown {α : Type} {m : EStateM RTIException (ClassSet σ μ) α}
    {Q : α → ClassSet σ μ → Prop} (spec : Spec (Grown old ns) m Q (Grown old ns)) :
    Spec (GrownIn old ns) (onTree m) (fun a g => Q a g.tree) (GrownIn old ns) := by
  apply spec_zoom
  intro g grown
  apply spec_conseq spec
  · rintro t rfl
    exact grown
  · intro a t ends
    exact ends

theorem addOrFind_grown {name : String} {h : Nat} {props : σ} {parent : Option String}
    (positive : h ≠ 0) :
    Spec (Grown old ns) (addOrFind rd name h props parent)
      (fun found t => Grown old (found.1 :: ns) t ∧
        (found.2 = false → found.1 ∉ old.map ClassEntry.name)) (Grown old ns) := by
  intro t grown
  have adding := addClass_grown name props parent positive t grown
  unfold addOrFind
  cases reached : addClass name h props parent t with
  | ok c t' =>
    rw [reached] at adding
    exact ⟨adding.1, fun _ => adding.2⟩
  | error e t' =>
    rw [reached] at adding
    by_cases merging : rd.isParsingModule
    · simp only [merging, if_true]
      cases looked : getHandleFromName t' name >>= getObjectFromHandle t' with
      | error e' => exact adding
      | ok c =>
        refine ⟨⟨adding.sound, adding.keeps, ?_⟩, by simp⟩
        -- what was found under its handle is a class of the tree
        have member : c ∈ t' := by
          cases byName : getHandleFromName t' name with
          | error e' =>
            rw [byName] at looked
            cases looked
          | ok k =>
            rw [byName] at looked
            change getObjectFromHandle t' k = .ok c at looked
            unfold getObjectFromHandle at looked
            split at looked
            · rename_i found
              cases looked
              exact lookup_mem found
            · cases looked
        intro n inside
        rcases List.mem_cons.mp inside with rfl | before
        · exact List.mem_map_of_mem member
        · exact adding.present n before
    · simp only [merging]
      exact adding

theorem readMember_grown {c : String} {decl : δ} (new : c ∉ old.map ClassEntry.name) :
    Spec (GrownIn old ns) (readMember rd c decl) (fun _ => GrownIn old ns) (GrownIn old ns) := by
  intro g grown
  by_cases counted : rd.countsMembers
  · have added := onTree_grown (addMember_grown (h := g.freeMember + 1) (m := rd.member decl)
      new) { g with freeMember := g.freeMember + 1 } grown
    simpa only [readMember, counted, if_true] using added
  · have added := onTree_grown (addMember_grown (h := nextMember g.tree c) (m := rd.member decl)
      new) g grown
    simpa only [readMember, counted, Bool.false_eq_true, if_false] using added

/-- Reading the elements of a level, at the top or inside a class that may only grow when the
reader itself has added it. The induction is on the elements: first child, then next sibling. -/
theorem readNodes_grown (nodes : Nodes κ δ) (current : Option (String × Bool))
    (inside : ∀ c known, current = some (c, known) →
      c ∈ ns ∧ (known = false → c ∉ old.map ClassEntry.name)) :
    Spec (GrownIn old ns) (readNodes rd current nodes) (fun _ => GrownIn old ns)
      (GrownIn old ns) := by
  induction nodes generalizing current ns with
  | done =>
    apply spec_pure
    intro g grown
    exact grown
  | member decl next ih =>
    unfold readNodes
    refine spec_bind (Q := fun _ => GrownIn old ns) ?_ fun _ => ih current inside
    unfold readMemberOf
    rcases current with _ | ⟨c, _ | _⟩
    · exact spec_pure fun g grown => grown
    · exact readMember_grown rd ((inside c false rfl).2 rfl)
    · exact spec_pure fun g grown => grown
  | subclass name decl children next ihChildren ihNext =>
    unfold readNodes
    refine spec_bind (Q := fun h g => h ≠ 0 ∧ GrownIn old ns g) ?_ fun h => ?_
    · intro g grown
      exact ⟨Nat.succ_ne_zero _, grown⟩
    refine spec_bind (Q := fun found g => GrownIn old (found.1 :: ns) g ∧
      (found.2 = false → found.1 ∉ old.map ClassEntry.name)) ?_ fun found => ?_
    · rintro g ⟨positive, grown⟩
      exact onTree_grown (addOrFind_grown rd positive) g grown
    refine spec_bind (Q := fun _ => GrownIn old ns) ?_ fun _ =>
      spec_bind (Q := fun _ => GrownIn old ns) ?_ fun _ => ihNext current inside
    · rintro g ⟨grown, new⟩
      have below := @ihChildren (found.1 :: ns) (some found)
        (by
          rintro c known ⟨⟩
          exact ⟨List.mem_cons_self, new⟩) g grown
      have weaker : ∀ g', GrownIn old (found.1 :: ns) g' → GrownIn old ns g' := by
        intro g' wide
        exact ⟨wide.sound, wide.keeps, fun n member => wide.present n (List.mem_cons_of_mem _ member)⟩
      cases reached : readNodes rd (some found) children g with
      | ok a g' =>
        rw [reached] at below
        exact weaker g' below
      | error e g' =>
        rw [reached] at below
        exact weaker g' below
    · intro g grown
      unfold endClass
      simp only
      split <;> exact grown

end Reading

/-! ## Root objects -/

structure RootObject.Sound (root : RootObject) : Prop where
  objectClasses : Modules.Sound (views root.objectClasses)
  interactions : Modules.Sound (views root.interactions)
  spaces : ∀ i rs, root.spaces[i]? = some rs → rs.handle = i + 1

/-- Everything the `old` root object had is in `root` as it was. -/
structure RootObject.Extends (old root : RootObject) : Prop where
  objectClasses : ∀ v ∈ views old.objectClasses, v ∈ views root.objectClasses
  interactions : ∀ v ∈ views old.interactions, v ∈ views root.interactions
  spaces : old.spaces <+: root.spaces

/-- Sound, and grown out of `old`. -/
def RootObject.GrownFrom (old root : RootObject) : Prop :=
  RootObject.Sound root ∧ RootObject.Extends old root

theorem RootObject.Sound.grownFrom {root : RootObject} (sound : root.Sound) :
    root.GrownFrom root :=
  ⟨sound, fun _ member => member, fun _ member => member, List.prefix_rfl⟩

theorem addRoutingSpace_grown {old root : RootObject} (grown : old.GrownFrom root)
    (rs : RoutingSpace) : old.GrownFrom (root.addRoutingSpace rs) := by
  obtain ⟨sound, extends'⟩ := grown
  refine ⟨⟨sound.objectClasses, sound.interactions, ?_⟩,
    extends'.objectClasses, extends'.interactions, ?_⟩
  · intro i rs' found
    simp only [RootObject.addRoutingSpace] at found
    by_cases inside : i < root.spaces.length
    · rw [List.getElem?_append_left inside] at found
      exact sound.spaces i rs' found
    · rw [List.getElem?_append_right (by omega)] at found
      obtain ⟨last, rfl⟩ : i - root.spaces.length = 0 ∧
          { rs with handle := root.spaces.length + 1 } = rs' := by
        rw [List.getElem?_singleton] at found
        split at found
        · exact ⟨‹_›, by simpa using found⟩
        · cases found
      simp only
      omega
  · exact extends'.spaces.trans (List.prefix_append _ _)

section Readers

variable {old : RootObject}

theorem xmlSpaces_grown (spaces : List SpaceDecl) {root : RootObject}
    (grown : old.GrownFrom root) : old.GrownFrom (spaces.foldl XmlParser.parseRoutingSpace root) := by
  induction spaces generalizing root with
  | nil => exact grown
  | cons decl rest ih =>
    obtain ⟨⟨objectClasses, interactions, numbered⟩, classes, others, spaces⟩ := grown
    apply ih
    apply addRoutingSpace_grown
    exact ⟨⟨objectClasses, interactions, numbered⟩, classes, others, spaces⟩

theorem fedSpaces_grown (spaces : List SpaceDecl) {root : RootObject}
    (grown : old.GrownFrom root) : old.GrownFrom (spaces.foldl fedparser.space root) := by
  induction spaces generalizing root with
  | nil => exact grown
  | cons decl rest ih => exact ih (addRoutingSpace_grown grown _)

/-- Reading the classes of one set, whatever counters the reader starts from and puts back. -/
theorem readSet_grown {κ δ σ μ : Type} {rd : RootObject → Reader κ δ σ μ}
    {start : RootObject → Growing σ μ} {put : Growing σ μ → RootObject → RootObject}
    {I : RootObject → Prop} {before : ClassSet σ μ}
    (starts : ∀ root, I root → GrownIn before [] (start root))
    (back : ∀ root g, I root → GrownIn before [] g → I (put g root)) (nodes : Nodes κ δ) :
    Spec I (fun root => zoom start put (readNodes (rd root) none nodes) root) (fun _ => I) I := by
  intro root inside
  have ends := readNodes_grown (rd root) nodes none
    (by
      intro c known impossible
      cases impossible) (start root) (starts root inside)
  simp only [zoom]
  cases reached : readNodes (rd root) none nodes (start root) with
  | ok a g =>
    rw [reached] at ends
    exact back root g inside ends
  | error e g =>
    rw [reached] at ends
    exact back root g inside ends

/-- The object classes of a grown root object have grown, and growing them alone keeps the rest. -/
theorem objectClasses_start {root : RootObject} {g : Growing Unit Attribute}
    (grown : old.GrownFrom root) (same : g.tree = root.objectClasses) :
    GrownIn (views old.objectClasses) [] g :=
  ⟨same ▸ grown.1.objectClasses, same ▸ grown.2.objectClasses, by simp⟩

theorem interactions_start {root : RootObject} {g : Growing Delivery Parameter}
    (grown : old.GrownFrom root) (same : g.tree = root.interactions) :
    GrownIn (views old.interactions) [] g :=
  ⟨same ▸ grown.1.interactions, same ▸ grown.2.interactions, by simp⟩

theorem objectClasses_back {root root' : RootObject} {g : Growing Unit Attribute}
    (grown : old.GrownFrom root) (reached : GrownIn (views old.objectClasses) [] g)
    (classes : root'.objectClasses = g.tree) (others : root'.interactions = root.interactions)
    (spaces : root'.spaces = root.spaces) : old.GrownFrom root' :=
  ⟨⟨classes ▸ reached.sound, others ▸ grown.1.interactions, spaces ▸ grown.1.spaces⟩,
    ⟨classes ▸ reached.keeps, others ▸ grown.2.interactions, spaces ▸ grown.2.spaces⟩⟩

theorem interactions_back {root root' : RootObject} {g : Growing Delivery Parameter}
    (grown : old.GrownFrom root) (reached : GrownIn (views old.interactions) [] g)
    (classes : root'.interactions = g.tree) (others : root'.objectClasses = root.objectClasses)
    (spaces : root'.spaces = root.spaces) : old.GrownFrom root' :=
  ⟨⟨others ▸ grown.1.objectClasses, classes ▸ reached.sound, spaces ▸ grown.1.spaces⟩,
    ⟨others ▸ grown.2.objectClasses, classes ▸ reached.keeps, spaces ▸ grown.2.spaces⟩⟩

theorem parseModuleInto_grown (isParsingModules : Bool) (doc : Document) :
    Spec old.GrownFrom (parseModuleInto isParsingModules doc) (fun _ => old.GrownFrom)
      old.GrownFrom := by
  cases doc with
  | xml spaces groups =>
    intro root grown
    refine spec_forM (I := old.GrownFrom) ?_ _ (xmlSpaces_grown spaces grown)
    intro group _
    cases group with
    | objects classes =>
      unfold XmlParser.parseGroup XmlParser.parseClass
      apply readSet_grown
      · intro _ inside
        exact objectClasses_start inside rfl
      · intro _ _ inside reached
        exact objectClasses_back inside reached rfl rfl rfl
    | interactions classes =>
      unfold XmlParser.parseGroup XmlParser.parseInteraction
      apply readSet_grown
      · intro _ inside
        exact interactions_start inside rfl
      · intro _ _ inside reached
        exact interactions_back inside reached rfl rfl rfl
  | fed spaces objects interactions =>
    refine spec_bind (Q := fun _ => old.GrownFrom) ?_ fun _ =>
      spec_bind (Q := fun _ => old.GrownFrom) ?_ fun _ => ?_
    · intro root grown
      exact fedSpaces_grown spaces grown
    · unfold fedparser.objects
      apply readSet_grown
      · intro _ inside
        exact objectClasses_start inside rfl
      · intro _ _ inside reached
        exact objectClasses_back inside reached rfl rfl rfl
    · unfold fedparser.interactions
      apply readSet_grown
      · intro _ inside
        exact interactions_start inside rfl
      · intro _ _ inside reached
        exact interactions_back inside reached rfl rfl rfl

end Readers

theorem readInto_grown {root : RootObject} (sound : root.Sound) (doc : Document) :
    root.GrownFrom (readInto root doc) :=
  (parseModuleInto_grown true doc).final sound.grownFrom

theorem foldl_readInto_grown {old root : RootObject} (grown : old.GrownFrom root)
    (docs : List Document) : old.GrownFrom (docs.foldl readInto root) := by
  induction docs generalizing root with
  | nil => exact grown
  | cons doc rest ih =>
    apply ih
    exact (parseModuleInto_grown true doc).final grown

theorem built_sound (docs : List Document) : (built docs).Sound := by
  have empty : RootObject.Sound {} := ⟨sound_nil, sound_nil, by simp⟩
  exact (foldl_readInto_grown empty.grownFrom docs).1

end Certi.Modules
