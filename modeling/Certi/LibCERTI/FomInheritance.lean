import Certi.LibCERTI.FomGrowth

/-!
# Inherited attributes

A class gets the attributes of its parent when it joins the tree, and numbers
its own from there. Whether a class keeps having all attributes of its parent
depends on the order of the elements of a document, which the XML parsers take
as they come.
-/
namespace Certi.Modules

open Keyed Ascending Throwing

section Trees

variable {σ μ : Type} {name : μ → String} {t : ClassSet σ μ}

/-- The members of a class are numbered from 1, have names of their own, and begin with the members
of the class that its superclass handle leads to. -/
structure Inherits (name : μ → String) (t : ClassSet σ μ) : Prop where
  numbered : ∀ c ∈ t, c.members.map Prod.fst = List.range' 1 c.members.length
  names : ∀ c ∈ t, (c.members.map fun m => name m.2).Nodup
  inherited : ∀ c ∈ t, c.superClass ≠ 0 → ∀ p, atHandle t c.superClass = some p →
    p.members <+: c.members

theorem inherits_nil : Inherits name ([] : ClassSet σ μ) :=
  ⟨fun _ member => absurd member List.not_mem_nil, fun _ member => absurd member List.not_mem_nil,
    fun _ member => absurd member List.not_mem_nil⟩

/-- The sets of subclass names do not matter. -/
theorem inherits_views : Inherits name (views t) ↔ Inherits name t := by
  constructor
  · rintro ⟨numbered, names, inherited⟩
    refine ⟨fun c member => numbered (view c) (List.mem_map_of_mem member),
      fun c member => names (view c) (List.mem_map_of_mem member),
      fun c member under p found => ?_⟩
    refine inherited (view c) (List.mem_map_of_mem member) under (view p) ?_
    rw [atHandle_views, view_superClass, found]
    rfl
  · rintro ⟨numbered, names, inherited⟩
    refine ⟨List.forall_mem_map.mpr numbered, List.forall_mem_map.mpr names,
      List.forall_mem_map.mpr fun c member under p found => ?_⟩
    rw [atHandle_views] at found
    obtain ⟨q, before, rfl⟩ := Option.map_eq_some_iff.mp found
    exact inherited c member under q before

/-- A member may join a class that has no subclass and no member of that name. -/
def joinsLast (name : μ → String) (t : ClassSet σ μ) (c : String) (m : μ) : Bool :=
  match named t c with
  | none => true
  | some found =>
    !(found.members.map fun m => name m.2).contains (name m) &&
      t.all fun d => d.superClass ≠ found.handle

/-- What the member does to the class of that name. -/
theorem withMember_last (holds : Inherits name t) {c : ClassEntry σ μ} (member : c ∈ t) (m : μ) :
    withMember (c.members.length + 1) m c =
      { c with members := c.members ++ [(c.members.length + 1, m)] } := by
  have below : ∀ b ∈ c.members, b.1 < c.members.length + 1 := by
    intro b inside
    have listed : b.1 ∈ List.range' 1 c.members.length := by
      rw [← holds.numbered c member]
      exact List.mem_map_of_mem inside
    obtain ⟨_, under⟩ := List.mem_range'_1.mp listed
    omega
  rw [withMember, store_last below]

theorem Inherits.withMember (holds : Inherits name t) (distinct : (t.map ClassEntry.name).Nodup)
    {c : ClassEntry σ μ} (member : c ∈ t) {m : μ} (last : joinsLast name t c.name m = true) :
    Inherits name
      (adjust ClassEntry.name c.name (Modules.withMember (c.members.length + 1) m) t) := by
  have found : named t c.name = some c := lookup_of_nodup distinct member
  simp only [joinsLast, found, Bool.and_eq_true, Bool.not_eq_true', List.all_eq_true,
    decide_eq_true_iff] at last
  obtain ⟨fresh, childless⟩ := last
  have only : ∀ d ∈ t, d.name = c.name → d = c :=
    fun d belongs same => List.inj_on_of_nodup_map distinct belongs member same
  refine ⟨?_, ?_, ?_⟩
  · refine forall_adjust holds.numbered fun d belongs same numbered => ?_
    rw [only d belongs same, withMember_last holds member]
    have before := holds.numbered c member
    simp [before, List.range'_concat, Nat.add_comm]
  · refine forall_adjust holds.names fun d belongs same names => ?_
    rw [only d belongs same, withMember_last holds member]
    have absent : name m ∉ c.members.map fun m => name m.2 := by simpa using fresh
    dsimp only
    rw [List.map_append, List.nodup_append]
    refine ⟨holds.names c member, by simp, fun a listed b new => ?_⟩
    rw [List.mem_singleton.mp new]
    rintro rfl
    exact absent listed
  · intro d' belongs' under p found'
    -- the superclass of no class is the one that grows
    have parent : ∀ d ∈ t, d.superClass ≠ 0 → atHandle
        (adjust ClassEntry.name c.name (Modules.withMember (c.members.length + 1) m) t)
          d.superClass = some p → p.members <+: d.members := by
      intro d belongs above located
      have looked : atHandle
          (adjust ClassEntry.name c.name (Modules.withMember (c.members.length + 1) m) t)
            d.superClass = (atHandle t d.superClass).map fun q =>
              if q.name = c.name then Modules.withMember (c.members.length + 1) m q else q := by
        refine lookup_map (fun q _ => ?_) _
        split <;> rfl
      rw [looked] at located
      obtain ⟨q, before, rfl⟩ := Option.map_eq_some_iff.mp located
      have other : q.name ≠ c.name := by
        intro same
        have grows := only q (lookup_mem before) same
        have handle : q.handle = d.superClass := lookup_key before
        exact childless d belongs (handle.symm.trans (by rw [grows]))
      rw [if_neg other]
      exact holds.inherited d belongs above q before
    rcases mem_adjust.mp belongs' with ⟨belongs, _⟩ | ⟨d, belongs, same, rfl⟩
    · exact parent d' belongs under found'
    · have grows := parent d belongs under found'
      rw [only d belongs same] at grows ⊢
      rw [withMember_last holds member]
      exact grows.trans (List.prefix_append _ _)

/-- A class under a new handle inherits what its parent has. -/
theorem Inherits.child (holds : Inherits name t) (sound : Sound t) (unshared : Unshared t)
    {parent : Option (ClassEntry σ μ)} (inside : ∀ p, parent = some p → view p ∈ t) {n : String}
    {h : Nat} {props : σ} (fresh : h ∉ t.map ClassEntry.handle) :
    Inherits name (childOf parent n h props :: t) := by
  have older : ∀ k ≠ h, atHandle (childOf parent n h props :: t) k = atHandle t k := by
    intro k other
    unfold atHandle lookup
    rw [List.find?_cons_of_neg]
    rw [childOf_handle]
    simpa using Ne.symm other
  refine ⟨?_, ?_, ?_⟩
  · refine List.forall_mem_cons.mpr ⟨?_, holds.numbered⟩
    cases parent with
    | none => rfl
    | some p => exact holds.numbered (view p) (inside p rfl)
  · refine List.forall_mem_cons.mpr ⟨?_, holds.names⟩
    cases parent with
    | none => exact List.nodup_nil
    | some p => exact holds.names (view p) (inside p rfl)
  · refine List.forall_mem_cons.mpr ⟨?_, fun c member under p found => ?_⟩
    · intro under p found
      cases parent with
      | none => exact absurd rfl under
      | some q =>
        have member := inside q rfl
        have other : q.handle ≠ h := by
          rintro rfl
          exact fresh (List.mem_map.mpr ⟨view q, member, rfl⟩)
        have located : atHandle t q.handle = some (view q) := lookup_of_nodup unshared member
        have above : (childOf (some q) n h props).superClass = q.handle := rfl
        rw [above, older _ other, located] at found
        cases found
        exact List.prefix_rfl
    · obtain ⟨q, member', handle, _⟩ := sound.parents c member under
      have other : c.superClass ≠ h := by
        rintro rfl
        exact fresh (handle ▸ List.mem_map_of_mem member')
      rw [older _ other] at found
      exact holds.inherited c member under p found

end Trees

/-! ## The readers -/

section Reading

variable {κ δ σ μ : Type} (rd : Reader κ δ σ μ) (name : μ → String)

/-- The class element up to its children. -/
def startClass (current : Option (String × Bool)) (n : String) (decl : κ) :
    EStateM RTIException (Growing σ μ) (String × Bool) := do
  let h ← freeClassHandle
  onTree (addOrFind rd n h (rd.props decl) (current.map Prod.fst))

/-- Its children and its end. -/
def finishClass (current : Option (String × Bool)) (found : String × Bool)
    (children : Nodes κ δ) : EStateM RTIException (Growing σ μ) Unit := do
  readNodes rd (some found) children
  endClass rd current

theorem readNodes_subclass (current : Option (String × Bool)) (n : String) (decl : κ)
    (children next : Nodes κ δ) :
    readNodes rd current (.subclass n decl children next) = (do
      let found ← startClass rd current n decl
      finishClass rd current found children
      readNodes rd current next) := by
  simp only [readNodes, startClass, finishClass, bind_assoc]

/-- Every member that is read joins its class last, and every new class gets a new handle. -/
def orderly : Option (String × Bool) → Nodes κ δ → Growing σ μ → Bool
  | _, .done, _ => true
  | current, .member decl next, g =>
    (match current with
      | some (c, false) => joinsLast name g.tree c (rd.member decl)
      | _ => true) &&
    match readMemberOf rd current decl g with
    | .ok _ g' => orderly current next g'
    | .error _ _ => true
  | current, .subclass n decl children next, g =>
    match startClass rd current n decl g with
    | .error _ _ => true
    | .ok found g' =>
      (found.2 || !(g.tree.map ClassEntry.handle).contains (g.freeClass + 1)) &&
      orderly (some found) children g' &&
      match finishClass rd current found children g' with
      | .ok _ g'' => orderly current next g''
      | .error _ _ => true

/-- What orderly reading keeps. -/
structure Inheriting (t : ClassSet σ μ) : Prop where
  sound : Sound (views t)
  unshared : Unshared t
  inherits : Inherits name t

variable {rd name} {current : Option (String × Bool)} {g g' : Growing σ μ}

theorem Inheriting.of_views {t t' : ClassSet σ μ} (holds : Inheriting name t)
    (same : views t' = views t) : Inheriting name t' := by
  refine ⟨same ▸ holds.sound, ?_, ?_⟩
  · rw [Unshared, ← handles_views, same, handles_views]
    exact holds.unshared
  · rw [← inherits_views, same, inherits_views]
    exact holds.inherits

theorem readMember_inheriting (own : rd.countsMembers = false) (holds : Inheriting name g.tree)
    {c : String} {decl : δ} (last : joinsLast name g.tree c (rd.member decl) = true) :
    Inheriting name (final (readMember rd c decl g)).tree := by
  unfold readMember onTree zoom
  simp only [own, Bool.false_eq_true, if_false]
  cases reached : addMember c (nextMember g.tree c) (rd.member decl) g.tree with
  | error e t =>
    rw [addMember_error reached]
    exact holds
  | ok a t =>
    have added := addMember_ok reached
    cases found : named g.tree c with
    | none =>
      rw [adjust_of_absent (lookup_eq_none.mp found)] at added
      rw [added]
      exact holds
    | some d =>
      have member := lookup_mem found
      obtain rfl : d.name = c := lookup_key found
      have count : nextMember g.tree d.name = d.members.length + 1 := by
        rw [nextMember, found]
        rfl
      have distinct : (g.tree.map ClassEntry.name).Nodup := names_views g.tree ▸ holds.sound.names
      rw [count] at added
      subst added
      refine ⟨?_, ?_, holds.inherits.withMember distinct member last⟩
      · have sound := holds.sound.withMember d.name (d.members.length + 1) (rd.member decl)
        rw [← views_withMember] at sound
        exact sound
      · have handles : (adjust ClassEntry.name d.name
            (withMember (d.members.length + 1) (rd.member decl)) g.tree).map ClassEntry.handle =
              g.tree.map ClassEntry.handle := by
          refine map_adjust ?_ _
          intro d
          rfl
        simpa only [Unshared, final, handles] using holds.unshared

/-- A class element begins with a new class, or leaves the tables as they are. -/
theorem startClass_cases (n : String) (decl : κ) :
    views (final (startClass rd current n decl g)).tree = views g.tree ∨
      ∃ c g', startClass rd current n decl g = .ok (c, false) g' ∧
        c ∉ g.tree.map ClassEntry.name ∧
        views g'.tree = childOf ((current.map Prod.fst).bind (named g.tree)) n (g.freeClass + 1)
          (rd.props decl) :: views g.tree ∧
        c = (childOf ((current.map Prod.fst).bind (named g.tree)) n (g.freeClass + 1)
          (rd.props decl)).name := by
  have start : startClass rd current n decl g =
      onTree (addOrFind rd n (g.freeClass + 1) (rd.props decl) (current.map Prod.fst))
        { g with freeClass := g.freeClass + 1 } := rfl
  rw [start]
  unfold onTree zoom addOrFind
  cases reached : addClass n (g.freeClass + 1) (rd.props decl) (current.map Prod.fst) g.tree with
  | ok c t =>
    obtain ⟨named', absent, added, _⟩ := addClass_ok reached
    exact .inr ⟨c, _, rfl, absent, added, named'⟩
  | error e t =>
    have same := addClass_error reached
    left
    by_cases merging : rd.isParsingModule
    · simp only [merging, if_true]
      cases getHandleFromName t n >>= getObjectFromHandle t <;> exact same
    · simp only [merging]
      exact same

theorem startClass_inheriting (holds : Inheriting name g.tree) {n : String} {decl : κ}
    (fresh : ∀ found g', startClass rd current n decl g = .ok found g' →
      found.2 = true ∨ g.freeClass + 1 ∉ g.tree.map ClassEntry.handle) :
    Inheriting name (final (startClass rd current n decl g)).tree := by
  rcases @startClass_cases κ δ σ μ rd current g n decl with
    same | ⟨c, g', reached, absent, added, named'⟩
  · exact holds.of_views same
  · have new : g.freeClass + 1 ∉ (views g.tree).map ClassEntry.handle := by
      rw [handles_views]
      exact (fresh _ _ reached).resolve_left Bool.false_ne_true
    have inside : ∀ p, (current.map Prod.fst).bind (named g.tree) = some p →
        view p ∈ views g.tree := by
      intro p found
      obtain ⟨_, _, member⟩ := Option.bind_eq_some_iff.mp found
      exact List.mem_map_of_mem (lookup_mem member)
    have unshared : Unshared (views g.tree) := by
      rw [Unshared, handles_views]
      exact holds.unshared
    rw [reached]
    dsimp only [final]
    refine ⟨?_, ?_, inherits_views.mp ?_⟩
    · rw [added]
      refine holds.sound.child inside (Nat.succ_ne_zero _) ?_
      rw [← named', names_views]
      exact absent
    · rw [Unshared, ← handles_views, added, List.map_cons, childOf_handle]
      exact List.nodup_cons.mpr ⟨new, unshared⟩
    · rw [added]
      exact (inherits_views.mpr holds.inherits).child holds.sound unshared inside new

theorem endClass_inheriting (holds : Inheriting name g.tree) :
    Inheriting name (final (endClass (σ := σ) (μ := μ) rd current g)).tree := by
  refine holds.of_views ?_
  unfold endClass final
  dsimp only
  split <;> rfl

/-- Reading elements in order keeps the invariant; the induction is on the elements, first child,
then next sibling. -/
theorem readNodes_inheriting (own : rd.countsMembers = false) (nodes : Nodes κ δ) :
    ∀ (current : Option (String × Bool)) (g : Growing σ μ), Inheriting name g.tree →
      orderly rd name current nodes g = true →
        Inheriting name (final (readNodes rd current nodes g)).tree := by
  induction nodes with
  | done => exact fun _ _ holds _ => holds
  | member decl next ih =>
    intro current g holds fits
    simp only [orderly, Bool.and_eq_true] at fits
    obtain ⟨last, later⟩ := fits
    have here : Inheriting name (final (readMemberOf rd current decl g)).tree := by
      unfold readMemberOf
      rcases current with _ | ⟨c, _ | _⟩
      · exact holds
      · exact readMember_inheriting own holds last
      · exact holds
    unfold readNodes
    cases reached : readMemberOf rd current decl g with
    | error e g' =>
      rw [bind_error reached]
      rw [reached] at here
      exact here
    | ok a g' =>
      rw [bind_ok reached]
      rw [reached] at here later
      exact ih current g' here later
  | subclass n decl children next ihChildren ihNext =>
    intro current g holds fits
    rw [readNodes_subclass]
    rw [orderly] at fits
    have here : Inheriting name (final (startClass rd current n decl g)).tree := by
      refine startClass_inheriting holds fun found g' reached => ?_
      rw [reached] at fits
      simp only [Bool.and_eq_true, Bool.or_eq_true, Bool.not_eq_true'] at fits
      simpa using fits.1.1
    cases started : startClass rd current n decl g with
    | error e g' =>
      rw [bind_error started]
      rw [started] at here
      exact here
    | ok found g' =>
      rw [bind_ok started]
      rw [started] at here fits
      simp only [Bool.and_eq_true] at fits
      obtain ⟨⟨_, below⟩, later⟩ := fits
      have children' := ihChildren (some found) g' here below
      have finished : Inheriting name (final (finishClass rd current found children g')).tree := by
        unfold finishClass
        cases read : readNodes rd (some found) children g' with
        | error e g'' =>
          rw [bind_error read]
          rw [read] at children'
          exact children'
        | ok a g'' =>
          rw [bind_ok read]
          rw [read] at children'
          exact endClass_inheriting children'
      cases ended : finishClass rd current found children g' with
      | error e g'' =>
        rw [bind_error ended]
        rw [ended] at finished
        exact finished
      | ok a g'' =>
        rw [bind_ok ended]
        rw [ended] at finished later
        exact ihNext current g'' finished later

end Reading

/-! ## Documents -/

/-- How the XML parsers read the classes of a root object. -/
def XmlParser.objectReader (isParsingModule : Bool) (root : RootObject) :
    Reader Unit AttributeDecl Unit Attribute where
  isParsingModule := isParsingModule
  countsMembers := false
  restartsMembers := false
  props := id
  member := attributeOf root

def fedparser.objectReader : Reader Unit AttributeDecl Unit Attribute where
  isParsingModule := false
  countsMembers := false
  restartsMembers := false
  props := id
  member decl := { name := decl.name, order := decl.order, transport := decl.transport }

def orderlyGroup (isParsingModule : Bool) (root : RootObject) : Group → Bool
  | .objects classes =>
    orderly (XmlParser.objectReader isParsingModule root) Attribute.name none classes
      ⟨root.objectClasses, root.freeObjectClassHandle, 0⟩
  | .interactions _ => true

def orderlyGroups (isParsingModule : Bool) : List Group → RootObject → Bool
  | [], _ => true
  | group :: rest, root =>
    orderlyGroup isParsingModule root group &&
    match XmlParser.parseGroup isParsingModule group root with
    | .ok _ root' => orderlyGroups isParsingModule rest root'
    | .error _ _ => true

/-- The attributes of a document come in order, where it is read into the root object. -/
def orderlyDocument : Document → RootObject → Bool
  | .xml spaces groups, root =>
    orderlyGroups true groups (spaces.foldl XmlParser.parseRoutingSpace root)
  | .fed spaces objects _, root =>
    orderly fedparser.objectReader Attribute.name none objects
      ⟨(spaces.foldl fedparser.space root).objectClasses, 0, 0⟩

def orderlyRun : List Document → RootObject → Bool
  | [], _ => true
  | doc :: rest, root => orderlyDocument doc root && orderlyRun rest (readInto root doc)

/-- The object classes of a root object inherit as they should. -/
abbrev RootObject.Inheriting (root : RootObject) : Prop :=
  Modules.Inheriting Attribute.name root.objectClasses

theorem foldl_objectClasses {α : Type} {s : RootObject → α → RootObject}
    (keeps : ∀ root a, (s root a).objectClasses = root.objectClasses) (l : List α) :
    ∀ root : RootObject, (l.foldl s root).objectClasses = root.objectClasses := by
  induction l with
  | nil => exact fun _ => rfl
  | cons a rest ih => exact fun root => (ih (s root a)).trans (keeps root a)

/-- Reading a set of classes on its own, whatever counters are put back. -/
theorem zoom_objectClasses {κ δ σ μ : Type} {rd : Reader κ δ σ μ} {nodes : Nodes κ δ}
    {view : RootObject → Growing σ μ} {put : Growing σ μ → RootObject → RootObject}
    {p : ClassSet Unit Attribute → Prop} {root : RootObject}
    (read : p (put (final (readNodes rd none nodes (view root))) root).objectClasses) :
    p (final (zoom view put (readNodes rd none nodes) root)).objectClasses := by
  unfold zoom
  cases reached : readNodes rd none nodes (view root) with
  | ok a g =>
    rw [reached] at read
    exact read
  | error e g =>
    rw [reached] at read
    exact read

theorem parseGroup_inheriting {isParsingModule : Bool} {group : Group} {root : RootObject}
    (holds : root.Inheriting) (fits : orderlyGroup isParsingModule root group = true) :
    (final (XmlParser.parseGroup isParsingModule group root)).Inheriting := by
  cases group with
  | objects classes =>
    dsimp only [XmlParser.parseGroup, XmlParser.parseClass]
    refine zoom_objectClasses (p := Modules.Inheriting Attribute.name) ?_
    have own : (XmlParser.objectReader isParsingModule root).countsMembers = false := rfl
    exact readNodes_inheriting own classes none _ holds fits
  | interactions classes =>
    dsimp only [XmlParser.parseGroup, XmlParser.parseInteraction]
    refine zoom_objectClasses (p := Modules.Inheriting Attribute.name) ?_
    exact holds

theorem parseGroups_inheriting (isParsingModule : Bool) (groups : List Group) :
    ∀ root : RootObject, root.Inheriting → orderlyGroups isParsingModule groups root = true →
      (final (groups.forM (XmlParser.parseGroup isParsingModule) root)).Inheriting := by
  induction groups with
  | nil => exact fun _ holds _ => holds
  | cons group rest ih =>
    intro root holds fits
    rw [orderlyGroups, Bool.and_eq_true] at fits
    have here := parseGroup_inheriting holds fits.1
    have step : (group :: rest).forM (XmlParser.parseGroup isParsingModule) root =
        (do
          XmlParser.parseGroup isParsingModule group
          rest.forM (XmlParser.parseGroup isParsingModule)) root := rfl
    rw [step]
    cases reached : XmlParser.parseGroup isParsingModule group root with
    | error e root' =>
      rw [bind_error reached]
      rw [reached] at here
      exact here
    | ok a root' =>
      rw [bind_ok reached]
      have later := fits.2
      rw [reached] at here later
      exact ih root' here later

theorem readInto_inheriting {root : RootObject} (holds : root.Inheriting) {doc : Document}
    (fits : orderlyDocument doc root = true) : (readInto root doc).Inheriting := by
  cases doc with
  | xml spaces groups =>
    have same := foldl_objectClasses (s := XmlParser.parseRoutingSpace) (fun _ _ => rfl) spaces
      root
    refine parseGroups_inheriting true groups _ ?_ fits
    rw [RootObject.Inheriting, same]
    exact holds
  | fed spaces objects interactions =>
    have same := foldl_objectClasses (s := fedparser.space) (fun _ _ => rfl) spaces root
    have start : (spaces.foldl fedparser.space root).Inheriting := by
      rw [RootObject.Inheriting, same]
      exact holds
    have classes : (final (fedparser.objects objects
        (spaces.foldl fedparser.space root))).Inheriting := by
      dsimp only [fedparser.objects]
      refine zoom_objectClasses (p := Modules.Inheriting Attribute.name) ?_
      have own : fedparser.objectReader.countsMembers = false := rfl
      exact readNodes_inheriting own objects none _ start fits
    have run : readInto root (.fed spaces objects interactions) = final ((do
        fedparser.objects objects
        fedparser.interactions interactions) (spaces.foldl fedparser.space root)) := rfl
    rw [run]
    cases reached : fedparser.objects objects (spaces.foldl fedparser.space root) with
    | error e root' =>
      rw [bind_error reached]
      rw [reached] at classes
      exact classes
    | ok a root' =>
      rw [bind_ok reached]
      rw [reached] at classes
      dsimp only [fedparser.interactions]
      refine zoom_objectClasses (p := Modules.Inheriting Attribute.name) ?_
      exact classes

theorem orderlyRun_inheriting (docs : List Document) : ∀ root : RootObject, root.Inheriting →
    orderlyRun docs root = true → ∀ n, ((docs.take n).foldl readInto root).Inheriting := by
  induction docs with
  | nil =>
    intro root holds _ n
    rw [List.take_nil]
    exact holds
  | cons doc rest ih =>
    intro root holds fits n
    rw [orderlyRun, Bool.and_eq_true] at fits
    cases n with
    | zero => exact holds
    | succ n =>
      rw [List.take_succ_cons, List.foldl_cons]
      exact ih (readInto root doc) (readInto_inheriting holds fits.1) fits.2 n

/-- Over every run of documents, whether they are accepted or not, each class numbers its attributes
from 1, has no two of one name, and begins with those of its parent, as long as attributes and
classes are read in order. -/
theorem attributes_inherited (docs : List Document) (ordered : orderlyRun docs {} = true)
    (n : Nat) : Inherits Attribute.name (built (docs.take n)).objectClasses := by
  have empty : RootObject.Inheriting {} := ⟨sound_nil, List.nodup_nil, inherits_nil⟩
  exact (orderlyRun_inheriting docs {} empty ordered n).inherits

/-- A class with two attributes and a subclass with one more. -/
def earlyAttribute : Document :=
  .xml [] [.objects (.subclass "HLAobjectRoot" () (.subclass "Aircraft" ()
    (.member ⟨⟨TIMESTAMP, RELIABLE, none⟩, "position"⟩
      (.member ⟨⟨TIMESTAMP, RELIABLE, none⟩, "speed"⟩
        (.subclass "Glider" () (.member ⟨⟨TIMESTAMP, RELIABLE, none⟩, "climb"⟩ .done) .done)))
    .done) .done)]

theorem attributes_inherited_early :
    Inherits Attribute.name (built ([earlyAttribute].take 1)).objectClasses :=
  attributes_inherited [earlyAttribute] (by decide +kernel) 1

/-- A document that the first reading takes to its end. -/
def accepted (doc : Document) : Bool :=
  match parseModuleInto true doc {} with
  | .ok _ _ => true
  | .error _ _ => false

/-- The same module with the second attribute after the subclass. -/
def lateAttribute : Document :=
  .xml [] [.objects (.subclass "HLAobjectRoot" () (.subclass "Aircraft" ()
    (.member ⟨⟨TIMESTAMP, RELIABLE, none⟩, "position"⟩
      (.subclass "Glider" () (.member ⟨⟨TIMESTAMP, RELIABLE, none⟩, "climb"⟩ .done)
        (.member ⟨⟨TIMESTAMP, RELIABLE, none⟩, "speed"⟩ .done))) .done) .done)]

/-- Attribute 2 is then one thing in the class and another in its subclass. -/
theorem late_attribute_not_inherited :
    ¬ ∀ doc, accepted doc = true → Inherits Attribute.name (built [doc]).objectClasses := by
  intro always
  have holds := always lateAttribute (by decide +kernel)
  have broken : ∃ c ∈ (built [lateAttribute]).objectClasses, c.superClass ≠ 0 ∧
      ∃ p, p ∈ atHandle (built [lateAttribute]).objectClasses c.superClass ∧
        ¬ p.members <+: c.members := by decide +kernel
  obtain ⟨c, member, under, p, found, short⟩ := broken
  exact short (holds.inherited c member under p found)

end Certi.Modules
