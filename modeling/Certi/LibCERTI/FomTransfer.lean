import Mathlib.Data.List.Perm.Subperm
import Certi.Lib.Collect
import Certi.LibCERTI.FomSerialization

/-!
# What a federate rebuilds from a serialized FOM

A receiver goes through the records in the order of the handles. For both
messages the question is the same: from which class trees do the records bring
back the classes the receiver does not have yet?
-/
namespace Certi.Modules

open Keyed Ascending Collect Throwing

section Sets

variable {σ μ : Type} {zero : σ}

/-- The same classes under the same handles and the same handles under the same names. -/
structure SameClasses (t t' : ClassSet σ μ) : Prop where
  byHandle : ∀ h, (atHandle t h).map view = (atHandle t' h).map view
  byName : ∀ n, (named t n).map ClassEntry.handle = (named t' n).map ClassEntry.handle

abbrev handles (t : ClassSet σ μ) : List Nat := t.map ClassEntry.handle

theorem atHandle_eq_none {t : ClassSet σ μ} {h : Nat} : atHandle t h = none ↔ h ∉ handles t := by
  unfold atHandle
  rw [lookup_eq_none]
  simp

theorem atHandle_of_mem {t : ClassSet σ μ} {h : Nat} (member : h ∈ handles t) :
    ∃ c, atHandle t h = some c := by
  obtain ⟨c, inside, rfl⟩ := List.mem_map.mp member
  exact lookup_of_mem inside rfl

/-! ## The records of a tree -/

/-- The superclass of a class of the tree, as it is found under its handle. -/
def superOf (t : ClassSet σ μ) (c : ClassEntry σ μ) : Option (ClassEntry σ μ) :=
  if c.superClass = 0 then none else atHandle t c.superClass

theorem toRecord_eq {t : ClassSet σ μ} (sound : Sound (views t)) {c : ClassEntry σ μ}
    (member : c ∈ t) : toRecord t c = .ok (recordUnder (superOf t c) c) := by
  unfold toRecord superOf
  by_cases top : c.superClass = 0
  · rw [if_pos top, if_pos top]
  · rw [if_neg top, if_neg top]
    obtain ⟨v, inside, same, _⟩ := sound.parents (view c) (List.mem_map_of_mem member) top
    have known : c.superClass ∈ handles t := by
      rw [handles, ← handles_views]
      exact List.mem_map.mpr ⟨v, inside, same⟩
    obtain ⟨p, found⟩ := atHandle_of_mem known
    unfold getObjectFromHandle
    rw [found]
    rfl

theorem toRecords_eq {t : ClassSet σ μ} (sound : Sound (views t)) :
    toRecords zero t = .ok ((handled t).map (fun c => recordUnder (superOf t c) c) ++
      List.replicate (t.length - (handled t).length) { props := zero }) := by
  have filled : (handled t).mapM (toRecord t) =
      .ok ((handled t).map fun c => recordUnder (superOf t c) c) :=
    mapM_ok fun c member => toRecord_eq sound (handled_mem member)
  unfold toRecords
  rw [filled]
  simp only [bind, Except.bind, List.length_map]

theorem handled_nodup (t : ClassSet σ μ) : (handled t).Nodup :=
  List.Nodup.of_map _ (ascends_handled t).nodup_keys

theorem handled_subperm (t : ClassSet σ μ) : (handled t).Subperm t :=
  (handled_nodup t).subperm fun _ member => handled_mem member

/-- No record stays empty exactly when no two classes share a handle. -/
theorem unshared_iff_length {t : ClassSet σ μ} :
    Unshared t ↔ t.length - (handled t).length = 0 := by
  constructor
  · intro unshared
    have back : t.Subperm (handled t) :=
      (List.Nodup.of_map _ unshared).subperm fun _ member =>
        (mem_handled_of_unshared unshared).mpr member
    have := back.length_le
    omega
  · intro full
    have permuted := (handled_subperm t).perm_of_length_le (by omega)
    exact ((permuted.map ClassEntry.handle).nodup_iff).mp (ascends_handled t).nodup_keys

/-! ## Replaying records -/

theorem addRecordIfNew_ok {t t' : ClassSet σ μ} {r : ClassRecord σ μ} (tidy : Tidy t)
    (ordered : Ordered t) (added : addRecordIfNew r t = .ok () t') :
    (r.handle ∈ handles t ∧ t' = t) ∨
      (r.handle ∉ handles t ∧ ∃ parent, AddedUnder t t' r parent) := by
  unfold addRecordIfNew getObjectFromHandle at added
  cases looked : atHandle t r.handle with
  | some c =>
    rw [looked] at added
    cases added
    left
    refine ⟨?_, rfl⟩
    by_contra absent
    rw [atHandle_eq_none.mpr absent] at looked
    cases looked
  | none =>
    rw [looked] at added
    exact .inr ⟨atHandle_eq_none.mp looked, addRecord_ok tidy ordered added⟩

theorem addRecordIfNew_of_known {t : ClassSet σ μ} {r : ClassRecord σ μ}
    (known : r.handle ∈ handles t) : addRecordIfNew r t = .ok () t := by
  obtain ⟨c, found⟩ := atHandle_of_mem known
  unfold addRecordIfNew getObjectFromHandle
  rw [found]

theorem addRecordIfNew_of_new {t : ClassSet σ μ} {r : ClassRecord σ μ}
    (new : r.handle ∉ handles t) : addRecordIfNew r t = addRecord r t := by
  unfold addRecordIfNew getObjectFromHandle
  rw [atHandle_eq_none.mpr new]

theorem AddedUnder.handles_eq {t t' : ClassSet σ μ} {r : ClassRecord σ μ}
    {parent : Option (ClassEntry σ μ)} (added : AddedUnder t t' r parent) :
    handles t' = r.handle :: handles t := by
  rw [handles, ← handles_views, added.views_eq, List.map_cons, handles_views, recordEntry_handle]

theorem AddedUnder.atHandle {t t' : ClassSet σ μ} {r : ClassRecord σ μ}
    {parent : Option (ClassEntry σ μ)} (added : AddedUnder t t' r parent) (h : Nat) :
    (atHandle t' h).map view =
      if h = r.handle then some (recordEntry parent r) else (Modules.atHandle t h).map view := by
  rw [← atHandle_views, added.views_eq, ← atHandle_views]
  unfold Modules.atHandle lookup
  rw [List.find?_cons, recordEntry_handle]
  by_cases same : r.handle = h
  · simp [same]
  · simp [same, Ne.symm same]

/-- What a receiver has after a run over records it takes only when they are new. -/
structure Replayed (t t' : ClassSet σ μ) (records : List (ClassRecord σ μ)) : Prop where
  tidy : Tidy t'
  ordered : Ordered t'
  known : ∀ h, h ∈ handles t' ↔ h ∈ handles t ∨ h ∈ records.map ClassRecord.handle
  keeps : ∀ h ∈ handles t, (atHandle t' h).map view = (atHandle t h).map view

theorem replayed {t t' : ClassSet σ μ} {records : List (ClassRecord σ μ)} (tidy : Tidy t)
    (ordered : Ordered t) (run : records.forM addRecordIfNew t = .ok () t') :
    Replayed t t' records := by
  induction records generalizing t with
  | nil =>
    cases run
    exact ⟨tidy, ordered, by simp, fun _ _ => rfl⟩
  | cons r rest ih =>
    obtain ⟨t1, first, later⟩ := forM_cons_ok.mp run
    rcases addRecordIfNew_ok tidy ordered first with ⟨known, rfl⟩ | ⟨new, parent, added⟩
    · obtain ⟨tidy', ordered', known', keeps⟩ := ih tidy ordered later
      refine ⟨tidy', ordered', ?_, keeps⟩
      intro h
      rw [known' h, List.map_cons, List.mem_cons]
      constructor
      · rintro (before | after)
        · exact .inl before
        · exact .inr (.inr after)
      · rintro (before | rfl | after)
        · exact .inl before
        · exact .inl known
        · exact .inr after
    · obtain ⟨tidy', ordered', known', keeps⟩ := ih (added.tidy tidy) (added.ordered ordered) later
      refine ⟨tidy', ordered', ?_, ?_⟩
      · intro h
        rw [known' h, added.handles_eq, List.map_cons, List.mem_cons, List.mem_cons]
        tauto
      · intro h before
        rw [keeps h (by rw [added.handles_eq]; exact List.mem_cons_of_mem _ before), added.atHandle,
          if_neg (by rintro rfl; exact new before)]

/-! ## The classes that arrive whole -/

/-- A superclass whose subclass arrives whole: the subclass has all its members, and does not
look as if it bore the full name of a root under a root. -/
structure HandsDown (p c : ClassEntry σ μ) : Prop where
  members : ∀ m ∈ p.members, m ∈ c.members
  name : ¬(isRootName p.name = true ∧ startsWithClass p.name c.name = true)

/-- What it takes for the classes of `t` that are not `known` to arrive. -/
structure Arrives (known : List Nat) (t : ClassSet σ μ) : Prop where
  unshared : Unshared t
  classes : ∀ c ∈ t, c.handle ∉ known → ∀ p ∈ t, p.handle = c.superClass →
    (p.handle ∈ known ∨ p.handle < c.handle) ∧ HandsDown p c

instance [DecidableEq μ] (p c : ClassEntry σ μ) : Decidable (HandsDown p c) :=
  decidable_of_iff ((∀ m ∈ p.members, m ∈ c.members) ∧
      ¬(isRootName p.name = true ∧ startsWithClass p.name c.name = true))
    ⟨fun ⟨members, name⟩ => ⟨members, name⟩, fun handsDown => ⟨handsDown.members, handsDown.name⟩⟩

instance (t : ClassSet σ μ) : Decidable (Unshared t) := List.nodupDecidable _

instance [DecidableEq μ] (known : List Nat) (t : ClassSet σ μ) : Decidable (Arrives known t) :=
  decidable_of_iff (Unshared t ∧ ∀ c ∈ t, c.handle ∉ known → ∀ p ∈ t, p.handle = c.superClass →
      (p.handle ∈ known ∨ p.handle < c.handle) ∧ HandsDown p c)
    ⟨fun ⟨unshared, classes⟩ => ⟨unshared, classes⟩,
      fun arrives => ⟨arrives.unshared, arrives.classes⟩⟩

theorem Unshared.atHandle {t : ClassSet σ μ} (unshared : Unshared t) {c : ClassEntry σ μ}
    (member : c ∈ t) : atHandle t c.handle = some c :=
  lookup_of_nodup unshared member

theorem Sound.superOf {t : ClassSet σ μ} (sound : Sound (views t)) (unshared : Unshared t)
    {c : ClassEntry σ μ} (member : c ∈ t) :
    (c.superClass = 0 ∧ superOf t c = none) ∨
      ∃ p ∈ t, p.handle = c.superClass ∧ c.superClass ≠ 0 ∧ superOf t c = some p ∧
        ∃ short, c.name = hierarchicalName p.name short := by
  unfold Modules.superOf
  by_cases top : c.superClass = 0
  · left
    exact ⟨top, if_pos top⟩
  · right
    obtain ⟨v, inside, same, short, name⟩ :=
      sound.parents (view c) (List.mem_map_of_mem member) top
    obtain ⟨p, present, rfl⟩ := List.mem_map.mp inside
    have here : p.handle = c.superClass := same
    refine ⟨p, present, here, top, ?_, short, name⟩
    rw [if_neg top, ← here]
    exact unshared.atHandle present

theorem childOf_props (parent : Option (ClassEntry σ μ)) (name : String) (h : Nat) (props : σ) :
    (childOf parent name h props).props = props := by
  cases parent <;> rfl

theorem recordEntry_eq_view {parent : Option (ClassEntry σ μ)} {r : ClassRecord σ μ}
    {c : ClassEntry σ μ}
    (ascends : Ascends Prod.fst (childOf parent r.name r.handle r.props).members)
    (fresh : FreshMembers r.members (childOf parent r.name r.handle r.props))
    (handle : r.handle = c.handle) (props : r.props = c.props)
    (name : (childOf parent r.name r.handle r.props).name = c.name)
    (linked : (childOf parent r.name r.handle r.props).superClass = c.superClass)
    (ordered : Ascends Prod.fst c.members)
    (members : ∀ x, x ∈ r.members ∨ x ∈ (childOf parent r.name r.handle r.props).members ↔
      x ∈ c.members) : recordEntry parent r = view c := by
  obtain ⟨sorted, has⟩ := withMembers_spec ascends fresh
  obtain ⟨sameName, sameHandle, sameSuper, noSubs, sameProps⟩ := withMembers_frame r.members
    (childOf parent r.name r.handle r.props)
  apply ClassEntry.ext
  · exact (recordEntry_handle parent r).trans handle
  · exact sameName.trans name
  · exact sameSuper.trans linked
  · exact noSubs.trans (childOf_subClasses _ _ _ _)
  · exact sameProps.trans ((childOf_props _ _ _ _).trans props)
  · refine Ascending.ext sorted ordered ?_
    intro x
    exact (has x).trans (members x)

/-- Under a superclass that hands down its members and its name, a record gives the class back. -/
theorem recordEntry_under {p e c : ClassEntry σ μ} (asSuper : view e = view p)
    (orderedSuper : Ascends Prod.fst p.members) (ordered : Ascends Prod.fst c.members)
    (linked : p.handle = c.superClass)
    (name : hierarchicalName p.name (stripParent p.name c.name) = c.name)
    (members : ∀ m ∈ p.members, m ∈ c.members) :
    FreshMembers (recordUnder (some p) c).members
        (childOf (some e) (recordUnder (some p) c).name c.handle c.props) ∧
      recordEntry (some e) (recordUnder (some p) c) = view c := by
  have sameName : e.name = p.name := by
    simpa using congrArg ClassEntry.name asSuper
  have sameHandle : e.handle = p.handle := by
    simpa using congrArg ClassEntry.handle asSuper
  have sameMembers : e.members = p.members := by
    simpa using congrArg ClassEntry.members asSuper
  have fresh : FreshMembers (recordUnder (some p) c).members
      (childOf (some e) (recordUnder (some p) c).name c.handle c.props) := by
    refine ⟨?_, ?_⟩
    · exact ordered.nodup_keys.sublist (List.filter_sublist.map Prod.fst)
    · intro m inside
      have apart := (List.mem_filter.mp inside).2
      change m.1 ∉ e.members.map Prod.fst
      rw [sameMembers]
      simpa using apart
  refine ⟨fresh, ?_⟩
  apply recordEntry_eq_view _ fresh rfl rfl _ _ ordered
  · intro x
    change x ∈ c.members.filter (fun m => m.1 ∉ p.members.map Prod.fst) ∨ x ∈ e.members ↔ _
    rw [sameMembers, List.mem_filter]
    constructor
    · rintro (⟨own, _⟩ | inherited)
      · exact own
      · exact members x inherited
    · intro inside
      by_cases shared : x.1 ∈ p.members.map Prod.fst
      · -- the superclass has a member of this handle, and it is the same one
        obtain ⟨y, present, same⟩ := List.mem_map.mp shared
        have equal := List.inj_on_of_nodup_map ordered.nodup_keys (members y present) inside same
        exact .inr (equal ▸ present)
      · exact .inl ⟨inside, by simpa using shared⟩
  · change Ascends Prod.fst e.members
    rw [sameMembers]
    exact orderedSuper
  · change hierarchicalName e.name (stripParent p.name c.name) = c.name
    rw [sameName]
    exact name
  · exact sameHandle.trans linked

theorem recordEntry_top {c : ClassEntry σ μ} (ordered : Ascends Prod.fst c.members)
    (top : c.superClass = 0) :
    FreshMembers (recordUnder none c).members
        (childOf none (recordUnder none c).name c.handle c.props) ∧
      recordEntry none (recordUnder none c) = view c := by
  have fresh : FreshMembers (recordUnder none c).members
      (childOf none (recordUnder none c).name c.handle c.props) := by
    refine ⟨ordered.nodup_keys, ?_⟩
    intro m _ inside
    cases inside
  refine ⟨fresh, ?_⟩
  apply recordEntry_eq_view _ fresh rfl rfl _ _ ordered
  · intro x
    change x ∈ c.members ∨ x ∈ [] ↔ x ∈ c.members
    simp
  · exact List.Pairwise.nil
  · rfl
  · exact top.symm

theorem SameClasses.of_views {t s : ClassSet σ μ} (distinct : (s.map ClassEntry.name).Nodup)
    (unshared : Unshared t) (names : (t.map ClassEntry.name).Nodup)
    (agrees : ∀ e ∈ s, view e ∈ views t) (covers : ∀ c ∈ t, c.handle ∈ handles s) :
    SameClasses t s := by
  -- what is found under a handle of the tree shows the class the tree has there
  have found : ∀ c ∈ t, ∃ e ∈ s, atHandle s c.handle = some e ∧ view e = view c := by
    intro c member
    obtain ⟨e, here⟩ := atHandle_of_mem (covers c member)
    obtain ⟨d, inside, same⟩ := List.mem_map.mp (agrees e (lookup_mem here))
    have key : d.handle = c.handle := by
      rw [← view_handle d, same, view_handle]
      exact lookup_key here
    have equal : d = c := List.inj_on_of_nodup_map unshared inside member key
    exact ⟨e, lookup_mem here, here, by rw [← same, equal]⟩
  refine ⟨?_, ?_⟩
  · intro h
    cases looked : atHandle t h with
    | some c =>
      have key : c.handle = h := lookup_key looked
      obtain ⟨e, _, here, same⟩ := found c (lookup_mem looked)
      rw [← key, here]
      simp [same]
    | none =>
      have absent : h ∉ handles s := by
        intro inside
        obtain ⟨e, member, rfl⟩ := List.mem_map.mp inside
        apply atHandle_eq_none.mp looked
        rw [handles, ← handles_views]
        exact List.mem_map.mpr ⟨view e, agrees e member, rfl⟩
      rw [atHandle_eq_none.mpr absent]
  · intro n
    cases looked : named t n with
    | some c =>
      have key : c.name = n := lookup_key looked
      obtain ⟨e, member, _, same⟩ := found c (lookup_mem looked)
      have sameName : e.name = c.name := by simpa using congrArg ClassEntry.name same
      have sameHandle : e.handle = c.handle := by simpa using congrArg ClassEntry.handle same
      have here : named s e.name = some e := lookup_of_nodup distinct member
      rw [sameName, key] at here
      rw [here]
      simp [sameHandle]
    | none =>
      have absent : n ∉ s.map ClassEntry.name := by
        intro inside
        obtain ⟨e, member, rfl⟩ := List.mem_map.mp inside
        apply named_eq_none.mp looked
        rw [← names_views]
        exact List.mem_map.mpr ⟨view e, agrees e member, rfl⟩
      rw [named_eq_none.mpr absent]

/-- What a receiver has after the records of the `front` classes: classes of the tree, and those
under the handles it had before and the handles of `front`. -/
structure Receiving (t a front s : ClassSet σ μ) : Prop where
  tidy : Tidy s
  ordered : Ordered s
  agrees : ∀ e ∈ s, view e ∈ views t
  known : ∀ h, h ∈ handles s ↔ h ∈ handles a ∨ h ∈ handles front

/-- The next class in the order of the handles arrives as it is. -/
theorem Receiving.next {t a front s rest : ClassSet σ μ} {c : ClassEntry σ μ}
    (sound : Sound (views t)) (arrives : Arrives (handles a) t)
    (split : handled t = front ++ c :: rest) (receiving : Receiving t a front s) :
    ∃ s', addRecordIfNew (recordUnder (superOf t c) c) s = .ok () s' ∧
      Receiving t a (front ++ [c]) s' := by
  have member : c ∈ handled t := by
    rw [split]
    exact List.mem_append_right _ List.mem_cons_self
  have inside : c ∈ t := handled_mem member
  have ordered : ∀ d ∈ t, Ascends Prod.fst d.members := by
    intro d present
    exact sound.members (view d) (List.mem_map_of_mem present)
  by_cases known : c.handle ∈ handles s
  · refine ⟨s, addRecordIfNew_of_known known, receiving.tidy, receiving.ordered, receiving.agrees, ?_⟩
    intro h
    rw [receiving.known h]
    simp only [handles, List.map_append, List.mem_append, List.map_cons, List.map_nil,
      List.mem_singleton]
    constructor
    · rintro (before | early)
      · exact .inl before
      · exact .inr (.inl early)
    · rintro (before | early | rfl)
      · exact .inl before
      · exact .inr early
      · exact (receiving.known _).mp known
  · have new : c.handle ∉ handles a := fun before => known ((receiving.known _).mpr (.inl before))
    -- nobody has the name yet: names and handles go together in the tree
    have absent : c.name ∉ s.map ClassEntry.name := by
      intro taken
      obtain ⟨e, present, same⟩ := List.mem_map.mp taken
      have equal : view e = view c := List.inj_on_of_nodup_map sound.names
        (receiving.agrees e present) (List.mem_map_of_mem inside) same
      apply known
      exact List.mem_map.mpr ⟨e, present, by simpa using congrArg ClassEntry.handle equal⟩
    obtain ⟨parent, adopts, fresh, entry⟩ : ∃ parent,
        Adopts s (recordUnder (superOf t c) c) parent ∧
        FreshMembers (recordUnder (superOf t c) c).members
          (childOf parent (recordUnder (superOf t c) c).name c.handle c.props) ∧
        recordEntry parent (recordUnder (superOf t c) c) = view c := by
      rcases sound.superOf arrives.unshared inside with
        ⟨top, found⟩ | ⟨p, present, linked, under, found, short, name⟩
      · rw [found]
        exact ⟨none, .top top, recordEntry_top (ordered c inside) top⟩
      · rw [found]
        obtain ⟨early, handsDown⟩ := arrives.classes c inside new p present linked
        have reached : p.handle ∈ handles s := by
          apply (receiving.known _).mpr
          rcases early with before | below
          · exact .inl before
          · right
            apply List.mem_map_of_mem
            exact (mem_before (ascends_handled t) split
              ((mem_handled_of_unshared arrives.unshared).mpr present)).mpr below
        obtain ⟨e, here⟩ := atHandle_of_mem reached
        obtain ⟨d, belongs, same⟩ := List.mem_map.mp (receiving.agrees e (lookup_mem here))
        have key : d.handle = p.handle := by
          rw [← view_handle d, same, view_handle]
          exact lookup_key here
        have equal : d = p := List.inj_on_of_nodup_map arrives.unshared belongs present key
        have below : atHandle s c.superClass = some e := by
          rw [← linked]
          exact here
        refine ⟨some e, .under e under below, ?_⟩
        exact recordEntry_under (by rw [← same, equal]) (ordered p present) (ordered c inside)
          linked ((restored_iff name).mpr handsDown.name) handsDown.members
    obtain ⟨s', run⟩ := addRecord_new receiving.tidy receiving.ordered adopts
      (by rw [entry]; exact absent) fresh
    obtain ⟨parent', added⟩ := addRecord_ok receiving.tidy receiving.ordered run
    have sameParent : parent' = parent := by
      cases added.adopts with
      | top noSuper =>
        cases adopts with
        | top _ => rfl
        | under _ hasSuper _ => exact absurd noSuper hasSuper
      | under q hasSuper found =>
        cases adopts with
        | top noSuper => exact absurd noSuper hasSuper
        | under q' _ found' => rw [← found, found']
    subst sameParent
    refine ⟨s', (addRecordIfNew_of_new known).trans run, added.tidy receiving.tidy,
      added.ordered receiving.ordered, ?_, ?_⟩
    · intro e present
      have shown : view e ∈ views s' := List.mem_map_of_mem present
      rw [added.views_eq, entry] at shown
      rcases List.mem_cons.mp shown with same | before
      · rw [same]
        exact List.mem_map_of_mem inside
      · obtain ⟨e', present', same⟩ := List.mem_map.mp before
        rw [← same]
        exact receiving.agrees e' present'
    · intro h
      rw [added.handles_eq, List.mem_cons, receiving.known h]
      simp only [handles, List.map_append, List.mem_append, List.map_cons, List.map_nil,
        List.mem_singleton, recordUnder]
      tauto

/-- Where the classes arrive, the receiver ends with the sender's tree. -/
theorem Arrives.replays {t a : ClassSet σ μ} (arrives : Arrives (handles a) t) (zero : σ)
    (sound : Sound (views t)) (tidy : Tidy a) (ordered : Ordered a)
    (agrees : ∀ e ∈ a, view e ∈ views t) :
    ∃ records s, toRecords zero t = .ok records ∧ records.forM addRecordIfNew a = .ok () s ∧
      SameClasses t s := by
  obtain ⟨s, run, receiving⟩ := forM_along
    (f := fun c => addRecordIfNew (recordUnder (superOf t c) c)) (Receiving t a)
    (l := handled t) ⟨tidy, ordered, agrees, fun h => by simp⟩
    fun front c rest s split receiving => receiving.next sound arrives split
  refine ⟨_, s, toRecords_eq sound, ?_, ?_⟩
  · rw [unshared_iff_length.mp arrives.unshared, List.replicate_zero, List.append_nil]
    exact map_forM.trans run
  · apply SameClasses.of_views receiving.tidy.names arrives.unshared _ receiving.agrees
    · intro c member
      apply (receiving.known _).mpr
      right
      exact List.mem_map_of_mem ((mem_handled_of_unshared arrives.unshared).mpr member)
    · rw [← names_views]
      exact sound.names

/-- An empty record makes a class under the handle 0, which no class of the sender has. -/
theorem SameClasses.unshared {t s : ClassSet σ μ} (same : SameClasses t s)
    (sound : Sound (views t)) {records : List (ClassRecord σ μ)}
    (sent : toRecords zero t = .ok records) (taken : ∀ r ∈ records, r.handle ∈ handles s) :
    Unshared t := by
  obtain rfl := Except.ok.inj ((toRecords_eq sound).symm.trans sent)
  apply unshared_iff_length.mpr
  by_contra missing
  have empty : (0 : Nat) ∈ handles s :=
    taken { props := zero } (List.mem_append_right _ (List.mem_replicate.mpr ⟨missing, rfl⟩))
  obtain ⟨e, found⟩ := atHandle_of_mem empty
  have sender := same.byHandle 0
  rw [found] at sender
  cases here : atHandle t 0 with
  | none =>
    rw [here] at sender
    cases sender
  | some c =>
    have zeroHandle : c.handle = 0 := lookup_key here
    exact sound.positive (view c) (List.mem_map_of_mem (lookup_mem here)) zeroHandle

/-- A receiver that ends with the sender's tree has been sent classes that arrive. -/
theorem SameClasses.arrives {t a s : ClassSet σ μ} {records : List (ClassRecord σ μ)}
    (same : SameClasses t s) (sound : Sound (views t)) (tidy : Tidy a) (ordered : Ordered a)
    (sent : toRecords zero t = .ok records)
    (run : records.forM addRecordIfNew a = .ok () s) : Arrives (handles a) t := by
  have unshared := same.unshared sound sent fun r member =>
    ((replayed tidy ordered run).known _).mpr (.inr (List.mem_map_of_mem member))
  obtain rfl := Except.ok.inj ((toRecords_eq sound).symm.trans sent)
  refine ⟨unshared, ?_⟩
  intro c member new p present linked
  have inOrder := (mem_handled_of_unshared unshared).mpr member
  obtain ⟨front, rest, split⟩ := List.append_of_mem inOrder
  -- the run up to the record of the class, that record, and the rest of the run
  rw [split, List.map_append, List.map_cons, List.append_assoc, List.cons_append] at run
  obtain ⟨s1, before, later⟩ := forM_append_ok.mp run
  obtain ⟨s2, here, after⟩ := forM_cons_ok.mp later
  have early := replayed tidy ordered before
  have known1 : ∀ h, h ∈ handles s1 ↔ h ∈ handles a ∨ h ∈ handles front := by
    intro h
    rw [early.known h, List.map_map]
    exact Iff.rfl
  have notYet : c.handle ∉ handles s1 := by
    intro known
    rcases (known1 _).mp known with inBase | inFront
    · exact new inBase
    · obtain ⟨d, inside, sameHandle⟩ := List.mem_map.mp inFront
      have belongs : d ∈ handled t := by
        rw [split]
        exact List.mem_append_left _ inside
      have below := (mem_before (ascends_handled t) split belongs).mp inside
      omega
  rcases addRecordIfNew_ok early.tidy early.ordered here with ⟨known, _⟩ | ⟨_, parent, added⟩
  · exact absurd known notYet
  have late := replayed (added.tidy early.tidy) (added.ordered early.ordered) after
  have nonzero : c.superClass ≠ 0 := by
    rw [← linked]
    exact sound.positive (view p) (List.mem_map_of_mem present)
  have super : superOf t c = some p := by
    unfold Modules.superOf
    rw [if_neg nonzero, ← linked]
    exact unshared.atHandle present
  rw [super] at added
  obtain ⟨e, rfl, found⟩ : ∃ e, parent = some e ∧ atHandle s1 c.superClass = some e := by
    cases added.adopts with
    | top noSuper => exact absurd noSuper nonzero
    | under e _ found => exact ⟨e, rfl, found⟩
  -- nothing that is there is overwritten, so both classes are still seen at the end
  have superThere : p.handle ∈ handles s1 := by
    rw [linked]
    exact List.mem_map.mpr ⟨e, lookup_mem found, lookup_key found⟩
  have superSeen : view e = view p := by
    have apart : p.handle ≠ (recordUnder (some p) c).handle := by
      intro equal
      apply notYet
      rw [show c.handle = p.handle from equal.symm]
      exact superThere
    have atEnd := same.byHandle p.handle
    rw [late.keeps _ (by rw [added.handles_eq]; exact List.mem_cons_of_mem _ superThere),
      added.atHandle, if_neg apart, unshared.atHandle present, linked, found] at atEnd
    exact (Option.some.inj atEnd).symm
  have classSeen : recordEntry (some e) (recordUnder (some p) c) = view c := by
    have atEnd := same.byHandle c.handle
    rw [late.keeps _ (by rw [added.handles_eq]; exact List.mem_cons_self), added.atHandle,
      if_pos (by rfl), unshared.atHandle member] at atEnd
    exact (Option.some.inj atEnd).symm
  refine ⟨?_, ?_, ?_⟩
  · rcases (known1 _).mp superThere with inBase | inFront
    · exact .inl inBase
    · right
      obtain ⟨d, inside, sameHandle⟩ := List.mem_map.mp inFront
      have belongs : d ∈ handled t := by
        rw [split]
        exact List.mem_append_left _ inside
      have below := (mem_before (ascends_handled t) split belongs).mp inside
      omega
  · intro m inherited
    have sameMembers : e.members = p.members := by
      simpa using congrArg ClassEntry.members superSeen
    have has := (withMembers_spec (added.adopts.ascends early.ordered) added.fresh).2 m
    have inEntry : m ∈ (recordEntry (some e) (recordUnder (some p) c)).members := by
      apply has.mpr
      right
      change m ∈ e.members
      rw [sameMembers]
      exact inherited
    rw [classSeen] at inEntry
    exact inEntry
  · have sameName : e.name = p.name := by simpa using congrArg ClassEntry.name superSeen
    have back : hierarchicalName p.name (stripParent p.name c.name) = c.name := by
      have named' := recordEntry_name (some e) (recordUnder (some p) c)
      rw [classSeen] at named'
      change c.name = hierarchicalName e.name (stripParent p.name c.name) at named'
      rw [sameName] at named'
      exact named'.symm
    rcases sound.superOf unshared member with ⟨top, _⟩ | ⟨p', _, _, _, found', short, name⟩
    · exact absurd top nonzero
    · rw [super] at found'
      obtain rfl := Option.some.inj found'
      exact (restored_iff name).mp back

/-! ## The answer to a join, taken by a new federate -/

theorem addRecords_handles {t s : ClassSet σ μ} {records : List (ClassRecord σ μ)} (tidy : Tidy t)
    (ordered : Ordered t) (run : records.forM addRecord t = .ok () s) :
    ∀ h, h ∈ handles s ↔ h ∈ handles t ∨ h ∈ records.map ClassRecord.handle := by
  induction records generalizing t with
  | nil =>
    cases run
    simp
  | cons r rest ih =>
    obtain ⟨t1, first, later⟩ := forM_cons_ok.mp run
    obtain ⟨parent, added⟩ := addRecord_ok tidy ordered first
    intro h
    rw [ih (added.tidy tidy) (added.ordered ordered) later h, added.handles_eq, List.map_cons,
      List.mem_cons, List.mem_cons]
    tauto

/-- Records with handles of their own are new when their turn comes. -/
theorem addRecordsIfNew_eq {t : ClassSet σ μ} {records : List (ClassRecord σ μ)} (tidy : Tidy t)
    (ordered : Ordered t) (distinct : (records.map ClassRecord.handle).Nodup)
    (apart : ∀ r ∈ records, r.handle ∉ handles t) :
    records.forM addRecordIfNew t = records.forM addRecord t := by
  induction records generalizing t with
  | nil => rfl
  | cons r rest ih =>
    rw [List.map_cons, List.nodup_cons] at distinct
    change (addRecordIfNew r >>= fun _ => rest.forM addRecordIfNew) t =
      (addRecord r >>= fun _ => rest.forM addRecord) t
    simp only [bind, EStateM.bind]
    rw [addRecordIfNew_of_new (apart r List.mem_cons_self)]
    cases reached : addRecord r t with
    | error e t1 => rfl
    | ok u t1 =>
      obtain ⟨parent, added⟩ := addRecord_ok tidy ordered reached
      refine ih (added.tidy tidy) (added.ordered ordered) distinct.2 ?_
      intro q member
      rw [added.handles_eq, List.mem_cons]
      rintro (same | before)
      · exact distinct.1 (List.mem_map.mpr ⟨q, member, same⟩)
      · exact apart q (List.mem_cons_of_mem _ member) before

theorem ordered_nil : Ordered ([] : ClassSet σ μ) := fun _ member => absurd member List.not_mem_nil

theorem sent_handles {t : ClassSet σ μ} (unshared : Unshared t) (sound : Sound (views t))
    {records : List (ClassRecord σ μ)} (sent : toRecords zero t = .ok records) :
    (records.map ClassRecord.handle).Nodup := by
  obtain rfl := Except.ok.inj ((toRecords_eq sound).symm.trans sent)
  rw [unshared_iff_length.mp unshared, List.replicate_zero, List.append_nil, List.map_map]
  exact (ascends_handled t).nodup_keys

/-- A new federate rebuilds the sender's classes exactly when they all arrive. -/
theorem rebuilt_iff (zero : σ) {t : ClassSet σ μ} (sound : Sound (views t)) :
    (∃ records s, toRecords zero t = .ok records ∧ records.forM addRecord [] = .ok () s ∧
      SameClasses t s) ↔ Arrives [] t := by
  constructor
  · rintro ⟨records, s, sent, run, same⟩
    have unshared := same.unshared sound sent fun r member =>
      (addRecords_handles tidy_nil ordered_nil run _).mpr (.inr (List.mem_map_of_mem member))
    have distinct := sent_handles unshared sound sent
    rw [← addRecordsIfNew_eq tidy_nil ordered_nil distinct fun _ _ => List.not_mem_nil] at run
    exact same.arrives sound tidy_nil ordered_nil sent run
  · intro arrives
    obtain ⟨records, s, sent, run, same⟩ := arrives.replays (a := []) zero sound tidy_nil
      ordered_nil (fun _ member => absurd member List.not_mem_nil)
    have distinct := sent_handles arrives.unshared sound sent
    rw [addRecordsIfNew_eq tidy_nil ordered_nil distinct fun _ _ => List.not_mem_nil] at run
    exact ⟨records, s, sent, run, same⟩

end Sets

/-! ## Root objects -/

/-- `rtia` has the FOM tables of `root`. -/
structure Mirrors (root rtia : RootObject) : Prop where
  spaces : root.spaces = rtia.spaces
  objectClasses : SameClasses root.objectClasses rtia.objectClasses
  interactions : SameClasses root.interactions rtia.interactions

theorem rebuild_ok_iff {spaces : RootObject → RootObject}
    {f : EStateM RTIException (ClassSet Unit Attribute) Unit}
    {g : EStateM RTIException (ClassSet Delivery Parameter) Unit} {root root' : RootObject}
    (keeps : (spaces root).objectClasses = root.objectClasses ∧
      (spaces root).interactions = root.interactions) :
    (do
      modify spaces
      RootObject.onObjectClasses f
      RootObject.onInteractions g : EStateM RTIException RootObject Unit) root = .ok () root' ↔
      ∃ s s', f root.objectClasses = .ok () s ∧ g root.interactions = .ok () s' ∧
        root' = { spaces root with objectClasses := s, interactions := s' } := by
  obtain ⟨classes, others⟩ := keeps
  rw [Throwing.modify_bind]
  simp only [bind, EStateM.bind, RootObject.onObjectClasses, RootObject.onInteractions, zoom,
    classes]
  cases f root.objectClasses with
  | error e s => simp
  | ok u s =>
    simp only [others]
    cases g root.interactions with
    | error e s' => simp
    | ok u s' =>
      simp only [EStateM.Result.ok.injEq, true_and]
      constructor
      · rintro rfl
        exact ⟨s, s', rfl, rfl, rfl⟩
      · rintro ⟨s, s', rfl, rfl, rfl⟩
        rfl

theorem rebuiltSpaces {root : RootObject} {l : List RoutingSpace}
    (numbered : ∀ i rs, l[i]? = some rs → rs.handle = root.spaces.length + i + 1) :
    l.foldl (fun root rs => root.addRoutingSpace rs) root =
      { root with spaces := root.spaces ++ l } := by
  induction l generalizing root with
  | nil => simp
  | cons rs rest ih =>
    have first := numbered 0 rs rfl
    have same : root.addRoutingSpace rs = { root with spaces := root.spaces ++ [rs] } := by
      unfold RootObject.addRoutingSpace
      rw [show root.spaces.length + 1 = rs.handle from first.symm]
    rw [List.foldl_cons, same, ih]
    · simp
    · intro i rs' found
      have later := numbered (i + 1) rs' (by simpa using found)
      simp only [List.length_append, List.length_cons, List.length_nil]
      omega

/-- Whether a federate with an empty root object ends with the tables of `root`. -/
def Transfers (root : RootObject) : Prop :=
  ∃ m rtia, root.convertToSerializedFOM = .ok m ∧
    RootObject.rebuildFromSerializedFOM m {} = .ok () rtia ∧ Mirrors root rtia

/-- No class of either kind was stored over another one, superclasses have smaller handles than
their subclasses, and every class hands its members and its name down to its subclasses. -/
structure Transferable (root : RootObject) : Prop where
  objectClasses : Arrives [] root.objectClasses
  interactions : Arrives [] root.interactions

instance (root : RootObject) : Decidable (Transferable root) :=
  decidable_of_iff (Arrives [] root.objectClasses ∧ Arrives [] root.interactions)
    ⟨fun ⟨classes, interactions⟩ => ⟨classes, interactions⟩,
      fun whole => ⟨whole.objectClasses, whole.interactions⟩⟩

theorem RootObject.Sound.converts {root : RootObject} (sound : root.Sound) :
    ∃ classes interactions, toRecords () root.objectClasses = .ok classes ∧
      toRecords {} root.interactions = .ok interactions ∧
      root.convertToSerializedFOM = .ok ⟨root.spaces, classes, interactions⟩ := by
  refine ⟨_, _, toRecords_eq sound.objectClasses, toRecords_eq sound.interactions, ?_⟩
  unfold RootObject.convertToSerializedFOM
  rw [toRecords_eq sound.objectClasses, toRecords_eq sound.interactions]
  rfl

theorem transfers_iff {root : RootObject} (sound : root.Sound) :
    Transfers root ↔ Transferable root := by
  obtain ⟨classes, interactions, sentClasses, sentInteractions, converted⟩ := sound.converts
  have spaces : root.spaces.foldl (fun root rs => root.addRoutingSpace rs) {} =
      ({ spaces := root.spaces } : RootObject) := by
    have numbered : ∀ i rs, root.spaces[i]? = some rs →
        rs.handle = ({} : RootObject).spaces.length + i + 1 := by
      intro i rs found
      rw [sound.spaces i rs found]
      simp
    simpa using rebuiltSpaces numbered
  have rebuild : ∀ rtia, RootObject.rebuildFromSerializedFOM ⟨root.spaces, classes, interactions⟩
      {} = .ok () rtia ↔ ∃ s s', classes.forM addRecord [] = .ok () s ∧
        interactions.forM addRecord [] = .ok () s' ∧
        rtia = { spaces := root.spaces, objectClasses := s, interactions := s' } := by
    intro rtia
    unfold RootObject.rebuildFromSerializedFOM
    rw [rebuild_ok_iff ⟨by rw [spaces], by rw [spaces]⟩]
    simp only [spaces]
  constructor
  · rintro ⟨m, rtia, sent, run, mirrors⟩
    obtain rfl := Except.ok.inj (converted.symm.trans sent)
    obtain ⟨s, s', runClasses, runInteractions, rfl⟩ := (rebuild rtia).mp run
    exact ⟨(rebuilt_iff () sound.objectClasses).mp
        ⟨classes, s, sentClasses, runClasses, mirrors.objectClasses⟩,
      (rebuilt_iff {} sound.interactions).mp
        ⟨interactions, s', sentInteractions, runInteractions, mirrors.interactions⟩⟩
  · rintro ⟨arriveClasses, arriveInteractions⟩
    obtain ⟨_, s, sent, run, same⟩ :=
      (rebuilt_iff () sound.objectClasses).mpr arriveClasses
    obtain ⟨_, s', sent', run', same'⟩ :=
      (rebuilt_iff {} sound.interactions).mpr arriveInteractions
    obtain rfl := Except.ok.inj (sentClasses.symm.trans sent)
    obtain rfl := Except.ok.inj (sentInteractions.symm.trans sent')
    exact ⟨_, _, converted, (rebuild _).mpr ⟨s, s', run, run', rfl⟩, rfl, same, same'⟩

/-- A new federate gets the whole FOM of a federation exactly when the FOM is transferable. -/
theorem fom_transferred_iff (docs : List Document) :
    Transfers (built docs) ↔ Transferable (built docs) :=
  transfers_iff (built_sound docs)

/-- An XML module and a FED module; each numbers its classes from 1. -/
def xmlThenFed : List Document :=
  [.xml [] [.objects (.subclass "HLAobjectRoot" () .done .done)],
   .fed [] (.subclass "ObjectRoot" () .done .done) .done]

/-- The FED class takes the handle of the XML class, which is never sent. -/
theorem class_lost_in_transfer : ¬∀ docs, Transfers (built docs) := by
  intro all
  have transferable := (transfers_iff (built_sound xmlThenFed)).mp (all xmlThenFed)
  revert transferable
  decide +kernel

end Certi.Modules
