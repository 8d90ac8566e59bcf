import Certi.LibCERTI.FomTransfer

/-!
# Sending the FOM again after a join

A join may bring FOM modules. RTIG reads them into its root object and sends
the whole FOM to the federates that are there already, whose RTIAs take from it
what they do not have.
-/
namespace Certi.Modules

open Keyed Ascending Throwing

/-! ## Root objects of RTIAs -/

/-- A root object that an RTIA has built from messages. -/
inductive Received : RootObject → Prop
  | empty : Received {}
  | join {rtia rtia' : RootObject} (m : SerializedFom) (before : Received rtia)
      (run : RootObject.rebuildFromSerializedFOM m rtia = .ok () rtia') : Received rtia'
  | additional {rtia rtia' : RootObject} (m : SerializedFom) (before : Received rtia)
      (run : RootObject.addSerializedFOM m rtia = .ok () rtia') : Received rtia'

section Sets

variable {σ μ : Type}

theorem addRecords_tidy {t s : ClassSet σ μ} {records : List (ClassRecord σ μ)} (tidy : Tidy t)
    (ordered : Ordered t) (run : records.forM addRecord t = .ok () s) : Tidy s ∧ Ordered s := by
  induction records generalizing t with
  | nil =>
    cases run
    exact ⟨tidy, ordered⟩
  | cons r rest ih =>
    obtain ⟨t1, first, later⟩ := forM_cons_ok.mp run
    obtain ⟨parent, added⟩ := addRecord_ok tidy ordered first
    exact ih (added.tidy tidy) (added.ordered ordered) later

theorem addRecordsIfNew_of_known {t : ClassSet σ μ} {records : List (ClassRecord σ μ)}
    (known : ∀ r ∈ records, r.handle ∈ handles t) :
    records.forM addRecordIfNew t = .ok () t := by
  induction records with
  | nil => rfl
  | cons r rest ih =>
    refine forM_cons_ok.mpr ⟨t, addRecordIfNew_of_known (known r List.mem_cons_self), ?_⟩
    exact ih fun q member => known q (List.mem_cons_of_mem _ member)

theorem SameClasses.handles {t t' : ClassSet σ μ} (same : SameClasses t t') (h : Nat) :
    h ∈ Modules.handles t ↔ h ∈ Modules.handles t' := by
  have here := same.byHandle h
  rw [← not_iff_not, ← atHandle_eq_none, ← atHandle_eq_none]
  constructor
  · intro absent
    rw [absent] at here
    simpa using here.symm
  · intro absent
    rw [absent] at here
    simpa using here

/-- Each class of the mirror is a class of the tree, as long as no two of the tree share a handle. -/
theorem SameClasses.agrees {t a : ClassSet σ μ} (same : SameClasses t a) (unshared : Unshared t)
    (tidy : Tidy a) : ∀ e ∈ a, view e ∈ views t := by
  intro e member
  have byName := same.byName e.name
  have found : named a e.name = some e := lookup_of_nodup tidy.names member
  rw [found] at byName
  obtain ⟨d, here, sameHandle⟩ := Option.map_eq_some_iff.mp byName
  have belongs : d ∈ t := lookup_mem here
  have byHandle := same.byHandle d.handle
  rw [unshared.atHandle belongs] at byHandle
  obtain ⟨e', here', shown⟩ := Option.map_eq_some_iff.mp byHandle.symm
  -- the mirror's class under that handle has the name of `e`, so it is `e`
  have sameName : e'.name = e.name := by
    have fromView : e'.name = d.name := by simpa using congrArg ClassEntry.name shown
    exact fromView.trans (lookup_key here)
  have equal : e' = e := List.inj_on_of_nodup_map tidy.names (lookup_mem here') member sameName
  rw [← equal, shown]
  exact List.mem_map_of_mem belongs

theorem Arrives.congr {known known' : List Nat} {t : ClassSet σ μ}
    (same : ∀ h, h ∈ known ↔ h ∈ known') (arrives : Arrives known t) : Arrives known' t := by
  refine ⟨arrives.unshared, ?_⟩
  intro c member new p present linked
  obtain ⟨early, handsDown⟩ := arrives.classes c member (fun inside => new ((same _).mp inside)) p
    present linked
  exact ⟨early.imp_left (same _).mp, handsDown⟩

theorem Unshared.of_extends {t0 t : ClassSet σ μ} (keeps : ∀ v ∈ views t0, v ∈ views t)
    (names : (t0.map ClassEntry.name).Nodup) (unshared : Unshared t) : Unshared t0 := by
  have distinct : t0.Nodup := List.Nodup.of_map _ names
  refine List.Nodup.map_on ?_ distinct
  intro c inside d inside' same
  obtain ⟨c', member, shown⟩ := List.mem_map.mp (keeps (view c) (List.mem_map_of_mem inside))
  obtain ⟨d', member', shown'⟩ := List.mem_map.mp (keeps (view d) (List.mem_map_of_mem inside'))
  have key : c'.handle = d'.handle := by
    have hc : c'.handle = c.handle := by simpa using congrArg ClassEntry.handle shown
    have hd : d'.handle = d.handle := by simpa using congrArg ClassEntry.handle shown'
    omega
  have equal : c' = d' := List.inj_on_of_nodup_map unshared member member' key
  have sameName : c.name = d.name := by
    have hc : c'.name = c.name := by simpa using congrArg ClassEntry.name shown
    have hd : d'.name = d.name := by simpa using congrArg ClassEntry.name shown'
    rw [← hc, ← hd, equal]
  exact List.inj_on_of_nodup_map names inside inside' sameName

/-- A mirror of the tree before ends as a mirror of the tree after exactly when the new classes
arrive. -/
theorem mirrored_iff (zero : σ) {before after a : ClassSet σ μ} (sound : Sound (views after))
    (soundBefore : Sound (views before)) (keeps : ∀ v ∈ views before, v ∈ views after)
    (same : SameClasses before a) (tidy : Tidy a) (ordered : Ordered a) :
    (∃ records s, toRecords zero after = .ok records ∧ records.forM addRecordIfNew a = .ok () s ∧
      SameClasses after s) ↔ Arrives (handles before) after := by
  constructor
  · rintro ⟨records, s, sent, run, mirrors⟩
    exact (mirrors.arrives sound tidy ordered sent run).congr fun h => (same.handles h).symm
  · intro arrives
    have names : (before.map ClassEntry.name).Nodup := by
      rw [← names_views]
      exact soundBefore.names
    have unshared := Unshared.of_extends keeps names arrives.unshared
    exact (arrives.congr same.handles).replays zero sound tidy ordered
      fun e member => keeps _ (same.agrees unshared tidy e member)

end Sets

/-! ## Routing spaces -/

theorem getRoutingSpaceHandle_error {root : RootObject} {name : String} :
    (∃ e, root.getRoutingSpaceHandle name = .error e) ↔
      name ∉ root.spaces.map RoutingSpace.name := by
  unfold RootObject.getRoutingSpaceHandle
  cases found : root.spaces.find? (·.name = name) with
  | some rs =>
    have member := List.mem_of_find?_eq_some found
    have named' : rs.name = name := by simpa using List.find?_some found
    simp only [reduceCtorEq, exists_false, false_iff, not_not]
    exact List.mem_map.mpr ⟨rs, member, named'⟩
  | none =>
    have absent := List.find?_eq_none.mp found
    constructor
    · rintro _ inside
      obtain ⟨rs, member, named'⟩ := List.mem_map.mp inside
      exact absent rs member (by simpa using named')
    · intro _
      exact ⟨_, rfl⟩

theorem addRoutingSpaceIfNew_known {root : RootObject} {rs : RoutingSpace}
    (known : rs.name ∈ root.spaces.map RoutingSpace.name) : root.addRoutingSpaceIfNew rs = root := by
  unfold RootObject.addRoutingSpaceIfNew
  cases found : root.getRoutingSpaceHandle rs.name with
  | ok h => rfl
  | error e => exact absurd known (getRoutingSpaceHandle_error.mp ⟨e, found⟩)

theorem addRoutingSpaceIfNew_new {root : RootObject} {rs : RoutingSpace}
    (new : rs.name ∉ root.spaces.map RoutingSpace.name) :
    root.addRoutingSpaceIfNew rs = root.addRoutingSpace rs := by
  obtain ⟨e, missing⟩ := getRoutingSpaceHandle_error.mpr new
  unfold RootObject.addRoutingSpaceIfNew
  rw [missing]

theorem addRoutingSpacesIfNew_known {root : RootObject} {l : List RoutingSpace}
    (known : ∀ rs ∈ l, rs.name ∈ root.spaces.map RoutingSpace.name) :
    l.foldl RootObject.addRoutingSpaceIfNew root = root := by
  induction l with
  | nil => rfl
  | cons rs rest ih =>
    rw [List.foldl_cons, addRoutingSpaceIfNew_known (known rs List.mem_cons_self)]
    exact ih fun rs' member => known rs' (List.mem_cons_of_mem _ member)

/-- Names that are new to the root object and to each other. -/
def NewNames (root : RootObject) (l : List RoutingSpace) : Prop :=
  (l.map RoutingSpace.name).Nodup ∧ ∀ rs ∈ l, rs.name ∉ root.spaces.map RoutingSpace.name

theorem newNames_cons {root : RootObject} {rs : RoutingSpace} {rest : List RoutingSpace} :
    NewNames root (rs :: rest) ↔
      rs.name ∉ root.spaces.map RoutingSpace.name ∧ NewNames (root.addRoutingSpace rs) rest := by
  unfold NewNames
  simp only [List.map_cons, List.nodup_cons, List.mem_cons, forall_eq_or_imp,
    RootObject.addRoutingSpace, List.map_append, List.map_nil, List.mem_append, List.not_mem_nil, or_false]
  constructor
  · rintro ⟨⟨apart, distinct⟩, new, later⟩
    refine ⟨new, distinct, ?_⟩
    rintro rs' member (before | same)
    · exact later rs' member before
    · exact apart (List.mem_map.mpr ⟨rs', member, same⟩)
  · rintro ⟨new, distinct, later⟩
    refine ⟨⟨?_, distinct⟩, new, ?_⟩
    · intro inside
      obtain ⟨rs', member, same⟩ := List.mem_map.mp inside
      exact later rs' member (.inr same)
    · intro rs' member before
      exact later rs' member (.inl before)

/-- Only new names are all taken, which shows in the number of spaces. -/
theorem addRoutingSpacesIfNew_length {root : RootObject} {l : List RoutingSpace} :
    (l.foldl RootObject.addRoutingSpaceIfNew root).spaces.length ≤ root.spaces.length + l.length ∧
      ((l.foldl RootObject.addRoutingSpaceIfNew root).spaces.length =
        root.spaces.length + l.length ↔ NewNames root l) := by
  induction l generalizing root with
  | nil => simp [NewNames]
  | cons rs rest ih =>
    rw [List.foldl_cons, newNames_cons]
    by_cases known : rs.name ∈ root.spaces.map RoutingSpace.name
    · rw [addRoutingSpaceIfNew_known known]
      obtain ⟨bound, _⟩ := @ih root
      refine ⟨by simp only [List.length_cons]; omega, ?_⟩
      constructor
      · intro full
        simp only [List.length_cons] at full
        omega
      · rintro ⟨new, _⟩
        exact absurd known new
    · rw [addRoutingSpaceIfNew_new known]
      obtain ⟨bound, exact'⟩ := @ih (root.addRoutingSpace rs)
      have one : (root.addRoutingSpace rs).spaces.length = root.spaces.length + 1 := by
        simp [RootObject.addRoutingSpace]
      refine ⟨by simp only [List.length_cons]; omega, ?_⟩
      rw [← exact', one]
      simp only [List.length_cons]
      constructor
      · intro full
        exact ⟨known, by omega⟩
      · rintro ⟨_, full⟩
        omega

theorem addRoutingSpacesIfNew_new {root : RootObject} {l : List RoutingSpace}
    (new : NewNames root l) : l.foldl RootObject.addRoutingSpaceIfNew root =
      l.foldl (fun root rs => root.addRoutingSpace rs) root := by
  induction l generalizing root with
  | nil => rfl
  | cons rs rest ih =>
    obtain ⟨here, later⟩ := newNames_cons.mp new
    rw [List.foldl_cons, List.foldl_cons, addRoutingSpaceIfNew_new here]
    exact ih later

theorem addRoutingSpacesIfNew_frame {root : RootObject} {l : List RoutingSpace} :
    (l.foldl RootObject.addRoutingSpaceIfNew root).objectClasses = root.objectClasses ∧
      (l.foldl RootObject.addRoutingSpaceIfNew root).interactions = root.interactions := by
  induction l generalizing root with
  | nil => exact ⟨rfl, rfl⟩
  | cons rs rest ih =>
    rw [List.foldl_cons]
    by_cases known : rs.name ∈ root.spaces.map RoutingSpace.name
    · rw [addRoutingSpaceIfNew_known known]
      exact ih
    · rw [addRoutingSpaceIfNew_new known]
      exact ih

theorem addRoutingSpaces_frame {root : RootObject} {l : List RoutingSpace} :
    (l.foldl (fun root rs => root.addRoutingSpace rs) root).objectClasses = root.objectClasses ∧
      (l.foldl (fun root rs => root.addRoutingSpace rs) root).interactions =
        root.interactions := by
  induction l generalizing root with
  | nil => exact ⟨rfl, rfl⟩
  | cons rs rest ih => exact @ih (root.addRoutingSpace rs)

/-- The mirror's spaces end as the sender's exactly when the new ones have new names. -/
theorem mirroredSpaces_iff {before after a : RootObject} (sound : after.Sound)
    (keeps : before.spaces <+: after.spaces) (same : before.spaces = a.spaces) :
    (after.spaces.foldl RootObject.addRoutingSpaceIfNew a).spaces = after.spaces ↔
      NewNames before (after.spaces.drop before.spaces.length) := by
  obtain ⟨new, split⟩ := keeps
  have dropped : after.spaces.drop before.spaces.length = new := by
    rw [← split, List.drop_left]
  have skips : after.spaces.foldl RootObject.addRoutingSpaceIfNew a =
      new.foldl RootObject.addRoutingSpaceIfNew a := by
    have old : before.spaces.foldl RootObject.addRoutingSpaceIfNew a = a := by
      apply addRoutingSpacesIfNew_known
      intro rs member
      rw [← same]
      exact List.mem_map_of_mem member
    rw [← split, List.foldl_append, old]
  have sameNames : NewNames before new ↔ NewNames a new := by
    unfold NewNames
    rw [same]
  rw [dropped, skips, sameNames]
  constructor
  · intro whole
    apply addRoutingSpacesIfNew_length.2.mp
    rw [whole, ← split, List.length_append, same]
  · intro fresh
    have numbered : ∀ i rs, new[i]? = some rs → rs.handle = a.spaces.length + i + 1 := by
      intro i rs found
      rw [← same]
      apply sound.spaces (before.spaces.length + i) rs
      rw [← split, List.getElem?_append_right (Nat.le_add_right _ _)]
      simpa using found
    rw [addRoutingSpacesIfNew_new fresh, rebuiltSpaces numbered, ← same]
    exact split

/-! ## The message after a join -/

theorem Received.tidy {rtia : RootObject} (received : Received rtia) :
    (Tidy rtia.objectClasses ∧ Ordered rtia.objectClasses) ∧
      Tidy rtia.interactions ∧ Ordered rtia.interactions := by
  induction received with
  | empty => exact ⟨⟨tidy_nil, ordered_nil⟩, tidy_nil, ordered_nil⟩
  | join m before run ih =>
    obtain ⟨s, s', classes, interactions, rfl⟩ := (rebuild_ok_iff addRoutingSpaces_frame).mp run
    exact ⟨addRecords_tidy ih.1.1 ih.1.2 classes, addRecords_tidy ih.2.1 ih.2.2 interactions⟩
  | additional m before run ih =>
    obtain ⟨s, s', classes, interactions, rfl⟩ :=
      (rebuild_ok_iff addRoutingSpacesIfNew_frame).mp run
    have first := replayed ih.1.1 ih.1.2 classes
    have second := replayed ih.2.1 ih.2.2 interactions
    exact ⟨⟨first.tidy, first.ordered⟩, second.tidy, second.ordered⟩

/-- A message with only routing spaces and classes that the RTIA has. -/
structure Known (m : SerializedFom) (rtia : RootObject) : Prop where
  spaces : ∀ rs ∈ m.spaces, rs.name ∈ rtia.spaces.map RoutingSpace.name
  objectClasses : ∀ r ∈ m.objectClasses, r.handle ∈ handles rtia.objectClasses
  interactions : ∀ r ∈ m.interactionClasses, r.handle ∈ handles rtia.interactions

/-- What is known already changes nothing. -/
theorem addSerializedFOM_known {m : SerializedFom} {rtia : RootObject} (known : Known m rtia) :
    RootObject.addSerializedFOM m rtia = .ok () rtia := by
  unfold RootObject.addSerializedFOM
  refine (rebuild_ok_iff addRoutingSpacesIfNew_frame).mpr ⟨_, _,
    addRecordsIfNew_of_known known.objectClasses, addRecordsIfNew_of_known known.interactions, ?_⟩
  rw [addRoutingSpacesIfNew_known known.spaces]

/-- The RTIA ends with RTIG's tables, and neither the same message nor one that brings nothing new
changes it any more. -/
def KeepsUpWith (after rtia : RootObject) : Prop :=
  ∃ m rtia', after.convertToSerializedFOM = .ok m ∧
    RootObject.addSerializedFOM m rtia = .ok () rtia' ∧ Mirrors after rtia' ∧
    RootObject.addSerializedFOM m rtia' = .ok () rtia' ∧
    ∀ m', Known m' rtia' → RootObject.addSerializedFOM m' rtia' = .ok () rtia'

/-- The join's modules have repeated no routing space, stored no class over another one, and every
new class has all members of its superclass, which was there before or has a smaller handle. -/
structure Mergeable (before after : RootObject) : Prop where
  spaces : NewNames before (after.spaces.drop before.spaces.length)
  objectClasses : Arrives (handles before.objectClasses) after.objectClasses
  interactions : Arrives (handles before.interactions) after.interactions

instance (root : RootObject) (l : List RoutingSpace) : Decidable (NewNames root l) :=
  inferInstanceAs (Decidable (_ ∧ _))

instance (before after : RootObject) : Decidable (Mergeable before after) :=
  decidable_of_iff (NewNames before (after.spaces.drop before.spaces.length) ∧
      Arrives (handles before.objectClasses) after.objectClasses ∧
      Arrives (handles before.interactions) after.interactions)
    ⟨fun ⟨spaces, classes, interactions⟩ => ⟨spaces, classes, interactions⟩,
      fun whole => ⟨whole.spaces, whole.objectClasses, whole.interactions⟩⟩

theorem keepsUpWith_iff {before after rtia : RootObject} (grown : before.GrownFrom after)
    (soundBefore : before.Sound) (received : Received rtia) (mirrors : Mirrors before rtia) :
    KeepsUpWith after rtia ↔ Mergeable before after := by
  obtain ⟨sound, keeps⟩ := grown
  obtain ⟨⟨tidyClasses, orderedClasses⟩, tidyInteractions, orderedInteractions⟩ := received.tidy
  obtain ⟨classes, interactions, sentClasses, sentInteractions, converted⟩ := sound.converts
  have spaces := mirroredSpaces_iff sound keeps.spaces mirrors.spaces
  have classes_iff := mirrored_iff () sound.objectClasses soundBefore.objectClasses
    keeps.objectClasses mirrors.objectClasses tidyClasses orderedClasses
  have interactions_iff := mirrored_iff {} sound.interactions soundBefore.interactions
    keeps.interactions mirrors.interactions tidyInteractions orderedInteractions
  constructor
  · rintro ⟨m, rtia', sent, run, same, _, _⟩
    obtain rfl := Except.ok.inj (converted.symm.trans sent)
    obtain ⟨s, s', runClasses, runInteractions, rfl⟩ :=
      (rebuild_ok_iff addRoutingSpacesIfNew_frame).mp run
    exact ⟨spaces.mp same.spaces.symm,
      classes_iff.mp ⟨_, s, sentClasses, runClasses, same.objectClasses⟩,
      interactions_iff.mp ⟨_, s', sentInteractions, runInteractions, same.interactions⟩⟩
  · rintro ⟨newNames, arriveClasses, arriveInteractions⟩
    obtain ⟨_, s, sent, run, same⟩ := classes_iff.mpr arriveClasses
    obtain ⟨_, s', sent', run', same'⟩ := interactions_iff.mpr arriveInteractions
    obtain rfl := Except.ok.inj (sentClasses.symm.trans sent)
    obtain rfl := Except.ok.inj (sentInteractions.symm.trans sent')
    have whole := spaces.mpr newNames
    have ran : RootObject.addSerializedFOM ⟨after.spaces, classes, interactions⟩ rtia =
        .ok () { after.spaces.foldl RootObject.addRoutingSpaceIfNew rtia with
          objectClasses := s, interactions := s' } :=
      (rebuild_ok_iff addRoutingSpacesIfNew_frame).mpr ⟨s, s', run, run', rfl⟩
    have known : Known ⟨after.spaces, classes, interactions⟩
        { after.spaces.foldl RootObject.addRoutingSpaceIfNew rtia with
          objectClasses := s, interactions := s' } := by
      refine ⟨?_, ?_, ?_⟩
      · intro rs member
        simp only [whole]
        exact List.mem_map_of_mem member
      · intro r member
        exact ((replayed tidyClasses orderedClasses run).known _).mpr
          (.inr (List.mem_map_of_mem member))
      · intro r member
        exact ((replayed tidyInteractions orderedInteractions run').known _).mpr
          (.inr (List.mem_map_of_mem member))
    exact ⟨_, _, converted, ran, ⟨whole.symm, same, same'⟩, addSerializedFOM_known known,
      fun m' => addSerializedFOM_known⟩

/-- After a join with `modules`, an RTIA that mirrored RTIG's root object does so again exactly when
the modules are mergeable. -/
theorem fom_update_kept_iff (docs modules : List Document) (rtia : RootObject)
    (received : Received rtia) (mirrors : Mirrors (built docs) rtia) :
    KeepsUpWith (built (docs ++ modules)) rtia ↔
      Mergeable (built docs) (built (docs ++ modules)) := by
  have grown : (built docs).GrownFrom (built (docs ++ modules)) := by
    unfold built
    rw [List.foldl_append]
    exact foldl_readInto_grown (built_sound docs).grownFrom modules
  exact keepsUpWith_iff grown (built_sound docs) received mirrors

/-- A module with a routing space and two classes, and one that adds a class under the second. -/
def aircraftModule : Document :=
  .xml [⟨"Airspace", ["latitude"]⟩] [.objects (.subclass "HLAobjectRoot" ()
    (.subclass "Aircraft" () (.member ⟨⟨TIMESTAMP, RELIABLE, some "Airspace"⟩, "position"⟩ .done)
      .done) .done)]

def gliderModule : Document :=
  .xml [] [.objects (.subclass "HLAobjectRoot" () (.subclass "Aircraft" ()
    (.subclass "Glider" () (.member ⟨⟨RECEIVE, RELIABLE, none⟩, "climb"⟩ .done) .done) .done)
      .done)]

theorem glider_reaches_members : ∃ rtia, Received rtia ∧ Mirrors (built [aircraftModule]) rtia ∧
    KeepsUpWith (built ([aircraftModule] ++ [gliderModule])) rtia := by
  obtain ⟨m, rtia, _, run, mirrors⟩ :=
    (transfers_iff (built_sound [aircraftModule])).mpr (by decide +kernel)
  have received : Received rtia := .join m .empty run
  exact ⟨rtia, received, mirrors,
    (fom_update_kept_iff [aircraftModule] [gliderModule] rtia received mirrors).mpr
      (by decide +kernel)⟩

/-- A federate that joins with the module the federation has: RTIG declares its space again. -/
theorem space_declared_twice : ¬∀ docs modules rtia, Received rtia → Mirrors (built docs) rtia →
    KeepsUpWith (built (docs ++ modules)) rtia := by
  intro all
  obtain ⟨m, rtia, _, run, mirrors⟩ :=
    (transfers_iff (built_sound [aircraftModule])).mpr (by decide +kernel)
  have received : Received rtia := .join m .empty run
  have grown : (built [aircraftModule]).GrownFrom (built ([aircraftModule] ++ [aircraftModule])) :=
    readInto_grown (built_sound [aircraftModule]) aircraftModule
  have mergeable := (keepsUpWith_iff grown (built_sound [aircraftModule]) received mirrors).mp
    (all [aircraftModule] [aircraftModule] rtia received mirrors)
  revert mergeable
  decide +kernel

end Certi.Modules
