import Certi.LibCERTI.DataTypes
import Certi.RTIG.Dating

/-!
# Sizes of typed values

Updates and interactions of a federation whose modules `XmlParser2010` has
read: `Dating` with the size checks that the data types of the attributes and
parameters give. Whether a value is refused for its size is a question about
requests that everything else accepts.
-/
namespace Certi

open Collect Keyed Modules

/-- A value of a request, with the type in the table of its class and the type it was declared
with. -/
structure TypedValue where
  own : Option DataType
  declared : Option DataType
  octets : Octets

namespace TypedValue

/-- A simple type in the table of the class has a representation. -/
def Represented (v : TypedValue) : Prop := v.own ≠ some (.simple none)

instance decidableRepresented (v : TypedValue) : Decidable v.Represented :=
  inferInstanceAs (Decidable (¬ _ = _))

/-- The FOM gives the value a size that it does not have. -/
def Misfits (v : TypedValue) : Prop :=
  ∃ size, v.declared.bind DataType.fixedSize = some size ∧ size ≠ v.octets.length * 8

end TypedValue

namespace Modules.Fom2010

variable (fom : Fom2010)

def sizeChecks : SizeChecks Octets where
  ofParameter c h v := warnSizeData (ownType fom.root.interactions.tree c h) v
  ofAttribute c h v := warnSizeData (ownType fom.root.objects.tree c h) v

def typed (tree : ClassSet Unit XmlParser2010.Member) (c : Nat) (p : Nat × Octets) : TypedValue :=
  ⟨ownType tree c p.1, declaredType tree p.1 tree.length c, p.2⟩

/-- The values of a request; the number of parameters is a `uint16_t`. -/
def values (f : Federation) : ValueRequest Octets → List TypedValue
  | .sendInteraction r =>
    ((r.parameters.take (r.parameters.length % 2 ^ 16)).zip r.values).map
      (typed fom.root.interactions.tree r.interactionClass)
  | .updateAttributeValues r =>
    match f.root.getObject r.object with
    | .ok o => (r.attributes.zip r.values).map (typed fom.root.objects.tree o.classHandle)
    | .error _ => []

end Modules.Fom2010

/-- No type is asked for its size. -/
def SizeChecks.none {V : Type} : SizeChecks V := ⟨fun _ _ _ => .ok (), fun _ _ _ => .ok ()⟩

/-! ## The loops over the values -/

section checks

variable {V : Type} {size own : Nat → V → Except Stop Unit} {defined : Nat → Except Stop Unit}

/-- In a loop that passes without the size checks, only these can fail. -/
theorem checkEach_sized {hs : List Nat} :
    ∀ {vs : List V}, checkEach own defined hs vs = .ok () →
      checkEach (fun h v => do size h v; own h v) defined hs vs =
        (hs.zip vs).forM fun p => size p.1 p.2 := by
  induction hs with
  | nil => exact fun _ => rfl
  | cons h rest ih =>
    intro vs accepted
    obtain ⟨_, known, valued⟩ := bind_success accepted
    cases vs with
    | nil => cases valued
    | cons v vs =>
      obtain ⟨_, owned, later⟩ := bind_success valued
      have following := ih later
      rw [List.zip_cons_cons, List.forM_eq_forM, List.forM_cons, ← List.forM_eq_forM,
        ← following, checkEach, known]
      cases sized : size h v with
      | error e => rfl
      | ok a =>
        simp only [owned]
        rfl

/-- The same where nothing else is checked. -/
theorem checkEach_only {hs : List Nat} {vs : List V}
    (accepted : checkEach (fun _ _ => .ok ()) defined hs vs = .ok ()) :
    checkEach size defined hs vs = (hs.zip vs).forM fun p => size p.1 p.2 := by
  have alone : (fun h v => do size h v; Except.ok ()) = size := by
    funext h v
    cases size h v <;> rfl
  rw [← checkEach_sized accepted, alone]

theorem forM_warnSizeData (values : List TypedValue) :
    (values.forM fun v => warnSizeData v.own v.octets) =
      if ∀ v ∈ values, v.Represented then .ok () else .error .nullDereference := by
  induction values with
  | nil => rfl
  | cons v rest ih =>
    rw [List.forM_eq_forM, List.forM_cons, ← List.forM_eq_forM, ih, warnSizeData_eq]
    by_cases represented : v.own = some (.simple .none)
    · have failing : ¬ ∀ w ∈ v :: rest, w.Represented :=
        fun all => all v List.mem_cons_self represented
      rw [if_pos represented, if_neg failing]
      rfl
    · rw [if_neg represented]
      have same : (∀ w ∈ v :: rest, w.Represented) ↔ ∀ w ∈ rest, w.Represented := by
        rw [List.forall_mem_cons]
        exact and_iff_right represented
      simp only [same]
      rfl

end checks

section services

variable {server : SecurityServer} {region : RegionHandle → RTIRegion} {date : Option Date}
  {fed : FederateHandle} {values : List Octets} {tag : String}

theorem sendDated_sized {i : Interaction} (size : ParameterHandle → Octets → Except Stop Unit)
    {parameters : List ParameterHandle} {update : Option RegionHandle}
    {result : InteractionBroadcastList Octets × InteractionResponses Octets}
    (accepted : i.sendDated (fun _ _ => .ok ()) server region date fed parameters values update
      tag = .ok result) :
    i.sendDated size server region date fed parameters values update tag = (do
      ((parameters.take (parameters.length % 2 ^ 16)).zip values).forM fun p => size p.1 p.2
      return result) := by
  unfold Interaction.sendDated at accepted ⊢
  dsimp only at accepted ⊢
  split at accepted
  · cases accepted
  · rename_i publishing
    obtain ⟨_, checked, told⟩ := bind_success accepted
    rw [if_neg publishing, checkEach_only checked, told]
    rfl

theorem updateDated_sized {c : ObjectClass} (size : AttributeHandle → Octets → Except Stop Unit)
    {object : Object} {attributes : List AttributeHandle}
    {result : ObjectClassBroadcastList Octets × List (FederateHandle × AttributeMessage Octets)}
    (accepted : c.updateDated (fun _ _ => .ok ()) server region date fed object attributes values
      tag = .ok result) :
    c.updateDated size server region date fed object attributes values tag = (do
      (attributes.zip values).forM fun p => size p.1 p.2
      return result) := by
  unfold ObjectClass.updateDated at accepted ⊢
  obtain ⟨_, checked, told⟩ := bind_success accepted
  have owned : checkEach (fun h _ => do
      let oa ← Stop.lift (object.getAttribute h)
      if oa.owner = fed then return () else throw (.thrown .attributeNotOwned))
      (fun h => do
        let _ ← Stop.lift (object.getAttribute h)
        return ()) attributes values = .ok () := checked
  rw [checkEach_sized owned, told]
  rfl

end services

/-! ## Requests -/

section requests

variable {f : Federation} {region : RegionHandle → RTIRegion} (fom : Fom2010)

/-- What the size checks make of a request that passes without them. -/
def sizesChecked {α : Type} (values : List TypedValue) (sent : α) : Except Stop α :=
  if ∀ v ∈ values, v.Represented then .ok sent else .error .nullDereference

theorem sizesChecked_eq {α : Type} (tree : ClassSet Unit XmlParser2010.Member) (c : Nat)
    (l : List (Nat × Octets)) (sent : α) :
    (do
      l.forM fun p => warnSizeData (ownType tree c p.1) p.2
      return sent) = sizesChecked (l.map (Fom2010.typed tree c)) sent := by
  have same : (l.forM fun p => warnSizeData (ownType tree c p.1) p.2) =
      (l.map (Fom2010.typed tree c)).forM fun v => warnSizeData v.own v.octets := by
    rw [List.forM_eq_forM, List.forM_eq_forM, List.forM_map]
    rfl
  rw [same, forM_warnSizeData, sizesChecked]
  split <;> rfl

theorem broadcastInteractionWithTime_sized {fed : FederateHandle}
    {interaction : InteractionClassHandle} {parameters : List ParameterHandle}
    {values : List Octets} {time : Date} {h : RegionHandle} {tag : String}
    {sent : InteractionResponses Octets}
    (accepted : f.broadcastInteractionWithTime .none region fed interaction parameters values time
      h tag = .ok sent) :
    f.broadcastInteractionWithTime fom.sizeChecks region fed interaction parameters values time h
      tag = sizesChecked (((parameters.take (parameters.length % 2 ^ 16)).zip values).map
        (Fom2010.typed fom.root.interactions.tree interaction)) sent := by
  obtain ⟨_, member, checked⟩ := bind_success accepted
  obtain ⟨update, regioned, broadcast⟩ := bind_success checked
  obtain ⟨i, found, sending⟩ := bind_success broadcast
  obtain ⟨⟨list, here⟩, own, passed⟩ := bind_success sending
  obtain ⟨above, later, all⟩ := bind_success passed
  cases all
  have handle : i.handle = interaction := by
    have looked := Stop.lift_ok found
    unfold RootObject.getInteraction at looked
    split at looked
    · rename_i located
      cases looked
      exact lookup_key located
    · cases looked
  subst handle
  have sized := sendDated_sized (fom.sizeChecks.ofParameter i.handle) own
  rw [← sizesChecked_eq]
  unfold Federation.broadcastInteractionWithTime RootObject.broadcastInteraction
    Interaction.sendInteractionWithTime
  simp only [member, regioned, found, ok_bind, sized, bind_assoc, pure_bind, later]
  rfl

/-- An update of the classes, with the body that both overloads have. -/
theorem updateAttributeValues_sized {root : RootObject} {date : Option Date} {o : Object}
    {fed : FederateHandle} {attributes : List AttributeHandle} {values : List Octets}
    {tag : String} {sent : List (FederateHandle × AttributeMessage Octets)}
    (accepted : root.updateAttributeValues region (fun c => c.updateDated (fun _ _ => .ok ())
      root.server region date fed o attributes values tag) o = .ok sent) :
    root.updateAttributeValues region (fun c => c.updateDated
      (fom.sizeChecks.ofAttribute c.handle) root.server region date fed o attributes values tag)
        o = sizesChecked ((attributes.zip values).map
          (Fom2010.typed fom.root.objects.tree o.classHandle)) sent := by
  obtain ⟨c, found, updating⟩ := bind_success accepted
  obtain ⟨⟨list, here⟩, own, passed⟩ := bind_success updating
  obtain ⟨above, later, all⟩ := bind_success passed
  cases all
  have handle : c.handle = o.classHandle := by
    have looked := Stop.lift_ok found
    unfold RootObject.getObjectFromHandle at looked
    split at looked
    · rename_i located
      cases looked
      exact lookup_key located
    · cases looked
  have sized := updateDated_sized (fom.sizeChecks.ofAttribute c.handle) own
  rw [← sizesChecked_eq, ← handle]
  unfold RootObject.updateAttributeValues
  simp only [found, ok_bind, sized, bind_assoc, pure_bind, later]
  rfl

theorem processUpdateAttributeValues_sized {r : UpdateAttributeValues Octets}
    {sent : List (FederateHandle × AttributeMessage Octets)}
    (accepted : f.processUpdateAttributeValues .none region r = .ok sent) :
    f.processUpdateAttributeValues fom.sizeChecks region r =
      sizesChecked (fom.values f (.updateAttributeValues r)) sent := by
  unfold Federation.processUpdateAttributeValues at accepted ⊢
  cases date : r.date with
  | some time =>
    simp only [date] at accepted
    obtain ⟨_, member, checked⟩ := bind_success accepted
    obtain ⟨o, found, updated⟩ := bind_success checked
    have sized := updateAttributeValues_sized fom updated
    simp only [Fom2010.values, Stop.lift_ok found]
    unfold Federation.updateAttributeValuesWithTime
    simp only [member, found, ok_bind]
    exact sized
  | none =>
    simp only [date] at accepted
    obtain ⟨_, member, checked⟩ := bind_success accepted
    obtain ⟨o, found, updated⟩ := bind_success checked
    have sized := updateAttributeValues_sized fom updated
    simp only [Fom2010.values, Stop.lift_ok found]
    unfold Federation.updateAttributeValuesWithoutTime
    simp only [member, found, ok_bind]
    exact sized

/-- A request that passes without the size checks passes with them exactly if every simple type
they meet has a representation; otherwise the server dereferences a null pointer. -/
theorem processValues_sized {r : ValueRequest Octets} {sent : List (ValueMessage Octets)}
    (accepted : f.processValues .none region r = .ok sent) :
    f.processValues fom.sizeChecks region r = sizesChecked (fom.values f r) sent := by
  cases r with
  | sendInteraction r =>
    obtain ⟨responses, processed, rfl⟩ := Federation.map_success accepted
    have sized : f.processSendInteraction fom.sizeChecks region r =
        sizesChecked (fom.values f (.sendInteraction r)) responses := by
      unfold Federation.processSendInteraction at processed ⊢
      cases date : r.date with
      | some time =>
        simp only [date] at processed
        exact broadcastInteractionWithTime_sized fom processed
      | none =>
        simp only [date] at processed
        exact broadcastInteractionWithTime_sized fom processed
    unfold Federation.processValues
    simp only [sized, sizesChecked]
    split <;> rfl
  | updateAttributeValues r =>
    obtain ⟨responses, processed, rfl⟩ := Federation.map_success accepted
    unfold Federation.processValues
    simp only [processUpdateAttributeValues_sized fom processed, sizesChecked]
    split <;> rfl

end requests

/-- The size checks of a request are defined and refuse it exactly for a value that misfits. What
is refused has no messages; the services leave the state as it is in any case. -/
structure SizesEnforced (fom : Fom2010) (f : Federation) (region : RegionHandle → RTIRegion)
    (r : ValueRequest Octets) : Prop where
  defined : f.processValues fom.sizeChecks region r ≠ .error .nullDereference
  refused : (∃ e, f.processValues fom.sizeChecks region r = .error (.thrown e)) ↔
    ∃ v ∈ fom.values f r, v.Misfits

/-- Sizes are enforced exactly where no simple type lacks its representation and no value
misfits, since no value is ever refused. -/
theorem sizes_enforced_iff (fom : Fom2010) (f : Federation) (region : RegionHandle → RTIRegion)
    (r : ValueRequest Octets) (sent : List (ValueMessage Octets))
    (accepted : f.processValues .none region r = .ok sent) :
    SizesEnforced fom f region r ↔
      (∀ v ∈ fom.values f r, v.Represented) ∧ ∀ v ∈ fom.values f r, ¬ v.Misfits := by
  have sized := processValues_sized fom accepted
  constructor
  · intro enforced
    have represented : ∀ v ∈ fom.values f r, v.Represented := by
      by_contra lacking
      apply enforced.defined
      rw [sized, sizesChecked, if_neg lacking]
    refine ⟨represented, fun v member misfits => ?_⟩
    obtain ⟨e, refused⟩ := enforced.refused.mpr ⟨v, member, misfits⟩
    rw [sized, sizesChecked, if_pos represented] at refused
    cases refused
  · rintro ⟨represented, fits⟩
    have passes : f.processValues fom.sizeChecks region r = .ok sent := by
      rw [sized, sizesChecked, if_pos represented]
    constructor
    · rw [passes]
      exact fun crashed => nomatch crashed
    · rw [passes]
      constructor
      · rintro ⟨e, refused⟩
        cases refused
      · rintro ⟨v, member, misfits⟩
        exact absurd misfits (fits v member)

/-- A module with an integer, lengths over it, and altitudes over the lengths. -/
def positionModule : XmlParser2010.Document :=
  [.interactions (.subclass "HLAinteractionRoot" () (.subclass "Position" ()
      (.member ⟨"range", some "Length"⟩ (.member ⟨"altitude", some "Altitude"⟩ .done)) .done)
        .done),
    .dataTypes
      [.basicDataRepresentations
          [[{ tag := "name", text := "HLAinteger32BE" }, { tag := "size", text := "32" }]],
        .simpleDataTypes
          [[{ tag := "name", text := "Length" },
              { tag := "representation", text := "HLAinteger32BE" }],
            [{ tag := "name", text := "Altitude" },
              { tag := "representation", text := "Length" }]]]]

/-- The altitude has no representation, as that is no basic type. -/
def positionTypes : Fom2010 where
  documents := [positionModule]
  root :=
    { interactions :=
        ⟨[{ handle := 2, name := "Position", superClass := 1, props := (),
            members := [(1, ⟨"range", some (.simple (some 32))⟩),
              (2, ⟨"altitude", some (.simple none)⟩)] },
          { handle := 1, name := "HLAinteractionRoot", subClasses := ["Position"],
            props := () }], 2, 2⟩ }
  accepted := by decide +kernel

/-- The classes of the module, `smallFom` otherwise. -/
def positionFom : Fom :=
  { smallFom with
    interactions := [⟨0, [], 0⟩, ⟨1, [1, 2], 0⟩]
    superInteractions := by decide }

/-- A federate publishes positions, another subscribes to them. -/
def positioning : Federation :=
  rtig.exec (Federation.create positionFom false true)
    [joinAs "a", joinAs "b", .publishInteraction 1 2 true, .subscribeInteraction 2 2 true]

def positionWith (parameter : ParameterHandle) (v : Octets) : ValueRequest Octets :=
  .sendInteraction ⟨1, 2, some (7 : FederationTime), 0, "tag", [parameter], [v]⟩

theorem sizes_enforced_iff_range :
    SizesEnforced positionTypes positioning (fun _ => ⟨0, 0, []⟩) (positionWith 1 [0, 0, 0, 9]) ↔
      (∀ v ∈ positionTypes.values positioning (positionWith 1 [0, 0, 0, 9]), v.Represented) ∧
        ∀ v ∈ positionTypes.values positioning (positionWith 1 [0, 0, 0, 9]), ¬ v.Misfits :=
  sizes_enforced_iff positionTypes positioning (fun _ => ⟨0, 0, []⟩)
    (positionWith 1 [0, 0, 0, 9])
    [.receiveInteraction ⟨1, 2, some 7, "tag", [1], [[0, 0, 0, 9]]⟩,
      .receiveInteraction ⟨1, 1, some 7, "tag", [], [[0, 0, 0, 9]]⟩]
    (by decide +kernel)

/-- A range of three octets passes, although the type has 32 bits. -/
example : positioning.processValues positionTypes.sizeChecks (fun _ => ⟨0, 0, []⟩)
    (positionWith 1 [0, 0, 9]) =
      .ok [.receiveInteraction ⟨1, 2, some 7, "tag", [1], [[0, 0, 9]]⟩,
        .receiveInteraction ⟨1, 1, some 7, "tag", [], [[0, 0, 9]]⟩] := by
  decide +kernel

/-- An altitude of four octets brings the server down. -/
theorem altitude_without_representation :
    ¬ ∀ (fom : Fom2010) (f : Federation) (region : RegionHandle → RTIRegion)
      (r : ValueRequest Octets) (sent : List (ValueMessage Octets)),
      f.processValues .none region r = .ok sent → SizesEnforced fom f region r := by
  intro always
  have enforced := always positionTypes positioning (fun _ => ⟨0, 0, []⟩)
    (positionWith 2 [0, 0, 0, 9])
    [.receiveInteraction ⟨1, 2, some 7, "tag", [2], [[0, 0, 0, 9]]⟩,
      .receiveInteraction ⟨1, 1, some 7, "tag", [], [[0, 0, 0, 9]]⟩] (by decide +kernel)
  apply enforced.defined
  decide +kernel

end Certi
