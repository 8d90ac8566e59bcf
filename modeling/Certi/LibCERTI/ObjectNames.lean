import Certi.LibCERTI.Departure
import Certi.LibCERTI.Records

/-!
# Object names

`libCERTI/ObjectSet.cc` with both of its maps, and the names of `RootObject.cc`.
The instances of a root object are `my_objects_per_handle`; `my_objects_per_name`
is a table of its own, whose pointers are the handles of the objects they point
to. `registerNamed` is the registration as the code does it with the two maps;
with maps that agree it is the registration of the root object.
-/
namespace Certi

open Keyed Sweep

/-- `my_objects_per_name`. -/
abbrev ObjectsPerName := List (String × ObjectHandle)

/-- `the_object_name.compare(0, 3, "HLA") == 0`. -/
def hasHLAPrefix (name : String) : Bool := name.toList.take 3 = ['H', 'L', 'A']

/-- The name an object has in either map. -/
def Object.entry (o : Object) : String × ObjectHandle := (o.name, o.handle)

namespace RootObject

variable (root : RootObject) (perName : ObjectsPerName)

/-- `ObjectSet::getObjectByName`. -/
def getObjectByName (name : String) : Option Object :=
  (lookup Prod.fst name perName).bind fun entry => root.object? entry.2

def reserveObjectInstanceName (fed : FederateHandle) (name : String) : RootObject × Bool :=
  if name = "" then (root, false)
  else if hasHLAPrefix name then (root, false)
  else if (root.getObjectByName perName name).isSome then (root, false)
  else if (lookup Prod.fst name root.reservedNames).isSome then (root, false)
  else ({ root with reservedNames := root.reservedNames ++ [(name, fed)] }, true)

/-- The reservation found under a name is another federate's. -/
def isReservedByOther (fed : FederateHandle) (name : String) : Bool :=
  match lookup Prod.fst name root.reservedNames with
  | some reservation => reservation.2 ≠ fed
  | none => false

/-- `ObjectClassSet::registerObjectInstance`. -/
def registerInClass (fed : FederateHandle) (classHandle : ObjectClassHandle)
    (object : ObjectHandle) (name : String) : Except RTIException (Object × Responses) :=
  match root.class? classHandle with
  | none => .error .objectClassNotDefined
  | some c =>
    if !c.isFederatePublisher fed then .error .objectClassNotPublished
    else
      let instance' : Object :=
        { handle := object, name := name, classHandle := classHandle, owner := fed
          attributes := c.instanceAttributes fed }
      match broadcastUp root.server fed (fun h => .discoverObject fed h object name)
          (BroadcastLines.start fed) (root.lineage classHandle) with
      | .error e => .error e
      | .ok sent => .ok (instance', sent)

/-- `RootObject::registerObjectInstance`: the object enters both maps, and leaves them again
when the class refuses it. -/
def registerNamed (fed : FederateHandle) (classHandle : ObjectClassHandle)
    (object : ObjectHandle) (name : String) : Outcome RootObject × ObjectsPerName :=
  if root.isReservedByOther fed name then (.refused root .objectAlreadyRegistered, perName)
  else if (root.object? object).isSome then (.refused root .objectAlreadyRegistered, perName)
  else if (lookup Prod.fst name perName).isSome then
    (.refused root .objectAlreadyRegistered, perName)
  else
    match root.registerInClass fed classHandle object name with
    | .error e => (.refused root e, perName)
    | .ok (instance', sent) =>
      (.done { root with
        objects := root.objects ++ [instance']
        reservedNames := drop Prod.fst name root.reservedNames } sent,
        perName ++ [(name, object)])

/-- `ObjectSet::deleteObjectInstance` in the second map. -/
def eraseName (object : ObjectHandle) : ObjectsPerName :=
  match root.object? object with
  | some o => drop Prod.fst o.name perName
  | none => perName

/-- `ObjectSet::killFederate` in the second map. -/
def eraseNamesOf (fed : FederateHandle) : ObjectsPerName :=
  (root.objects.filter (fun o => o.owner = fed)).foldl (fun names o => drop Prod.fst o.name names)
    perName

/-! ## When the two maps agree -/

/-- Both maps have the same objects. -/
def NamesAgree : Prop := perName = root.objects.map Object.entry

/-- What admits a registration: the name is free for the federate, the handle and the name are
new, and the federate publishes the class. -/
def admitsObject (fed : FederateHandle) (classHandle : ObjectClassHandle) (object : ObjectHandle)
    (name : String) : Bool :=
  !root.isReservedByOther fed name && (root.object? object).isNone &&
    (lookup Prod.fst name perName).isNone &&
    (root.class? classHandle).any (·.isFederatePublisher fed)

variable {root perName} {fed : FederateHandle} {classHandle : ObjectClassHandle}
  {object : ObjectHandle} {name : String}

theorem addAudience_total (feds : List FederateHandle) :
    ∀ lines : BroadcastLines, ∃ next, addAudience lines feds = .ok next := by
  induction feds with
  | nil => exact fun lines => ⟨lines, rfl⟩
  | cons fed rest ih =>
    intro lines
    obtain ⟨listed, added⟩ : ∃ listed, lines.addFederate 0 fed 0 = .ok listed := by
      unfold BroadcastLines.addFederate
      rw [if_neg (Nat.lt_irrefl 0)]
      split
      · exact ⟨_, rfl⟩
      · split <;> exact ⟨_, rfl⟩
    obtain ⟨next, all⟩ := ih listed
    refine ⟨next, ?_⟩
    simpa [addAudience, bind, Except.bind, added] using all

/-- Nothing makes a broadcast of a discovery or a removal fail. -/
theorem broadcastUp_total (server : SecurityServer) (sender : FederateHandle)
    (message : ObjectClassHandle → NetworkMessage) (cs : List ObjectClass) :
    ∀ lines : BroadcastLines, ∃ sent, broadcastUp server sender message lines cs = .ok sent := by
  induction cs with
  | nil => exact fun _ => ⟨[], rfl⟩
  | cons c rest ih =>
    intro lines
    obtain ⟨listed, added⟩ := addAudience_total (audience c sender) lines
    obtain ⟨sent, later⟩ := ih (preparePendingDO server (message c.handle) listed).1
    refine ⟨(preparePendingDO server (message c.handle) listed).2 ++ sent, ?_⟩
    simp only [broadcastUp, bind, Except.bind, pure, Except.pure, added, later]

/-- What an admitted registration does. -/
structure RegistersNamed (root : RootObject) (perName : ObjectsPerName) (fed : FederateHandle)
    (classHandle : ObjectClassHandle) (object : ObjectHandle) (name : String) (c : ObjectClass)
    (sent : Responses) : Prop where
  found : root.class? classHandle = some c
  freshHandle : root.object? object = none
  freshName : lookup Prod.fst name perName = none
  free : root.isReservedByOther fed name = false
  outcome : root.registerNamed perName fed classHandle object name =
    (.done { root with
      objects := root.objects ++ [newInstance c fed classHandle object name]
      reservedNames := drop Prod.fst name root.reservedNames } sent, perName ++ [(name, object)])

theorem registerNamed_admitted
    (admitted : root.admitsObject perName fed classHandle object name = true) :
    ∃ c sent, root.RegistersNamed perName fed classHandle object name c sent := by
  simp only [admitsObject, Bool.and_eq_true, Bool.not_eq_true',
    Option.isNone_iff_eq_none] at admitted
  obtain ⟨⟨⟨free, handle⟩, named⟩, publishing⟩ := admitted
  cases found : root.class? classHandle with
  | none => simp [found] at publishing
  | some c =>
    have publisher : c.isFederatePublisher fed = true := by simpa [found] using publishing
    obtain ⟨sent, broadcast⟩ := broadcastUp_total root.server fed
      (fun h => .discoverObject fed h object name) (root.lineage classHandle)
      (BroadcastLines.start fed)
    refine ⟨c, sent, found, handle, named, free, ?_⟩
    simp [registerNamed, registerInClass, free, handle, named, found, publisher, broadcast,
      newInstance]

theorem registerNamed_refused
    (refused : root.admitsObject perName fed classHandle object name = false) :
    ∃ e, root.registerNamed perName fed classHandle object name = (.refused root e, perName) := by
  unfold registerNamed
  split
  · exact ⟨_, rfl⟩
  · rename_i free
    split
    · exact ⟨_, rfl⟩
    · rename_i handle
      split
      · exact ⟨_, rfl⟩
      · rename_i named
        have silent : ∀ c, root.class? classHandle = some c →
            c.isFederatePublisher fed = false := by
          intro c found
          rw [Bool.not_eq_true] at free handle named
          simpa [admitsObject, free, Option.isSome_eq_false_iff.mp handle,
            Option.isSome_eq_false_iff.mp named, found] using refused
        unfold registerInClass
        split <;> rename_i outcome
        · exact ⟨_, rfl⟩
        · split at outcome
          · cases outcome
          · rename_i c found
            simp [silent c found] at outcome

/-- With maps that agree this is the registration on one table. -/
theorem registerNamed_eq (agree : root.NamesAgree perName) :
    (root.registerNamed perName fed classHandle object name).1 =
      root.registerObjectInstance fed classHandle object name := by
  have named : (lookup Prod.fst name perName).isSome =
      root.objects.any (fun o => o.name = name) := by
    rw [agree, lookup, Bool.eq_iff_iff, List.find?_isSome]
    simp [Object.entry]
  have reserved : root.registerObjectInstance fed classHandle object name =
      if root.isReservedByOther fed name then .refused root .objectAlreadyRegistered
      else registerObjectInstance.register root fed classHandle object name := by
    unfold registerObjectInstance isReservedByOther
    cases lookup Prod.fst name root.reservedNames with
    | none => rfl
    | some reservation => by_cases other : reservation.2 = fed <;> simp [other]
  rw [reserved, registerNamed, named]
  by_cases other : root.isReservedByOther fed name = true
  · simp [other]
  · by_cases handle : (root.object? object).isSome = true
    · simp [other, handle, registerObjectInstance.register]
    · by_cases taken : root.objects.any (fun o => o.name = name) = true
      · simp [other, handle, taken, registerObjectInstance.register]
      · rw [Bool.not_eq_true] at other handle taken
        simp only [other, handle, taken, registerObjectInstance.register, Bool.or_false,
          Bool.false_eq_true, if_false, registerInClass]
        cases root.class? classHandle with
        | none => rfl
        | some c =>
          by_cases publisher : c.isFederatePublisher fed = true
          · simp only [publisher, Bool.not_true, Bool.false_eq_true, if_false]
            cases broadcastUp root.server fed (fun h => .discoverObject fed h object name)
              (BroadcastLines.start fed) (root.lineage classHandle) <;> rfl
          · simp [publisher]

end RootObject

end Certi
