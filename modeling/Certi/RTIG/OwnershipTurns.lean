import Certi.LibCERTI.OwnershipInvariant
import Certi.RTIG.Run

/-!
# One turn of an ownership loop

Every ownership service checks its preconditions and then takes the attributes
of the list one after another. What it does with one of them is a function of
that attribute alone (`deed`), and no other attribute of the object changes.
-/
namespace Certi

open Keyed Sweep Ownership

/-- What a service does with an attribute when its loop comes to it; `none` where it throws. -/
def OwnershipService.deed (service : OwnershipService) (fed : FederateHandle)
    (oa : ObjectAttribute) : Option ObjectAttribute :=
  match service with
  | negotiateDivestiture =>
    match oa.firstCandidate with
    | some newOwner => some (handOver oa newOwner)
    | none => some (oa.setDivesting true)
  | divest =>
    match oa.firstCandidate with
    | some newOwner => some (handOver oa newOwner)
    | none => some ((oa.setOwner 0).setDivesting false)
  | respondRelease => oa.firstCandidate.map (handOver oa)
  | acquire =>
    if obtainable oa then some (((oa.removeCandidate fed).setOwner fed).setDivesting false)
    else some ((oa.removeCandidate fed).addCandidate fed)
  | acquireIfAvailable =>
    if obtainable oa then some ((oa.setOwner fed).setDivesting false)
    else some (oa.addCandidate fed)
  | cancelDivestiture => some (oa.setDivesting false)
  | cancelAcquisition => some (oa.removeCandidate fed)

/-- The services by which an owner gives attributes up. -/
def OwnershipService.givesUp : OwnershipService → Bool
  | negotiateDivestiture | divest | respondRelease => true
  | acquireIfAvailable | acquire | cancelDivestiture | cancelAcquisition => false

namespace OwnershipService

variable {service : OwnershipService} {fed : FederateHandle} {oa next : ObjectAttribute}

/-- The three ways of giving an attribute up hand it to the first candidate alike. -/
theorem deed_handed {newOwner : FederateHandle} (done : service.deed fed oa = some next)
    (gives : service.givesUp = true) (first : oa.firstCandidate = some newOwner) :
    next = handOver oa newOwner := by
  cases service with
  | negotiateDivestiture | divest =>
    simp only [deed, first, Option.some.injEq] at done
    exact done.symm
  | respondRelease =>
    simp only [deed, first, Option.map_some, Option.some.injEq] at done
    exact done.symm
  | acquireIfAvailable | acquire | cancelDivestiture | cancelAcquisition => cases gives

theorem deed_unclaimed (done : service.deed fed oa = some next) (gives : service.givesUp = true)
    (first : oa.firstCandidate = none) :
    next.candidates = oa.candidates ∧ (next.owner = oa.owner ∨ next.owner = 0) := by
  cases service with
  | negotiateDivestiture =>
    simp only [deed, first, Option.some.injEq] at done
    subst done
    exact ⟨rfl, .inl rfl⟩
  | divest =>
    simp only [deed, first, Option.some.injEq] at done
    subst done
    exact ⟨rfl, .inr rfl⟩
  | respondRelease =>
    simp only [deed, first, Option.map_none] at done
    cases done
  | acquireIfAvailable | acquire | cancelDivestiture | cancelAcquisition => cases gives

end OwnershipService

/-- What is noted of it. -/
def OwnershipService.noted (service : OwnershipService) (fed : FederateHandle)
    (oa : ObjectAttribute) : List OwnershipNote :=
  match service with
  | negotiateDivestiture | divest =>
    match oa.firstCandidate with
    | some newOwner => [.acquired newOwner oa.handle]
    | none => [.offered oa.handle]
  | respondRelease => (oa.firstCandidate.map (OwnershipNote.acquired · oa.handle)).toList
  | acquire =>
    if obtainable oa then acquisitionNotes fed oa oa.handle
    else [.releaseRequested oa.owner oa.handle]
  | acquireIfAvailable =>
    if obtainable oa then acquisitionNotes fed oa oa.handle else [.unavailable oa.handle]
  | cancelDivestiture => []
  | cancelAcquisition => [.cancelled oa.handle]

def OwnershipService.preconditions (service : OwnershipService) (c : ObjectClass)
    (fed : FederateHandle) (o : Object) (hs : List AttributeHandle) : Except RTIException Unit :=
  match service with
  | negotiateDivestiture => negotiatedPreconditions c fed o hs
  | acquireIfAvailable => acquisitionIfAvailablePreconditions c fed o hs
  | divest => unconditionalPreconditions c fed o hs
  | acquire => acquisitionPreconditions c fed o hs
  | cancelDivestiture => hs.forM (checkCancelNegotiated fed o)
  | respondRelease => releaseResponsePreconditions c fed o hs
  | cancelAcquisition => cancelAcquisitionPreconditions c fed o hs

def OwnershipService.step (service : OwnershipService) (c : ObjectClass) (fed : FederateHandle) :
    Transfer → AttributeHandle → Except RTIException Transfer :=
  match service with
  | negotiateDivestiture => negotiatedStep c
  | acquireIfAvailable => acquisitionIfAvailableStep c fed
  | divest => unconditionalStep c
  | acquire => acquisitionStep c fed
  | cancelDivestiture => cancelNegotiatedStep
  | respondRelease => releaseResponseStep c
  | cancelAcquisition => cancelAcquisitionStep fed

theorem OwnershipService.perform_transfer (service : OwnershipService) (c : ObjectClass)
    (fed : FederateHandle) (o : Object) (hs : List AttributeHandle) :
    (service.perform fed hs c o).1 =
      (serve (service.preconditions c fed o hs) (service.step c fed) o hs).1 := by
  cases service with
  | divest => exact unconditional_served o hs
  | negotiateDivestiture => rfl
  | acquireIfAvailable => rfl
  | acquire => rfl
  | cancelDivestiture => rfl
  | respondRelease => rfl
  | cancelAcquisition => rfl

/-- `oa` is stored in `o`, and nothing else is. -/
def Stored (oa : ObjectAttribute) (o o' : Object) : Prop :=
  ∀ h, o'.attribute? h =
    if h = oa.handle then (o.attribute? h).map fun _ => oa else o.attribute? h

theorem setAttribute_stored (o : Object) (oa : ObjectAttribute) :
    Stored oa o (o.setAttribute oa) := by
  intro h
  unfold Object.setAttribute Object.attribute? replace
  rw [lookup_adjust (fun _ _ => rfl)]
  cases found : lookup ObjectAttribute.handle h o.attributes with
  | none => simp
  | some b =>
    have same : b.handle = h := lookup_key found
    rw [Option.map_some, same, Option.map_some]
    by_cases here : h = oa.handle
    · rw [if_pos here, if_pos here]
    · rw [if_neg here, if_neg here]

theorem grant_stored (c : ObjectClass) (o : Object) (oa : ObjectAttribute)
    (newOwner : FederateHandle) : Stored oa o (grant c o oa newOwner) := by
  intro h
  rw [← setAttribute_stored o oa h]
  unfold grant
  split
  · simp [Object.setOwner, Object.attribute?]
  · simp

/-- In its turn an attribute becomes what the deed says, and no other attribute changes. -/
def Turns (service : OwnershipService) (fed : FederateHandle) (h : AttributeHandle)
    (t t' : Transfer) : Prop :=
  ∃ oa next, t.1.attribute? h = some oa ∧ service.deed fed oa = some next ∧ next.handle = h ∧
    Stored next t.1 t'.1 ∧ t'.2 = t.2 ++ service.noted fed oa

/-- An attribute that is granted to a federate, which the object's owner may follow. -/
theorem granted_turns {service : OwnershipService} {fed newOwner : FederateHandle}
    {h : AttributeHandle} {oa next : ObjectAttribute} {notes noted : List OwnershipNote}
    (c : ObjectClass) (o : Object) (found : o.attribute? h = some oa)
    (done : service.deed fed oa = some next) (named : next.handle = oa.handle)
    (told : service.noted fed oa = noted) :
    Turns service fed h (o, notes) (grant c o next newOwner, notes ++ noted) :=
  ⟨oa, next, found, done, named.trans (Object.attribute?_handle found), grant_stored c _ _ _,
    by rw [told]⟩

/-- An attribute that is only rewritten. -/
theorem rewritten_turns {service : OwnershipService} {fed : FederateHandle}
    {h : AttributeHandle} {oa next : ObjectAttribute} {notes noted : List OwnershipNote}
    (o : Object) (found : o.attribute? h = some oa)
    (done : service.deed fed oa = some next) (named : next.handle = oa.handle)
    (told : service.noted fed oa = noted) :
    Turns service fed h (o, notes) (o.setAttribute next, notes ++ noted) :=
  ⟨oa, next, found, done, named.trans (Object.attribute?_handle found), setAttribute_stored _ _,
    by rw [told]⟩

theorem step_turns {service : OwnershipService} {c : ObjectClass} {fed : FederateHandle}
    {t t' : Transfer} {h : AttributeHandle} (success : service.step c fed t h = .ok t') :
    Turns service fed h t t' := by
  cases service with
  | negotiateDivestiture =>
    obtain ⟨oa, found, success⟩ := bind_success success
    rw [Object.getAttribute_ok] at found
    have same : oa.handle = h := Object.attribute?_handle found
    cases first : oa.firstCandidate with
    | some newOwner =>
      simp only [first] at success
      obtain ⟨oca, -, success⟩ := bind_success success
      cases success
      apply granted_turns c t.1 found
      · simp only [OwnershipService.deed, first]
      · rfl
      · simp only [OwnershipService.noted, first, same]
    | none =>
      simp only [first] at success
      cases success
      apply rewritten_turns t.1 found
      · simp only [OwnershipService.deed, first]
      · rfl
      · simp only [OwnershipService.noted, first, same]
  | divest =>
    obtain ⟨oca, -, success⟩ := bind_success success
    obtain ⟨oa, found, success⟩ := bind_success success
    rw [Object.getAttribute_ok] at found
    have same : oa.handle = h := Object.attribute?_handle found
    cases first : oa.firstCandidate with
    | some newOwner =>
      simp only [first] at success
      cases success
      apply granted_turns c t.1 found
      · simp only [OwnershipService.deed, first]
      · rfl
      · simp only [OwnershipService.noted, first, same]
    | none =>
      simp only [first] at success
      cases success
      apply rewritten_turns t.1 found
      · simp only [OwnershipService.deed, first]
      · rfl
      · simp only [OwnershipService.noted, first, same]
  | respondRelease =>
    obtain ⟨oca, -, success⟩ := bind_success success
    obtain ⟨oa, found, success⟩ := bind_success success
    rw [Object.getAttribute_ok] at found
    have same : oa.handle = h := Object.attribute?_handle found
    cases first : oa.firstCandidate with
    | some newOwner =>
      simp only [first] at success
      cases success
      apply granted_turns c t.1 found
      · simp only [OwnershipService.deed, first, Option.map_some]
      · rfl
      · simp only [OwnershipService.noted, first, same, Option.map_some, Option.toList_some]
    | none =>
      simp only [first] at success
      cases success
  | acquire =>
    obtain ⟨oca, -, success⟩ := bind_success success
    obtain ⟨oa, found, success⟩ := bind_success success
    rw [Object.getAttribute_ok] at found
    have same : oa.handle = h := Object.attribute?_handle found
    by_cases free : obtainable oa = true
    · simp only [if_pos free] at success
      cases success
      apply granted_turns c t.1 found
      · simp only [OwnershipService.deed, if_pos free]
      · rfl
      · simp only [OwnershipService.noted, if_pos free, same]
    · simp only [if_neg free] at success
      cases success
      apply rewritten_turns t.1 found
      · simp only [OwnershipService.deed, if_neg free]
      · rfl
      · simp only [OwnershipService.noted, if_neg free, same]
  | acquireIfAvailable =>
    obtain ⟨oca, -, success⟩ := bind_success success
    obtain ⟨oa, found, success⟩ := bind_success success
    rw [Object.getAttribute_ok] at found
    have same : oa.handle = h := Object.attribute?_handle found
    by_cases free : obtainable oa = true
    · simp only [if_pos free] at success
      cases success
      apply granted_turns c t.1 found
      · simp only [OwnershipService.deed, if_pos free]
      · rfl
      · simp only [OwnershipService.noted, if_pos free, same]
    · simp only [if_neg free] at success
      cases success
      apply rewritten_turns t.1 found
      · simp only [OwnershipService.deed, if_neg free]
      · rfl
      · simp only [OwnershipService.noted, if_neg free, same]
  | cancelDivestiture =>
    obtain ⟨oa, found, success⟩ := bind_success success
    rw [Object.getAttribute_ok] at found
    have same : oa.handle = h := Object.attribute?_handle found
    cases success
    exact ⟨oa, oa.setDivesting false, found, rfl, same, setAttribute_stored _ _,
      (List.append_nil t.2).symm⟩
  | cancelAcquisition =>
    obtain ⟨oa, found, success⟩ := bind_success success
    rw [Object.getAttribute_ok] at found
    have same : oa.handle = h := Object.attribute?_handle found
    cases success
    apply rewritten_turns t.1 found
    · simp only [OwnershipService.deed]
    · rfl
    · simp only [OwnershipService.noted, same]

end Certi
