import Certi.RTIG.OwnershipNotices

/-!
# Offers of a negotiated divestiture

`ObjectClassSet::negotiatedAttributeOwnershipDivestiture` with the broadcast of
Request_Attribute_Ownership_Assumption from the class of the object up to the
root. The trimming loop for that message is bounded by the size of a RAV
message, which the list does not have; and without anything to offer there is
no list that the superclasses could be given.
-/
namespace Certi

open Keyed Sweep Ownership Throwing

/-- An operation that sends nothing, as part of one that does. -/
def attempt {α : Type} (result : Except Stop α) : Sending α :=
  match result with
  | .ok a => pure a
  | .error e => throw e

abbrev Broadcasts := List (FederateHandle × AttributeMessage Unit)

namespace OwnershipService

/-- The second half of the class's service, once the loop has left its notes: the broadcast
list, if there is one, and what was broadcast. -/
def offerInClass (root : RootObject) (region : RegionHandle → RTIRegion) (c : ObjectClass)
    (fed : FederateHandle) (object : ObjectHandle) (tag : String) (n : Nat)
    (notes : List OwnershipNote) : Sending (Option (ObjectClassBroadcastList Unit) × Broadcasts) := do
  let drafts ← notes.foldlM negotiateDivestiture.write (Drafts.start n)
  sendDiffusion .acquisitionNotification fed object tag drafts.diffusionAcquisition
  sendAnswer .divestitureNotification fed object drafts.divestiture
  if drafts.assumption.count ≠ 0 then do
    let list := ObjectClassBroadcastList.create
      (.raoa ⟨fed, object, tag, drafts.assumption.close⟩) c.attributes.length
    let (list', sent) ← attempt (c.broadcastClassMessage root.server region list none)
    return (some list', sent)
  else return (none, [])

/-- The class of the object, then its superclasses one after another. -/
def offer (root : RootObject) (region : RegionHandle → RTIRegion) (c : ObjectClass)
    (fed : FederateHandle) (tag : String) (o : Object) (hs : List AttributeHandle) :
    Sending Broadcasts := do
  let (list, sent) ← offerInClass root region c fed o.handle tag hs.length
    (negotiateDivestiture.transfer c fed o hs).2
  return sent ++ (← attempt
    (root.broadcastToSuperclasses region none root.classes.length c.superClass list))

end OwnershipService

theorem attempt_silent {α : Type} (result : Except Stop α) (s : List OwnershipMessage) :
    final (attempt result s) = s := by
  cases result with
  | ok a => rfl
  | error e => rfl

/-- The notifications are those of the class's service alone; where it ends in the broadcast, it
is the broadcast that stops. -/
theorem offer_messages (root : RootObject) (region : RegionHandle → RTIRegion) (c : ObjectClass)
    (fed : FederateHandle) (tag : String) (o : Object) (hs : List AttributeHandle) :
    final (OwnershipService.offer root region c fed tag o hs []) =
      OwnershipService.negotiateDivestiture.messages c fed tag o hs := by
  unfold OwnershipService.offer OwnershipService.messages
  rw [final_bind_silent]
  · unfold OwnershipService.offerInClass OwnershipService.notify
    refine final_bind_congr (fun drafts s => ?_) []
    refine final_bind_congr (fun _ s => ?_) s
    refine final_bind_congr (fun _ s => ?_) s
    by_cases offers : drafts.assumption.count ≠ 0
    · simp only [if_pos offers]
      rw [final_bind_silent (fun _ _ => rfl)]
      rfl
    · simp only [if_neg offers]
      rfl
  · intro result s
    rw [final_bind_silent (fun _ _ => rfl)]
    exact attempt_silent _ s

/-! ## What is to be offered -/

/-- Everything that is offered to a federate. -/
def offeredTo (fed : FederateHandle) (broadcasts : Broadcasts) : List AttributeHandle :=
  broadcasts.flatMap fun b => if b.1 = fed then b.2.attributes else []

/-- An attribute nobody asked for is due to the federates that its class or a superclass lists
for it, except to the one that gives it up. -/
def OfferDue (root : RootObject) (c : ObjectClass) (fed : FederateHandle) (o : Object)
    (hs : List AttributeHandle) (other : FederateHandle) (h : AttributeHandle) : Prop :=
  h ∈ hs ∧ (∃ oa, o.attribute? h = some oa ∧ oa.candidates = ∅) ∧ other ≠ fed ∧
    ∃ super ∈ root.lineage c.handle, ∃ oca ∈ super.attributes,
      oca.handle = h ∧ other ∈ oca.publishers

/-- The service returns, and offers what is due once and nothing else. -/
def OffersOnce (root : RootObject) (region : RegionHandle → RTIRegion) (c : ObjectClass)
    (fed : FederateHandle) (tag : String) (o : Object) (hs : List AttributeHandle) : Prop :=
  ∃ broadcasts s, OwnershipService.offer root region c fed tag o hs [] = .ok broadcasts s ∧
    ∀ other h, (OfferDue root c fed o hs other h → (offeredTo other broadcasts).count h = 1) ∧
      (¬ OfferDue root c fed o hs other h → (offeredTo other broadcasts).count h = 0)

/-! ## The loop of a negotiated divestiture -/

namespace OwnershipNote

/-- What a negotiated divestiture notes: handed over, or to be offered. -/
def Divests (note : OwnershipNote) : Prop := note.gained ≠ none ∨ note.offer ≠ none

end OwnershipNote

/-- One note for each step. -/
theorem negotiated_notes (c : ObjectClass) (fed : FederateHandle) (hs : List AttributeHandle)
    (t : Transfer) : ∃ more,
      (sweep (OwnershipService.negotiateDivestiture.step c fed) t hs).1.2 = t.2 ++ more ∧
      more.length ≤ hs.length ∧ ∀ note ∈ more, note.Divests := by
  induction hs generalizing t with
  | nil => exact ⟨[], (List.append_nil _).symm, Nat.le_refl 0, fun _ listed => by cases listed⟩
  | cons a rest ih =>
    cases taken : OwnershipService.negotiateDivestiture.step c fed t a with
    | error e =>
      rw [sweep_cons_error rest taken]
      exact ⟨[], (List.append_nil _).symm, Nat.zero_le _, fun _ listed => by cases listed⟩
    | ok next =>
      rw [sweep_cons_ok rest taken]
      obtain ⟨oa, -, -, -, -, -, told⟩ := step_turns taken
      obtain ⟨more, noted, short, each⟩ := ih next
      have one : ∃ note : OwnershipNote,
          OwnershipService.negotiateDivestiture.noted fed oa = [note] ∧ note.Divests := by
        cases first : oa.firstCandidate with
        | some newOwner =>
          exact ⟨.acquired newOwner oa.handle, by simp [OwnershipService.noted, first],
            .inl (by simp [OwnershipNote.gained])⟩
        | none =>
          exact ⟨.offered oa.handle, by simp [OwnershipService.noted, first],
            .inr (by simp [OwnershipNote.offer])⟩
      obtain ⟨note, single, divests⟩ := one
      refine ⟨note :: more, ?_, ?_, ?_⟩
      · rw [noted, told, single, List.append_assoc, List.singleton_append]
      · rw [List.length_cons, List.length_cons]
        omega
      · intro other listed
        rcases List.mem_cons.mp listed with same | later
        · exact same ▸ divests
        · exact each other later

section accepted

variable {c : ObjectClass} {fed : FederateHandle} {o : Object} {hs : List AttributeHandle}

/-- An accepted request for something has something to tell. -/
theorem negotiated_noted (accepted : negotiatedPreconditions c fed o hs = .ok ())
    (some : hs ≠ []) : (OwnershipService.negotiateDivestiture.transfer c fed o hs).2 ≠ [] := by
  cases hs with
  | nil => exact absurd rfl some
  | cons a rest =>
    have checked : OwnershipService.negotiateDivestiture.preconditions c fed o (a :: rest) =
        .ok () := accepted
    obtain ⟨⟨oa, found⟩, defined⟩ :=
      OwnershipService.preconditions_found checked List.mem_cons_self
    obtain ⟨next, taken⟩ := OwnershipService.negotiateDivestiture.step_total (t := (o, [])) fed
      found defined (fun release => by cases release)
    obtain ⟨tail, comes⟩ : ∃ tail,
        OwnershipService.negotiateDivestiture.reached o (a :: rest) = a :: tail := by
      unfold OwnershipService.reached
      split
      · exact ⟨[], rfl⟩
      · exact ⟨_, rfl⟩
    obtain ⟨more, noted, -, -⟩ := negotiated_notes c fed tail next
    obtain ⟨ob, -, -, -, -, -, told⟩ := step_turns taken
    unfold OwnershipService.transfer
    rw [comes, sweep_cons_ok tail taken, noted, told]
    cases first : ob.firstCandidate <;> simp [OwnershipService.noted, first]

/-- What the loop notes fits into the answers. -/
theorem negotiated_room (c : ObjectClass) (fed : FederateHandle) (o : Object)
    (hs : List AttributeHandle) : ∃ notes,
    notes = (OwnershipService.negotiateDivestiture.transfer c fed o hs).2 ∧
      OwnershipService.negotiateDivestiture.Room hs.length notes ∧
      ∀ note ∈ notes, note.Divests := by
  obtain ⟨more, noted, short, each⟩ := negotiated_notes c fed
    (OwnershipService.negotiateDivestiture.reached o hs) (o, [])
  rw [List.nil_append] at noted
  have within := (reached_sublist .negotiateDivestiture o hs).length_le
  refine ⟨more, noted.symm, ⟨fun takes => (by cases takes), ?_, ?_⟩, each⟩
  · have offers := List.length_filterMap_le OwnershipNote.offer more
    omega
  · have missing := List.length_filterMap_le OwnershipNote.missing more
    omega

end accepted

/-! ## The broadcast -/

/-- An assumption cannot be broadcast. -/
theorem broadcast_assumption (server : SecurityServer) (region : RegionHandle → RTIRegion)
    (c : ObjectClass) (message : RequestOwnershipAssumption) (maxHandle : AttributeHandle)
    (lines : BroadcastLines) (source : Option Object) :
    c.broadcastClassMessage (V := Unit) server region ⟨.raoa message, maxHandle, lines⟩ source =
      .error .nullDereference := rfl

/-- Nothing can be broadcast from a list that was not made, except where nobody is to be asked. -/
theorem broadcast_nothing (root : RootObject) (region : RegionHandle → RTIRegion)
    {superClass : ObjectClassHandle} (parent : superClass ≠ 0) (fuel : Nat) :
    ∃ e, root.broadcastToSuperclasses (V := Unit) region none (fuel + 1) superClass none =
      .error e := by
  unfold RootObject.broadcastToSuperclasses
  rw [if_neg parent]
  cases root.class? superClass with
  | none => exact ⟨_, rfl⟩
  | some c => exact ⟨_, rfl⟩

section offers

variable {root : RootObject} {region : RegionHandle → RTIRegion} {c : ObjectClass}
  {fed : FederateHandle} {tag : String} {o : Object} {hs : List AttributeHandle}

/-- Whatever is listed, the service does not return. -/
theorem offer_stops (root : RootObject) (region : RegionHandle → RTIRegion) (tag : String)
    (accepted : negotiatedPreconditions c fed o hs = .ok ()) (some : hs ≠ []) :
    ∃ e s, OwnershipService.offer root region c fed tag o hs [] = .error e s := by
  obtain ⟨notes, noted, room, each⟩ := negotiated_room c fed o hs
  have listed : notes ≠ [] := by
    rw [noted]
    exact negotiated_noted accepted some
  unfold OwnershipService.offer
  rw [← noted]
  suffices stops : ∃ e s, OwnershipService.offerInClass root region c fed o.handle tag hs.length
      notes [] = .error e s by
    obtain ⟨e, s, stopped⟩ := stops
    exact ⟨e, s, bind_error stopped⟩
  unfold OwnershipService.offerInClass
  by_cases handed : ∃ note ∈ notes, note.gained ≠ none
  · exact ⟨_, _, bind_error (OwnershipService.gather_stops notes
      (OwnershipService.start_written _ _) (by rw [List.nil_append]; exact room) handed [])⟩
  · have quiet : ∀ note ∈ notes, note.gained = none := by
      intro note member
      by_contra gains
      exact handed ⟨note, member, gains⟩
    obtain ⟨d, gathered, written⟩ := OwnershipService.gather_written notes
      (OwnershipService.start_written .negotiateDivestiture hs.length)
      (by rw [List.nil_append]; exact room) (fun _ => quiet) []
    rw [List.nil_append] at written
    have offers : d.assumption.count ≠ 0 := by
      rw [written.assumption.count]
      intro zero
      have none := List.length_eq_zero_iff.mp zero
      rw [List.filterMap_eq_nil_iff] at none
      obtain ⟨note, rest, first⟩ := List.exists_cons_of_ne_nil listed
      have member : note ∈ notes := first ▸ List.mem_cons_self
      rcases each note member with gains | offer
      · exact gains (quiet note member)
      · exact offer (none note member)
    rw [bind_ok gathered, bind_ok (sendDiffusion_sends _ _ _ _ _ _),
      bind_ok (sendAnswer_sends written.divestiture _ _ _ _)]
    simp only [if_pos offers, ObjectClassBroadcastList.create, broadcast_assumption]
    exact ⟨_, _, bind_error rfl⟩

/-- Nothing listed: all that happens is the way up the superclasses. -/
theorem offer_nothing : OwnershipService.offer root region c fed tag o [] [] =
    (do return [] ++ (← attempt
      (root.broadcastToSuperclasses region none root.classes.length c.superClass none)) :
        Sending Broadcasts) [] := rfl

/-- For every class tree, publications, subscriptions and instance: an accepted negotiated
divestiture returns, with each offer made once, only where nothing is listed and the class has
no superclass. -/
theorem offers_iff (known : root.class? o.classHandle = some c)
    (accepted : negotiatedPreconditions c fed o hs = .ok ()) :
    OffersOnce root region c fed tag o hs ↔ hs = [] ∧ c.superClass = 0 := by
  constructor
  · rintro ⟨broadcasts, s, returned, -⟩
    have nothing : hs = [] := by
      by_contra some
      obtain ⟨e, s', stopped⟩ := offer_stops root region tag accepted some
      rw [stopped] at returned
      cases returned
    refine ⟨nothing, ?_⟩
    by_contra parent
    subst nothing
    obtain ⟨fuel, size⟩ : ∃ fuel, root.classes.length = fuel + 1 :=
      Nat.exists_eq_succ_of_ne_zero
        (Nat.ne_of_gt (List.length_pos_of_mem (lookup_mem known)))
    obtain ⟨e, stopped⟩ := broadcast_nothing root region parent fuel
    have refused : (attempt (.error e) : Sending Broadcasts) [] = .error e [] := rfl
    rw [offer_nothing, size, stopped, bind_error refused] at returned
    cases returned
  · rintro ⟨nothing, top⟩
    subst nothing
    refine ⟨[], [], ?_, fun other h => ⟨fun due => absurd due.1 List.not_mem_nil, fun _ => rfl⟩⟩
    rw [offer_nothing, top]
    cases root.classes.length with
    | zero => rfl
    | succ fuel => rfl

end offers

/-- Federate 2 owns the attribute of an object that nobody has asked for. -/
def unwantedObject : Object := ⟨1, "unwanted", 1, 2, [⟨4, 2, false, ∅, none⟩]⟩

/-- The class with its one object, and nothing else. -/
def unwantedRoot : RootObject :=
  { server := ⟨none, [], []⟩, classes := [disputedClass], interactions := []
    objects := [unwantedObject], reservedNames := [], spaces := [], regions := [], nextRegion := 1 }

def noRegion (h : RegionHandle) : RTIRegion := ⟨h, 0, []⟩

theorem offers_nothing : OffersOnce unwantedRoot noRegion disputedClass 2 "" unwantedObject [] :=
  (offers_iff rfl (by decide +kernel)).mpr ⟨rfl, rfl⟩

/-- Federates 1 and 3 publish the attribute that federate 2 gives up; the offer ends the
process. -/
theorem offers_once_fails :
    ¬ ∀ (root : RootObject) (region : RegionHandle → RTIRegion) (c : ObjectClass)
      (fed : FederateHandle) (tag : String) (o : Object) (hs : List AttributeHandle),
      root.class? o.classHandle = some c → negotiatedPreconditions c fed o hs = .ok () →
      OffersOnce root region c fed tag o hs := by
  intro claim
  have accepted : negotiatedPreconditions disputedClass 2 unwantedObject [4] = .ok () := by
    decide +kernel
  obtain ⟨broadcasts, s, returned, -⟩ := claim unwantedRoot noRegion disputedClass 2 ""
    unwantedObject [4] rfl accepted
  obtain ⟨e, s', stopped⟩ := offer_stops unwantedRoot noRegion "" accepted (List.cons_ne_nil _ _)
  rw [stopped] at returned
  cases returned

end Certi
