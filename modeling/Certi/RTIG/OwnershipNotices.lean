import Certi.RTIG.OwnershipAtomicity
import Certi.RTIG.OwnershipMessages

/-!
# Notifications and changes of owner

For a list without duplicates the loop of a service gives every attribute one
turn, and the messages can be compared with the owners before and after. The
acquisitions tell everybody what has become of the attributes. The services by
which an owner gives attributes up do so only where no array is written past
its end, no list is refused and the attributes were not offered before.
-/
namespace Certi

open Keyed Sweep Ownership Throwing Regroup

/-! ## One turn each -/

/-- What is noted of attribute `h` in its turn. -/
def OwnershipService.noting (service : OwnershipService) (fed : FederateHandle) (o : Object)
    (h : AttributeHandle) : List OwnershipNote :=
  (o.attribute? h).toList.flatMap (service.noted fed)

/-- Every listed attribute had its turn, once. -/
structure Performed (service : OwnershipService) (fed : FederateHandle)
    (hs : List AttributeHandle) (t t' : Transfer) : Prop where
  changed : ∀ h ∈ hs, ∃ oa next, t.1.attribute? h = some oa ∧ service.deed fed oa = some next ∧
    t'.1.attribute? h = some next
  unchanged : ∀ h, h ∉ hs → t'.1.attribute? h = t.1.attribute? h
  noted : t'.2 = t.2 ++ hs.flatMap (service.noting fed t.1)

theorem sweep_performed {service : OwnershipService} {c : ObjectClass} {fed : FederateHandle}
    {t : Transfer} {hs : List AttributeHandle} (once : hs.Nodup)
    (defined : ∀ h ∈ hs, service ≠ .cancelDivestiture → ∃ oca, c.attribute? h = some oca)
    (found : ∀ h ∈ hs, ∃ oa, t.1.attribute? h = some oa ∧
      (service = .respondRelease → oa.firstCandidate ≠ none)) :
    Performed service fed hs t (sweep (service.step c fed) t hs).1 := by
  induction hs generalizing t with
  | nil =>
    exact ⟨fun h listed => absurd listed List.not_mem_nil, fun _ _ => rfl, by simp⟩
  | cons a rest ih =>
    obtain ⟨fresh, once⟩ := List.nodup_cons.mp once
    obtain ⟨oa, located, wanted⟩ := found a List.mem_cons_self
    obtain ⟨next, taken⟩ :=
      service.step_total fed located (defined a List.mem_cons_self) wanted
    rw [sweep_cons_ok rest taken]
    obtain ⟨ob, oc, there, done, named, stored, told⟩ := step_turns taken
    cases located.symm.trans there
    have elsewhere : ∀ h, h ≠ a → next.1.attribute? h = t.1.attribute? h := by
      intro h other
      rw [stored h, if_neg (fun same => other (same.trans named))]
    have apart : ∀ h ∈ rest, h ≠ a := fun h listed same => fresh (same ▸ listed)
    have here : next.1.attribute? a = some oc := by
      rw [stored a, if_pos named.symm, located, Option.map_some]
    obtain ⟨changed, unchanged, noted⟩ := ih once
      (fun h listed => defined h (List.mem_cons_of_mem a listed)) (fun h listed => by
        rw [elsewhere h (apart h listed)]
        exact found h (List.mem_cons_of_mem a listed))
    refine ⟨fun h listed => ?_, fun h outside => ?_, ?_⟩
    · rcases List.mem_cons.mp listed with same | later
      · subst same
        exact ⟨oa, oc, located, done, by rw [unchanged h fresh, here]⟩
      · obtain ⟨od, oe, at1, step, at2⟩ := changed h later
        rw [elsewhere h (apart h later)] at at1
        exact ⟨od, oe, at1, step, at2⟩
    · have other : h ≠ a := fun same => outside (same ▸ List.mem_cons_self)
      rw [unchanged h (fun later => outside (List.mem_cons_of_mem a later)), elsewhere h other]
    · have same : rest.flatMap (service.noting fed next.1) =
          rest.flatMap (service.noting fed t.1) :=
        List.flatMap_congr fun h listed => by
          rw [OwnershipService.noting, OwnershipService.noting, elsewhere h (apart h listed)]
      rw [noted, told, same, List.flatMap_cons, OwnershipService.noting, located]
      simp

theorem reached_sublist (service : OwnershipService) (o : Object) (hs : List AttributeHandle) :
    (service.reached o hs).Sublist hs := by
  induction hs with
  | nil => exact List.Sublist.refl []
  | cons h rest ih =>
    unfold OwnershipService.reached
    split
    · exact List.Sublist.cons_cons h (List.nil_sublist rest)
    · exact List.Sublist.cons_cons h ih

theorem reached_all {service : OwnershipService} {o : Object} {hs : List AttributeHandle}
    (whole : service ≠ .negotiateDivestiture ∨
      ∀ h ∈ service.reached o hs, (o.attribute? h).any (·.hasCandidates) = false) :
    service.reached o hs = hs := by
  induction hs with
  | nil => rfl
  | cons h rest ih =>
    unfold OwnershipService.reached at whole ⊢
    split
    · rename_i broken
      rw [if_pos broken] at whole
      rcases whole with other | quiet
      · exact absurd broken.1 other
      · have none := quiet h List.mem_cons_self
        rw [broken.2] at none
        cases none
    · rename_i going
      rw [if_neg going] at whole
      rw [ih]
      rcases whole with other | quiet
      · exact .inl other
      · exact .inr fun h listed => quiet h (List.mem_cons_of_mem _ listed)

/-! ## What is due -/

def Object.ownerOf (o : Object) (h : AttributeHandle) : FederateHandle :=
  match o.attribute? h with
  | some oa => oa.owner
  | none => 0

def Object.offered (o : Object) (h : AttributeHandle) : Bool := (o.attribute? h).any (·.divesting)

theorem Object.ownerOf_of {o : Object} {h : AttributeHandle} {oa : ObjectAttribute}
    (found : o.attribute? h = some oa) : o.ownerOf h = oa.owner := by
  rw [ownerOf, found]

theorem Object.offered_of {o : Object} {h : AttributeHandle} {oa : ObjectAttribute}
    (found : o.attribute? h = some oa) : o.offered h = oa.divesting := by
  rw [offered, found, Option.any_some]

/-- The attributes that the operation gave to `fed`. -/
def gainedBy (o o' : Object) (hs : List AttributeHandle) (fed : FederateHandle) :
    List AttributeHandle :=
  hs.filter fun h => o'.ownerOf h = fed ∧ o.ownerOf h ≠ fed

/-- The attributes of `fed`, offered before or in this request, that went to someone else. -/
def lostBy (service : OwnershipService) (requester : FederateHandle) (o o' : Object)
    (hs : List AttributeHandle) (fed : FederateHandle) : List AttributeHandle :=
  hs.filter fun h => o.ownerOf h = fed ∧
    (o.offered h = true ∨ service = .negotiateDivestiture ∧ fed = requester) ∧
    o'.ownerOf h ≠ fed ∧ o'.ownerOf h ≠ 0

/-- The attributes of `fed` that an acquisition could not take. -/
def heldBy (service : OwnershipService) (o o' : Object) (hs : List AttributeHandle)
    (fed : FederateHandle) : List AttributeHandle :=
  hs.filter fun h => service = .acquire ∧ o.ownerOf h = fed ∧ o'.ownerOf h = fed

/-- The attribute lists of the messages of one kind to one federate. -/
def noticesTo (kind : OwnershipMessageKind) (fed : FederateHandle)
    (messages : List OwnershipMessage) : List (List AttributeHandle) :=
  (messages.filter fun m => m.kind = kind ∧ m.recipient = fed).map OwnershipMessage.attributes

/-- One message for a list that is not empty. -/
def oneFor (hs : List AttributeHandle) : List (List AttributeHandle) :=
  if hs = [] then [] else [hs]

/-- The messages tell what became of the owners: per federate at most one of each kind, with
exactly its attributes; and no attribute comes up twice for a federate. -/
structure Mirrors (service : OwnershipService) (requester : FederateHandle) (o o' : Object)
    (hs : List AttributeHandle) (messages : List OwnershipMessage) : Prop where
  acquisition : ∀ fed, fed ≠ 0 →
    noticesTo .acquisitionNotification fed messages = oneFor (gainedBy o o' hs fed)
  divestiture : ∀ fed, fed ≠ 0 →
    noticesTo .divestitureNotification fed messages = oneFor (lostBy service requester o o' hs fed)
  release : ∀ fed, fed ≠ 0 →
    noticesTo .requestRelease fed messages = oneFor (heldBy service o o' hs fed)
  once : ∀ fed, fed ≠ 0 → ∀ h, (messages.flatMap fun m =>
    if m.recipient = fed then m.attributes else []).count h ≤ 1

/-- The attribute is handed to another federate. -/
def passesOn (fed : FederateHandle) (oa : ObjectAttribute) : Bool :=
  oa.firstCandidate.any fun newOwner => newOwner ≠ fed && newOwner ≠ 0

/-- Nothing is handed to another federate. -/
def Keeps (fed : FederateHandle) (o : Object) (hs : List AttributeHandle) : Prop :=
  ∀ h ∈ hs, ∀ oa ∈ o.attribute? h, passesOn fed oa = false

/-- Nothing is handed to its own owner, and nothing that was offered to another federate. -/
def HandsOn (fed : FederateHandle) (o : Object) (hs : List AttributeHandle) : Prop :=
  ∀ h ∈ hs, ∀ oa ∈ o.attribute? h,
    oa.firstCandidate ≠ some fed ∧ (oa.divesting = true → passesOn fed oa = false)

/-- When the messages of a request are right. -/
def OwnershipService.Notifies (service : OwnershipService) (fed : FederateHandle) (o : Object)
    (hs : List AttributeHandle) : Prop :=
  match service with
  | acquire | acquireIfAvailable | cancelDivestiture | cancelAcquisition => True
  | negotiateDivestiture => Keeps fed o (negotiateDivestiture.reached o hs)
  | divest =>
    if ∀ h ∈ hs, (o.attribute? h).any (·.hasCandidates) then HandsOn fed o hs else Keeps fed o hs
  | respondRelease => HandsOn fed o hs

/-! ## What the preconditions promise -/

namespace OwnershipService

variable {service : OwnershipService} {c : ObjectClass} {fed : FederateHandle} {o : Object}
  {hs : List AttributeHandle}

/-- Only an owner gives attributes up. -/
theorem preconditions_owned (gives : service.givesUp = true)
    (accepted : service.preconditions c fed o hs = .ok ()) {h : AttributeHandle} (listed : h ∈ hs)
    {oa : ObjectAttribute} (found : o.attribute? h = some oa) : oa.owner = fed := by
  cases service with
  | negotiateDivestiture =>
    obtain ⟨_, -, checks⟩ := bind_success accepted
    exact (checkNegotiated_success (forM_success checks h listed) oa found).1
  | divest =>
    obtain ⟨_, -, checks⟩ := bind_success accepted
    obtain ⟨ob, located, check⟩ := bind_success (forM_success checks h listed)
    cases found.symm.trans (Object.getAttribute_ok.mp located)
    by_contra foreign
    simp [foreign, throw, throwThe, MonadExceptOf.throw] at check
  | respondRelease =>
    obtain ⟨_, -, checks⟩ := bind_success accepted
    obtain ⟨ob, located, check⟩ := bind_success (forM_success checks h listed)
    cases found.symm.trans (Object.getAttribute_ok.mp located)
    by_contra foreign
    simp [foreign, bind, Except.bind, throw, throwThe, MonadExceptOf.throw] at check
  | acquireIfAvailable | acquire | cancelDivestiture | cancelAcquisition => cases gives

/-- Nobody acquires what it owns. -/
theorem preconditions_foreign (takes : service.takes = true)
    (accepted : service.preconditions c fed o hs = .ok ()) {h : AttributeHandle} (listed : h ∈ hs)
    {oa : ObjectAttribute} (found : o.attribute? h = some oa) : oa.owner ≠ fed := by
  cases service with
  | acquire =>
    obtain ⟨_, checks, -⟩ := bind_success accepted
    exact checkAcquisition_success (forM_success checks h listed) oa found
  | acquireIfAvailable =>
    obtain ⟨_, -, checks⟩ := bind_success accepted
    dsimp only at checks
    split at checks
    · cases checks
    exact (checkAcquisitionIfAvailable_success (forM_success checks h listed) oa found).1
  | negotiateDivestiture | divest | respondRelease | cancelDivestiture | cancelAcquisition =>
    cases takes

theorem preconditions_wanted (accepted : respondRelease.preconditions c fed o hs = .ok ())
    {h : AttributeHandle} (listed : h ∈ hs) {oa : ObjectAttribute}
    (found : o.attribute? h = some oa) : oa.firstCandidate ≠ none := by
  obtain ⟨_, -, checks⟩ := bind_success accepted
  obtain ⟨ob, located, check⟩ := bind_success (forM_success checks h listed)
  cases found.symm.trans (Object.getAttribute_ok.mp located)
  intro nobody
  have empty : oa.hasCandidates = false := by
    simp [ObjectAttribute.hasCandidates, ObjectAttribute.firstCandidate_eq_none.mp nobody]
  by_cases owner : oa.owner = fed
  · simp [owner, empty, bind, Except.bind, pure, Except.pure, throw, throwThe,
      MonadExceptOf.throw] at check
  · simp [owner, bind, Except.bind, throw, throwThe, MonadExceptOf.throw] at check

/-- The loop of an accepted request gives each attribute it comes to one turn. -/
theorem transfer_performed (once : hs.Nodup)
    (accepted : service.preconditions c fed o hs = .ok ()) :
    Performed service fed (service.reached o hs) (o, []) (service.transfer c fed o hs) := by
  have within := (reached_sublist service o hs).subset
  refine sweep_performed (once.sublist (reached_sublist service o hs)) (fun h listed => ?_)
    (fun h listed => ?_)
  · exact (preconditions_found accepted (within listed)).2
  · obtain ⟨oa, found⟩ := (preconditions_found accepted (within listed)).1
    refine ⟨oa, found, fun release => ?_⟩
    subst release
    exact preconditions_wanted accepted (within listed) found

end OwnershipService

/-! ## Messages to one federate -/

/-- Everything that is written to a federate. -/
def told (fed : FederateHandle) (messages : List OwnershipMessage) : List AttributeHandle :=
  messages.flatMap fun m => if m.recipient = fed then m.attributes else []

theorem noticesTo_append (kind : OwnershipMessageKind) (fed : FederateHandle)
    (front rest : List OwnershipMessage) :
    noticesTo kind fed (front ++ rest) = noticesTo kind fed front ++ noticesTo kind fed rest := by
  simp [noticesTo]

theorem told_append (fed : FederateHandle) (front rest : List OwnershipMessage) :
    told fed (front ++ rest) = told fed front ++ told fed rest := List.flatMap_append

section answers

variable (kind : OwnershipMessageKind) {other : OwnershipMessageKind} {fed : FederateHandle}
  (requester : FederateHandle) (object : ObjectHandle) (tag : String)
  (pairs : List (FederateHandle × AttributeHandle))

theorem noticesTo_answers (named : fed ≠ 0) :
    noticesTo kind fed (answers kind requester object tag pairs) = oneFor (values fed pairs) := by
  have grouped := regroup_values named pairs
  unfold noticesTo answers oneFor
  rw [List.filter_map, List.map_map]
  simp only [Function.comp_def, true_and, grouped]
  by_cases empty : values fed pairs = []
  · simp [empty]
  · simp [empty]

theorem noticesTo_answers_other (different : other ≠ kind) :
    noticesTo other fed (answers kind requester object tag pairs) = [] := by
  unfold noticesTo answers
  rw [List.filter_map]
  simp [Function.comp_def, Ne.symm different]

theorem told_answers (named : fed ≠ 0) :
    told fed (answers kind requester object tag pairs) = values fed pairs := by
  have grouped := regroup_values named pairs
  have picked : ∀ groups : List (FederateHandle × List AttributeHandle),
      told fed (groups.map fun group => ⟨kind, group.1, requester, object, tag, group.2⟩) =
        (groups.filter fun group => group.1 = fed).flatMap Prod.snd := by
    intro groups
    induction groups with
    | nil => rfl
    | cons group rest ih =>
      rw [List.map_cons, ← List.singleton_append, told_append, ih]
      by_cases same : group.1 = fed
      · simp [told, same]
      · simp [told, same]
  unfold answers
  rw [picked, grouped]
  by_cases empty : values fed pairs = []
  · simp [empty]
  · simp [empty]

end answers

theorem noticesTo_answer {kind : OwnershipMessageKind} {requester : FederateHandle}
    {object : ObjectHandle} (other : OwnershipMessageKind) (fed : FederateHandle)
    (hs : List AttributeHandle) :
    noticesTo other fed (answer kind requester object hs) =
      if kind = other ∧ requester = fed then oneFor hs else [] := by
  unfold answer oneFor
  by_cases empty : hs = []
  · simp [empty, noticesTo]
  · by_cases here : kind = other ∧ requester = fed
    · simp [empty, noticesTo, here]
    · simp [empty, noticesTo, here]

theorem told_answer {kind : OwnershipMessageKind} {requester : FederateHandle}
    {object : ObjectHandle} (fed : FederateHandle) (hs : List AttributeHandle) :
    told fed (answer kind requester object hs) = if requester = fed then hs else [] := by
  unfold answer
  by_cases empty : hs = []
  · simp [empty, told]
  · simp [empty, told]

/-! ## What is sent -/

namespace OwnershipService

variable {service : OwnershipService} {fed : FederateHandle} {object : ObjectHandle}
  {tag : String} {n : Nat} {notes : List OwnershipNote}

theorem notify_written (fed : FederateHandle) (object : ObjectHandle) (tag : String)
    (room : service.Room n notes)
    (sized : service = .negotiateDivestiture → ∀ note ∈ notes, note.gained = none) :
    ∃ d, service.Written n notes d ∧
      service.notify fed object tag n notes [] = service.send fed object tag d [] := by
  obtain ⟨d, gathered, written⟩ :=
    gather_written notes (start_written service n) (by rw [List.nil_append]; exact room) sized []
  rw [List.nil_append] at written
  refine ⟨d, written, ?_⟩
  unfold notify
  exact bind_ok gathered

theorem acquire_sends (room : acquire.Room n notes) :
    final (acquire.notify fed object tag n notes []) =
      answer .acquisitionNotification fed object
          ((notes.filterMap OwnershipNote.gained).map Prod.snd) ++
        answers .divestitureNotification fed object "" (notes.filterMap OwnershipNote.lost) ++
        answers .requestRelease fed object tag (notes.filterMap OwnershipNote.held) := by
  obtain ⟨d, written, sent⟩ := notify_written fed object tag room
    (fun other => by cases other)
  rw [sent]
  simp only [send]
  rw [bind_ok (sendAnswer_sends written.notification _ _ _ _),
    bind_ok (sendDiffusion_sends _ _ _ _ _ _), sendDiffusion_sends, written.loss, written.release]
  rfl

theorem acquireIfAvailable_sends (room : acquireIfAvailable.Room n notes) :
    final (acquireIfAvailable.notify fed object tag n notes []) =
      answer .acquisitionNotification fed object
          ((notes.filterMap OwnershipNote.gained).map Prod.snd) ++
        answers .divestitureNotification fed object "" (notes.filterMap OwnershipNote.lost) ++
        answer .unavailable fed object (notes.filterMap OwnershipNote.missing) := by
  obtain ⟨d, written, sent⟩ := notify_written fed object tag room
    (fun other => by cases other)
  rw [sent]
  simp only [send]
  rw [bind_ok (sendAnswer_sends written.notification _ _ _ _),
    bind_ok (sendDiffusion_sends _ _ _ _ _ _), sendAnswer_sends written.unavailable, written.loss]
  rfl

theorem respondRelease_sends (room : respondRelease.Room n notes) :
    final (respondRelease.notify fed object tag n notes []) =
      answers .acquisitionNotification fed object "" (notes.filterMap OwnershipNote.gained) := by
  obtain ⟨d, written, sent⟩ := notify_written fed object tag room
    (fun other => by cases other)
  rw [sent]
  simp only [send]
  rw [sendDiffusion_sends, written.acquisition]
  rfl

/-- Without an offer an unconditional divestiture sends what a release response would; with
one it throws before it has sent anything. -/
theorem divest_sends (room : divest.Room n notes) :
    final (divest.notify fed object tag n notes []) =
      if notes.filterMap OwnershipNote.offer = [] then
        answers .acquisitionNotification fed object "" (notes.filterMap OwnershipNote.gained)
      else [] := by
  obtain ⟨d, written, sent⟩ := notify_written fed object tag room
    (fun other => by cases other)
  rw [sent]
  simp only [send]
  rw [written.assumption.count]
  by_cases offers : notes.filterMap OwnershipNote.offer = []
  · rw [if_pos offers, offers, if_neg (by simp), sendDiffusion_sends, written.acquisition]
    rfl
  · rw [if_neg offers, if_pos (fun zero => offers (List.length_eq_zero_iff.mp zero))]
    rfl

/-- A negotiated divestiture sends none of the notifications in any case. -/
theorem negotiated_silent (room : negotiateDivestiture.Room n notes) :
    final (negotiateDivestiture.notify fed object tag n notes []) = [] := by
  by_cases handed : ∃ note ∈ notes, note.gained ≠ none
  · unfold notify
    rw [bind_error (gather_stops notes (start_written _ n) (by rw [List.nil_append]; exact room)
      handed [])]
    rfl
  · have quiet : ∀ note ∈ notes, note.gained = none := by
      intro note listed
      by_contra gains
      exact handed ⟨note, listed, gains⟩
    obtain ⟨d, written, sent⟩ := notify_written fed object tag room
      (fun _ => quiet)
    have none : notes.filterMap OwnershipNote.gained = [] := by
      rw [List.filterMap_eq_nil_iff]
      exact quiet
    have nothing : d.diffusionAcquisition = [] := by
      rw [written.acquisition]
      exact none
    rw [sent]
    simp only [send]
    rw [nothing, bind_ok (sendDiffusion_sends _ _ _ _ _ _),
      bind_ok (sendAnswer_sends written.divestiture _ _ _ _)]
    by_cases offers : d.assumption.count ≠ 0
    · rw [if_pos offers]
      rfl
    · rw [if_neg offers]
      rfl

theorem cancel_silent (cancels : service = .cancelDivestiture ∨ service = .cancelAcquisition)
    (room : service.Room n notes) : final (service.notify fed object tag n notes []) = [] := by
  obtain ⟨d, -, sent⟩ := notify_written fed object tag room
    (fun other => by subst other; rcases cancels with no | no <;> cases no)
  rw [sent]
  rcases cancels with rfl | rfl
  · rfl
  · rfl

end OwnershipService

/-! ## Collecting along a list -/

section collect

variable {noting : AttributeHandle → List OwnershipNote} {hs : List AttributeHandle}

theorem collect_filter {f : OwnershipNote → Option AttributeHandle} {p : AttributeHandle → Bool}
    (each : ∀ h ∈ hs, (noting h).filterMap f = if p h then [h] else []) :
    (hs.flatMap noting).filterMap f = hs.filter p := by
  induction hs with
  | nil => rfl
  | cons h rest ih =>
    rw [List.flatMap_cons, List.filterMap_append, each h List.mem_cons_self,
      ih fun a listed => each a (List.mem_cons_of_mem h listed)]
    by_cases here : p h = true
    · rw [if_pos here, List.filter_cons_of_pos here]
      rfl
    · rw [if_neg here, List.filter_cons_of_neg here]
      rfl

theorem collect_length {β : Type} {f : OwnershipNote → Option β}
    (each : ∀ h, ((noting h).filterMap f).length ≤ 1) :
    ((hs.flatMap noting).filterMap f).length ≤ hs.length := by
  induction hs with
  | nil => exact Nat.le_refl 0
  | cons h rest ih =>
    rw [List.flatMap_cons, List.filterMap_append, List.length_append, List.length_cons]
    have here := each h
    omega

theorem values_filterMap (fed : FederateHandle)
    (f : OwnershipNote → Option (FederateHandle × AttributeHandle)) (notes : List OwnershipNote) :
    values fed (notes.filterMap f) =
      notes.filterMap fun note => (f note).bind fun p => if p.1 = fed then some p.2 else none := by
  induction notes with
  | nil => rfl
  | cons note rest ih =>
    rw [List.filterMap_cons, List.filterMap_cons]
    cases made : f note with
    | none => exact ih
    | some p =>
      dsimp only [Option.bind_some]
      rw [values_cons, ih]
      by_cases same : p.1 = fed
      · simp [same]
      · simp [same]

end collect

/-- Each attribute fills at most one cell of each array. -/
theorem noted_room (service : OwnershipService) (fed : FederateHandle) (o : Object)
    (hs : List AttributeHandle) :
    service.Room hs.length (hs.flatMap (service.noting fed o)) := by
  have single : ∀ oa : ObjectAttribute,
      ((service.noted fed oa).filterMap OwnershipNote.gained).length ≤ 1 ∧
      ((service.noted fed oa).filterMap OwnershipNote.offer).length ≤ 1 ∧
      ((service.noted fed oa).filterMap OwnershipNote.missing).length ≤ 1 := by
    intro oa
    cases service with
    | negotiateDivestiture | divest | respondRelease =>
      cases first : oa.firstCandidate <;>
        simp [OwnershipService.noted, first, List.filterMap_cons, OwnershipNote.gained,
          OwnershipNote.offer, OwnershipNote.missing]
    | acquire | acquireIfAvailable =>
      cases free : obtainable oa <;> cases offer : oa.divesting <;>
        simp [OwnershipService.noted, acquisitionNotes, free, offer, List.filterMap_cons,
          OwnershipNote.gained, OwnershipNote.offer, OwnershipNote.missing]
    | cancelDivestiture | cancelAcquisition =>
      simp [OwnershipService.noted, List.filterMap_cons, OwnershipNote.gained,
        OwnershipNote.offer, OwnershipNote.missing]
  have each : ∀ h,
      ((service.noting fed o h).filterMap OwnershipNote.gained).length ≤ 1 ∧
      ((service.noting fed o h).filterMap OwnershipNote.offer).length ≤ 1 ∧
      ((service.noting fed o h).filterMap OwnershipNote.missing).length ≤ 1 := by
    intro h
    unfold OwnershipService.noting
    cases o.attribute? h with
    | none => simp
    | some oa => simpa using single oa
  exact ⟨fun _ => collect_length fun h => (each h).1, collect_length fun h => (each h).2.1,
    collect_length fun h => (each h).2.2⟩

theorem OwnershipService.Room.wider {service : OwnershipService} {n m : Nat} {notes : List OwnershipNote}
    (room : service.Room n notes) (wider : n ≤ m) : service.Room m notes :=
  ⟨fun takes => Nat.le_trans (room.gained takes) wider, Nat.le_trans room.offered wider,
    Nat.le_trans room.missing wider⟩

/-! ## Giving up without a message -/

section silent

variable {service : OwnershipService} {fed : FederateHandle} {o : Object} {t : Transfer}
  {hs reached : List AttributeHandle}

/-- What giving up does to the owner of an attribute. -/
theorem gaveUp_owner (gives : service.givesUp = true)
    (performed : Performed service fed reached (o, []) t)
    {h : AttributeHandle} (listed : h ∈ reached) :
    ∃ oa, o.attribute? h = some oa ∧
      (∀ newOwner, oa.firstCandidate = some newOwner → t.1.ownerOf h = newOwner) ∧
      (oa.firstCandidate = none → t.1.ownerOf h = oa.owner ∨ t.1.ownerOf h = 0) := by
  obtain ⟨oa, next, found, done, now⟩ := performed.changed h listed
  refine ⟨oa, found, fun newOwner first => ?_, fun nobody => ?_⟩
  · have handed := OwnershipService.deed_handed done gives first
    rw [Object.ownerOf, now, handed]
    rfl
  · have kept := (OwnershipService.deed_unclaimed done gives nobody).2
    rw [Object.ownerOf, now]
    exact kept

theorem unchanged_owner (performed : Performed service fed reached (o, []) t)
    {h : AttributeHandle} (outside : h ∉ reached) : t.1.ownerOf h = o.ownerOf h := by
  rw [Object.ownerOf, Object.ownerOf, performed.unchanged h outside]

/-- An attribute goes to another federate only where one of its candidates gets it. -/
theorem gaveUp_keeps (gives : service.givesUp = true)
    (performed : Performed service fed reached (o, []) t)
    (owned : ∀ h ∈ reached, ∀ oa, o.attribute? h = some oa → oa.owner = fed)
    (keeps : Keeps fed o reached) (h : AttributeHandle) :
    t.1.ownerOf h = o.ownerOf h ∨ t.1.ownerOf h = 0 := by
  by_cases listed : h ∈ reached
  · obtain ⟨oa, found, handed, kept⟩ := gaveUp_owner gives performed listed
    have mine : o.ownerOf h = fed := by
      rw [Object.ownerOf_of found]
      exact owned h listed oa found
    have stays := keeps h listed oa found
    cases first : oa.firstCandidate with
    | none =>
      rw [Object.ownerOf_of found]
      exact kept first
    | some newOwner =>
      rw [handed newOwner first, mine]
      simp only [passesOn, first, Option.any_some, Bool.and_eq_false_iff, decide_eq_false_iff_not,
        not_not] at stays
      exact stays
  · exact .inl (unchanged_owner performed listed)

/-- Nothing sent is right exactly where nothing goes to another federate. -/
theorem silent_iff (gives : service.givesUp = true)
    (performed : Performed service fed reached (o, []) t) (within : reached ⊆ hs)
    (owned : ∀ h ∈ reached, ∀ oa, o.attribute? h = some oa → oa.owner = fed) :
    Mirrors service fed o t.1 hs [] ↔ Keeps fed o reached := by
  constructor
  · intro mirrors h listed oa found
    by_contra passes
    rw [Bool.not_eq_false] at passes
    obtain ⟨ob, located, handed, -⟩ := gaveUp_owner gives performed listed
    cases found.symm.trans located
    cases first : oa.firstCandidate with
    | none => simp [passesOn, first] at passes
    | some newOwner =>
      simp only [passesOn, first, Option.any_some, Bool.and_eq_true, decide_eq_true_eq] at passes
      have nobody := mirrors.acquisition newOwner passes.2
      have mine : o.ownerOf h = fed := by
        rw [Object.ownerOf_of found]
        exact owned h listed oa found
      have gains : h ∈ gainedBy o t.1 hs newOwner := by
        unfold gainedBy
        rw [List.mem_filter, decide_eq_true_eq, handed newOwner first, mine]
        exact ⟨within listed, rfl, Ne.symm passes.1⟩
      have none : gainedBy o t.1 hs newOwner = [] := by
        by_contra some
        rw [oneFor, if_neg some] at nobody
        cases nobody
      rw [none] at gains
      exact List.not_mem_nil gains
  · intro keeps
    have stays := gaveUp_keeps gives performed owned keeps
    constructor
    · intro g named
      have none : gainedBy o t.1 hs g = [] := by
        unfold gainedBy
        rw [List.filter_eq_nil_iff]
        intro h _
        rw [decide_eq_true_eq]
        rintro ⟨now, before⟩
        rcases stays h with same | zero
        · exact before (same.symm.trans now)
        · exact named (now.symm.trans zero)
      rw [none]
      rfl
    · intro g named
      have none : lostBy service fed o t.1 hs g = [] := by
        unfold lostBy
        rw [List.filter_eq_nil_iff]
        intro h _
        rw [decide_eq_true_eq]
        rintro ⟨before, -, gone, there⟩
        rcases stays h with same | zero
        · exact gone (same.trans before)
        · exact there zero
      rw [none]
      rfl
    · intro g named
      have none : heldBy service o t.1 hs g = [] := by
        unfold heldBy
        rw [List.filter_eq_nil_iff]
        intro h _
        rw [decide_eq_true_eq]
        rintro ⟨acquires, -⟩
        rw [acquires] at gives
        cases gives
      rw [none]
      rfl
    · intro g _ h
      exact Nat.zero_le 1

end silent

/-! ## Giving up to candidates -/

theorem oneFor_eq_nil {hs : List AttributeHandle} (none : oneFor hs = []) : hs = [] := by
  by_contra some
  rw [oneFor, if_neg some] at none
  cases none

theorem count_filter_le {hs : List AttributeHandle} (once : hs.Nodup)
    (p : AttributeHandle → Bool) (h : AttributeHandle) :
    (hs.filter p).count h ≤ if p h then 1 else 0 := by
  by_cases here : p h = true
  · rw [if_pos here]
    exact List.nodup_iff_count_le_one.mp (once.filter p) h
  · rw [if_neg here, Nat.le_zero, List.count_eq_zero]
    intro listed
    exact here (List.of_mem_filter listed)

section handed

variable {service : OwnershipService} {fed : FederateHandle} {o : Object} {t : Transfer}
  {hs : List AttributeHandle}

/-- The pairs for a federate are the attributes it owns afterwards. -/
theorem values_handed (gives : service.givesUp = true)
    (performed : Performed service fed hs (o, []) t)
    (wanted : ∀ h ∈ hs, ∀ oa, o.attribute? h = some oa → oa.firstCandidate ≠ none)
    (g : FederateHandle) :
    values g ((hs.flatMap (service.noting fed o)).filterMap OwnershipNote.gained) =
      hs.filter fun h => t.1.ownerOf h = g := by
  rw [values_filterMap]
  apply collect_filter
  intro h listed
  obtain ⟨oa, found, handed, -⟩ := gaveUp_owner gives performed listed
  have named : oa.handle = h := Object.attribute?_handle found
  obtain ⟨newOwner, first⟩ := Option.ne_none_iff_exists'.mp (wanted h listed oa found)
  have noted : service.noting fed o h = [.acquired newOwner h] := by
    rw [OwnershipService.noting, found]
    cases service with
    | negotiateDivestiture | divest | respondRelease =>
      simp [OwnershipService.noted, first, named]
    | acquireIfAvailable | acquire | cancelDivestiture | cancelAcquisition => cases gives
  rw [noted, handed newOwner first]
  by_cases same : newOwner = g
  · simp [List.filterMap_cons, OwnershipNote.gained, same]
  · simp [List.filterMap_cons, OwnershipNote.gained, same]

theorem handed_iff (member : fed ≠ 0) (once : hs.Nodup) (gives : service.givesUp = true)
    (asked : service ≠ .negotiateDivestiture) (performed : Performed service fed hs (o, []) t)
    (owned : ∀ h ∈ hs, ∀ oa, o.attribute? h = some oa → oa.owner = fed)
    (wanted : ∀ h ∈ hs, ∀ oa, o.attribute? h = some oa → oa.firstCandidate ≠ none)
    (object : ObjectHandle) (tag : String) :
    Mirrors service fed o t.1 hs (answers .acquisitionNotification fed object tag
      ((hs.flatMap (service.noting fed o)).filterMap OwnershipNote.gained)) ↔
      HandsOn fed o hs := by
  have mine : ∀ h ∈ hs, o.ownerOf h = fed := by
    intro h listed
    obtain ⟨oa, found, -⟩ := gaveUp_owner gives performed listed
    rw [Object.ownerOf_of found]
    exact owned h listed oa found
  constructor
  · intro mirrors h listed oa found
    obtain ⟨ob, located, handed, -⟩ := gaveUp_owner gives performed listed
    cases found.symm.trans located
    constructor
    · intro first
      have told := mirrors.acquisition fed member
      rw [noticesTo_answers _ _ _ _ _ member, values_handed gives performed wanted] at told
      have none : gainedBy o t.1 hs fed = [] := by
        unfold gainedBy
        rw [List.filter_eq_nil_iff]
        intro a member
        rw [decide_eq_true_eq]
        exact fun ⟨_, before⟩ => before (mine a member)
      rw [none] at told
      have empty := oneFor_eq_nil (told.trans rfl)
      rw [List.filter_eq_nil_iff] at empty
      exact empty h listed (decide_eq_true (handed fed first))
    · intro offered
      by_contra passes
      rw [Bool.not_eq_false] at passes
      have told := mirrors.divestiture fed member
      rw [noticesTo_answers_other _ _ _ _ _ (by decide)] at told
      have empty := oneFor_eq_nil told.symm
      unfold lostBy at empty
      rw [List.filter_eq_nil_iff] at empty
      refine empty h listed (decide_eq_true ⟨mine h listed, .inl ?_, ?_⟩)
      · rw [Object.offered_of found]
        exact offered
      · cases first : oa.firstCandidate with
        | none => simp [passesOn, first] at passes
        | some newOwner =>
          simp only [passesOn, first, Option.any_some, Bool.and_eq_true,
            decide_eq_true_eq] at passes
          rw [handed newOwner first]
          exact passes
  · intro handsOn
    constructor
    · intro g named
      rw [noticesTo_answers _ _ _ _ _ named, values_handed gives performed wanted]
      congr 1
      apply List.filter_congr
      intro h listed
      obtain ⟨oa, found, handed, -⟩ := gaveUp_owner gives performed listed
      obtain ⟨newOwner, first⟩ := Option.ne_none_iff_exists'.mp (wanted h listed oa found)
      have away : newOwner ≠ fed := fun same =>
        (handsOn h listed oa found).1 (by rw [first, same])
      rw [mine h listed, handed newOwner first, decide_eq_decide]
      exact ⟨fun same => ⟨same, fun back => away (same.trans back.symm)⟩, fun both => both.1⟩
    · intro g named
      rw [noticesTo_answers_other _ _ _ _ _ (by decide)]
      have none : lostBy service fed o t.1 hs g = [] := by
        unfold lostBy
        rw [List.filter_eq_nil_iff]
        intro h listed
        rw [decide_eq_true_eq]
        rintro ⟨before, offered | negotiated, gone, there⟩
        · obtain ⟨oa, found, handed, -⟩ := gaveUp_owner gives performed listed
          obtain ⟨newOwner, first⟩ := Option.ne_none_iff_exists'.mp (wanted h listed oa found)
          rw [Object.offered_of found] at offered
          have stays := (handsOn h listed oa found).2 offered
          rw [handed newOwner first] at gone there
          have same : fed = g := (mine h listed).symm.trans before
          rw [← same] at gone
          simp [passesOn, first, gone, there] at stays
        · exact asked negotiated.1
      rw [none]
      rfl
    · intro g named
      rw [noticesTo_answers_other _ _ _ _ _ (by decide)]
      have none : heldBy service o t.1 hs g = [] := by
        unfold heldBy
        rw [List.filter_eq_nil_iff]
        intro h _
        rw [decide_eq_true_eq]
        rintro ⟨acquires, -⟩
        rw [acquires] at gives
        cases gives
      rw [none]
      rfl
    · intro g named h
      have all := told_answers .acquisitionNotification fed object tag
        ((hs.flatMap (service.noting fed o)).filterMap OwnershipNote.gained) named
      unfold told at all
      rw [all, values_handed gives performed wanted]
      exact List.nodup_iff_count_le_one.mp (once.filter _) h

end handed

/-! ## Acquisitions -/

section taken

variable {service : OwnershipService} {fed : FederateHandle} {o : Object} {t : Transfer}
  {hs : List AttributeHandle}

/-- Free, or offered by its owner. -/
def Object.obtainableAt (o : Object) (h : AttributeHandle) : Bool := (o.attribute? h).any obtainable

theorem taken_owner (takes : service.takes = true)
    (performed : Performed service fed hs (o, []) t) {h : AttributeHandle} (listed : h ∈ hs) :
    t.1.ownerOf h = if o.obtainableAt h then fed else o.ownerOf h := by
  obtain ⟨oa, next, found, done, now⟩ := performed.changed h listed
  change o.attribute? h = some oa at found
  rw [Object.ownerOf_of now, Object.ownerOf_of found, Object.obtainableAt, found, Option.any_some]
  cases service with
  | acquire | acquireIfAvailable =>
    by_cases free : obtainable oa = true
    · simp only [OwnershipService.deed, if_pos free, Option.some.injEq] at done
      rw [if_pos free, ← done]
      rfl
    · simp only [OwnershipService.deed, if_neg free, Option.some.injEq] at done
      rw [if_neg free, ← done]
      rfl
  | negotiateDivestiture | divest | respondRelease | cancelDivestiture | cancelAcquisition =>
    cases takes

theorem taken_noting (takes : service.takes = true)
    (performed : Performed service fed hs (o, []) t) {h : AttributeHandle} (listed : h ∈ hs) :
    service.noting fed o h =
      if o.obtainableAt h then
        (if o.offered h then [.divested (o.ownerOf h) h] else []) ++ [.acquired fed h]
      else if service = .acquire then [.releaseRequested (o.ownerOf h) h]
      else [.unavailable h] := by
  obtain ⟨oa, next, found, -, -⟩ := performed.changed h listed
  change o.attribute? h = some oa at found
  have named : oa.handle = h := Object.attribute?_handle found
  rw [OwnershipService.noting, Object.ownerOf_of found, Object.offered_of found,
    Object.obtainableAt, found]
  cases service with
  | acquire | acquireIfAvailable =>
    simp [OwnershipService.noted, acquisitionNotes, named]
  | negotiateDivestiture | divest | respondRelease | cancelDivestiture | cancelAcquisition =>
    cases takes

theorem offered_obtainable {h : AttributeHandle} (offered : o.offered h = true) :
    o.obtainableAt h = true := by
  unfold Object.offered at offered
  unfold Object.obtainableAt
  cases found : o.attribute? h with
  | none =>
    rw [found] at offered
    cases offered
  | some oa =>
    rw [found] at offered
    change oa.divesting = true at offered
    simp [obtainable, offered]

variable (takes : service.takes = true) (performed : Performed service fed hs (o, []) t)

include takes performed

theorem taken_gained :
    ((hs.flatMap (service.noting fed o)).filterMap OwnershipNote.gained).map Prod.snd =
      hs.filter o.obtainableAt := by
  rw [List.map_filterMap]
  apply collect_filter
  intro h listed
  rw [taken_noting takes performed listed]
  by_cases free : o.obtainableAt h = true
  · cases o.offered h <;> simp [free, List.filterMap_cons, OwnershipNote.gained]
  · by_cases acquires : service = .acquire <;>
      simp [free, acquires, List.filterMap_cons, OwnershipNote.gained]

theorem taken_lost (g : FederateHandle) :
    values g ((hs.flatMap (service.noting fed o)).filterMap OwnershipNote.lost) =
      hs.filter fun h => o.offered h ∧ o.ownerOf h = g := by
  rw [values_filterMap]
  apply collect_filter
  intro h listed
  rw [taken_noting takes performed listed]
  by_cases free : o.obtainableAt h = true
  · cases o.offered h <;> by_cases same : o.ownerOf h = g <;>
      simp [free, same, List.filterMap_cons, OwnershipNote.lost]
  · have kept : o.offered h = false := by
      by_contra offers
      rw [Bool.not_eq_false] at offers
      exact free (offered_obtainable offers)
    by_cases acquires : service = .acquire <;>
      simp [free, kept, acquires, List.filterMap_cons, OwnershipNote.lost]

theorem taken_held (g : FederateHandle) :
    values g ((hs.flatMap (service.noting fed o)).filterMap OwnershipNote.held) =
      hs.filter fun h => service = .acquire ∧ o.obtainableAt h = false ∧ o.ownerOf h = g := by
  rw [values_filterMap]
  apply collect_filter
  intro h listed
  rw [taken_noting takes performed listed]
  by_cases free : o.obtainableAt h = true
  · cases o.offered h <;> simp [free, List.filterMap_cons, OwnershipNote.held]
  · by_cases acquires : service = .acquire <;> by_cases same : o.ownerOf h = g <;>
      simp [free, acquires, same, List.filterMap_cons, OwnershipNote.held]

theorem taken_missing :
    (hs.flatMap (service.noting fed o)).filterMap OwnershipNote.missing =
      hs.filter fun h => service ≠ .acquire ∧ o.obtainableAt h = false := by
  apply collect_filter
  intro h listed
  rw [taken_noting takes performed listed]
  by_cases free : o.obtainableAt h = true
  · cases o.offered h <;> simp [free, List.filterMap_cons, OwnershipNote.missing]
  · by_cases acquires : service = .acquire <;>
      simp [free, acquires, List.filterMap_cons, OwnershipNote.missing]

omit takes performed

/-- What stays with its owner: it is asked for, or the requester is told. -/
def Object.keptFrom (o : Object) (service : OwnershipService) (fed g : FederateHandle)
    (h : AttributeHandle) : Bool :=
  !o.obtainableAt h &&
    if service = .acquire then o.ownerOf h = g else decide (fed = g)

theorem taken_mirrors (member : fed ≠ 0) (once : hs.Nodup) (takes : service.takes = true)
    (performed : Performed service fed hs (o, []) t) (foreign : ∀ h ∈ hs, o.ownerOf h ≠ fed)
    (object : ObjectHandle) {rest : List OwnershipMessage}
    (others : ∀ kind g, kind ≠ .requestRelease → kind ≠ .unavailable →
      noticesTo kind g rest = [])
    (asked : ∀ g, g ≠ 0 → noticesTo .requestRelease g rest =
      oneFor (hs.filter fun h => service = .acquire ∧ o.obtainableAt h = false ∧ o.ownerOf h = g))
    (kept : ∀ g, g ≠ 0 → told g rest = hs.filter (o.keptFrom service fed g)) :
    Mirrors service fed o t.1 hs
      (answer .acquisitionNotification fed object
          (((hs.flatMap (service.noting fed o)).filterMap OwnershipNote.gained).map Prod.snd) ++
        answers .divestitureNotification fed object ""
          ((hs.flatMap (service.noting fed o)).filterMap OwnershipNote.lost) ++ rest) := by
  have owner := fun h listed => taken_owner takes performed (h := h) listed
  rw [taken_gained takes performed]
  constructor
  · intro g named
    rw [noticesTo_append, noticesTo_append, noticesTo_answer, noticesTo_answers_other _ _ _ _ _ (by decide),
      others _ g (by decide) (by decide), List.append_nil, List.append_nil]
    by_cases same : fed = g
    · rw [if_pos ⟨rfl, same⟩]
      congr 1
      apply List.filter_congr
      intro h listed
      rw [owner h listed, ← same]
      by_cases free : o.obtainableAt h = true
      · simp [free, foreign h listed]
      · simp [free, foreign h listed]
    · rw [if_neg fun both => same both.2]
      have none : gainedBy o t.1 hs g = [] := by
        unfold gainedBy
        rw [List.filter_eq_nil_iff]
        intro h listed
        rw [owner h listed, decide_eq_true_eq]
        by_cases free : o.obtainableAt h = true
        · rw [if_pos free]
          exact fun both => same both.1
        · rw [if_neg free]
          exact fun both => both.2 both.1
      rw [none]
      rfl
  · intro g named
    rw [noticesTo_append, noticesTo_append, noticesTo_answer, noticesTo_answers _ _ _ _ _ named,
      others _ g (by decide) (by decide), if_neg (fun both => by cases both.1), List.append_nil,
      List.nil_append, taken_lost takes performed]
    congr 1
    apply List.filter_congr
    intro h listed
    rw [owner h listed, decide_eq_decide]
    constructor
    · rintro ⟨offers, before⟩
      rw [if_pos (offered_obtainable offers)]
      exact ⟨before, .inl offers, fun same => foreign h listed (before.trans same.symm), member⟩
    · rintro ⟨before, offers | ⟨negotiated, -⟩, -⟩
      · exact ⟨offers, before⟩
      · rw [negotiated] at takes
        cases takes
  · intro g named
    rw [noticesTo_append, noticesTo_append, noticesTo_answer, noticesTo_answers_other _ _ _ _ _ (by decide),
      asked g named, if_neg (fun both => by cases both.1), List.nil_append, List.nil_append]
    congr 1
    apply List.filter_congr
    intro h listed
    rw [owner h listed, decide_eq_decide]
    by_cases free : o.obtainableAt h = true
    · simp only [free, if_true]
      constructor
      · rintro ⟨-, impossible, -⟩
        cases impossible
      · rintro ⟨-, before, same⟩
        exact absurd (before.trans same.symm) (foreign h listed)
    · rw [Bool.not_eq_true] at free
      simp [free]
  · intro g named h
    have all : told g (answer .acquisitionNotification fed object (hs.filter o.obtainableAt) ++
        answers .divestitureNotification fed object ""
          ((hs.flatMap (service.noting fed o)).filterMap OwnershipNote.lost) ++ rest) =
        (if fed = g then hs.filter o.obtainableAt else []) ++
          (hs.filter fun h => o.offered h ∧ o.ownerOf h = g) ++
          hs.filter (o.keptFrom service fed g) := by
      rw [told_append, told_append, told_answer, told_answers _ _ _ _ _ named, kept g named,
        taken_lost takes performed]
    unfold told at all
    rw [all, List.count_append, List.count_append]
    by_cases listed : h ∈ hs
    · have first := count_filter_le once o.obtainableAt h
      have second := count_filter_le once (fun h => o.offered h ∧ o.ownerOf h = g) h
      have third := count_filter_le once (o.keptFrom service fed g) h
      by_cases free : o.obtainableAt h = true
      · have gone : o.keptFrom service fed g h = false := by simp [Object.keptFrom, free]
        rw [gone] at third
        by_cases same : fed = g
        · have away : ¬ (o.offered h = true ∧ o.ownerOf h = g) := fun both =>
            foreign h listed (both.2.trans same.symm)
          rw [decide_eq_false away] at second
          rw [if_pos free] at first
          rw [if_pos same]
          simp only [Bool.false_eq_true, if_false] at second third
          omega
        · rw [if_neg same, List.count_nil]
          simp only [Bool.false_eq_true, if_false] at third
          split at second <;> omega
      · have away : ¬ (o.offered h = true ∧ o.ownerOf h = g) := fun both =>
          free (offered_obtainable both.1)
        rw [decide_eq_false away] at second
        rw [if_neg free] at first
        simp only [Bool.false_eq_true, if_false] at second
        have none : (if fed = g then hs.filter o.obtainableAt else []).count h = 0 := by
          split
          · exact Nat.le_zero.mp first
          · rfl
        rw [none]
        split at third <;> omega
    · have absent : ∀ p : AttributeHandle → Bool, (hs.filter p).count h = 0 := fun p =>
        List.count_eq_zero.mpr fun found => listed (List.mem_of_mem_filter found)
      rw [absent, absent]
      split
      · rw [absent]
        omega
      · rw [List.count_nil]
        omega

end taken

/-! ## Every service -/

section services

variable {service : OwnershipService} {c : ObjectClass} {fed : FederateHandle} {o : Object}
  {t : Transfer} {hs : List AttributeHandle}

theorem transfer_messages (once : hs.Nodup)
    (accepted : service.preconditions c fed o hs = .ok ()) (tag : String) :
    ∃ notes, notes = (service.reached o hs).flatMap (service.noting fed o) ∧
      service.Room hs.length notes ∧
      service.messages c fed tag o hs =
        final (service.notify fed o.handle tag hs.length notes []) := by
  have performed := OwnershipService.transfer_performed once accepted
  have noted := performed.noted
  rw [List.nil_append] at noted
  refine ⟨_, rfl, ?_, ?_⟩
  · exact (noted_room service fed o _).wider (reached_sublist service o hs).length_le
  · rw [OwnershipService.messages, noted]

/-- A cancellation changes no owner and tells nobody. -/
theorem cancelled_mirrors
    (cancels : service = .cancelDivestiture ∨ service = .cancelAcquisition)
    (performed : Performed service fed hs (o, []) t) : Mirrors service fed o t.1 hs [] := by
  have same : ∀ h, t.1.ownerOf h = o.ownerOf h := by
    intro h
    by_cases listed : h ∈ hs
    · obtain ⟨oa, next, found, done, now⟩ := performed.changed h listed
      change o.attribute? h = some oa at found
      rw [Object.ownerOf_of now, Object.ownerOf_of found]
      rcases cancels with rfl | rfl
      · cases done
        rfl
      · cases done
        rfl
    · exact unchanged_owner performed listed
  constructor
  · intro g named
    have none : gainedBy o t.1 hs g = [] := by simp [gainedBy, same]
    rw [none]
    rfl
  · intro g named
    have none : lostBy service fed o t.1 hs g = [] := by
      unfold lostBy
      rw [List.filter_eq_nil_iff]
      intro h _
      rw [decide_eq_true_eq, same]
      exact fun ⟨before, _, gone, _⟩ => gone before
    rw [none]
    rfl
  · intro g named
    have none : heldBy service o t.1 hs g = [] := by
      rcases cancels with rfl | rfl <;> simp [heldBy]
    rw [none]
    rfl
  · intro g _ h
    exact Nat.zero_le 1

theorem acquire_mirrors (member : fed ≠ 0) (once : hs.Nodup)
    (performed : Performed .acquire fed hs (o, []) t) (foreign : ∀ h ∈ hs, o.ownerOf h ≠ fed)
    (object : ObjectHandle) (tag : String) {n : Nat}
    (room : OwnershipService.acquire.Room n
      (hs.flatMap (OwnershipService.acquire.noting fed o))) :
    Mirrors .acquire fed o t.1 hs (final (OwnershipService.acquire.notify fed object tag n
      (hs.flatMap (OwnershipService.acquire.noting fed o)) [])) := by
  rw [OwnershipService.acquire_sends room]
  refine taken_mirrors member once rfl performed foreign object (fun kind g other _ => ?_)
    (fun g named => ?_) (fun g named => ?_)
  · exact noticesTo_answers_other _ _ _ _ _ other
  · rw [noticesTo_answers _ _ _ _ _ named, taken_held rfl performed]
  · rw [told_answers _ _ _ _ _ named, taken_held rfl performed]
    apply List.filter_congr
    intro h _
    cases free : o.obtainableAt h <;> simp [Object.keptFrom, free]

theorem acquireIfAvailable_mirrors (member : fed ≠ 0) (once : hs.Nodup)
    (performed : Performed .acquireIfAvailable fed hs (o, []) t)
    (foreign : ∀ h ∈ hs, o.ownerOf h ≠ fed) (object : ObjectHandle) (tag : String) {n : Nat}
    (room : OwnershipService.acquireIfAvailable.Room n
      (hs.flatMap (OwnershipService.acquireIfAvailable.noting fed o))) :
    Mirrors .acquireIfAvailable fed o t.1 hs
      (final (OwnershipService.acquireIfAvailable.notify fed object tag n
        (hs.flatMap (OwnershipService.acquireIfAvailable.noting fed o)) [])) := by
  rw [OwnershipService.acquireIfAvailable_sends room]
  refine taken_mirrors member once rfl performed foreign object (fun kind g _ other => ?_)
    (fun g named => ?_) (fun g named => ?_)
  · rw [noticesTo_answer, if_neg fun both => other both.1.symm]
  · rw [noticesTo_answer, if_neg fun both => by cases both.1]
    simp [oneFor]
  · rw [told_answer, taken_missing rfl performed]
    by_cases same : fed = g
    · rw [if_pos same]
      apply List.filter_congr
      intro h _
      cases free : o.obtainableAt h <;> simp [Object.keptFrom, free, same]
    · rw [if_neg same, eq_comm, List.filter_eq_nil_iff]
      intro h _
      simp [Object.keptFrom, same]

theorem hasCandidates_first {oa : ObjectAttribute} (wanted : oa.hasCandidates = true) :
    oa.firstCandidate ≠ none := by
  intro nobody
  simp [ObjectAttribute.hasCandidates, ObjectAttribute.firstCandidate_eq_none.mp nobody] at wanted

theorem divest_offered (performed : Performed .divest fed hs (o, []) t) :
    (hs.flatMap (OwnershipService.divest.noting fed o)).filterMap OwnershipNote.offer =
      hs.filter fun h => !(o.attribute? h).any (·.hasCandidates) := by
  apply collect_filter
  intro h listed
  obtain ⟨oa, next, found, -, -⟩ := performed.changed h listed
  change o.attribute? h = some oa at found
  have named : oa.handle = h := Object.attribute?_handle found
  rw [OwnershipService.noting, found]
  cases first : oa.firstCandidate with
  | none =>
    have none : oa.hasCandidates = false := by
      simp [ObjectAttribute.hasCandidates, ObjectAttribute.firstCandidate_eq_none.mp first]
    simp [OwnershipService.noted, first, none, named, OwnershipNote.offer, List.filterMap_cons]
  | some newOwner =>
    have some : oa.hasCandidates = true :=
      decide_eq_true ⟨newOwner, ObjectAttribute.firstCandidate_mem first⟩
    simp [OwnershipService.noted, first, some, OwnershipNote.offer, List.filterMap_cons]

/-- For every object, whatever its owners, candidates and offers, and every accepted request
over distinct attributes: the messages mirror the changes exactly when `Notifies` holds. -/
theorem notifications_iff (member : fed ≠ 0) (once : hs.Nodup)
    (accepted : service.preconditions c fed o hs = .ok ()) (tag : String) :
    Mirrors service fed o (service.transfer c fed o hs).1 hs (service.messages c fed tag o hs) ↔
      service.Notifies fed o hs := by
  have performed := OwnershipService.transfer_performed once accepted
  obtain ⟨notes, noted, room, sent⟩ := transfer_messages once accepted tag
  have within := (reached_sublist service o hs).subset
  rw [sent]
  cases service with
  | acquire =>
    rw [reached_all (.inl (by decide))] at performed noted
    subst noted
    have foreign : ∀ h ∈ hs, o.ownerOf h ≠ fed := by
      intro h listed
      obtain ⟨oa, next, found, -⟩ := performed.changed h listed
      change o.attribute? h = some oa at found
      rw [Object.ownerOf_of found]
      exact OwnershipService.preconditions_foreign rfl accepted listed found
    exact ⟨fun _ => trivial, fun _ => acquire_mirrors member once performed foreign _ tag room⟩
  | acquireIfAvailable =>
    rw [reached_all (.inl (by decide))] at performed noted
    subst noted
    have foreign : ∀ h ∈ hs, o.ownerOf h ≠ fed := by
      intro h listed
      obtain ⟨oa, next, found, -⟩ := performed.changed h listed
      change o.attribute? h = some oa at found
      rw [Object.ownerOf_of found]
      exact OwnershipService.preconditions_foreign rfl accepted listed found
    exact ⟨fun _ => trivial,
      fun _ => acquireIfAvailable_mirrors member once performed foreign _ tag room⟩
  | negotiateDivestiture =>
    rw [OwnershipService.negotiated_silent room]
    exact silent_iff rfl performed within fun h listed oa found =>
      OwnershipService.preconditions_owned rfl accepted (within listed) found
  | respondRelease =>
    rw [reached_all (.inl (by decide))] at performed noted
    subst noted
    rw [OwnershipService.respondRelease_sends room]
    exact handed_iff member once rfl (by decide) performed
      (fun h listed oa found => OwnershipService.preconditions_owned rfl accepted listed found)
      (fun h listed oa found => OwnershipService.preconditions_wanted accepted listed found) _ _
  | divest =>
    rw [reached_all (.inl (by decide))] at performed noted
    subst noted
    have owned : ∀ h ∈ hs, ∀ oa, o.attribute? h = some oa → oa.owner = fed :=
      fun h listed oa found => OwnershipService.preconditions_owned rfl accepted listed found
    rw [OwnershipService.divest_sends room, divest_offered performed]
    simp only [OwnershipService.Notifies]
    by_cases every : ∀ h ∈ hs, (o.attribute? h).any (·.hasCandidates) = true
    · have none : (hs.filter fun h => !(o.attribute? h).any (·.hasCandidates)) = [] := by
        rw [List.filter_eq_nil_iff]
        intro h listed
        simp [every h listed]
      rw [if_pos none, if_pos every]
      refine handed_iff member once rfl (by decide) performed owned (fun h listed oa found => ?_) _ _
      have wanted := every h listed
      rw [found, Option.any_some] at wanted
      exact hasCandidates_first wanted
    · have some : (hs.filter fun h => !(o.attribute? h).any (·.hasCandidates)) ≠ [] := by
        intro none
        rw [List.filter_eq_nil_iff] at none
        refine every fun h listed => ?_
        have wanted := none h listed
        simpa using wanted
      rw [if_neg some, if_neg every]
      exact silent_iff rfl performed (List.Subset.refl hs) owned
  | cancelDivestiture | cancelAcquisition =>
    rw [reached_all (.inl (by decide))] at performed
    rw [OwnershipService.cancel_silent (by simp) room]
    exact ⟨fun _ => trivial, fun _ => cancelled_mirrors (by simp) performed⟩

end services

/-- Federate 3 publishes three attributes: one is free, one offered by federate 1, and one
owned by federate 2 and wanted by federate 4. -/
def disputedClass : ObjectClass :=
  ⟨1, 0, 0, [⟨2, "x", 0, {1, 2, 3}, []⟩, ⟨3, "y", 0, {1, 2, 3}, []⟩, ⟨4, "z", 0, {1, 2, 3}, []⟩], 0⟩

def disputedObject : Object :=
  ⟨1, "disputed", 1, 1, [⟨2, 0, false, ∅, none⟩, ⟨3, 1, true, ∅, none⟩, ⟨4, 2, false, {4}, none⟩]⟩

theorem notifications_acquisition :
    Mirrors .acquire 3 disputedObject
      (OwnershipService.acquire.transfer disputedClass 3 disputedObject [4, 3, 2]).1 [4, 3, 2]
      (OwnershipService.acquire.messages disputedClass 3 "" disputedObject [4, 3, 2]) :=
  (notifications_iff (by decide) (by decide) (by decide +kernel) "").mpr trivial

example : OwnershipService.acquire.messages disputedClass 3 "" disputedObject [4, 3, 2] =
    [⟨.acquisitionNotification, 3, 3, 1, "", [3, 2]⟩, ⟨.divestitureNotification, 1, 3, 1, "", [3]⟩,
      ⟨.requestRelease, 2, 3, 1, "", [4]⟩] := by decide +kernel

/-- Federate 2 negotiates the divestiture of the attribute that federate 4 wants: it gets it, and
neither is told. -/
theorem notifications_negotiated :
    ¬ ∀ (service : OwnershipService) (c : ObjectClass) (fed : FederateHandle) (tag : String)
      (o : Object) (hs : List AttributeHandle), fed ≠ 0 → hs.Nodup →
      service.preconditions c fed o hs = .ok () →
      Mirrors service fed o (service.transfer c fed o hs).1 hs
        (service.messages c fed tag o hs) := by
  intro claim
  have mirrors := claim .negotiateDivestiture disputedClass 2 "" disputedObject [4] (by decide)
    (by decide) (by decide +kernel)
  have told := mirrors.acquisition 4 (by decide)
  revert told
  decide +kernel

end Certi
