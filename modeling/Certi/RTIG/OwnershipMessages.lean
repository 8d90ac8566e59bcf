import Certi.Lib.Regroup
import Certi.Lib.Throwing
import Certi.LibCERTI.ClassBroadcast
import Certi.RTIG.OwnershipTurns

/-!
# The messages of the ownership services

`ObjectClass::sendToOwners`, `sendToFederate` and the second halves of the five
services that transfer attributes. While its loop goes on, a service writes the
handles into the attribute arrays of its answers, each with a counter of its
own, and pairs of federate and attribute into lists; what it did to each
attribute is read off the notes here, in their order. The messages go out when
the loop is over.
-/
namespace Certi

open Keyed Sweep Ownership Throwing Regroup

inductive OwnershipMessageKind where
  | acquisitionNotification | divestitureNotification | requestRelease | unavailable
  deriving DecidableEq, Repr

structure OwnershipMessage where
  kind : OwnershipMessageKind
  recipient : FederateHandle
  federate : FederateHandle
  object : ObjectHandle
  label : String
  attributes : List AttributeHandle
  deriving DecidableEq, Repr

/-- A program that sends messages; what was sent stays sent. -/
abbrev Sending := EStateM Stop (List OwnershipMessage)

/-- A failing link is caught and a closed one is skipped. -/
def sendToFederate (message : OwnershipMessage) : Sending Unit :=
  modify fun sent => sent ++ [message]

/-- The attribute array of an answer and the counter of what was written into it. -/
structure Draft where
  cells : List AttributeHandle
  count : Nat

namespace Draft

/-- `setAttributesSize(n)` on a new message. -/
def ofSize (n : Nat) : Draft := ⟨List.replicate n 0, 0⟩

/-- `setAttributes(h, counter++)`. The vector does not check the rank; the only array written
past its end has no cells at all, and no memory. -/
def add (d : Draft) (h : AttributeHandle) : Sending Draft :=
  if d.count < d.cells.length then pure ⟨d.cells.set d.count h, d.count + 1⟩
  else throw .nullDereference

/-- `setAttributesSize(counter)`. -/
def close (d : Draft) : List AttributeHandle := d.cells.take d.count

end Draft

/-- `sendToOwners`: one answer, sized for all pairs, is filled again for each federate. -/
def sendToOwners (kind : OwnershipMessageKind) (fed : FederateHandle) (object : ObjectHandle)
    (tag : String) (diffusion : List (FederateHandle × AttributeHandle)) : Sending Unit :=
  (Regroup.regroup 0 diffusion).forM fun group => do
    let answer ← group.2.foldlM Draft.add (Draft.ofSize diffusion.length)
    sendToFederate ⟨kind, group.1, fed, object, tag, answer.close⟩

/-- An answer to the requester, if anything was written into it. -/
def sendAnswer (kind : OwnershipMessageKind) (fed : FederateHandle) (object : ObjectHandle)
    (d : Draft) : Sending Unit :=
  if d.count ≠ 0 then sendToFederate ⟨kind, fed, fed, object, "", d.close⟩ else pure ()

def sendDiffusion (kind : OwnershipMessageKind) (fed : FederateHandle) (object : ObjectHandle)
    (tag : String) (diffusion : List (FederateHandle × AttributeHandle)) : Sending Unit :=
  if diffusion ≠ [] then sendToOwners kind fed object tag diffusion else pure ()

/-- What a service fills while its loop goes on. -/
structure Drafts where
  notification : Draft
  divestiture : Draft
  assumption : Draft
  unavailable : Draft
  diffusionAcquisition : List (FederateHandle × AttributeHandle)
  diffusionDivestiture : List (FederateHandle × AttributeHandle)
  diffusionRelease : List (FederateHandle × AttributeHandle)

/-- Every answer is given the size of the list, except the `AnswerDivestiture` of a
negotiated divestiture, which is sized when it is sent. -/
def Drafts.start (n : Nat) : Drafts :=
  { notification := Draft.ofSize n
    divestiture := Draft.ofSize 0
    assumption := Draft.ofSize n
    unavailable := Draft.ofSize n
    diffusionAcquisition := []
    diffusionDivestiture := []
    diffusionRelease := [] }

namespace OwnershipService

def write (service : OwnershipService) (d : Drafts) : OwnershipNote → Sending Drafts
  | .acquired newOwner h =>
    match service with
    | acquire | acquireIfAvailable => do
      return { d with notification := ← d.notification.add h }
    | negotiateDivestiture => do
      return { d with
        diffusionAcquisition := d.diffusionAcquisition ++ [(newOwner, h)]
        divestiture := ← d.divestiture.add h }
    | divest | respondRelease | cancelDivestiture | cancelAcquisition =>
      return { d with diffusionAcquisition := d.diffusionAcquisition ++ [(newOwner, h)] }
  | .divested oldOwner h =>
    return { d with diffusionDivestiture := d.diffusionDivestiture ++ [(oldOwner, h)] }
  | .offered h => do return { d with assumption := ← d.assumption.add h }
  | .unavailable h => do return { d with unavailable := ← d.unavailable.add h }
  | .releaseRequested owner h =>
    return { d with diffusionRelease := d.diffusionRelease ++ [(owner, h)] }
  | .cancelled _ => return d

/-- What is sent once the loop is over. The assumption of a negotiated divestiture is
broadcast through the RAV message of a list that has none, and the list of an unconditional
one refuses its message type. -/
def send (service : OwnershipService) (fed : FederateHandle) (object : ObjectHandle)
    (tag : String) (d : Drafts) : Sending Unit :=
  match service with
  | negotiateDivestiture => do
    sendDiffusion .acquisitionNotification fed object tag d.diffusionAcquisition
    sendAnswer .divestitureNotification fed object d.divestiture
    if d.assumption.count ≠ 0 then throw .nullDereference
  | acquireIfAvailable => do
    sendAnswer .acquisitionNotification fed object d.notification
    sendDiffusion .divestitureNotification fed object "" d.diffusionDivestiture
    sendAnswer .unavailable fed object d.unavailable
  | divest =>
    if d.assumption.count ≠ 0 then throw (.thrown .rtiInternalError)
    else sendDiffusion .acquisitionNotification fed object "" d.diffusionAcquisition
  | acquire => do
    sendAnswer .acquisitionNotification fed object d.notification
    sendDiffusion .divestitureNotification fed object "" d.diffusionDivestiture
    sendDiffusion .requestRelease fed object tag d.diffusionRelease
  | respondRelease =>
    sendDiffusion .acquisitionNotification fed object "" d.diffusionAcquisition
  | cancelDivestiture | cancelAcquisition => pure ()

/-- The attributes the loop comes to: that of a negotiated divestiture ends where it hands
the first one over. -/
def reached (service : OwnershipService) (o : Object) : List AttributeHandle → List AttributeHandle
  | [] => []
  | h :: rest =>
    if service = negotiateDivestiture ∧ (o.attribute? h).any (·.hasCandidates) then [h]
    else h :: reached service o rest

/-- The loop of a service, over the attributes it comes to. -/
def transfer (service : OwnershipService) (c : ObjectClass) (fed : FederateHandle) (o : Object)
    (hs : List AttributeHandle) : Transfer :=
  (sweep (service.step c fed) (o, []) (service.reached o hs)).1

def notify (service : OwnershipService) (fed : FederateHandle) (object : ObjectHandle)
    (tag : String) (n : Nat) (notes : List OwnershipNote) : Sending Unit := do
  let drafts ← notes.foldlM service.write (Drafts.start n)
  service.send fed object tag drafts

/-- The messages of an accepted request. -/
def messages (service : OwnershipService) (c : ObjectClass) (fed : FederateHandle) (tag : String)
    (o : Object) (hs : List AttributeHandle) : List OwnershipMessage :=
  final (service.notify fed o.handle tag hs.length (service.transfer c fed o hs).2 [])

end OwnershipService

/-! ## Drafts -/

namespace Draft

/-- The draft has been given `n` cells and holds `hs`. -/
structure Holds (d : Draft) (n : Nat) (hs : List AttributeHandle) : Prop where
  size : d.cells.length = n
  count : d.count = hs.length
  close : d.close = hs

theorem ofSize_holds (n : Nat) : (ofSize n).Holds n [] :=
  ⟨List.length_replicate, rfl, rfl⟩

variable {d : Draft} {n : Nat} {hs : List AttributeHandle}

theorem add_holds (holds : d.Holds n hs) (room : hs.length < n) (h : AttributeHandle)
    (s : List OwnershipMessage) :
    ∃ d', d.add h s = .ok d' s ∧ d'.Holds n (hs ++ [h]) := by
  have inside : d.count < d.cells.length := by
    rw [holds.count, holds.size]
    exact room
  refine ⟨⟨d.cells.set d.count h, d.count + 1⟩, ?_, ?_, ?_, ?_⟩
  · unfold add
    rw [if_pos inside]
    rfl
  · simp [holds.size]
  · simp [holds.count]
  · have front : d.cells.take d.count = hs := holds.close
    change (d.cells.set d.count h).take (d.count + 1) = _
    rw [List.take_succ, List.take_set_of_le (Nat.le_refl _), front,
      List.getElem?_set_self inside]
    rfl

theorem fill_holds (more : List AttributeHandle) (holds : d.Holds n hs)
    (room : hs.length + more.length ≤ n) (s : List OwnershipMessage) :
    ∃ d', more.foldlM add d s = .ok d' s ∧ d'.Holds n (hs ++ more) := by
  induction more generalizing d hs with
  | nil => exact ⟨d, rfl, by rw [List.append_nil]; exact holds⟩
  | cons h more ih =>
    rw [List.length_cons] at room
    obtain ⟨d', added, now⟩ := add_holds holds (by omega) h s
    have left : (hs ++ [h]).length + more.length ≤ n := by
      rw [List.length_append, List.length_singleton]
      omega
    obtain ⟨d'', filled, done⟩ := ih now left
    refine ⟨d'', ?_, ?_⟩
    · rw [List.foldlM_cons, bind_ok added]
      exact filled
    · rw [List.append_cons]
      exact done

end Draft

theorem sendToOwners_sends (kind : OwnershipMessageKind) (fed : FederateHandle)
    (object : ObjectHandle) (tag : String) (diffusion : List (FederateHandle × AttributeHandle))
    (s : List OwnershipMessage) :
    sendToOwners kind fed object tag diffusion s =
      .ok () (s ++ (regroup 0 diffusion).map fun group =>
        ⟨kind, group.1, fed, object, tag, group.2⟩) := by
  unfold sendToOwners
  have short : ∀ group ∈ regroup 0 diffusion, group.2.length ≤ diffusion.length :=
    fun group found => regroup_length found
  generalize regroup 0 diffusion = groups at short
  induction groups generalizing s with
  | nil => simp
  | cons group rest ih =>
    have room : ([] : List AttributeHandle).length + group.2.length ≤ diffusion.length := by
      rw [List.length_nil, Nat.zero_add]
      exact short group List.mem_cons_self
    obtain ⟨d, filled, done⟩ :=
      Draft.fill_holds group.2 (Draft.ofSize_holds diffusion.length) room s
    have sent : (do
        let answer ← group.2.foldlM Draft.add (Draft.ofSize diffusion.length)
        sendToFederate ⟨kind, group.1, fed, object, tag, answer.close⟩) s =
        .ok () (s ++ [⟨kind, group.1, fed, object, tag, group.2⟩]) := by
      rw [bind_ok filled, sendToFederate, done.close]
      rfl
    rw [List.forM_eq_forM, List.forM_cons, bind_ok sent, ← List.forM_eq_forM,
      ih _ fun group found => short group (List.mem_cons_of_mem _ found)]
    simp

/-- The answer to the requester with `hs` written into it. -/
def answer (kind : OwnershipMessageKind) (fed : FederateHandle) (object : ObjectHandle)
    (hs : List AttributeHandle) : List OwnershipMessage :=
  if hs = [] then [] else [⟨kind, fed, fed, object, "", hs⟩]

theorem sendAnswer_sends {d : Draft} {n : Nat} {hs : List AttributeHandle} (holds : d.Holds n hs)
    (kind : OwnershipMessageKind) (fed : FederateHandle) (object : ObjectHandle)
    (s : List OwnershipMessage) :
    sendAnswer kind fed object d s = .ok () (s ++ answer kind fed object hs) := by
  unfold sendAnswer answer
  rw [holds.count, holds.close]
  by_cases empty : hs = []
  · simp [empty]
  · have some : hs.length ≠ 0 := fun zero => empty (List.length_eq_zero_iff.mp zero)
    rw [if_pos some, if_neg empty]
    rfl

/-- The answers to the owners of a list of pairs. -/
def answers (kind : OwnershipMessageKind) (requester : FederateHandle) (object : ObjectHandle)
    (tag : String) (pairs : List (FederateHandle × AttributeHandle)) : List OwnershipMessage :=
  (regroup 0 pairs).map fun group => ⟨kind, group.1, requester, object, tag, group.2⟩

theorem sendDiffusion_sends (kind : OwnershipMessageKind) (fed : FederateHandle)
    (object : ObjectHandle) (tag : String) (diffusion : List (FederateHandle × AttributeHandle))
    (s : List OwnershipMessage) :
    sendDiffusion kind fed object tag diffusion s =
      .ok () (s ++ answers kind fed object tag diffusion) := by
  unfold sendDiffusion
  by_cases empty : diffusion = []
  · subst empty
    simp [answers, regroup, regroupFrom]
  · rw [if_pos empty]
    exact sendToOwners_sends kind fed object tag diffusion s

/-! ## What is written along the notes -/

namespace OwnershipNote

def gained : OwnershipNote → Option (FederateHandle × AttributeHandle)
  | acquired newOwner h => some (newOwner, h)
  | _ => none

def lost : OwnershipNote → Option (FederateHandle × AttributeHandle)
  | divested oldOwner h => some (oldOwner, h)
  | _ => none

def held : OwnershipNote → Option (FederateHandle × AttributeHandle)
  | releaseRequested owner h => some (owner, h)
  | _ => none

def offer : OwnershipNote → Option AttributeHandle
  | offered h => some h
  | _ => none

def missing : OwnershipNote → Option AttributeHandle
  | unavailable h => some h
  | _ => none

end OwnershipNote

namespace OwnershipService

/-- The two services by which the requester itself gets attributes. -/
def takes : OwnershipService → Bool
  | acquire | acquireIfAvailable => true
  | negotiateDivestiture | divest | respondRelease | cancelDivestiture | cancelAcquisition => false

/-- What the drafts hold after the notes. -/
structure Written (service : OwnershipService) (n : Nat) (notes : List OwnershipNote)
    (d : Drafts) : Prop where
  notification : d.notification.Holds n
    (if service.takes then (notes.filterMap OwnershipNote.gained).map Prod.snd else [])
  divestiture : d.divestiture.Holds 0 []
  assumption : d.assumption.Holds n (notes.filterMap OwnershipNote.offer)
  unavailable : d.unavailable.Holds n (notes.filterMap OwnershipNote.missing)
  acquisition : d.diffusionAcquisition =
    if service.takes then [] else notes.filterMap OwnershipNote.gained
  loss : d.diffusionDivestiture = notes.filterMap OwnershipNote.lost
  release : d.diffusionRelease = notes.filterMap OwnershipNote.held

theorem start_written (service : OwnershipService) (n : Nat) :
    service.Written n [] (Drafts.start n) := by
  constructor
  · cases service.takes <;> exact Draft.ofSize_holds n
  · exact Draft.ofSize_holds 0
  · exact Draft.ofSize_holds n
  · exact Draft.ofSize_holds n
  · cases service.takes <;> rfl
  · rfl
  · rfl

/-- The notes fit into the arrays. -/
structure Room (service : OwnershipService) (n : Nat) (notes : List OwnershipNote) : Prop where
  gained : service.takes = true → (notes.filterMap OwnershipNote.gained).length ≤ n
  offered : (notes.filterMap OwnershipNote.offer).length ≤ n
  missing : (notes.filterMap OwnershipNote.missing).length ≤ n

theorem Room.front {service : OwnershipService} {n : Nat} {front rest : List OwnershipNote}
    (room : service.Room n (front ++ rest)) : service.Room n front := by
  obtain ⟨gained, offered, missing⟩ := room
  rw [List.filterMap_append, List.length_append] at gained offered missing
  exact ⟨fun takes => by have := gained takes; omega, by omega, by omega⟩

variable {service : OwnershipService} {n : Nat} {notes : List OwnershipNote}

theorem write_written {d : Drafts} {note : OwnershipNote} (written : service.Written n notes d)
    (room : service.Room n (notes ++ [note]))
    (sized : service = .negotiateDivestiture → note.gained = none) (s : List OwnershipMessage) :
    ∃ d', service.write d note s = .ok d' s ∧ service.Written n (notes ++ [note]) d' := by
  obtain ⟨notification, divestiture, assumption, unavailable, acquisition, loss, release⟩ := written
  obtain ⟨gainedRoom, offeredRoom, missingRoom⟩ := room
  simp only [List.filterMap_append, List.length_append] at gainedRoom offeredRoom missingRoom
  cases note with
  | acquired newOwner h =>
    by_cases takes : service.takes = true
    · rw [if_pos takes] at notification
      have roomy := gainedRoom takes
      rw [if_pos takes] at acquisition
      obtain ⟨filled, added, holds⟩ := Draft.add_holds notification
        (by rw [List.length_map]; exact roomy) h s
      refine ⟨{ d with notification := filled }, ?_, ?_⟩
      · cases service with
        | acquire | acquireIfAvailable =>
          simp only [write]
          rw [bind_ok added]
          rfl
        | negotiateDivestiture | divest | respondRelease | cancelDivestiture
        | cancelAcquisition => cases takes
      · constructor <;>
          simpa [List.filterMap_cons, OwnershipNote.gained, OwnershipNote.lost, OwnershipNote.held,
            OwnershipNote.offer, OwnershipNote.missing, takes]
    · refine ⟨{ d with diffusionAcquisition := d.diffusionAcquisition ++ [(newOwner, h)] },
        ?_, ?_⟩
      · cases service with
        | acquire | acquireIfAvailable => exact absurd rfl takes
        | negotiateDivestiture => cases sized rfl
        | divest | respondRelease | cancelDivestiture | cancelAcquisition => rfl
      · rw [if_neg takes] at notification acquisition
        constructor <;>
          simpa [List.filterMap_cons, OwnershipNote.gained, OwnershipNote.lost, OwnershipNote.held,
            OwnershipNote.offer, OwnershipNote.missing, takes]
  | divested oldOwner h =>
    refine ⟨{ d with diffusionDivestiture := d.diffusionDivestiture ++ [(oldOwner, h)] }, rfl, ?_⟩
    constructor <;>
      simpa [List.filterMap_cons, OwnershipNote.gained, OwnershipNote.lost, OwnershipNote.held,
        OwnershipNote.offer, OwnershipNote.missing]
  | offered h =>
    obtain ⟨filled, added, holds⟩ := Draft.add_holds assumption offeredRoom h s
    refine ⟨{ d with assumption := filled }, ?_, ?_⟩
    · simp only [write]
      rw [bind_ok added]
      rfl
    · constructor <;>
        simpa [List.filterMap_cons, OwnershipNote.gained, OwnershipNote.lost, OwnershipNote.held,
          OwnershipNote.offer, OwnershipNote.missing]
  | unavailable h =>
    obtain ⟨filled, added, holds⟩ := Draft.add_holds unavailable missingRoom h s
    refine ⟨{ d with unavailable := filled }, ?_, ?_⟩
    · simp only [write]
      rw [bind_ok added]
      rfl
    · constructor <;>
        simpa [List.filterMap_cons, OwnershipNote.gained, OwnershipNote.lost, OwnershipNote.held,
          OwnershipNote.offer, OwnershipNote.missing]
  | releaseRequested owner h =>
    refine ⟨{ d with diffusionRelease := d.diffusionRelease ++ [(owner, h)] }, rfl, ?_⟩
    constructor <;>
      simpa [List.filterMap_cons, OwnershipNote.gained, OwnershipNote.lost, OwnershipNote.held,
        OwnershipNote.offer, OwnershipNote.missing]
  | cancelled h =>
    refine ⟨d, rfl, ?_⟩
    constructor <;>
      simpa [List.filterMap_cons, OwnershipNote.gained, OwnershipNote.lost, OwnershipNote.held,
        OwnershipNote.offer, OwnershipNote.missing]

theorem gather_written {d : Drafts} (rest : List OwnershipNote)
    (written : service.Written n notes d) (room : service.Room n (notes ++ rest))
    (sized : service = .negotiateDivestiture → ∀ note ∈ rest, note.gained = none)
    (s : List OwnershipMessage) :
    ∃ d', rest.foldlM service.write d s = .ok d' s ∧ service.Written n (notes ++ rest) d' := by
  induction rest generalizing notes d with
  | nil => exact ⟨d, rfl, by rw [List.append_nil]; exact written⟩
  | cons note rest ih =>
    rw [List.append_cons] at room ⊢
    obtain ⟨d', wrote, now⟩ := write_written written room.front
      (fun negotiated => sized negotiated note List.mem_cons_self) s
    obtain ⟨d'', gathered, done⟩ := ih now room
      (fun negotiated other later => sized negotiated other (List.mem_cons_of_mem note later))
    refine ⟨d'', ?_, done⟩
    rw [List.foldlM_cons, bind_ok wrote]
    exact gathered

/-- The first attribute that a negotiated divestiture hands over ends it. -/
theorem gather_stops {d : Drafts} (rest : List OwnershipNote)
    (written : negotiateDivestiture.Written n notes d)
    (room : negotiateDivestiture.Room n (notes ++ rest))
    (handed : ∃ note ∈ rest, note.gained ≠ none) (s : List OwnershipMessage) :
    rest.foldlM negotiateDivestiture.write d s = .error .nullDereference s := by
  induction rest generalizing notes d with
  | nil =>
    obtain ⟨note, impossible, -⟩ := handed
    exact absurd impossible List.not_mem_nil
  | cons note rest ih =>
    rw [List.append_cons] at room
    by_cases here : note.gained = none
    · obtain ⟨d', wrote, now⟩ := write_written written room.front (fun _ => here) s
      rw [List.foldlM_cons, bind_ok wrote]
      apply ih now room
      obtain ⟨other, listed, gains⟩ := handed
      rcases List.mem_cons.mp listed with same | later
      · exact absurd (same ▸ here) gains
      · exact ⟨other, later, gains⟩
    · cases note with
      | acquired newOwner h =>
        have full : ¬ d.divestiture.count < d.divestiture.cells.length := by
          rw [written.divestiture.size]
          exact Nat.not_lt_zero _
        have refused : d.divestiture.add h s = .error .nullDereference s := by
          unfold Draft.add
          rw [if_neg full]
          rfl
        rw [List.foldlM_cons]
        apply bind_error
        simp only [write]
        exact bind_error refused
      | divested oldOwner h | offered h | unavailable h | releaseRequested owner h
      | cancelled h => exact absurd rfl here

end OwnershipService

end Certi
