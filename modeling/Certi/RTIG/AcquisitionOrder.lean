import Certi.RTIG.OwnershipTurns

/-!
# Who gets an attribute that is given up

The candidates of an attribute are kept in a `std::set` of federate handles, and
`getFirstCandidate` takes the first one: the federate with the lowest handle. The
comments at each transfer speak of the most recent request. `pendingAfter` keeps
the requests themselves, the most recent first, along the history of one
attribute; the two agree on the histories in which the most recent request is
also the lowest handle's.
-/
namespace Certi

open Keyed Sweep Ownership

/-! ## The history of one attribute -/

/-- One attribute's turn in the loop of a service. -/
structure Turn where
  service : OwnershipService
  fed : FederateHandle
  before : ObjectAttribute
  after : ObjectAttribute

/-- A request, with the class of the object as it is at that time. -/
structure OwnershipCall where
  objectClass : ObjectClass
  service : OwnershipService
  fed : FederateHandle
  attributes : List AttributeHandle

namespace OwnershipCall

/-- The turn of attribute `h` in a step of the loop, where it is the attribute's. -/
def turn (call : OwnershipCall) (h a : AttributeHandle) (o o' : Object) : List Turn :=
  match o.attribute? h, o'.attribute? h with
  | some oa, some oa' => if a = h then [⟨call.service, call.fed, oa, oa'⟩] else []
  | _, _ => []

/-- A negotiated divestiture ends the process where it hands an attribute over: it writes to
the attribute array of a message that has none. -/
def breaksOff (call : OwnershipCall) (a : AttributeHandle) (o : Object) : Bool :=
  call.service = .negotiateDivestiture && (o.attribute? a).any (·.hasCandidates)

/-- The turns of attribute `h` in a loop. -/
def turnsFrom (call : OwnershipCall) (h : AttributeHandle) :
    Transfer → List AttributeHandle → List Turn
  | _, [] => []
  | t, a :: rest =>
    match call.service.step call.objectClass call.fed t a with
    | .error _ => []
    | .ok next =>
      call.turn h a t.1 next.1 ++
        if call.breaksOff a t.1 then [] else call.turnsFrom h next rest

def accepted (call : OwnershipCall) (o : Object) : Bool :=
  (call.service.preconditions call.objectClass call.fed o call.attributes).isOk

def turns (call : OwnershipCall) (h : AttributeHandle) (o : Object) : List Turn :=
  if call.accepted o then call.turnsFrom h (o, []) call.attributes else []

def after (call : OwnershipCall) (o : Object) : Object :=
  (call.service.perform call.fed call.attributes call.objectClass o).1.1

/-- An accepted negotiated divestiture does not get past its messages either. -/
def survives (call : OwnershipCall) (o : Object) : Bool :=
  !(call.service = .negotiateDivestiture && call.accepted o &&
    (call.attributes ≠ [] || call.objectClass.superClass ≠ 0))

end OwnershipCall

/-- The turns of attribute `h` along a sequence of requests. -/
def history (h : AttributeHandle) : Object → List OwnershipCall → List Turn
  | _, [] => []
  | o, call :: rest =>
    call.turns h o ++ if call.survives o then history h (call.after o) rest else []

/-- The turns follow from one another: each starts where the one before it ended. -/
def Follow : ObjectAttribute → List Turn → ObjectAttribute → Prop
  | oa, [], oa' => oa = oa'
  | oa, turn :: rest, oa' =>
    turn.before = oa ∧ turn.service.deed turn.fed oa = some turn.after ∧
      Follow turn.after rest oa'

theorem Follow.append {first second : List Turn} {oa ob oc : ObjectAttribute}
    (one : Follow oa first ob) (two : Follow ob second oc) : Follow oa (first ++ second) oc := by
  induction first generalizing oa with
  | nil =>
    cases one
    exact two
  | cons turn rest ih =>
    obtain ⟨start, done, later⟩ := one
    exact ⟨start, done, ih later⟩

theorem turnsFrom_follow (call : OwnershipCall) {h : AttributeHandle} {t : Transfer}
    {hs : List AttributeHandle} {oa : ObjectAttribute} (found : t.1.attribute? h = some oa) :
    ∃ oa', Follow oa (call.turnsFrom h t hs) oa' ∧
      (call.service ≠ .negotiateDivestiture ∨ hs = [] →
        (sweep (call.service.step call.objectClass call.fed) t hs).1.1.attribute? h =
          some oa') := by
  induction hs generalizing t oa with
  | nil => exact ⟨oa, rfl, fun _ => found⟩
  | cons a rest ih =>
    unfold OwnershipCall.turnsFrom
    cases taken : call.service.step call.objectClass call.fed t a with
    | error e =>
      rw [sweep_cons_error rest taken]
      exact ⟨oa, rfl, fun _ => found⟩
    | ok next =>
      rw [sweep_cons_ok rest taken]
      dsimp only
      obtain ⟨ob, oc, foundA, done, named, stored, -⟩ := step_turns taken
      have now : ∃ od, next.1.attribute? h = some od ∧
          Follow oa (call.turn h a t.1 next.1) od := by
        by_cases here : a = h
        · subst here
          cases foundA.symm.trans found
          have kept : next.1.attribute? a = some oc := by
            rw [stored a, if_pos named.symm, foundA, Option.map_some]
          refine ⟨oc, kept, ?_⟩
          simp only [OwnershipCall.turn, found, kept, if_pos]
          exact ⟨rfl, done, rfl⟩
        · have kept : next.1.attribute? h = some oa := by
            rw [stored h, if_neg (fun same => here (named.symm.trans same.symm)), found]
          refine ⟨oa, kept, ?_⟩
          simp only [OwnershipCall.turn, found, kept, if_neg here]
          rfl
      obtain ⟨od, kept, turn⟩ := now
      by_cases broken : call.breaksOff a t.1 = true
      · rw [if_pos broken, List.append_nil]
        refine ⟨od, turn, fun whole => ?_⟩
        simp [OwnershipCall.breaksOff] at broken
        rcases whole with other | none
        · exact absurd broken.1 other
        · cases none
      · rw [if_neg broken]
        obtain ⟨oe, later, last⟩ := ih kept
        refine ⟨oe, turn.append later, fun whole => last (.inl ?_)⟩
        rcases whole with other | none
        · exact other
        · cases none

/-- The history of an attribute is a chain of deeds that starts at the attribute. -/
theorem history_follow {h : AttributeHandle} {o : Object} {oa : ObjectAttribute}
    (found : o.attribute? h = some oa) (calls : List OwnershipCall) :
    ∃ oa', Follow oa (history h o calls) oa' := by
  induction calls generalizing o oa with
  | nil => exact ⟨oa, rfl⟩
  | cons call rest ih =>
    have now : ∃ ob, Follow oa (call.turns h o) ob ∧
        (call.survives o = true → (call.after o).attribute? h = some ob) := by
      unfold OwnershipCall.turns OwnershipCall.after
      rw [call.service.perform_transfer]
      cases checked : call.service.preconditions call.objectClass call.fed o call.attributes with
      | error e =>
        have refused : call.accepted o = false := by
          simp [OwnershipCall.accepted, checked, Except.isOk, Except.toBool]
        rw [refused]
        exact ⟨oa, rfl, fun _ => found⟩
      | ok u =>
        have accepted : call.accepted o = true := by
          simp [OwnershipCall.accepted, checked, Except.isOk, Except.toBool]
        have start : Object.attribute? (o, ([] : List OwnershipNote)).1 h = some oa := found
        obtain ⟨ob, chain, last⟩ := turnsFrom_follow call start
        rw [if_pos accepted]
        refine ⟨ob, chain, fun survives => last ?_⟩
        by_cases negotiated : call.service = .negotiateDivestiture
        · refine .inr ?_
          simp [OwnershipCall.survives, negotiated, accepted] at survives
          exact survives.1
        · exact .inl negotiated
    obtain ⟨ob, chain, last⟩ := now
    unfold history
    by_cases survives : call.survives o = true
    · rw [if_pos survives]
      obtain ⟨oc, later⟩ := ih (last survives)
      exact ⟨oc, chain.append later⟩
    · rw [if_neg survives, List.append_nil]
      exact ⟨ob, chain⟩

/-! ## Requests, the most recent first -/

namespace Turn

/-- The federates whose acquisition request is pending after the turn. A request for an
attribute that is free or offered is granted at once; one that is made again is the most
recent again; an owner that gives the attribute up serves the first. -/
def pendingAfter (turn : Turn) (pending : List FederateHandle) : List FederateHandle :=
  match turn.service with
  | .acquire =>
    if obtainable turn.before then pending.erase turn.fed
    else turn.fed :: pending.erase turn.fed
  | .cancelAcquisition => pending.erase turn.fed
  | .acquireIfAvailable | .cancelDivestiture => pending
  | .negotiateDivestiture | .divest | .respondRelease => pending.tail

/-- What is due to the federates at a turn. -/
structure Honours (turn : Turn) (pending : List FederateHandle) : Prop where
  mostRecent : turn.service.givesUp = true → ∀ fed ∈ pending.head?,
    turn.after.owner = fed ∧ fed ∉ turn.after.candidates
  nobody : turn.service.givesUp = true → pending = [] →
    turn.after.owner = turn.before.owner ∨ turn.after.owner = 0
  notPending : turn.service = .acquireIfAvailable → turn.fed ∉ turn.after.candidates

/-- Where the container's order and its contents do no harm. -/
structure Fits (turn : Turn) (pending : List FederateHandle) : Prop where
  lowest : turn.service.givesUp = true → ∀ fed ∈ pending.head?, ∀ other ∈ pending, fed ≤ other
  available : turn.service = .acquireIfAvailable →
    obtainable turn.before = true ∧ turn.fed ∉ pending

instance (turn : Turn) (pending : List FederateHandle) : Decidable (turn.Honours pending) :=
  decidable_of_iff
    ((turn.service.givesUp = true → ∀ fed ∈ pending.head?,
        turn.after.owner = fed ∧ fed ∉ turn.after.candidates) ∧
      (turn.service.givesUp = true → pending = [] →
        turn.after.owner = turn.before.owner ∨ turn.after.owner = 0) ∧
      (turn.service = .acquireIfAvailable → turn.fed ∉ turn.after.candidates))
    ⟨fun ⟨recent, nobody, outside⟩ => ⟨recent, nobody, outside⟩,
      fun ⟨recent, nobody, outside⟩ => ⟨recent, nobody, outside⟩⟩

instance (turn : Turn) (pending : List FederateHandle) : Decidable (turn.Fits pending) :=
  decidable_of_iff
    ((turn.service.givesUp = true → ∀ fed ∈ pending.head?, ∀ other ∈ pending, fed ≤ other) ∧
      (turn.service = .acquireIfAvailable → obtainable turn.before = true ∧ turn.fed ∉ pending))
    ⟨fun ⟨lowest, available⟩ => ⟨lowest, available⟩, fun ⟨lowest, available⟩ => ⟨lowest, available⟩⟩

/-- A request of `fed` begins to be pending. -/
def asks (fed : FederateHandle) (turn : Turn) (pending : List FederateHandle) : Bool :=
  turn.service = .acquire && !obtainable turn.before && turn.fed = fed && fed ∉ pending

/-- The attribute is given up to `fed`. -/
def serves (fed : FederateHandle) (turn : Turn) : Bool :=
  turn.service.givesUp && turn.before.hasCandidates && turn.after.owner = fed

end Turn

/-- `p` holds at each turn of a history, with the requests pending then. -/
def Throughout (p : Turn → List FederateHandle → Prop) : List FederateHandle → List Turn → Prop
  | _, [] => True
  | pending, turn :: rest => p turn pending ∧ Throughout p (turn.pendingAfter pending) rest

instance Throughout.decidable (p : Turn → List FederateHandle → Prop)
    [∀ turn pending, Decidable (p turn pending)] :
    (pending : List FederateHandle) → (turns : List Turn) → Decidable (Throughout p pending turns)
  | _, [] => .isTrue trivial
  | pending, turn :: rest =>
    have := Throughout.decidable p (turn.pendingAfter pending) rest
    inferInstanceAs (Decidable (p turn pending ∧ Throughout p (turn.pendingAfter pending) rest))

def timesAsked (fed : FederateHandle) : List FederateHandle → List Turn → Nat
  | _, [] => 0
  | pending, turn :: rest =>
    (if turn.asks fed pending then 1 else 0) + timesAsked fed (turn.pendingAfter pending) rest

def timesServed (fed : FederateHandle) (turns : List Turn) : Nat := turns.countP (Turn.serves fed)

/-- Each turn honours the requests, and nobody is served more often than it asked. -/
def AcquisitionOrder (turns : List Turn) : Prop :=
  Throughout Turn.Honours [] turns ∧ ∀ fed, timesServed fed turns ≤ timesAsked fed [] turns

/-- The candidates are the federates with a pending request. -/
structure Tracks (oa : ObjectAttribute) (pending : List FederateHandle) : Prop where
  candidates : ∀ fed, fed ∈ oa.candidates ↔ fed ∈ pending
  once : pending.Nodup

namespace Tracks

variable {oa : ObjectAttribute} {pending : List FederateHandle} {turn : Turn}

theorem nobody_first (tracks : Tracks oa []) : oa.firstCandidate = none := by
  rw [ObjectAttribute.firstCandidate_eq_none, Finset.eq_empty_iff_forall_notMem]
  intro fed candidate
  exact List.not_mem_nil ((tracks.candidates fed).mp candidate)

/-- Somebody is handed the attribute: the lowest handle of those with a pending request. -/
theorem first_lowest {fed : FederateHandle} {rest : List FederateHandle}
    (tracks : Tracks oa (fed :: rest)) :
    ∃ lowest, oa.firstCandidate = some lowest ∧ lowest ∈ fed :: rest ∧
      ∀ other ∈ fed :: rest, lowest ≤ other := by
  have nonempty : oa.candidates.Nonempty :=
    ⟨fed, (tracks.candidates fed).mpr List.mem_cons_self⟩
  refine ⟨oa.candidates.min' nonempty, dif_pos nonempty,
    (tracks.candidates _).mp (Finset.min'_mem _ _), fun other waiting => ?_⟩
  exact Finset.min'_le _ _ ((tracks.candidates other).mpr waiting)

end Tracks

namespace Turn

variable {turn : Turn} {pending : List FederateHandle}

theorem pendingAfter_gaveUp (gives : turn.service.givesUp = true) :
    turn.pendingAfter pending = pending.tail := by
  obtain ⟨service, asker, before, after⟩ := turn
  cases service with
  | negotiateDivestiture | divest | respondRelease => rfl
  | acquireIfAvailable | acquire | cancelDivestiture | cancelAcquisition => cases gives

/-- The attribute goes to the lowest handle: whether this is the most recent request decides. -/
theorem honours_iff_fits (tracks : Tracks turn.before pending)
    (done : turn.service.deed turn.fed turn.before = some turn.after) :
    turn.Honours pending ↔ turn.Fits pending := by
  constructor
  · intro honours
    constructor
    · intro gives fed head other waiting
      cases pending with
      | nil => cases head
      | cons first rest =>
        cases head
        obtain ⟨lowest, handedTo, -, least⟩ := tracks.first_lowest
        have given := (honours.mostRecent gives fed rfl).1
        rw [OwnershipService.deed_handed done gives handedTo] at given
        change lowest = fed at given
        rw [← given]
        exact least other waiting
    · intro ifAvailable
      have outside := honours.notPending ifAvailable
      rw [ifAvailable] at done
      by_cases free : obtainable turn.before = true
      · simp only [OwnershipService.deed, if_pos free, Option.some.injEq] at done
        rw [← done] at outside
        exact ⟨free, fun waiting => outside ((tracks.candidates _).mpr waiting)⟩
      · simp only [OwnershipService.deed, if_neg free, Option.some.injEq] at done
        rw [← done] at outside
        exact absurd (Finset.mem_insert_self _ _) outside
  · intro fits
    constructor
    · intro gives fed head
      cases pending with
      | nil => cases head
      | cons first rest =>
        cases head
        obtain ⟨lowest, handedTo, waiting, least⟩ := tracks.first_lowest
        have same : lowest = fed :=
          Nat.le_antisymm (least fed List.mem_cons_self)
            (fits.lowest gives fed rfl lowest waiting)
        rw [OwnershipService.deed_handed done gives handedTo, same]
        exact ⟨rfl, Finset.notMem_erase _ _⟩
    · intro gives none
      subst none
      exact (OwnershipService.deed_unclaimed done gives tracks.nobody_first).2
    · intro ifAvailable
      obtain ⟨free, outside⟩ := fits.available ifAvailable
      rw [ifAvailable] at done
      simp only [OwnershipService.deed, if_pos free, Option.some.injEq] at done
      rw [← done]
      exact fun candidate => outside ((tracks.candidates _).mp candidate)

/-- On a history that fits, the container holds what is pending. -/
theorem tracks_after (tracks : Tracks turn.before pending)
    (done : turn.service.deed turn.fed turn.before = some turn.after)
    (fits : turn.Fits pending) : Tracks turn.after (turn.pendingAfter pending) := by
  by_cases gives : turn.service.givesUp = true
  · rw [pendingAfter_gaveUp gives]
    cases pending with
    | nil =>
      obtain ⟨same, -⟩ := OwnershipService.deed_unclaimed done gives tracks.nobody_first
      refine ⟨fun fed => ?_, List.nodup_nil⟩
      rw [same]
      exact tracks.candidates fed
    | cons first rest =>
      obtain ⟨lowest, handedTo, waiting, least⟩ := tracks.first_lowest
      have same : lowest = first :=
        Nat.le_antisymm (least first List.mem_cons_self)
          (fits.lowest gives first rfl lowest waiting)
      have fresh : first ∉ rest := (List.nodup_cons.mp tracks.once).1
      refine ⟨fun fed => ?_, (List.nodup_cons.mp tracks.once).2⟩
      rw [OwnershipService.deed_handed done gives handedTo, same]
      change fed ∈ turn.before.candidates.erase first ↔ fed ∈ rest
      rw [Finset.mem_erase, tracks.candidates, List.mem_cons]
      constructor
      · rintro ⟨other, here | later⟩
        · exact absurd here other
        · exact later
      · intro later
        exact ⟨fun here => fresh (here ▸ later), .inr later⟩
  · obtain ⟨service, asker, before, after⟩ := turn
    cases service with
    | negotiateDivestiture | divest | respondRelease => exact absurd rfl gives
    | acquire =>
      by_cases free : obtainable before = true
      · simp only [OwnershipService.deed, if_pos free, Option.some.injEq] at done
        subst done
        simp only [pendingAfter, if_pos free]
        refine ⟨fun fed => ?_, tracks.once.erase asker⟩
        change fed ∈ before.candidates.erase asker ↔ _
        rw [Finset.mem_erase, tracks.once.mem_erase_iff, tracks.candidates]
      · simp only [OwnershipService.deed, if_neg free, Option.some.injEq] at done
        subst done
        simp only [pendingAfter, if_neg free]
        refine ⟨fun fed => ?_, List.nodup_cons.mpr ⟨?_, tracks.once.erase asker⟩⟩
        · change fed ∈ insert asker (before.candidates.erase asker) ↔ _
          rw [Finset.mem_insert, Finset.mem_erase, List.mem_cons, tracks.once.mem_erase_iff,
            tracks.candidates]
        · rw [tracks.once.mem_erase_iff]
          exact fun still => still.1 rfl
    | acquireIfAvailable =>
      obtain ⟨free, -⟩ := fits.available rfl
      simp only [OwnershipService.deed, if_pos free, Option.some.injEq] at done
      subst done
      exact ⟨tracks.candidates, tracks.once⟩
    | cancelDivestiture =>
      simp only [OwnershipService.deed, Option.some.injEq] at done
      subst done
      exact ⟨tracks.candidates, tracks.once⟩
    | cancelAcquisition =>
      simp only [OwnershipService.deed, Option.some.injEq] at done
      subst done
      refine ⟨fun fed => ?_, tracks.once.erase asker⟩
      change fed ∈ before.candidates.erase asker ↔ _
      rw [Finset.mem_erase]
      simp only [pendingAfter]
      rw [tracks.once.mem_erase_iff, tracks.candidates]

/-- Only a pending request is served, and it is no longer pending then. -/
theorem served_was_pending {fed : FederateHandle} (tracks : Tracks turn.before pending)
    (done : turn.service.deed turn.fed turn.before = some turn.after)
    (fits : turn.Fits pending) (served : turn.serves fed = true) :
    fed ∈ pending ∧ fed ∉ turn.pendingAfter pending := by
  simp only [serves, Bool.and_eq_true, decide_eq_true_eq, ObjectAttribute.hasCandidates] at served
  obtain ⟨⟨gives, wanted⟩, owner⟩ := served
  rw [pendingAfter_gaveUp gives]
  cases pending with
  | nil =>
    obtain ⟨candidate, among⟩ := wanted
    exact absurd ((tracks.candidates candidate).mp among) List.not_mem_nil
  | cons first rest =>
    have given := (((honours_iff_fits tracks done).mpr fits).mostRecent gives first rfl).1
    have same : first = fed := given.symm.trans owner
    rw [← same]
    exact ⟨List.mem_cons_self, (List.nodup_cons.mp tracks.once).1⟩

/-- A request becomes pending only by asking. -/
theorem pending_was_asked {fed : FederateHandle} (later : fed ∈ turn.pendingAfter pending) :
    fed ∈ pending ∨ turn.asks fed pending = true := by
  by_cases waiting : fed ∈ pending
  · exact .inl waiting
  refine .inr ?_
  obtain ⟨service, asker, before, after⟩ := turn
  cases service with
  | negotiateDivestiture | divest | respondRelease =>
    exact absurd (List.mem_of_mem_tail later) waiting
  | acquireIfAvailable | cancelDivestiture => exact absurd later waiting
  | cancelAcquisition => exact absurd (List.mem_of_mem_erase later) waiting
  | acquire =>
    by_cases free : obtainable before = true
    · simp only [pendingAfter, if_pos free] at later
      exact absurd (List.mem_of_mem_erase later) waiting
    · simp only [pendingAfter, if_neg free] at later
      rcases List.mem_cons.mp later with same | older
      · simp [asks, free, same.symm, waiting]
      · exact absurd (List.mem_of_mem_erase older) waiting

end Turn

/-! ## Whole histories -/

theorem throughout_iff {oa oa' : ObjectAttribute} {turns : List Turn}
    {pending : List FederateHandle} (chain : Follow oa turns oa') (tracks : Tracks oa pending) :
    Throughout Turn.Honours pending turns ↔ Throughout Turn.Fits pending turns := by
  induction turns generalizing oa pending with
  | nil => exact Iff.rfl
  | cons turn rest ih =>
    obtain ⟨start, done, later⟩ := chain
    subst start
    have step := Turn.honours_iff_fits tracks done
    constructor
    · rintro ⟨honours, after⟩
      have fits := step.mp honours
      exact ⟨fits, (ih later (Turn.tracks_after tracks done fits)).mp after⟩
    · rintro ⟨fits, after⟩
      exact ⟨step.mpr fits, (ih later (Turn.tracks_after tracks done fits)).mpr after⟩

/-- Every service to a federate uses up a request of it, now pending or made later. -/
theorem served_le_asked {oa oa' : ObjectAttribute} {turns : List Turn}
    {pending : List FederateHandle} (fed : FederateHandle) (chain : Follow oa turns oa')
    (tracks : Tracks oa pending) (fits : Throughout Turn.Fits pending turns) :
    timesServed fed turns ≤ timesAsked fed pending turns + if fed ∈ pending then 1 else 0 := by
  induction turns generalizing oa pending with
  | nil => exact Nat.zero_le _
  | cons turn rest ih =>
    obtain ⟨start, done, later⟩ := chain
    subst start
    have rests := ih later (Turn.tracks_after tracks done fits.1) fits.2
    have asked : fed ∈ turn.pendingAfter pending → fed ∈ pending ∨ turn.asks fed pending = true :=
      Turn.pending_was_asked
    have used : turn.serves fed = true → fed ∈ pending ∧ fed ∉ turn.pendingAfter pending :=
      Turn.served_was_pending tracks done fits.1
    unfold timesServed at rests ⊢
    rw [List.countP_cons, timesAsked]
    by_cases served : turn.serves fed = true
    · obtain ⟨waiting, gone⟩ := used served
      rw [if_neg gone] at rests
      rw [if_pos served, if_pos waiting]
      omega
    · rw [if_neg served]
      by_cases still : fed ∈ turn.pendingAfter pending
      · rw [if_pos still] at rests
        rcases asked still with waiting | asks
        · rw [if_pos waiting]
          omega
        · rw [if_pos asks]
          omega
      · rw [if_neg still] at rests
        omega

/-- Whatever the federates request of an attribute that nobody has asked for yet: its history
is in order exactly when the most recent request is the lowest handle's at each giving up and
each if-available request finds the attribute free or offered. -/
theorem acquisition_order_iff {h : AttributeHandle} {o : Object} {oa : ObjectAttribute}
    (found : o.attribute? h = some oa) (fresh : oa.candidates = ∅) (calls : List OwnershipCall) :
    AcquisitionOrder (history h o calls) ↔ Throughout Turn.Fits [] (history h o calls) := by
  obtain ⟨oa', chain⟩ := history_follow found calls
  have tracks : Tracks oa [] := by
    refine ⟨fun fed => ?_, List.nodup_nil⟩
    rw [fresh]
    simp
  constructor
  · intro order
    exact (throughout_iff chain tracks).mp order.1
  · intro fits
    refine ⟨(throughout_iff chain tracks).mpr fits, fun fed => ?_⟩
    have bound := served_le_asked fed chain tracks fits
    rw [if_neg List.not_mem_nil] at bound
    exact bound

/-- Four federates publish attribute 2 of an object of federate 1. -/
def sharedClass : ObjectClass := ⟨1, 0, 0, [⟨2, "x", 0, {1, 2, 3, 4}, []⟩], 0⟩

def sharedObject : Object := ⟨1, "shared", 1, 1, [⟨2, 1, false, ∅, none⟩]⟩

def sharedCall (service : OwnershipService) (fed : FederateHandle) : OwnershipCall :=
  ⟨sharedClass, service, fed, [2]⟩

theorem acquisition_order_lowest_last :
    AcquisitionOrder (history 2 sharedObject
      [sharedCall .acquire 4, sharedCall .acquire 3, sharedCall .acquire 2,
        sharedCall .cancelAcquisition 4, sharedCall .respondRelease 1, sharedCall .divest 2,
        sharedCall .divest 3, sharedCall .acquireIfAvailable 4]) :=
  have found : sharedObject.attribute? 2 = some ⟨2, 1, false, ∅, none⟩ := rfl
  (acquisition_order_iff found rfl _).mpr (by decide +kernel)

/-- Federate 2 asks, then federate 3; the owner releases the attribute to federate 2. -/
theorem acquisition_order_fails :
    ¬ ∀ (h : AttributeHandle) (o : Object) (oa : ObjectAttribute) (calls : List OwnershipCall),
      o.attribute? h = some oa → oa.candidates = ∅ → AcquisitionOrder (history h o calls) := by
  intro claim
  have order := claim 2 sharedObject ⟨2, 1, false, ∅, none⟩
    [sharedCall .acquire 2, sharedCall .acquire 3, sharedCall .respondRelease 1] rfl rfl
  exact absurd order.1 (by decide +kernel)

end Certi
