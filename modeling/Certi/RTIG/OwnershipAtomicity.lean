import Certi.RTIG.OwnershipRuns
import Certi.RTIG.OwnershipTurns

/-!
# Ownership services that throw

A service that refuses a request has changed nothing: every check comes before
the first change. Two of the services can still throw afterwards. An
unconditional divestiture that leaves an attribute free builds a broadcast list
for a message type its constructor does not accept, and a release response asks
for the first of no candidates when an attribute is listed more often than it
has candidates.
-/
namespace Certi

open Keyed Sweep Ownership

/-! ## Which steps succeed -/

theorem checkAttributes_defined {c : ObjectClass} {hs : List AttributeHandle}
    {h : AttributeHandle} {u : Unit} (checked : c.checkAttributes hs = .ok u) (listed : h ∈ hs) :
    ∃ oca, c.attribute? h = some oca := by
  unfold ObjectClass.checkAttributes at checked
  split at checked
  · rename_i every
    exact Option.isSome_iff_exists.mp (List.all_eq_true.mp every h listed)
  · cases checked

/-- What the preconditions have looked up is there. -/
theorem OwnershipService.preconditions_found {service : OwnershipService} {c : ObjectClass}
    {fed : FederateHandle} {o : Object} {hs : List AttributeHandle} {h : AttributeHandle}
    (accepted : service.preconditions c fed o hs = .ok ()) (listed : h ∈ hs) :
    (∃ oa, o.attribute? h = some oa) ∧
      (service ≠ .cancelDivestiture → ∃ oca, c.attribute? h = some oca) := by
  cases service with
  | negotiateDivestiture =>
    obtain ⟨_, defined, checks⟩ := bind_success accepted
    obtain ⟨oca, -, check⟩ := bind_success (forM_success checks h listed)
    obtain ⟨oa, found, -⟩ := bind_success check
    exact ⟨⟨oa, Object.getAttribute_ok.mp found⟩, fun _ => checkAttributes_defined defined listed⟩
  | acquireIfAvailable =>
    obtain ⟨_, defined, checks⟩ := bind_success accepted
    dsimp only at checks
    split at checks
    · cases checks
    obtain ⟨oca, -, check⟩ := bind_success (forM_success checks h listed)
    obtain ⟨oa, found, -⟩ := bind_success check
    exact ⟨⟨oa, Object.getAttribute_ok.mp found⟩, fun _ => checkAttributes_defined defined listed⟩
  | divest =>
    obtain ⟨_, defined, checks⟩ := bind_success accepted
    obtain ⟨oa, found, -⟩ := bind_success (forM_success checks h listed)
    exact ⟨⟨oa, Object.getAttribute_ok.mp found⟩, fun _ => checkAttributes_defined defined listed⟩
  | acquire =>
    obtain ⟨_, checks, -⟩ := bind_success accepted
    obtain ⟨oca, defined, check⟩ := bind_success (forM_success checks h listed)
    obtain ⟨oa, found, -⟩ := bind_success check
    exact ⟨⟨oa, Object.getAttribute_ok.mp found⟩,
      fun _ => ⟨oca, ObjectClass.getAttribute_ok defined⟩⟩
  | cancelDivestiture =>
    obtain ⟨oa, found, -⟩ := bind_success (forM_success accepted h listed)
    exact ⟨⟨oa, Object.getAttribute_ok.mp found⟩, fun other => absurd rfl other⟩
  | respondRelease =>
    obtain ⟨_, defined, checks⟩ := bind_success accepted
    obtain ⟨oa, found, -⟩ := bind_success (forM_success checks h listed)
    exact ⟨⟨oa, Object.getAttribute_ok.mp found⟩, fun _ => checkAttributes_defined defined listed⟩
  | cancelAcquisition =>
    obtain ⟨_, defined, checks⟩ := bind_success accepted
    obtain ⟨oa, found, -⟩ := bind_success (forM_success checks h listed)
    exact ⟨⟨oa, Object.getAttribute_ok.mp found⟩, fun _ => checkAttributes_defined defined listed⟩

/-- Only a release response asks an attribute for more than being there. -/
theorem OwnershipService.step_total (service : OwnershipService) {c : ObjectClass}
    (fed : FederateHandle) {t : Transfer} {h : AttributeHandle} {oa : ObjectAttribute}
    (found : t.1.attribute? h = some oa)
    (defined : service ≠ .cancelDivestiture → ∃ oca, c.attribute? h = some oca)
    (wanted : service = .respondRelease → oa.firstCandidate ≠ none) :
    ∃ next, service.step c fed t h = .ok next := by
  have located : t.1.getAttribute h = .ok oa := Object.getAttribute_ok.mpr found
  by_cases classless : service = .cancelDivestiture
  · subst classless
    simp [OwnershipService.step, cancelNegotiatedStep, located, bind, Except.bind, pure,
      Except.pure]
  obtain ⟨oca, known⟩ := defined classless
  have looked : c.getAttribute h = .ok oca := by
    unfold ObjectClass.getAttribute
    rw [known]
  cases service with
  | negotiateDivestiture =>
    cases first : oa.firstCandidate <;>
      simp [OwnershipService.step, negotiatedStep, located, looked, first, bind, Except.bind,
        pure, Except.pure]
  | acquireIfAvailable =>
    by_cases free : obtainable oa = true <;>
      simp [OwnershipService.step, acquisitionIfAvailableStep, located, looked, free, bind,
        Except.bind, pure, Except.pure]
  | divest =>
    cases first : oa.firstCandidate <;>
      simp [OwnershipService.step, unconditionalStep, located, looked, first, bind, Except.bind,
        pure, Except.pure]
  | acquire =>
    by_cases free : obtainable oa = true <;>
      simp [OwnershipService.step, acquisitionStep, located, looked, free, bind, Except.bind,
        pure, Except.pure]
  | cancelDivestiture => exact absurd rfl classless
  | respondRelease =>
    cases first : oa.firstCandidate with
    | some newOwner =>
      simp [OwnershipService.step, releaseResponseStep, located, looked, first, bind,
        Except.bind, pure, Except.pure]
    | none => exact absurd first (wanted rfl)
  | cancelAcquisition =>
    simp [OwnershipService.step, cancelAcquisitionStep, located, bind, Except.bind, pure,
      Except.pure]

/-- No attribute gets lost in a turn. -/
theorem Turns.kept {service : OwnershipService} {fed : FederateHandle} {a h : AttributeHandle}
    {t t' : Transfer} (turn : Turns service fed a t t')
    (found : ∃ oa, t.1.attribute? h = some oa) : ∃ oa, t'.1.attribute? h = some oa := by
  obtain ⟨oa, next, -, -, -, stored, -⟩ := turn
  obtain ⟨ob, located⟩ := found
  rw [stored h, located]
  by_cases same : h = next.handle
  · exact ⟨next, by rw [if_pos same, Option.map_some]⟩
  · exact ⟨ob, by rw [if_neg same]⟩

/-! ## Attributes listed more often than they are wanted -/

def Object.candidatesOf (o : Object) (h : AttributeHandle) : Finset FederateHandle :=
  match o.attribute? h with
  | some oa => oa.candidates
  | none => ∅

/-- Each attribute is listed at most as often as it has candidates. -/
def Covered (o : Object) (hs : List AttributeHandle) : Prop :=
  ∀ h ∈ hs, hs.count h ≤ (o.candidatesOf h).card

instance (o : Object) (hs : List AttributeHandle) : Decidable (Covered o hs) :=
  inferInstanceAs (Decidable (∀ h ∈ hs, hs.count h ≤ (o.candidatesOf h).card))

theorem covered_nil (o : Object) : Covered o [] := fun _ listed => absurd listed List.not_mem_nil

theorem not_covered {o : Object} {h : AttributeHandle} {oa : ObjectAttribute}
    (found : o.attribute? h = some oa) (nobody : oa.firstCandidate = none)
    (rest : List AttributeHandle) : ¬ Covered o (h :: rest) := by
  intro covered
  have bound := covered h List.mem_cons_self
  rw [Object.candidatesOf, found] at bound
  simp only [ObjectAttribute.firstCandidate_eq_none.mp nobody, Finset.card_empty,
    List.count_cons_self] at bound
  omega

/-- A turn that hands the attribute over uses one of its candidates up. -/
theorem covered_cons {o o' : Object} {h : AttributeHandle} {oa : ObjectAttribute}
    {newOwner : FederateHandle} (found : o.attribute? h = some oa)
    (first : oa.firstCandidate = some newOwner) (stored : Stored (handOver oa newOwner) o o')
    (rest : List AttributeHandle) : Covered o (h :: rest) ↔ Covered o' rest := by
  have same : oa.handle = h := Object.attribute?_handle found
  have named : (handOver oa newOwner).handle = h := same
  have there : (o.candidatesOf h).card = (o'.candidatesOf h).card + 1 := by
    have now : o'.attribute? h = some (handOver oa newOwner) := by
      rw [stored h, if_pos named.symm, found, Option.map_some]
    rw [Object.candidatesOf, Object.candidatesOf, found, now]
    exact (Finset.card_erase_add_one (ObjectAttribute.firstCandidate_mem first)).symm
  have elsewhere : ∀ a, a ≠ h → o'.candidatesOf a = o.candidatesOf a := by
    intro a other
    have now : o'.attribute? a = o.attribute? a := by
      rw [stored a, if_neg (fun same => other (same.trans named))]
    rw [Object.candidatesOf, Object.candidatesOf, now]
  constructor
  · intro covered a listed
    have bound := covered a (List.mem_cons_of_mem h listed)
    by_cases same : a = h
    · subst same
      rw [List.count_cons_self] at bound
      omega
    · rw [List.count_cons_of_ne (Ne.symm same)] at bound
      rw [elsewhere a same]
      exact bound
  · intro covered a listed
    by_cases same : a = h
    · subst same
      rw [List.count_cons_self]
      by_cases again : a ∈ rest
      · have bound := covered a again
        omega
      · rw [List.count_eq_zero_of_not_mem again]
        omega
    · rw [List.count_cons_of_ne (Ne.symm same), ← elsewhere a same]
      exact covered a ((List.mem_cons.mp listed).resolve_left same)

/-! ## Which loops succeed -/

section loops

variable (service : OwnershipService) {c : ObjectClass} (fed : FederateHandle) {t : Transfer}
  {hs : List AttributeHandle}

theorem loop_total (other : service ≠ .respondRelease)
    (defined : ∀ h ∈ hs, service ≠ .cancelDivestiture → ∃ oca, c.attribute? h = some oca)
    (found : ∀ h ∈ hs, ∃ oa, t.1.attribute? h = some oa) :
    (sweep (service.step c fed) t hs).2 = none := by
  refine sweep_no_error (p := fun t : Transfer => ∀ h ∈ hs, ∃ oa, t.1.attribute? h = some oa)
    (fun t a listed found => ?_) found
  obtain ⟨oa, located⟩ := found a listed
  obtain ⟨next, taken⟩ := service.step_total fed located (defined a listed)
    (fun release => absurd release other)
  exact ⟨next, taken, fun h member => (step_turns taken).kept (found h member)⟩

/-- The loop of a release response gets through the lists that are covered. -/
theorem release_total_iff (defined : ∀ h ∈ hs, ∃ oca, c.attribute? h = some oca)
    (found : ∀ h ∈ hs, ∃ oa, t.1.attribute? h = some oa) :
    (sweep (OwnershipService.respondRelease.step c fed) t hs).2 = none ↔ Covered t.1 hs := by
  induction hs generalizing t with
  | nil => exact ⟨fun _ => covered_nil t.1, fun _ => rfl⟩
  | cons a rest ih =>
    obtain ⟨oa, located⟩ := found a List.mem_cons_self
    cases taken : OwnershipService.respondRelease.step c fed t a with
    | error e =>
      rw [sweep_cons_error rest taken]
      have nobody : oa.firstCandidate = none := by
        by_contra wanted
        obtain ⟨next, done⟩ := OwnershipService.respondRelease.step_total fed located
          (fun _ => defined a List.mem_cons_self) (fun _ => wanted)
        cases taken.symm.trans done
      exact ⟨fun fine => (Option.some_ne_none e fine).elim,
        fun covered => absurd covered (not_covered located nobody rest)⟩
    | ok next =>
      rw [sweep_cons_ok rest taken]
      have turn := step_turns taken
      rw [ih (fun h listed => defined h (List.mem_cons_of_mem a listed))
        (fun h listed => turn.kept (found h (List.mem_cons_of_mem a listed)))]
      obtain ⟨ob, oc, there, done, -, stored, -⟩ := turn
      cases located.symm.trans there
      cases first : oa.firstCandidate with
      | none => simp [OwnershipService.deed, first] at done
      | some newOwner =>
        simp only [OwnershipService.deed, first, Option.map_some, Option.some.injEq] at done
        subst done
        exact (covered_cons located first stored rest).symm

/-- Something is noted as offered. -/
def Offers (notes : List OwnershipNote) : Bool := notes.any (fun n => n matches .offered _)

theorem offers_append {notes more : List OwnershipNote} :
    Offers (notes ++ more) = (Offers notes || Offers more) := List.any_append

theorem sweep_offers (hs : List AttributeHandle) (before : Offers t.2 = true) :
    Offers (sweep (service.step c fed) t hs).1.2 = true := by
  refine sweep_invariant (p := fun t : Transfer => Offers t.2 = true)
    (fun t a next _ holds taken => ?_) before
  obtain ⟨oa, after, -, -, -, -, told⟩ := step_turns taken
  rw [told, offers_append, holds, Bool.true_or]

theorem divest_offers_iff (defined : ∀ h ∈ hs, ∃ oca, c.attribute? h = some oca)
    (found : ∀ h ∈ hs, ∃ oa, t.1.attribute? h = some oa) (none : Offers t.2 = false) :
    Offers (sweep (OwnershipService.divest.step c fed) t hs).1.2 = false ↔ Covered t.1 hs := by
  induction hs generalizing t with
  | nil => exact ⟨fun _ => covered_nil t.1, fun _ => none⟩
  | cons a rest ih =>
    obtain ⟨oa, located⟩ := found a List.mem_cons_self
    obtain ⟨next, taken⟩ := OwnershipService.divest.step_total fed located
      (fun _ => defined a List.mem_cons_self) (fun release => by cases release)
    rw [sweep_cons_ok rest taken]
    have kept : ∀ h ∈ rest, ∃ oa, next.1.attribute? h = some oa := fun h listed =>
      (step_turns taken).kept (found h (List.mem_cons_of_mem a listed))
    obtain ⟨ob, oc, there, done, -, stored, told⟩ := step_turns taken
    cases located.symm.trans there
    cases first : oa.firstCandidate with
    | none =>
      have offered : Offers next.2 = true := by
        rw [told, offers_append]
        simp [OwnershipService.noted, first, Offers]
      have still := sweep_offers .divest (c := c) fed rest offered
      constructor
      · intro absent
        rw [still] at absent
        cases absent
      · intro covered
        exact absurd covered (not_covered located first rest)
    | some newOwner =>
      have quiet : Offers next.2 = false := by
        rw [told, offers_append, none]
        simp [OwnershipService.noted, first, Offers]
      rw [ih (fun h listed => defined h (List.mem_cons_of_mem a listed)) kept quiet]
      simp only [OwnershipService.deed, first, Option.some.injEq] at done
      subst done
      exact (covered_cons located first stored rest).symm

end loops

/-! ## Which services throw -/

theorem OwnershipService.perform_refused {service : OwnershipService} {c : ObjectClass}
    {fed : FederateHandle} {o : Object} {hs : List AttributeHandle} {e : RTIException}
    (refused : service.preconditions c fed o hs = .error e) :
    (service.perform fed hs c o).1 = (o, []) ∧ (service.perform fed hs c o).2 = some e := by
  cases service with
  | divest =>
    simp only [preconditions] at refused
    simp [perform, unconditionalAttributeOwnershipDivestiture, serve, refused]
  | negotiateDivestiture | acquireIfAvailable | acquire | cancelDivestiture | respondRelease
  | cancelAcquisition =>
    simp only [preconditions] at refused
    simp [perform, negotiatedAttributeOwnershipDivestiture,
      attributeOwnershipAcquisitionIfAvailable, attributeOwnershipAcquisition,
      cancelNegotiatedAttributeOwnershipDivestiture, attributeOwnershipReleaseResponse,
      cancelAttributeOwnershipAcquisition, serve, refused]

/-- The two services that can throw although they have accepted the request. -/
def OwnershipService.consumes : OwnershipService → Bool
  | divest | respondRelease => true
  | negotiateDivestiture | acquireIfAvailable | acquire | cancelDivestiture
  | cancelAcquisition => false

theorem serve_ok {pre : Except RTIException Unit} (accepted : pre = .ok ())
    (step : Transfer → AttributeHandle → Except RTIException Transfer) (o : Object)
    (hs : List AttributeHandle) : serve pre step o hs = sweep step (o, []) hs := by
  unfold serve
  rw [accepted]

theorem unconditional_error {c : ObjectClass} {fed : FederateHandle} {o : Object}
    {hs : List AttributeHandle}
    (swept : (serve (unconditionalPreconditions c fed o hs) (unconditionalStep c) o hs).2 = none) :
    (unconditionalAttributeOwnershipDivestiture c fed o hs).2 =
      if Offers (serve (unconditionalPreconditions c fed o hs) (unconditionalStep c) o hs).1.2 then
        some .rtiInternalError
      else none := by
  unfold unconditionalAttributeOwnershipDivestiture
  split
  · rename_i outcome
    rw [outcome] at swept
    cases swept
  · rename_i outcome
    rw [outcome]
    rfl

theorem OwnershipService.perform_accepted {service : OwnershipService} {c : ObjectClass}
    {fed : FederateHandle} {o : Object} {hs : List AttributeHandle}
    (accepted : service.preconditions c fed o hs = .ok ()) :
    (service.perform fed hs c o).2 = none ↔ (service.consumes = true → Covered o hs) := by
  have found : ∀ h ∈ hs, ∃ oa, (o, ([] : List OwnershipNote)).1.attribute? h = some oa :=
    fun h listed => (preconditions_found accepted listed).1
  have defined : ∀ h ∈ hs, service ≠ .cancelDivestiture → ∃ oca, c.attribute? h = some oca :=
    fun h listed => (preconditions_found accepted listed).2
  have served := serve_ok accepted (service.step c fed) o hs
  cases service with
  | divest =>
    have swept := loop_total _ fed (by decide) defined found
    have offers := divest_offers_iff fed
      (fun h listed => defined h listed (by decide)) found rfl
    rw [← served] at swept offers
    have ended := unconditional_error swept
    change (OwnershipService.divest.perform fed hs c o).2 = _ at ended
    simp only [preconditions, step] at offers
    rw [ended]
    constructor
    · intro quiet _
      refine offers.mp ?_
      by_contra offering
      rw [Bool.not_eq_false] at offering
      rw [if_pos offering] at quiet
      cases quiet
    · intro covered
      rw [offers.mpr (covered rfl)]
      rfl
  | respondRelease =>
    have swept := release_total_iff fed
      (fun h listed => defined h listed (by decide)) found
    rw [← served] at swept
    exact swept.trans ⟨fun covered _ => covered, fun covered => covered rfl⟩
  | negotiateDivestiture | acquireIfAvailable | acquire | cancelDivestiture
  | cancelAcquisition =>
    have swept := loop_total _ fed (by decide) defined found
    rw [← served] at swept
    exact ⟨fun _ consumes => (by cases consumes), fun _ => swept⟩

/-! ## In a federation -/

/-- The owner of an object and, for every attribute, the owner, the flag and the candidates. -/
def Object.ownership (o : Object) :
    FederateHandle × List (AttributeHandle × FederateHandle × Bool × Finset FederateHandle) :=
  (o.owner, o.attributes.map fun oa => (oa.handle, oa.owner, oa.divesting, oa.candidates))

def SameOwnership (root root' : RootObject) : Prop :=
  ∀ object, (root'.object? object).map Object.ownership =
    (root.object? object).map Object.ownership

namespace Federation

/-- Federate, object and class are known and every listed attribute passes the checks. -/
def Accepts (f : Federation) (service : OwnershipService) (fed : FederateHandle)
    (object : ObjectHandle) (hs : List AttributeHandle) : Prop :=
  f.check fed = true ∧ ∃ o ∈ f.root.object? object, ∃ c ∈ f.root.class? o.classHandle,
    service.preconditions c fed o hs = .ok ()

instance (f : Federation) (service : OwnershipService) (fed : FederateHandle)
    (object : ObjectHandle) (hs : List AttributeHandle) :
    Decidable (f.Accepts service fed object hs) := by
  unfold Accepts
  infer_instance

/-- An exception means that nothing has changed, and what the checks accept does not throw. -/
structure Atomic (f : Federation) (service : OwnershipService) (fed : FederateHandle)
    (object : ObjectHandle) (hs : List AttributeHandle) : Prop where
  unchanged : (f.ownership service fed object hs).error ≠ none →
    SameOwnership f.root (f.ownership service fed object hs).state.root
  accepted : f.Accepts service fed object hs → (f.ownership service fed object hs).error = none

variable {f : Federation} {service : OwnershipService} {fed : FederateHandle}
  {object : ObjectHandle} {hs : List AttributeHandle}

theorem setObject_same {root : RootObject} {o : Object} (found : root.object? object = some o) :
    SameOwnership root (root.setObject o) := by
  intro k
  have named : o.handle = object := lookup_key found
  unfold RootObject.setObject RootObject.object? replace
  rw [lookup_adjust (fun _ _ => rfl)]
  cases located : lookup Object.handle k root.objects with
  | none => rfl
  | some other =>
    have same : other.handle = k := lookup_key located
    rw [Option.map_some, same]
    by_cases here : k = o.handle
    · have known : some o = some other := by
        rw [← found, ← located, here, named]
        rfl
      cases known
      rw [if_pos here]
    · rw [if_neg here]

/-- A request the checks accept comes to the loop and what follows it. -/
theorem ownership_accepted {o : Object} {c : ObjectClass} (member : f.check fed = true)
    (found : f.root.object? object = some o) (known : f.root.class? o.classHandle = some c) :
    (f.ownership service fed object hs).error = (service.perform fed hs c o).2 ∧
      (f.ownership service fed object hs).state.root =
        f.root.setObject (service.perform fed hs c o).1.1 := by
  unfold ownership asMember RootObject.ownershipService
  rw [if_pos member, found]
  dsimp only
  rw [known]
  exact ⟨rfl, rfl⟩

theorem ownership_refused (refused : ¬ f.Accepts service fed object hs) :
    (f.ownership service fed object hs).error ≠ none ∧
      SameOwnership f.root (f.ownership service fed object hs).state.root := by
  by_cases member : f.check fed = true
  · cases found : f.root.object? object with
    | none =>
      unfold ownership asMember RootObject.ownershipService
      rw [if_pos member, found]
      exact ⟨Option.some_ne_none _, fun _ => rfl⟩
    | some o =>
      cases known : f.root.class? o.classHandle with
      | none =>
        unfold ownership asMember RootObject.ownershipService
        rw [if_pos member, found]
        dsimp only
        rw [known]
        exact ⟨Option.some_ne_none _, fun _ => rfl⟩
      | some c =>
        obtain ⟨error, root⟩ :=
          ownership_accepted member found known
        cases checked : service.preconditions c fed o hs with
        | ok u => exact absurd ⟨member, o, found, c, known, checked⟩ refused
        | error e =>
          obtain ⟨kept, thrown⟩ := OwnershipService.perform_refused checked
          rw [error, root, kept, thrown]
          exact ⟨Option.some_ne_none e, setObject_same found⟩
  · unfold ownership asMember
    rw [if_neg member]
    exact ⟨Option.some_ne_none _, fun _ => rfl⟩

/-- For every state, federate, object and list: the service is atomic exactly when an accepted
unconditional divestiture or release response lists no attribute more often than it has
candidates. -/
theorem atomic_iff (f : Federation) (service : OwnershipService) (fed : FederateHandle)
    (object : ObjectHandle) (hs : List AttributeHandle) :
    f.Atomic service fed object hs ↔
      (f.Accepts service fed object hs → service.consumes = true →
        ∀ o ∈ f.root.object? object, Covered o hs) := by
  by_cases accepts : f.Accepts service fed object hs
  · obtain ⟨member, o, found, c, known, checked⟩ := accepts
    obtain ⟨error, -⟩ := ownership_accepted member found known
    have thrown := OwnershipService.perform_accepted checked
    rw [← error] at thrown
    constructor
    · intro atomic accepts consumes ob located
      cases found.symm.trans located
      exact thrown.mp (atomic.accepted accepts) consumes
    · intro covered
      have quiet : (f.ownership service fed object hs).error = none :=
        thrown.mpr fun consumes =>
          covered ⟨member, o, found, c, known, checked⟩ consumes o found
      exact ⟨fun throws => absurd quiet throws, fun _ => quiet⟩
  · obtain ⟨-, same⟩ := ownership_refused accepts
    exact ⟨fun _ accepted => absurd accepted accepts,
      fun _ => ⟨fun _ => same, fun accepted => absurd accepted accepts⟩⟩

/-- An attribute that nobody wants, given up unconditionally. -/
theorem atomic_fails :
    ¬ ∀ (fom : Fom) (withMom haveXml : Bool) (events : List Event) (service : OwnershipService)
      (fed : FederateHandle) (object : ObjectHandle) (hs : List AttributeHandle),
      (rtig.exec (Federation.create fom withMom haveXml) events).Atomic service fed object hs := by
  intro claim
  have atomic := claim smallFom false true twoPublishers .divest 1 1 [2]
  have accepts : (rtig.exec (Federation.create smallFom false true) twoPublishers).Accepts
      .divest 1 1 [2] := by decide +kernel
  exact absurd (atomic.accepted accepts) (by decide +kernel)

end Federation

end Certi
