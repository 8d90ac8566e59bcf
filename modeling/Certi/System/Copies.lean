import Certi.LibCERTI.Records
import Certi.RTIG.Frames
import Certi.RTIG.HandleHygiene

/-!
# The RTIA's copy of a federate's declarations

`RTIA/DeclarationManagement.cc` and `RTIA/DataDistribution.cc`. Each service
first updates the RTIA's own root object, which has no security server, then
asks the RTIG and hands on the exception of the answer. Nothing takes the local
update back: the copies stay equal exactly as long as both carry a service out
in full, or neither changes anything by it.
-/
namespace Certi

/-- The root object of an RTIA and the federation its federate has joined. The RTIA makes its
root object without a security server, so every access of its federate is granted. -/
structure Copies (fed : FederateHandle) where
  rootObject : RootObject
  noServer : ∀ level, rootObject.server.canFederateAccessData fed level = true
  federation : Federation

/-- The RTIG's side of the services. -/
def Federation.declaration (f : Federation) (fed : FederateHandle) :
    DeclarationService → Outcome Federation
  | .publishObjectClass c hs => f.perform (.publishObject fed c hs true)
  | .unpublishObjectClass c => f.perform (.publishObject fed c [] false)
  | .publishInteractionClass i => f.perform (.publishInteraction fed i true)
  | .unpublishInteractionClass i => f.perform (.publishInteraction fed i false)
  | .subscribeInteractionClass i => f.perform (.subscribeInteraction fed i true)
  | .unsubscribeInteractionClass i => f.perform (.subscribeInteraction fed i false)
  | .associateRegion object region hs => f.perform (.associateRegion fed object region hs)
  | .unassociateRegion object region => f.memberOnRoot fed (·.unassociate object region)

theorem Federation.declaration_eq (f : Federation) (fed : FederateHandle)
    (service : DeclarationService) :
    f.declaration fed service = f.memberOnRoot fed (·.declare fed service) := by
  cases service <;> rfl

namespace Copies

variable {fed : FederateHandle} (s : Copies fed)

/-- The local update; what it throws is thrown on, before the RTIG is asked. Then the request,
whose exception is all that is kept of the answer. -/
def request (service : DeclarationService) : Copies fed × Option RTIException :=
  let updated := s.rootObject.declare fed service
  let locally : Copies fed :=
    { rootObject := updated.state
      noServer := by
        rw [(s.rootObject.declare_fixed fed service).1]
        exact s.noServer
      federation := s.federation }
  match updated.error with
  | some e => (locally, some e)
  | none =>
    let answered := s.federation.declaration fed service
    ({ locally with federation := answered.state }, answered.error)

end Copies

namespace DeclarationManagement

variable {fed : FederateHandle} (s : Copies fed)

def publishObjectClass (c : ObjectClassHandle) (hs : List AttributeHandle) :
    Copies fed × Option RTIException :=
  s.request (.publishObjectClass c hs)

def unpublishObjectClass (c : ObjectClassHandle) : Copies fed × Option RTIException :=
  s.request (.unpublishObjectClass c)

def publishInteractionClass (i : InteractionClassHandle) : Copies fed × Option RTIException :=
  s.request (.publishInteractionClass i)

def unpublishInteractionClass (i : InteractionClassHandle) : Copies fed × Option RTIException :=
  s.request (.unpublishInteractionClass i)

def subscribeInteractionClass (i : InteractionClassHandle) : Copies fed × Option RTIException :=
  s.request (.subscribeInteractionClass i)

def unsubscribeInteractionClass (i : InteractionClassHandle) : Copies fed × Option RTIException :=
  s.request (.unsubscribeInteractionClass i)

end DeclarationManagement

namespace DataDistribution

variable {fed : FederateHandle} (s : Copies fed)

def associateRegion (object : ObjectHandle) (region : RegionHandle) (hs : List AttributeHandle) :
    Copies fed × Option RTIException :=
  s.request (.associateRegion object region hs)

def unassociateRegion (object : ObjectHandle) (region : RegionHandle) :
    Copies fed × Option RTIException :=
  s.request (.unassociateRegion object region)

end DataDistribution

open DeclarationManagement DataDistribution in
/-- One RTIA, its services one after another. -/
def declaring (fed : FederateHandle) :
    Runs.Machine (Copies fed) DeclarationService (Option RTIException) := fun s service =>
  match service with
  | .publishObjectClass c hs => publishObjectClass s c hs
  | .unpublishObjectClass c => unpublishObjectClass s c
  | .publishInteractionClass i => publishInteractionClass s i
  | .unpublishInteractionClass i => unpublishInteractionClass s i
  | .subscribeInteractionClass i => subscribeInteractionClass s i
  | .unsubscribeInteractionClass i => unsubscribeInteractionClass s i
  | .associateRegion object region hs => associateRegion s object region hs
  | .unassociateRegion object region => unassociateRegion s object region

namespace Copies

variable {fed : FederateHandle} {s : Copies fed} {service : DeclarationService}

theorem declaring_eq : declaring fed s service = s.request service := by
  cases service <;> rfl

/-- The regions of the federate: an RTIA knows no others. -/
def own (s : Copies fed) (region : RegionHandle) : Bool := (s.rootObject.region? region).isSome

/-- Both root objects record the same of the federate. -/
def Agree (s : Copies fed) : Prop :=
  s.rootObject.recordedFor fed s.own = s.federation.root.recordedFor fed s.own

/-- Both carry the service out in full. -/
def BothPerform (s : Copies fed) (service : DeclarationService) : Prop :=
  s.rootObject.carriedOut fed service = service ∧
    s.federation.check fed = true ∧ s.federation.root.rejects fed service = false ∧
    s.federation.root.carriedOut fed service = service

/-- The RTIA throws halfway, or the RTIG refuses the request before it records anything. -/
def Withheld (s : Copies fed) (service : DeclarationService) : Prop :=
  s.rootObject.carriedOut fed service ≠ service ∨ s.federation.check fed = false ∨
    s.federation.root.rejects fed service = true

/-- The RTIA rejects the service outright, both perform it, or the RTIG performs nothing of it
and the RTIA nothing that is not on record. -/
def Settles (s : Copies fed) (service : DeclarationService) : Prop :=
  s.rootObject.rejects fed service = true ∨ s.BothPerform service ∨
    (s.Withheld service ∧ (s.rootObject.recordedFor fed s.own).Holds
      (s.rootObject.carriedOut fed service))

/-! ## One service -/

theorem request_own : (s.request service).1.own = s.own := by
  have regions := (s.rootObject.declare_fixed fed service).2
  funext region
  unfold request own RootObject.region?
  dsimp only
  split <;> simp only [regions]

theorem request_rootObject :
    (s.request service).1.rootObject = (s.rootObject.declare fed service).state := by
  unfold request
  dsimp only
  split <;> rfl

/-- The RTIG is not asked when the local update throws. -/
theorem request_thrown (thrown : (s.rootObject.declare fed service).error ≠ none) :
    (s.request service).1.federation = s.federation := by
  unfold request
  dsimp only
  split
  · rfl
  · rename_i silent
    exact absurd silent thrown

theorem request_asked (silent : (s.rootObject.declare fed service).error = none) :
    (s.request service).1.federation = (s.federation.declaration fed service).state := by
  unfold request
  dsimp only
  split
  · rename_i e thrown
    rw [silent] at thrown
    cases thrown
  · rfl

/-- What is not rejected names a region of the federate. -/
theorem uses_own (accepted : s.rootObject.rejects fed service = false) : service.Uses s.own := by
  cases service with
  | associateRegion object region hs =>
    have known : ((s.rootObject.region? region).isSome &&
        (s.rootObject.object? object).isSome) = true := by
      simpa only [RootObject.rejects, Bool.not_eq_false'] using accepted
    exact (Bool.and_eq_true_iff.mp known).1
  | unassociateRegion object region =>
    have known : ((s.rootObject.region? region).isSome &&
        (s.rootObject.object? object).isSome) = true := by
      simpa only [RootObject.rejects, Bool.not_eq_false'] using accepted
    exact (Bool.and_eq_true_iff.mp known).1
  | _ => trivial

/-- What the RTIG records when it is asked. -/
theorem declaration_recorded (uses : service.Uses s.own) :
    (s.federation.declaration fed service).state.root.recordedFor fed s.own =
      if s.federation.check fed = true ∧ s.federation.root.rejects fed service = false then
        (s.federation.root.recordedFor fed s.own).perform
          (s.federation.root.carriedOut fed service)
      else s.federation.root.recordedFor fed s.own := by
  rw [Federation.declaration_eq, Federation.memberOnRoot, Federation.asMember]
  by_cases member : s.federation.check fed = true
  · cases refused : s.federation.root.rejects fed service with
    | true =>
      have kept := RootObject.declare_rejected s.own refused
      simpa [member, Federation.onRoot] using kept.1
    | false =>
      have carried := RootObject.declare_carriedOut uses refused
      simpa [member, Federation.onRoot] using carried.1
  · simp [member, Outcome.refused]

/-- The copies agree after a service exactly if it settles. -/
theorem agree_request_iff (agree : s.Agree) :
    (s.request service).1.Agree ↔ s.Settles service := by
  unfold Agree
  rw [request_own, request_rootObject]
  cases rejected : s.rootObject.rejects fed service with
  | true =>
    obtain ⟨kept, thrown⟩ := RootObject.declare_rejected s.own rejected
    rw [request_thrown thrown, kept]
    exact ⟨fun _ => .inl rejected, fun _ => agree⟩
  | false =>
    have uses := uses_own rejected
    obtain ⟨carried, whole⟩ := RootObject.declare_carriedOut uses rejected
    rw [carried]
    by_cases complete : s.rootObject.carriedOut fed service = service
    · rw [request_asked (whole.mpr complete), declaration_recorded uses, ← agree, complete]
      by_cases performs : s.federation.check fed = true ∧
          s.federation.root.rejects fed service = false
      · rw [if_pos performs, eq_comm, RootObject.perform_carriedOut_iff]
        simp [Settles, BothPerform, Withheld, rejected, complete, performs]
      · rw [if_neg performs, Recorded.perform_eq_self]
        have withheld : s.Withheld service := by
          cases member : s.federation.check fed with
          | false => exact .inr (.inl member)
          | true =>
            cases refused : s.federation.root.rejects fed service with
            | true => exact .inr (.inr refused)
            | false => exact absurd ⟨member, refused⟩ performs
        have notBoth : ¬ s.BothPerform service := fun both => performs ⟨both.2.1, both.2.2.1⟩
        simp [Settles, rejected, notBoth, withheld, complete]
    · have thrown := mt whole.mp complete
      rw [request_thrown thrown, ← agree, Recorded.perform_eq_self]
      simp [Settles, BothPerform, Withheld, rejected, complete]

/-! ## Runs -/

/-- Right after a join: the RTIA has made its root object from the FOM of the federation. -/
def joined (fom : Fom) (f : Federation) (fed : FederateHandle) : Copies fed where
  rootObject :=
    { (Federation.create fom false true).root with server := ⟨some fed, [], []⟩ }
  noServer level := by simp [SecurityServer.canFederateAccessData]
  federation := f

/-- A federate that has declared nothing starts with equal copies. -/
theorem joined_agree (fom : Fom) {f : Federation} (undeclared : f.root.DeclaredBy (· ≠ fed)) :
    (joined fom f fed).Agree := by
  have silent := create_declaredBy fom false true (· ≠ fed)
  have locally : (joined fom f fed).rootObject.DeclaredBy (· ≠ fed) :=
    ⟨silent.classes, silent.interactions⟩
  have none_own : ∀ region, (joined fom f fed).own region = false := fun _ => rfl
  exact (RootObject.recordedFor_undeclared locally none_own).trans
    (RootObject.recordedFor_undeclared undeclared none_own).symm

/-- The copies agree all through a run exactly if each of its services settles. -/
theorem agree_throughout_iff (s : Copies fed) (start : s.Agree)
    (services : List DeclarationService) :
    (∀ before, before <+: services → ((declaring fed).exec s before).Agree) ↔
      (declaring fed).Meets Settles s services := by
  refine (declaring fed).throughout_iff_meets (fun s service agree => ?_) start services
  rw [declaring_eq]
  exact agree_request_iff agree

/-- One federate in a federation without classified data: it publishes an attribute. -/
theorem agree_published :
    ((declaring 1).exec (joined smallFom
      (rtig.exec (Federation.create smallFom false true) [joinAs "a"]) 1)
      [.publishObjectClass 1 [2]]).Agree := by
  have undeclared : (rtig.exec (Federation.create smallFom false true)
      [joinAs "a"]).root.DeclaredBy (· ≠ 1) := by decide
  refine (agree_throughout_iff _ (joined_agree smallFom undeclared) [.publishObjectClass 1 [2]]).mpr ?_ _
    (List.prefix_refl _)
  exact ⟨.inr (.inl ⟨by decide, by decide, by decide, by decide⟩), trivial⟩

/-- An interaction above the public level. -/
def classifiedFom : Fom :=
  { classes := []
    interactions := [⟨0, [], 5⟩]
    spaces := []
    superClasses := by decide
    superInteractions := by decide }

/-- The RTIG refuses an interaction to a federate of the public level; the RTIA has already
published it. -/
theorem agree_fails :
    ¬ ∀ (fed : FederateHandle) (s : Copies fed), s.Agree → ∀ services before,
      before <+: services → ((declaring fed).exec s before).Agree := by
  intro claim
  let start : Copies 1 := joined classifiedFom
    (rtig.exec (Federation.create classifiedFom false true) [joinAs "a"]) 1
  have after := claim 1 start (joined_agree classifiedFom (by decide))
    [.publishInteractionClass 1] [.publishInteractionClass 1] (List.prefix_refl _)
  have read := congrFun (congrArg Recorded.publishesInteraction after) 1
  revert read
  decide

end Copies

end Certi
