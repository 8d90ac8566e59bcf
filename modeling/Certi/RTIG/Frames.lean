import Certi.LibCERTI.Instances
import Certi.RTIG.Run

/-!
# What the services of a federation leave alone

Each group of services owns a part of the state: time management, the
synchronization points, saving, the root object. A service of one group leaves
everything else as it was, which is stated by erasing the group's part on both
sides.
-/
namespace Certi

open Keyed Sweep

def Federate.timeless (fed : Federate) : Federate :=
  { fed with isConstrained := false, isRegulator := false }

def Federate.unlabelled (fed : Federate) : Federate := { fed with syncLabels := ∅ }

def Federate.unsaved (fed : Federate) : Federate := { fed with isSaving := false }

namespace Federation

variable {f f' : Federation} {h : FederateHandle}

/-! ## A federation without one of its parts -/

/-- Without regulators and constraints. -/
def timeless (f : Federation) : Federation :=
  { f with federates := f.federates.map Federate.timeless, regulators := [] }

/-- Without synchronization points. -/
def unlabelled (f : Federation) : Federation :=
  { f with
    federates := f.federates.map Federate.unlabelled
    synchronizationLabels := []
    crashed := false }

/-- Without the state of a save. -/
def unsaved (f : Federation) : Federation :=
  { f with
    federates := f.federates.map Federate.unsaved
    saveInProgress := false
    saveStatus := false
    saveLabel := ""
    crashed := false }

/-- A change of one federate that `g` does not see is not seen in the whole list. -/
theorem adjustFederate_map {β : Type} {g : Federate → β} {change : Federate → Federate}
    (keeps : ∀ fed, g (change fed) = g fed) :
    (f.adjustFederate h change).federates.map g = f.federates.map g :=
  map_adjust keeps f.federates

theorem adjustFederate_timeless {c : Federate → Federate}
    (keeps : ∀ fed, (c fed).timeless = fed.timeless) :
    (f.adjustFederate h c).timeless = f.timeless := by
  have listed := adjustFederate_map (f := f) (h := h) keeps
  unfold timeless
  rw [listed]
  rfl

theorem adjustFederate_unlabelled {c : Federate → Federate}
    (keeps : ∀ fed, (c fed).unlabelled = fed.unlabelled) :
    (f.adjustFederate h c).unlabelled = f.unlabelled := by
  have listed := adjustFederate_map (f := f) (h := h) keeps
  unfold unlabelled
  rw [listed]
  rfl

theorem adjustFederate_unsaved {c : Federate → Federate}
    (keeps : ∀ fed, (c fed).unsaved = fed.unsaved) :
    (f.adjustFederate h c).unsaved = f.unsaved := by
  have listed := adjustFederate_map (f := f) (h := h) keeps
  unfold unsaved
  rw [listed]
  rfl

/-- The same members and the same root object. -/
structure SameMembers (f f' : Federation) : Prop where
  handles : f'.federates.map Federate.handle = f.federates.map Federate.handle
  nextFederate : f'.nextFederate = f.nextFederate
  nextObject : f'.nextObject = f.nextObject
  root : f'.root = f.root

theorem SameMembers.refl (f : Federation) : SameMembers f f := ⟨rfl, rfl, rfl, rfl⟩

/-- Reading a projection of the federates through one that keeps it. -/
theorem map_of_erased {α : Type} {e : Federate → Federate} {g : Federate → α}
    (keeps : ∀ fed, g (e fed) = g fed) {feds feds' : List Federate}
    (same : feds'.map e = feds.map e) : feds'.map g = feds.map g := by
  have read : ∀ l : List Federate, (l.map e).map g = l.map g := by
    intro l
    rw [List.map_map]
    exact List.map_congr_left fun fed _ => keeps fed
  rw [← read feds', same, read feds]

theorem sameMembers_of_timeless (same : f'.timeless = f.timeless) : SameMembers f f' :=
  ⟨map_of_erased (e := Federate.timeless) (fun _ => rfl) (congrArg Federation.federates same),
    (congrArg Federation.nextFederate same :), (congrArg Federation.nextObject same :),
    (congrArg Federation.root same :)⟩

theorem sameMembers_of_unlabelled (same : f'.unlabelled = f.unlabelled) : SameMembers f f' :=
  ⟨map_of_erased (e := Federate.unlabelled) (fun _ => rfl)
      (congrArg Federation.federates same),
    (congrArg Federation.nextFederate same :), (congrArg Federation.nextObject same :),
    (congrArg Federation.root same :)⟩

theorem sameMembers_of_unsaved (same : f'.unsaved = f.unsaved) : SameMembers f f' :=
  ⟨map_of_erased (e := Federate.unsaved) (fun _ => rfl) (congrArg Federation.federates same),
    (congrArg Federation.nextFederate same :), (congrArg Federation.nextObject same :),
    (congrArg Federation.root same :)⟩

/-! ## Guards -/

/-- A property of the outcome of a guarded service: refused, or served. -/
theorem withFederate_cases {p : Outcome Federation → Prop} {service : Federate → Outcome Federation}
    (absent : p (.refused f .federateNotExecutionMember))
    (served : ∀ fed, f.federate? h = some fed → p (service fed)) :
    p (f.withFederate h service) := by
  unfold withFederate
  split
  · rename_i fed found
    exact served fed found
  · exact absent

theorem asMember_cases {p : Outcome Federation → Prop} {service : Outcome Federation}
    (absent : p (.refused f .federateNotExecutionMember))
    (served : f.check h = true → p service) : p (f.asMember h service) := by
  unfold asMember
  split
  · rename_i member
    exact served member
  · exact absent

@[simp] theorem answering_state (state : Federation) (sent : Responses)
    (last : Except RTIException Responses) : (answering state sent last).state = state := by
  cases last <;> rfl

/-! ## Broadcasts -/

/-- Every joined federate has a socket reference. -/
def AllReachable (f : Federation) : Prop :=
  ∀ fed ∈ f.federates, f.root.server.hasReferences fed.handle = true

instance (f : Federation) : Decidable f.AllReachable :=
  inferInstanceAs (Decidable (∀ fed ∈ f.federates, _))

theorem respondToAll_ok (message : NetworkMessage) (reachable : f.AllReachable)
    (positive : ∀ fed ∈ f.federates, 0 < fed.handle) :
    f.respondToAll message 0 = .ok ((f.federates.map Federate.handle).map (·, message)) := by
  have everyone : (f.federates.map Federate.handle).filter (fun h => h ≠ 0) =
      f.federates.map Federate.handle := by
    refine List.filter_eq_self.mpr fun h listed => ?_
    obtain ⟨fed, member, rfl⟩ := List.mem_map.mp listed
    simpa using Nat.ne_of_gt (positive fed member)
  unfold respondToAll
  rw [everyone]
  have all : (f.federates.map Federate.handle).all f.root.server.hasReferences = true := by
    rw [List.all_eq_true]
    intro h listed
    obtain ⟨fed, member, rfl⟩ := List.mem_map.mp listed
    exact reachable fed member
  simp only [all, if_true]

/-! ## Joining and leaving -/

/-- The four ways a join can end. -/
theorem add_outcomes (f : Federation) (name : String) (conditions : JoinConditions) :
    f.add name conditions = .refused f .federateAlreadyExecutionMember ∨
      f.add name conditions = .refused (f.inserted name) .rtiInternalError ∨
      f.add name conditions = .refused (f.labelled name) .rtiInternalError ∨
      f.add name conditions = .done { f.labelled name with
          root := { f.root with server := f.root.server.setReferences f.nextFederate } }
        (f.regulators.map (fun clock => (f.nextFederate, .messageNull clock.1 clock.2)) ++
          f.synchronizationLabels.map (fun label =>
            (f.nextFederate, .announceSynchronizationPoint label.1 label.2)) ++
          [(f.nextFederate, .joinFederationExecution f.nextFederate f.regulators.length)]) := by
  unfold add
  dsimp only
  split
  · exact .inl rfl
  · split
    · exact .inr (.inl rfl)
    · split
      · exact .inr (.inr (.inl rfl))
      · exact .inr (.inr (.inr rfl))

theorem labelled_handles (f : Federation) (name : String) :
    (f.labelled name).federates.map Federate.handle =
      f.federates.map Federate.handle ++ [f.nextFederate] := by
  have kept : (f.labelled name).federates.map Federate.handle =
      (f.inserted name).federates.map Federate.handle := adjustFederate_map fun _ => rfl
  rw [kept]
  simp [inserted]

/-- A join adds at most one member, under the next handle, and touches no more of the root
object than the socket references. -/
theorem add_cases (f : Federation) (name : String) (conditions : JoinConditions) :
    (f.add name conditions).state = f ∨
      ((f.add name conditions).state.federates.map Federate.handle =
          f.federates.map Federate.handle ++ [f.nextFederate] ∧
        (f.add name conditions).state.nextFederate = f.nextFederate + 1 ∧
        (f.add name conditions).state.nextObject = f.nextObject ∧
        (f.add name conditions).state.regulators = f.regulators ∧
        ((f.add name conditions).state.root = f.root ∨
          (f.add name conditions).state.root =
            { f.root with server := f.root.server.setReferences f.nextFederate })) := by
  rcases add_outcomes f name conditions with result | result | result | result <;> rw [result]
  · exact .inl rfl
  · exact .inr ⟨by simp [Outcome.refused, inserted], rfl, rfl, rfl, .inl rfl⟩
  · exact .inr ⟨labelled_handles f name, rfl, rfl, rfl, .inl rfl⟩
  · exact .inr ⟨labelled_handles f name, rfl, rfl, rfl, .inr rfl⟩

theorem isJoined_iff : f.isJoined h = true ↔ h ∈ f.federates.map Federate.handle := by
  unfold isJoined federate?
  constructor
  · intro joined
    obtain ⟨fed, found⟩ := Option.isSome_iff_exists.mp joined
    rw [← lookup_key found]
    exact List.mem_map_of_mem (lookup_mem found)
  · intro listed
    obtain ⟨fed, belongs, handle⟩ := List.mem_map.mp listed
    exact Option.isSome_iff_exists.mpr (lookup_of_mem belongs handle)

theorem remove_joined (joined : f.isJoined h = true) : f.remove h =
    .done { f with federates := drop Federate.handle h f.federates }
      [(h, .resignFederationExecution h)] := by
  obtain ⟨fed, found⟩ := Option.isSome_iff_exists.mp joined
  unfold remove withFederate
  rw [found]

theorem remove_cases (f : Federation) (h : FederateHandle) :
    f.remove h = .refused f .federateNotExecutionMember ∨
      (f.isJoined h = true ∧ f.remove h =
        .done { f with federates := drop Federate.handle h f.federates }
          [(h, .resignFederationExecution h)]) := by
  cases joined : f.isJoined h with
  | true => exact .inr ⟨rfl, remove_joined joined⟩
  | false =>
    left
    unfold isJoined at joined
    unfold remove withFederate
    rw [Option.isSome_eq_false_iff, Option.isNone_iff_eq_none] at joined
    rw [joined]

/-! ## Time -/

theorem removeRegulator_timeless (f : Federation) (h : FederateHandle) :
    (f.removeRegulator h).state.timeless = f.timeless := by
  refine withFederate_cases (p := fun outcome => outcome.state.timeless = f.timeless) rfl ?_
  intro fed found
  split
  · rfl
  · dsimp only
    split
    · rfl
    · rw [answering_state]
      exact adjustFederate_timeless fun _ => rfl

theorem addRegulator_timeless (f : Federation) (h : FederateHandle) (date : Date) :
    (f.addRegulator h date).state.timeless = f.timeless := by
  refine withFederate_cases (p := fun outcome => outcome.state.timeless = f.timeless) rfl ?_
  intro fed found
  split
  · rfl
  · dsimp only
    split
    · rfl
    · split <;> exact adjustFederate_timeless fun _ => rfl

theorem updateRegulator_timeless (f : Federation) (h : FederateHandle) (date : Date) :
    (f.updateRegulator h date).state.timeless = f.timeless := by
  refine withFederate_cases (p := fun outcome => outcome.state.timeless = f.timeless) rfl ?_
  intro fed found
  split
  · rfl
  · split
    · rfl
    · rw [answering_state]
      rfl

theorem setConstrained_timeless (f : Federation) (h : FederateHandle) (constrained : Bool) :
    (f.setConstrained h constrained).state.timeless = f.timeless := by
  refine withFederate_cases (p := fun outcome => outcome.state.timeless = f.timeless) rfl ?_
  intro fed found
  split
  · rfl
  · exact adjustFederate_timeless fun _ => rfl

theorem addRegulator_clocks (f : Federation) (h : FederateHandle) (date : Date) :
    ∀ clock ∈ (f.addRegulator h date).state.regulators,
      clock ∈ f.regulators ∨ f.isJoined clock.1 = true := by
  refine withFederate_cases (p := fun outcome => ∀ clock ∈ outcome.state.regulators,
    clock ∈ f.regulators ∨ f.isJoined clock.1 = true) (fun _ listed => .inl listed) ?_
  intro fed found
  have joined : f.isJoined h = true := by rw [isJoined, found]; rfl
  have added : ∀ clock ∈ f.regulators ++ [(h, date)],
      clock ∈ f.regulators ∨ f.isJoined clock.1 = true := by
    intro clock listed
    rcases List.mem_append.mp listed with old | new
    · exact .inl old
    · rw [List.mem_singleton.mp new]
      exact .inr joined
  split
  · exact fun _ listed => .inl listed
  · dsimp only
    split
    · exact added
    · split <;> exact added

/-- The clock of a member is gone afterwards. -/
theorem removeRegulator_clocks (f : Federation) (h : FederateHandle) :
    ∀ clock ∈ (f.removeRegulator h).state.regulators,
      clock ∈ f.regulators ∧ (f.isJoined h = true → clock.1 ≠ h) := by
  unfold removeRegulator withFederate
  split
  · split
    · rename_i absent
      rw [Option.isNone_iff_eq_none] at absent
      exact fun clock listed => ⟨listed, fun _ => lookup_eq_none.mp absent clock listed⟩
    · have dropped : ∀ clock ∈ drop Prod.fst h f.regulators,
          clock ∈ f.regulators ∧ (f.isJoined h = true → clock.1 ≠ h) := fun clock listed =>
        ⟨(mem_drop.mp listed).1, fun _ => (mem_drop.mp listed).2⟩
      dsimp only
      split
      · exact dropped
      · rw [answering_state]
        exact dropped
  · rename_i absent
    intro clock listed
    refine ⟨listed, fun joined => ?_⟩
    rw [isJoined, absent] at joined
    cases joined

theorem updateClock_keys (h : FederateHandle) (date : Date)
    (clocks : List (FederateHandle × Date)) :
    (updateClock h date clocks).map Prod.fst = clocks.map Prod.fst := by
  refine map_key_adjust (fun clock key => ?_) clocks
  split
  · exact key
  · rfl

theorem updateRegulator_clocks (f : Federation) (h : FederateHandle) (date : Date) :
    (f.updateRegulator h date).state.regulators.map Prod.fst = f.regulators.map Prod.fst := by
  refine withFederate_cases
    (p := fun outcome => outcome.state.regulators.map Prod.fst = f.regulators.map Prod.fst) rfl ?_
  intro fed found
  split
  · rfl
  · split
    · rfl
    · rw [answering_state]
      exact updateClock_keys h date f.regulators

/-! ## Losing a connection -/

/-- A member's connection is lost: its clock goes, the root object loses it, its record goes.
A federate that is no member has nothing to lose. -/
theorem kill_cases (f : Federation) (h : FederateHandle) :
    f.kill h = .refused f .federateNotExecutionMember ∨
      (f.isJoined h = true ∧
        (f.kill h).state = { ((f.closeLink h).removeRegulator h).state with
          federates := drop Federate.handle h ((f.closeLink h).removeRegulator h).state.federates
          root := ((f.closeLink h).root.killFederate h).1 } ∧
        (f.kill h).sent = ((f.closeLink h).root.killFederate h).2 ++
          [(h, .resignFederationExecution h)] ∧
        (f.kill h).error = none) := by
  have regulated := sameMembers_of_timeless (removeRegulator_timeless (f.closeLink h) h)
  unfold kill withFederate
  split
  · rename_i fed found
    right
    have joined : f.isJoined h = true := by rw [isJoined, found]; rfl
    generalize (f.closeLink h).removeRegulator h = unregulated at regulated ⊢
    have still : unregulated.state.isJoined h = true := by
      rw [isJoined_iff, regulated.handles]
      exact isJoined_iff.mp joined
    have last := remove_joined
      (f := { unregulated.state with root := (unregulated.state.root.killFederate h).1 }) still
    dsimp only
    rw [last, regulated.root]
    exact ⟨joined, rfl, rfl, rfl⟩
  · exact .inl rfl

/-! ## Synchronization points -/

theorem labelFederate_success {label : String} (success : labelFederate label f h = .ok f') :
    ∃ fed, f.federate? h = some fed ∧ label ∉ fed.syncLabels ∧
      f' = f.adjustFederate h fun fed => { fed with syncLabels := insert label fed.syncLabels } := by
  unfold labelFederate at success
  split at success
  · cases success
  · rename_i fed found
    split at success
    · cases success
    · rename_i fresh
      cases success
      exact ⟨fed, found, fresh, rfl⟩

theorem labelFederates_unlabelled (label : String) (f : Federation) (hs : List FederateHandle) :
    (sweep (labelFederate label) f hs).1.unlabelled = f.unlabelled := by
  refine sweep_invariant (p := fun s : Federation => s.unlabelled = f.unlabelled) ?_ rfl
  intro s h next _ holds success
  obtain ⟨_, _, _, rfl⟩ := labelFederate_success success
  rw [← holds]
  exact adjustFederate_unlabelled fun _ => rfl

theorem registerSynchronization_unlabelled (f : Federation) (h : FederateHandle)
    (label tag : String) :
    (f.registerSynchronization h label tag).state.unlabelled = f.unlabelled := by
  refine asMember_cases (p := fun outcome => outcome.state.unlabelled = f.unlabelled) rfl ?_
  intro _
  split
  · rfl
  · split
    · rfl
    · exact labelFederates_unlabelled label _ _

theorem registerSynchronizationSet_unlabelled (f : Federation) (h : FederateHandle)
    (label tag : String) (set : List FederateHandle) :
    (f.registerSynchronizationSet h label tag set).state.unlabelled = f.unlabelled := by
  refine withFederate_cases (p := fun outcome => outcome.state.unlabelled = f.unlabelled) rfl ?_
  intro _ _
  split
  · rfl
  · split
    · rfl
    · exact labelFederates_unlabelled label _ _

theorem processRegisterSynchronization_unlabelled (f : Federation) (h : FederateHandle)
    (label tag : String) (set : Option (List FederateHandle)) :
    (f.processRegisterSynchronization h label tag set).state.unlabelled = f.unlabelled := by
  have registered : (f.registerSynchronizationFor h label tag set).state.unlabelled =
      f.unlabelled := by
    cases set with
    | some set => exact registerSynchronizationSet_unlabelled f h label tag set
    | none => exact registerSynchronization_unlabelled f h label tag
  unfold processRegisterSynchronization
  dsimp only
  split
  · exact registered
  · exact registered
  · split <;> exact registered

theorem unregisterSynchronization_unlabelled (f : Federation) (h : FederateHandle)
    (label : String) : (f.unregisterSynchronization h label).state.unlabelled = f.unlabelled := by
  refine asMember_cases (p := fun outcome => outcome.state.unlabelled = f.unlabelled) rfl ?_
  intro _
  split
  · rfl
  · refine withFederate_cases (p := fun outcome => outcome.state.unlabelled = f.unlabelled) rfl ?_
    intro fed found
    have achieved := adjustFederate_unlabelled (f := f) (h := h)
      (c := fun fed => { fed with syncLabels := fed.syncLabels.erase label }) (fun _ => rfl)
    split
    · rfl
    · dsimp only
      split
      · exact achieved
      · rw [answering_state]
        exact achieved

/-! ## Saving -/

theorem requestFederationSave_unsaved (f : Federation) (h : FederateHandle) (label : String)
    (timed : Bool) : (f.requestFederationSave h label timed).state.unsaved = f.unsaved := by
  refine asMember_cases (p := fun outcome => outcome.state.unsaved = f.unsaved) rfl ?_
  intro _
  have started : (f.federates.map fun fed : Federate => { fed with isSaving := true }).map
      Federate.unsaved = f.federates.map Federate.unsaved := by
    rw [List.map_map]
    rfl
  split
  · rfl
  · dsimp only
    split <;> simp only [Outcome.refused, Outcome.done, unsaved, startSave, started]

theorem federateSaveStatus_unsaved (f : Federation) (h : FederateHandle) (status : Bool) :
    (f.federateSaveStatus h status).state.unsaved = f.unsaved := by
  refine withFederate_cases (p := fun outcome => outcome.state.unsaved = f.unsaved) rfl ?_
  intro fed found
  have cleared := adjustFederate_unsaved (f := f) (h := h)
    (c := fun fed => { fed with isSaving := false }) (fun _ => rfl)
  dsimp only
  split
  · exact cleared
  · split <;> exact cleared

/-! ## Events that concern neither membership nor the root object -/

end Federation

/-- Time management, synchronization points and saving. -/
def Event.isInternal : Event → Bool
  | .setTimeRegulating .. | .messageNull .. | .setTimeConstrained .. | .registerSynchronization ..
  | .synchronizationPointAchieved .. | .requestFederationSave .. | .federateSaveBegun ..
  | .federateSaveStatus .. => true
  | _ => false

namespace Federation

theorem perform_internal (f : Federation) {e : Event} (internal : e.isInternal = true) :
    SameMembers f (f.perform e).state := by
  cases e with
  | setTimeRegulating fed on date =>
    cases on with
    | true => exact sameMembers_of_timeless (addRegulator_timeless f fed date)
    | false => exact sameMembers_of_timeless (removeRegulator_timeless f fed)
  | messageNull fed date => exact sameMembers_of_timeless (updateRegulator_timeless f fed date)
  | setTimeConstrained fed on => exact sameMembers_of_timeless (setConstrained_timeless f fed on)
  | registerSynchronization fed label tag set =>
    exact sameMembers_of_unlabelled (processRegisterSynchronization_unlabelled f fed label tag set)
  | synchronizationPointAchieved fed label =>
    exact sameMembers_of_unlabelled (unregisterSynchronization_unlabelled f fed label)
  | requestFederationSave fed label timed =>
    exact sameMembers_of_unsaved (requestFederationSave_unsaved f fed label timed)
  | federateSaveBegun fed =>
    exact asMember_cases (p := fun outcome => SameMembers f outcome.state) (.refl f)
      (fun _ => .refl f)
  | federateSaveStatus fed complete =>
    exact sameMembers_of_unsaved (federateSaveStatus_unsaved f fed complete)
  | _ => cases internal

/-- Such an event adds no clock but that of a member. -/
theorem perform_internal_clocks (f : Federation) {e : Event} (internal : e.isInternal = true) :
    ∀ clock ∈ (f.perform e).state.regulators,
      clock.1 ∈ f.regulators.map Prod.fst ∨ f.isJoined clock.1 = true := by
  have kept : (f.perform e).state.regulators.map Prod.fst = f.regulators.map Prod.fst →
      ∀ clock ∈ (f.perform e).state.regulators,
        clock.1 ∈ f.regulators.map Prod.fst ∨ f.isJoined clock.1 = true := by
    intro same clock listed
    left
    rw [← same]
    exact List.mem_map_of_mem listed
  cases e with
  | setTimeRegulating fed on date =>
    cases on with
    | true =>
      intro clock listed
      exact (addRegulator_clocks f fed date clock listed).imp_left List.mem_map_of_mem
    | false =>
      intro clock listed
      exact .inl (List.mem_map_of_mem (removeRegulator_clocks f fed clock listed).1)
  | messageNull fed date => exact kept (updateRegulator_clocks f fed date)
  | setTimeConstrained fed on =>
    refine kept ?_
    exact withFederate_cases (p := fun outcome => outcome.state.regulators.map Prod.fst = _) rfl
      fun record _ => by split <;> rfl
  | registerSynchronization fed label tag set =>
    have same := processRegisterSynchronization_unlabelled f fed label tag set
    exact kept (congrArg (fun g : Federation => g.regulators.map Prod.fst) same :)
  | synchronizationPointAchieved fed label =>
    have same := unregisterSynchronization_unlabelled f fed label
    exact kept (congrArg (fun g : Federation => g.regulators.map Prod.fst) same :)
  | requestFederationSave fed label timed =>
    have same := requestFederationSave_unsaved f fed label timed
    exact kept (congrArg (fun g : Federation => g.regulators.map Prod.fst) same :)
  | federateSaveBegun fed =>
    refine kept ?_
    exact asMember_cases (p := fun outcome => outcome.state.regulators.map Prod.fst = _) rfl
      fun _ => rfl
  | federateSaveStatus fed complete =>
    have same := federateSaveStatus_unsaved f fed complete
    exact kept (congrArg (fun g : Federation => g.regulators.map Prod.fst) same :)
  | _ => cases internal

end Federation

/-! ## Events that concern the root object only -/

/-- Declarations, regions, instances and ownership. -/
def Event.isOnRoot : Event → Bool
  | .publishObject .. | .subscribeObject .. | .subscribeAttributesWR ..
  | .unsubscribeAttributesWR .. | .publishInteraction .. | .subscribeInteraction ..
  | .subscribeInteractionWR .. | .createRegion .. | .associateRegion .. | .registerObject ..
  | .registerObjectWithRegion .. | .deleteObject .. | .ownership .. => true
  | _ => false

namespace Federation

/-- Nothing but the tables of the root object, the count of instances and the survival of the
process may be different. -/
structure OnlyRoot (f f' : Federation) : Prop where
  rest : f' = { f with root := f'.root, nextObject := f'.nextObject, crashed := f'.crashed }
  server : f'.root.server = f.root.server

variable {f f' : Federation} {fed : FederateHandle}

theorem OnlyRoot.refl (f : Federation) : OnlyRoot f f := ⟨rfl, rfl⟩

theorem memberOnRoot_onlyRoot {service : RootObject → Outcome RootObject}
    (server : (service f.root).state.server = f.root.server) :
    OnlyRoot f (f.memberOnRoot fed service).state :=
  asMember_cases (p := fun outcome => OnlyRoot f outcome.state) (.refl f) fun _ => ⟨rfl, server⟩

theorem memberWithRegion_onlyRoot {region : RegionHandle}
    {service : RootObject → Outcome RootObject}
    (server : (service f.root).state.server = f.root.server) :
    OnlyRoot f (f.memberWithRegion fed region service).state := by
  refine memberOnRoot_onlyRoot ?_
  split
  · rfl
  · exact server

theorem redeclares_server {root root' : RootObject} (same : root.Redeclares root') :
    root'.server = root.server := by rw [same.rest]

theorem perform_onRoot (f : Federation) {e : Event} (onRoot : e.isOnRoot = true) :
    OnlyRoot f (f.perform e).state := by
  cases e with
  | publishObject fed c hs flag =>
    exact memberOnRoot_onlyRoot
      (redeclares_server (RootObject.publish_redeclares f.root fed c hs flag))
  | subscribeObject fed c hs =>
    exact memberOnRoot_onlyRoot
      (redeclares_server (RootObject.subscribe_redeclares f.root fed c hs none))
  | subscribeAttributesWR fed c region hs =>
    exact memberWithRegion_onlyRoot
      (redeclares_server (RootObject.subscribe_redeclares f.root fed c hs (some region)))
  | unsubscribeAttributesWR fed c region =>
    exact memberWithRegion_onlyRoot
      (redeclares_server (RootObject.unsubscribeWith_redeclares f.root fed c (some region)))
  | publishInteraction fed i flag =>
    exact memberOnRoot_onlyRoot
      (redeclares_server (RootObject.declareInteraction_redeclares f.root i _))
  | subscribeInteraction fed i flag =>
    exact memberOnRoot_onlyRoot
      (redeclares_server (RootObject.declareInteraction_redeclares f.root i _))
  | subscribeInteractionWR fed i region flag =>
    exact memberWithRegion_onlyRoot
      (redeclares_server (RootObject.declareInteraction_redeclares f.root i _))
  | createRegion fed space extents =>
    exact memberOnRoot_onlyRoot (RootObject.createRegion_server f.root space extents)
  | associateRegion fed object region hs =>
    exact memberOnRoot_onlyRoot (RootObject.associate_server f.root object region hs)
  | registerObject fed c name =>
    exact ⟨rfl, RootObject.registerObjectInstance_server f.root fed c _ _⟩
  | registerObjectWithRegion fed c name region hs =>
    refine asMember_cases (p := fun outcome => OnlyRoot f outcome.state) (.refl f) fun _ => ?_
    have registered : OnlyRoot f (f.registerObject fed c name).state :=
      ⟨rfl, RootObject.registerObjectInstance_server f.root fed c _ _⟩
    have associated : OnlyRoot f ((f.registerObject fed c name).state.onRoot
        (·.associate f.nextObject region hs)).state :=
      ⟨rfl, (RootObject.associate_server _ f.nextObject region hs).trans registered.server⟩
    dsimp only
    split
    · exact registered
    · split <;> exact associated
  | deleteObject fed object =>
    exact memberOnRoot_onlyRoot (RootObject.deleteObjectInstance_server f.root fed object)
  | ownership service fed object hs =>
    refine asMember_cases (p := fun outcome => OnlyRoot f outcome.state) (.refl f) fun _ => ?_
    exact ⟨rfl, RootObject.ownershipService_server f.root object (service.perform fed hs)⟩
  | _ => cases onRoot

end Federation

/-- Membership, the internal services and the root object: there is nothing else. -/
theorem Event.sorts (e : Event) :
    (∃ name conditions, e = .join name conditions) ∨ (∃ fed, e = .resign fed) ∨
      (∃ fed, e = .kill fed) ∨ e.isInternal = true ∨ e.isOnRoot = true := by
  cases e <;> simp [Event.isInternal, Event.isOnRoot]

/-! ## Members are numbered in order -/

namespace Federation

/-- Handles are given once, counting up. -/
structure Numbered (f : Federation) : Prop where
  positive : 0 < f.nextFederate
  distinct : (f.federates.map Federate.handle).Nodup
  bounds : ∀ fed ∈ f.federates, 0 < fed.handle ∧ fed.handle < f.nextFederate

variable {f f' : Federation}

theorem Numbered.congr (numbered : f.Numbered)
    (handles : f'.federates.map Federate.handle = f.federates.map Federate.handle)
    (next : f'.nextFederate = f.nextFederate) : f'.Numbered := by
  refine ⟨by rw [next]; exact numbered.positive, by rw [handles]; exact numbered.distinct, ?_⟩
  intro fed member
  have listed := List.mem_map_of_mem (f := Federate.handle) member
  rw [handles] at listed
  obtain ⟨old, belongs, same⟩ := List.mem_map.mp listed
  rw [← same, next]
  exact numbered.bounds old belongs

theorem Numbered.drop (numbered : f.Numbered) (fed : FederateHandle)
    (federates : f'.federates.map Federate.handle =
      (Keyed.drop Federate.handle fed f.federates).map Federate.handle)
    (next : f'.nextFederate = f.nextFederate) : f'.Numbered := by
  have listed := federates
  rw [map_key_drop] at listed
  refine ⟨by rw [next]; exact numbered.positive, ?_, fun g member => ?_⟩
  · rw [listed]
    exact numbered.distinct.filter _
  · have here := List.mem_map_of_mem (f := Federate.handle) member
    rw [federates] at here
    obtain ⟨old, belongs, same⟩ := List.mem_map.mp here
    rw [← same, next]
    exact numbered.bounds old (mem_drop.mp belongs).1

theorem add_numbered (numbered : f.Numbered) (name : String) (conditions : JoinConditions) :
    (f.add name conditions).state.Numbered := by
  rcases add_cases f name conditions with same | ⟨handles, next, _⟩
  · rw [same]
    exact numbered
  · have below : ∀ h ∈ f.federates.map Federate.handle, 0 < h ∧ h < f.nextFederate := by
      intro h listed
      obtain ⟨fed, member, rfl⟩ := List.mem_map.mp listed
      exact numbered.bounds fed member
    refine ⟨by rw [next]; exact Nat.succ_pos _, ?_, fun fed member => ?_⟩
    · rw [handles, List.nodup_append]
      refine ⟨numbered.distinct, by simp, fun h listed g new => ?_⟩
      rw [List.mem_singleton.mp new]
      exact Nat.ne_of_lt (below h listed).2
    · have listed := List.mem_map_of_mem (f := Federate.handle) member
      rw [handles] at listed
      rw [next]
      rcases List.mem_append.mp listed with old | new
      · exact ⟨(below _ old).1, Nat.lt_succ_of_lt (below _ old).2⟩
      · rw [List.mem_singleton.mp new]
        exact ⟨numbered.positive, Nat.lt_succ_self _⟩

theorem perform_numbered (numbered : f.Numbered) (e : Event) : (f.perform e).state.Numbered := by
  rcases e.sorts with ⟨name, conditions, rfl⟩ | ⟨fed, rfl⟩ | ⟨fed, rfl⟩ | internal | onRoot
  · exact add_numbered numbered name conditions
  · rcases remove_cases f fed with refused | ⟨_, removed⟩
    · rw [perform, refused]
      exact numbered
    · rw [perform, removed]
      exact numbered.drop fed rfl rfl
  · rcases kill_cases f fed with refused | ⟨_, result, _, _⟩
    · rw [perform, refused]
      exact numbered
    · have same := sameMembers_of_timeless (removeRegulator_timeless (f.closeLink fed) fed)
      have unregulated := Numbered.congr (f := f) numbered same.handles same.nextFederate
      rw [perform, result]
      exact unregulated.drop fed rfl rfl
  · have same := perform_internal f internal
    exact numbered.congr same.handles same.nextFederate
  · have same := perform_onRoot f onRoot
    rw [same.rest]
    exact numbered.congr rfl rfl

theorem rtig_numbered (numbered : f.Numbered) (e : Event) : (rtig f e).1.Numbered := by
  unfold rtig
  split
  · exact numbered
  · exact perform_numbered numbered e

end Federation

/-! ## A newly created federation -/

theorem create_distinct (fom : Fom) (withMom haveXml : Bool) :
    (Federation.create fom withMom haveXml).root.Distinct := by
  have handles : (Federation.create fom withMom haveXml).root.classes.map ObjectClass.handle =
      List.range' 1 fom.classes.length := by
    simp only [Federation.create, List.map_map]
    rw [← List.zipIdx_map_snd 1 fom.classes, List.zipIdx_succ]
    simp [Function.comp_def, FomClass.create]
  exact ⟨by rw [handles]; exact List.nodup_range', by simp [Federation.create]⟩

theorem create_numbered (fom : Fom) (withMom haveXml : Bool) :
    (Federation.create fom withMom haveXml).Numbered := by
  cases withMom <;>
    exact ⟨Nat.succ_pos _, List.nodup_nil, by simp [Federation.create]⟩

/-- Nobody has declared anything yet. -/
theorem create_declaredBy (fom : Fom) (withMom haveXml : Bool) (p : FederateHandle → Prop) :
    (Federation.create fom withMom haveXml).root.DeclaredBy p := by
  constructor
  · intro c member a belongs
    obtain ⟨declared, _, rfl⟩ := List.mem_map.mp member
    obtain ⟨_, _, rfl⟩ := List.mem_map.mp belongs
    simp
  · intro i member
    obtain ⟨declared, _, rfl⟩ := List.mem_map.mp member
    simp [FomInteraction.create]

end Certi
