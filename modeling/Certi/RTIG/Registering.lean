import Certi.RTIG.Synchronization

/-!
# Registering a synchronization point

`RTIG/Federation.cc` puts the label into its table first and hands it to one
federate after another, each of which may throw; nothing takes the label back.
A registration is all or nothing exactly if it is refused before that, or if
nobody is named twice, everybody named is joined and without the label, and
everybody it is for can be told.
-/
namespace Certi

open Keyed Sweep Federation

/-! ## The statement -/

namespace Federation

variable (f : Federation) (h : FederateHandle) (label tag : String)
  (set : Option (List FederateHandle))

/-- A joined federate has still to achieve the label. -/
def holds : Bool := (f.federate? h).any fun fed => label ∈ fed.syncLabels

/-- Who a point is for. -/
def concerned : List FederateHandle := set.getD (f.federates.map Federate.handle)

/-- Who is given the label: the requester too, where there is a set with somebody in it. -/
def labelledFor : Option (List FederateHandle) → List FederateHandle
  | none => f.federates.map Federate.handle
  | some set => (if set = [] then [] else [h]) ++ set

/-- Who the point is announced to. -/
def toldOf : Option (List FederateHandle) → List FederateHandle
  | none => (f.federates.map Federate.handle).filter fun h => h ≠ 0
  | some set => set

/-- The requester is one that may ask; the overload for a set needs its record. -/
def mayRegister : Option (List FederateHandle) → Bool
  | none => f.check h
  | some _ => f.isJoined h

/-- The point is registered and held by all it is for. -/
structure Succeeds (outcome : Outcome Federation) : Prop where
  accepted : outcome.error = none
  confirmed : (h, .confirmSynchronizationPointRegistration label true) ∈ outcome.sent
  pending : outcome.state.isPending label = true
  held : ∀ g ∈ f.concerned set, outcome.state.holds g label = true

/-- The requester is told of a failure, and no label has moved. -/
structure Fails (outcome : Outcome Federation) : Prop where
  answered : outcome.error = none →
    (h, .confirmSynchronizationPointRegistration label false) ∈ outcome.sent
  caught : outcome.error ≠ some .outOfRange
  pending : outcome.state.synchronizationLabels = f.synchronizationLabels
  held : ∀ g l, outcome.state.holds g l = f.holds g l

/-- A registration is all or nothing. -/
def RegistersAtomically : Prop :=
  f.Succeeds h label set (f.processRegisterSynchronization h label tag set) ∨
    f.Fails h label (f.processRegisterSynchronization h label tag set)

/-- The condition: where the request is not refused at once, nobody is in the way. -/
def RegistersWhole : Prop :=
  f.mayRegister h set = true → f.Registrable label →
    (f.labelledFor h set).Nodup ∧
      (∀ g ∈ f.labelledFor h set, f.isJoined g = true ∧ f.holds g label = false) ∧
      ∀ g ∈ f.toldOf set, f.root.server.hasReferences g = true

instance decidableRegistersWhole : Decidable (f.RegistersWhole h label set) :=
  inferInstanceAs (Decidable (_ → (label ≠ "" ∧ f.isPending label = false) → _ ∧ _ ∧ _))

/-! ## One federate after another -/

variable {f h label tag set} {f' : Federation} {g : FederateHandle} {l : String}

theorem holds_of_found {fed : Federate} (found : f.federate? h = some fed) :
    f.holds h label = decide (label ∈ fed.syncLabels) := by
  rw [holds, found, Option.any_some]

theorem holds_joined (held : f.holds h label = true) : f.isJoined h = true := by
  unfold holds at held
  cases found : f.federate? h with
  | none => simp [found] at held
  | some fed => rw [isJoined, found, Option.isSome_some]

/-- Labels are read off the view that the runs of synchronization are told in. -/
theorem holds_eq (f : Federation) (h : FederateHandle) (label : String) :
    f.holds h label =
      (lookup Prod.fst h f.syncView.holders).any fun holder => label ∈ holder.2 := by
  have mapped : lookup Prod.fst h f.syncView.holders =
      (f.federate? h).map fun fed => (fed.handle, fed.syncLabels) := by
    unfold syncView federate? lookup
    rw [List.find?_map]
    rfl
  rw [mapped, holds, Option.any_map]

/-- Labelling one federate. -/
theorem labelFederate_ok (joined : f.isJoined h = true) (free : f.holds h label = false) :
    labelFederate label f h = .ok (f.adjustFederate h (withLabel label)) := by
  obtain ⟨fed, found⟩ := Option.isSome_iff_exists.mp joined
  rw [holds_of_found found, decide_eq_false_iff_not] at free
  rw [labelFederate, found]
  dsimp only
  rw [if_neg free]
  rfl

theorem labelFederate_error (blocked : ¬(f.isJoined h = true ∧ f.holds h label = false)) :
    ∃ e, labelFederate label f h = .error e := by
  unfold labelFederate
  cases found : f.federate? h with
  | none => exact ⟨_, rfl⟩
  | some fed =>
    have joined : f.isJoined h = true := by rw [isJoined, found, Option.isSome_some]
    rw [holds_of_found found, decide_eq_false_iff_not] at blocked
    have held : label ∈ fed.syncLabels := by
      by_contra free
      exact blocked ⟨joined, free⟩
    exact ⟨_, if_pos held⟩

theorem isJoined_labelled (f : Federation) (h g : FederateHandle) (label : String) :
    (f.adjustFederate h (withLabel label)).isJoined g = f.isJoined g := by
  have same : (f.adjustFederate h (withLabel label)).federates.map Federate.handle =
      f.federates.map Federate.handle := adjustFederate_map fun _ => rfl
  rw [Bool.eq_iff_iff, isJoined_iff, isJoined_iff, same]

theorem holds_labelled (joined : f.isJoined h = true) (g : FederateHandle) (l : String) :
    (f.adjustFederate h (withLabel label)).holds g l =
      (f.holds g l || decide (g = h ∧ l = label)) := by
  have keeps : ∀ fed : Federate, fed.handle = h → (withLabel label fed).handle = h :=
    fun _ same => same
  have found := lookup_adjust keeps g f.federates
  unfold holds federate? adjustFederate
  rw [found]
  cases there : lookup Federate.handle g f.federates with
  | none =>
    have other : g ≠ h := by
      rintro rfl
      rw [isJoined, federate?, there] at joined
      cases joined
    simp [other]
  | some fed =>
    have handle : fed.handle = g := lookup_key there
    by_cases same : g = h
    · simp [handle, same, withLabel, Bool.or_comm]
    · simp [handle, same]

/-- A loop that is not stopped has met nobody in the way; whether it is or not, it keeps the
table of labels, the members and the root object. -/
theorem labelFederates_iff (label : String) (hs : List FederateHandle) (f : Federation) :
    (sweep (labelFederate label) f hs).1.synchronizationLabels = f.synchronizationLabels ∧
      (sweep (labelFederate label) f hs).1.root = f.root ∧
      (sweep (labelFederate label) f hs).1.federates.map Federate.handle =
        f.federates.map Federate.handle ∧
      ((sweep (labelFederate label) f hs).2 = none ↔
        hs.Nodup ∧ ∀ g ∈ hs, f.isJoined g = true ∧ f.holds g label = false) ∧
      ((sweep (labelFederate label) f hs).2 = none →
        ∀ g l, (sweep (labelFederate label) f hs).1.holds g l =
          (f.holds g l || decide (g ∈ hs ∧ l = label))) := by
  induction hs generalizing f with
  | nil => simp
  | cons h rest ih =>
    by_cases free : f.isJoined h = true ∧ f.holds h label = false
    · rw [sweep_cons_ok rest (labelFederate_ok free.1 free.2)]
      obtain ⟨labels, root, handles, done, held⟩ := ih (f.adjustFederate h (withLabel label))
      have members : (f.adjustFederate h (withLabel label)).federates.map Federate.handle =
          f.federates.map Federate.handle := adjustFederate_map fun _ => rfl
      refine ⟨labels, root, handles.trans members, ?_, fun whole g l => ?_⟩
      · rw [done, List.nodup_cons, List.forall_mem_cons]
        simp only [isJoined_labelled, holds_labelled free.1]
        constructor
        · rintro ⟨distinct, later⟩
          refine ⟨⟨fun twice => ?_, distinct⟩, free, fun g member => ?_⟩
          · have again := (later h twice).2
            simp at again
          · have here := later g member
            exact ⟨here.1, (Bool.or_eq_false_iff.mp here.2).1⟩
        · rintro ⟨⟨absent, distinct⟩, _, later⟩
          refine ⟨distinct, fun g member => ⟨(later g member).1, ?_⟩⟩
          have other : g ≠ h := fun same => absent (same ▸ member)
          simp [(later g member).2, other]
      · rw [held whole, holds_labelled free.1]
        by_cases same : l = label <;> simp [same, Bool.or_assoc]
    · obtain ⟨e, refused⟩ := labelFederate_error free
      rw [sweep_cons_error rest refused]
      refine ⟨rfl, rfl, rfl, ?_, fun impossible => by cases impossible⟩
      constructor
      · intro impossible
        cases impossible
      · exact fun clear => absurd (clear.2 h List.mem_cons_self) free

/-! ## The whole registration -/

theorem registerSynchronizationFor_admitted (tag : String) (may : f.mayRegister h set = true)
    (registrable : f.Registrable label) :
    f.registerSynchronizationFor h label tag set =
      let swept := sweep (labelFederate label)
        { f with synchronizationLabels := f.synchronizationLabels ++ [(label, tag)] }
        (f.labelledFor h set)
      ⟨swept.1, [], swept.2⟩ := by
  have fresh : (lookup Prod.fst label f.synchronizationLabels).isSome = false := registrable.2
  cases set with
  | none =>
    have member : f.check h = true := may
    unfold registerSynchronizationFor registerSynchronization asMember
    rw [if_pos member, if_neg registrable.1, fresh, if_neg Bool.false_ne_true]
    rfl
  | some set =>
    obtain ⟨fed, found⟩ := Option.isSome_iff_exists.mp may
    unfold registerSynchronizationFor registerSynchronizationSet withFederate
    rw [found]
    dsimp only
    rw [if_neg registrable.1, fresh, if_neg Bool.false_ne_true]
    rfl

theorem registerSynchronizationFor_refused (tag : String)
    (refused : ¬(f.mayRegister h set = true ∧ f.Registrable label)) :
    ∃ e, e ≠ RTIException.outOfRange ∧
      f.registerSynchronizationFor h label tag set = .refused f e := by
  cases set with
  | none => exact registerSynchronization_refused tag refused
  | some set => exact registerSynchronizationSet_refused tag set refused

theorem respond_toldOf (set : Option (List FederateHandle)) (message : NetworkMessage)
    (handles : f'.federates.map Federate.handle = f.federates.map Federate.handle)
    (root : f'.root = f.root) :
    (match set with
      | some set => f'.respondToSome message set
      | none => f'.respondToAll message 0) =
    if (f.toldOf set).all f.root.server.hasReferences then .ok ((f.toldOf set).map (·, message))
    else .error .federateNotExecutionMember := by
  cases set with
  | none =>
    unfold respondToAll toldOf
    dsimp only
    rw [handles, root]
  | some set =>
    unfold respondToSome toldOf
    dsimp only
    rw [root]

/-- What a registration that nobody is in the way of does. -/
structure Registers (f : Federation) (h : FederateHandle) (label tag : String)
    (set : Option (List FederateHandle)) (outcome : Outcome Federation) : Prop where
  accepted : outcome.error = none
  sent : outcome.sent = (f.toldOf set).map (·, .announceSynchronizationPoint label tag) ++
    [(h, .confirmSynchronizationPointRegistration label true)]
  labels : outcome.state.synchronizationLabels = f.synchronizationLabels ++ [(label, tag)]
  held : ∀ g l, outcome.state.holds g l =
    (f.holds g l || decide (g ∈ f.labelledFor h set ∧ l = label))

/-- A request is refused at once, or goes through, or leaves the label in the table. -/
theorem processRegister_cases (f : Federation) (h : FederateHandle) (label tag : String)
    (set : Option (List FederateHandle)) :
    (¬(f.mayRegister h set = true ∧ f.Registrable label) ∧
        f.processRegisterSynchronization h label tag set =
          .done f [(h, .confirmSynchronizationPointRegistration label false)]) ∨
      (f.mayRegister h set = true ∧ f.Registrable label) ∧
        ((f.RegistersWhole h label set ∧
            f.Registers h label tag set (f.processRegisterSynchronization h label tag set)) ∨
          (¬f.RegistersWhole h label set ∧
            (f.processRegisterSynchronization h label tag set).state.synchronizationLabels =
              f.synchronizationLabels ++ [(label, tag)] ∧
            ((f.processRegisterSynchronization h label tag set).error = none →
              (f.processRegisterSynchronization h label tag set).sent =
                [(h, .confirmSynchronizationPointRegistration label false)]))) := by
  by_cases admitted : f.mayRegister h set = true ∧ f.Registrable label
  · refine .inr ⟨admitted, ?_⟩
    have registered := registerSynchronizationFor_admitted tag admitted.1 admitted.2
    obtain ⟨labels, root, handles, done, held⟩ := labelFederates_iff label (f.labelledFor h set)
      { f with synchronizationLabels := f.synchronizationLabels ++ [(label, tag)] }
    generalize swept : sweep (labelFederate label)
      { f with synchronizationLabels := f.synchronizationLabels ++ [(label, tag)] }
      (f.labelledFor h set) = result at registered labels root handles done held
    obtain ⟨labelled, error⟩ := result
    dsimp only at registered labels root handles done held
    have told := respond_toldOf set (.announceSynchronizationPoint label tag) handles root
    cases error with
    | some e =>
      right
      have stopped : ¬f.RegistersWhole h label set := by
        intro whole
        have clear := whole admitted.1 admitted.2
        exact absurd (done.mpr ⟨clear.1, clear.2.1⟩) (by simp)
      unfold processRegisterSynchronization
      rw [registered]
      refine ⟨stopped, ?_, ?_⟩ <;> cases e <;> simp [labels]
    | none =>
      have clear := done.mp rfl
      by_cases reached : (f.toldOf set).all f.root.server.hasReferences = true
      · left
        rw [if_pos reached] at told
        have processed : f.processRegisterSynchronization h label tag set =
            .done labelled ((f.toldOf set).map (·, .announceSynchronizationPoint label tag) ++
              [(h, .confirmSynchronizationPointRegistration label true)]) := by
          unfold processRegisterSynchronization
          rewrite [registered]
          cases set <;> (dsimp only at told ⊢; rewrite [told]; rfl)
        rw [processed]
        refine ⟨fun _ _ => ⟨clear.1, clear.2, fun g member => ?_⟩, rfl, rfl, labels, held rfl⟩
        exact List.all_eq_true.mp reached g member
      · right
        rw [if_neg reached] at told
        have processed : f.processRegisterSynchronization h label tag set =
            .refused labelled .federateNotExecutionMember := by
          unfold processRegisterSynchronization
          rewrite [registered]
          cases set <;> (dsimp only at told ⊢; rewrite [told]; rfl)
        rw [processed]
        refine ⟨fun whole => reached ?_, labels, fun impossible => by cases impossible⟩
        exact List.all_eq_true.mpr (whole admitted.1 admitted.2).2.2
  · left
    obtain ⟨e, other, refused⟩ := registerSynchronizationFor_refused tag admitted
    exact ⟨admitted, processRegister_refused other refused⟩

/-- Everybody a point is for is given the label with it. -/
theorem concerned_labelled (member : g ∈ f.concerned set) : g ∈ f.labelledFor h set := by
  cases set with
  | none => exact member
  | some set => exact List.mem_append_right _ member

/-- A registration is all or nothing exactly if it meets the condition. -/
theorem registersAtomically_iff (f : Federation) (h : FederateHandle) (label tag : String)
    (set : Option (List FederateHandle)) :
    f.RegistersAtomically h label tag set ↔ f.RegistersWhole h label set := by
  rcases processRegister_cases f h label tag set with
    ⟨refused, result⟩ | ⟨admitted, ⟨whole, registers⟩ | ⟨stopped, labels, answered⟩⟩
  · have fails : f.Fails h label (f.processRegisterSynchronization h label tag set) := by
      rw [result]
      exact ⟨fun _ => List.mem_singleton_self _, by simp [Outcome.done], rfl, fun _ _ => rfl⟩
    constructor
    · exact fun _ may registrable => absurd ⟨may, registrable⟩ refused
    · exact fun _ => .inr fails
  · refine ⟨fun _ => whole, fun _ => .inl ⟨registers.accepted, ?_, ?_, fun g member => ?_⟩⟩
    · rw [registers.sent]
      exact List.mem_append_right _ (List.mem_singleton_self _)
    · rw [isPending_iff, registers.labels]
      simp
    · rw [registers.held]
      simp [concerned_labelled (h := h) member]
  · refine ⟨fun atomic => absurd atomic ?_, fun whole => absurd whole stopped⟩
    rintro (succeeds | fails)
    · have sent := answered succeeds.accepted
      have confirmed := succeeds.confirmed
      rw [sent] at confirmed
      simp at confirmed
    · have same := fails.pending
      rw [labels] at same
      simp at same

end Federation

end Certi
