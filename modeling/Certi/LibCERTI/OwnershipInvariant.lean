import Certi.LibCERTI.Ownership

/-!
# What the ownership services keep

The invariant of one instance: no attribute is wanted by its owner, only an
owned attribute is offered or wanted, and the object's own owner is the owner
of its privilegeToDelete attribute. Each service is inverted once, into the
changes one attribute can see; the invariant follows attribute by attribute.
-/
namespace Certi

open Keyed Sweep Ownership

/-- One attribute of an instance; federate handles are never 0. -/
structure ObjectAttribute.Consistent (oa : ObjectAttribute) : Prop where
  owner_not_candidate : oa.owner ∉ oa.candidates
  divesting_owned : oa.divesting = true → oa.owner ≠ 0
  unowned_idle : oa.owner = 0 → oa.candidates = ∅ ∧ oa.divesting = false
  zero_not_candidate : 0 ∉ oa.candidates

/-- One instance of a class. -/
structure Object.Consistent (c : ObjectClass) (o : Object) : Prop where
  attributes : ∀ oa ∈ o.attributes, oa.Consistent
  privilege : ∀ oa ∈ o.attributes, c.privileged oa.handle = true → o.owner = oa.owner

/-- At most one attribute of the class is named privilegeToDelete. -/
def ObjectClass.OnePrivilege (c : ObjectClass) : Prop :=
  ∀ h h', c.privileged h = true → c.privileged h' = true → h = h'

/-- The services change attributes and owner, never which instance it is. -/
structure Object.SameInstance (o o' : Object) : Prop where
  handle : o'.handle = o.handle
  name : o'.name = o.name
  classHandle : o'.classHandle = o.classHandle
  attributeHandles : o'.attributes.map ObjectAttribute.handle =
    o.attributes.map ObjectAttribute.handle

theorem Object.SameInstance.refl (o : Object) : o.SameInstance o := ⟨rfl, rfl, rfl, rfl⟩

theorem Object.SameInstance.trans {o p q : Object} (first : o.SameInstance p)
    (second : p.SameInstance q) : o.SameInstance q :=
  ⟨second.handle.trans first.handle, second.name.trans first.name,
    second.classHandle.trans first.classHandle,
    second.attributeHandles.trans first.attributeHandles⟩

theorem Object.setAttribute_sameInstance (o : Object) (oa : ObjectAttribute) :
    o.SameInstance (o.setAttribute oa) :=
  ⟨rfl, rfl, rfl, map_key_replace oa o.attributes⟩

namespace Ownership

variable {c : ObjectClass} {fed : FederateHandle} {o : Object} {t t' : Transfer}
  {h : AttributeHandle} {hs : List AttributeHandle}

theorem grant_sameInstance (o : Object) (oa : ObjectAttribute) (newOwner : FederateHandle) :
    o.SameInstance (grant c o oa newOwner) := by
  have stored := o.setAttribute_sameInstance oa
  unfold grant
  split
  · exact ⟨stored.handle, stored.name, stored.classHandle, stored.attributeHandles⟩
  · exact stored

/-! ## Storing one attribute -/

theorem setAttribute_consistent {oa : ObjectAttribute} (before : o.Consistent c)
    (stored : oa.Consistent) (owner : c.privileged oa.handle = true → o.owner = oa.owner) :
    (o.setAttribute oa).Consistent c :=
  ⟨forall_replace before.attributes stored, forall_replace before.privilege owner⟩

theorem grant_consistent {oa : ObjectAttribute} {newOwner : FederateHandle}
    (before : o.Consistent c) (one : c.OnePrivilege) (stored : oa.Consistent)
    (owner : oa.owner = newOwner) : (grant c o oa newOwner).Consistent c := by
  unfold grant
  split
  · rename_i privileged
    refine ⟨forall_replace before.attributes stored, ?_⟩
    intro other member otherPrivileged
    rcases mem_replace member with rfl | ⟨_, different⟩
    · exact owner.symm
    · exact absurd (one _ _ otherPrivileged privileged) different
  · rename_i ordinary
    exact setAttribute_consistent before stored (fun privileged => absurd privileged ordinary)

theorem handOver_consistent {oa : ObjectAttribute} {newOwner : FederateHandle}
    (before : oa.Consistent) (wanted : newOwner ∈ oa.candidates) :
    (handOver oa newOwner).Consistent := by
  have nonzero : newOwner ≠ 0 := by
    rintro rfl
    exact before.zero_not_candidate wanted
  refine ⟨?_, ?_, ?_, ?_⟩
  · simp [handOver, ObjectAttribute.setOwner, ObjectAttribute.removeCandidate,
      ObjectAttribute.setDivesting]
  · intro divesting
    cases divesting
  · intro unowned
    exact absurd unowned nonzero
  · intro candidate
    exact before.zero_not_candidate (Finset.mem_of_mem_erase candidate)

/-- A federate that takes a free or offered attribute it does not also want. -/
theorem obtain_consistent {oa : ObjectAttribute} (before : oa.Consistent) (member : fed ≠ 0)
    (notCandidate : fed ∉ oa.candidates) : ((oa.setOwner fed).setDivesting false).Consistent := by
  refine ⟨notCandidate, ?_, ?_, before.zero_not_candidate⟩
  · intro divesting
    cases divesting
  · intro unowned
    exact absurd unowned member

theorem removeCandidate_consistent {oa : ObjectAttribute} (before : oa.Consistent) :
    (oa.removeCandidate fed).Consistent := by
  refine ⟨?_, before.divesting_owned, ?_, ?_⟩
  · intro candidate
    exact before.owner_not_candidate (Finset.mem_of_mem_erase candidate)
  · intro unowned
    have idle := before.unowned_idle unowned
    refine ⟨?_, idle.2⟩
    simp [ObjectAttribute.removeCandidate, idle.1]
  · intro candidate
    exact before.zero_not_candidate (Finset.mem_of_mem_erase candidate)

/-- Another federate starts to want an owned attribute. -/
theorem addCandidate_consistent {oa : ObjectAttribute} (before : oa.Consistent) (member : fed ≠ 0)
    (owned : oa.owner ≠ 0) (other : oa.owner ≠ fed) : (oa.addCandidate fed).Consistent := by
  refine ⟨?_, before.divesting_owned, fun unowned => absurd unowned owned, ?_⟩
  · simp [ObjectAttribute.addCandidate, other, before.owner_not_candidate]
  · simp [ObjectAttribute.addCandidate, member.symm, before.zero_not_candidate]

theorem not_obtainable {oa : ObjectAttribute} :
    obtainable oa = false ↔ oa.owner ≠ 0 ∧ oa.divesting = false := by
  simp [obtainable]

/-! ## What one step does -/

theorem bind_success {ε α β : Type} {first : Except ε α} {next : α → Except ε β} {b : β}
    (success : (first >>= next) = .ok b) : ∃ a, first = .ok a ∧ next a = .ok b := by
  cases first with
  | error e => cases success
  | ok a => exact ⟨a, rfl, success⟩

/-- The attribute goes to a candidate, or stays where it is and is rewritten by `kept`. -/
def HandedOrKept (c : ObjectClass) (h : AttributeHandle) (kept : ObjectAttribute → ObjectAttribute)
    (o o' : Object) : Prop :=
  ∃ oa, o.attribute? h = some oa ∧
    ((∃ newOwner ∈ oa.candidates, o' = grant c o (handOver oa newOwner) newOwner) ∨
      (oa.candidates = ∅ ∧ o' = o.setAttribute (kept oa)))

theorem negotiatedStep_success (success : negotiatedStep c t h = .ok t') :
    HandedOrKept c h (·.setDivesting true) t.1 t'.1 := by
  obtain ⟨oa, found, success⟩ := bind_success success
  refine ⟨oa, Object.getAttribute_ok.mp found, ?_⟩
  cases first : oa.firstCandidate with
  | some newOwner =>
    simp only [first] at success
    obtain ⟨oca, _, success⟩ := bind_success success
    cases success
    exact .inl ⟨newOwner, ObjectAttribute.firstCandidate_mem first, rfl⟩
  | none =>
    simp only [first] at success
    cases success
    exact .inr ⟨ObjectAttribute.firstCandidate_eq_none.mp first, rfl⟩

theorem unconditionalStep_success (success : unconditionalStep c t h = .ok t') :
    HandedOrKept c h (fun oa => (oa.setOwner 0).setDivesting false) t.1 t'.1 := by
  obtain ⟨oca, _, success⟩ := bind_success success
  obtain ⟨oa, found, success⟩ := bind_success success
  refine ⟨oa, Object.getAttribute_ok.mp found, ?_⟩
  cases first : oa.firstCandidate with
  | some newOwner =>
    simp only [first] at success
    cases success
    exact .inl ⟨newOwner, ObjectAttribute.firstCandidate_mem first, rfl⟩
  | none =>
    simp only [first] at success
    cases success
    exact .inr ⟨ObjectAttribute.firstCandidate_eq_none.mp first, rfl⟩

theorem releaseResponseStep_success (success : releaseResponseStep c t h = .ok t') :
    ∃ oa, t.1.attribute? h = some oa ∧
      ∃ newOwner ∈ oa.candidates, t'.1 = grant c t.1 (handOver oa newOwner) newOwner := by
  obtain ⟨oca, _, success⟩ := bind_success success
  obtain ⟨oa, found, success⟩ := bind_success success
  refine ⟨oa, Object.getAttribute_ok.mp found, ?_⟩
  cases first : oa.firstCandidate with
  | some newOwner =>
    simp only [first] at success
    cases success
    exact ⟨newOwner, ObjectAttribute.firstCandidate_mem first, rfl⟩
  | none =>
    simp only [first] at success
    cases success

/-- The federate gets a free or offered attribute, or starts to want an owned one. -/
def TakenOrWanted (c : ObjectClass) (fed : FederateHandle) (h : AttributeHandle)
    (taken wanted : ObjectAttribute → ObjectAttribute) (o o' : Object) : Prop :=
  ∃ oa, o.attribute? h = some oa ∧
    ((obtainable oa = true ∧ o' = grant c o (taken oa) fed) ∨
      (obtainable oa = false ∧ o' = o.setAttribute (wanted oa)))

theorem acquisitionStep_success (success : acquisitionStep c fed t h = .ok t') :
    TakenOrWanted c fed h (fun oa => ((oa.removeCandidate fed).setOwner fed).setDivesting false)
      (fun oa => (oa.removeCandidate fed).addCandidate fed) t.1 t'.1 := by
  obtain ⟨oca, _, success⟩ := bind_success success
  obtain ⟨oa, found, success⟩ := bind_success success
  refine ⟨oa, Object.getAttribute_ok.mp found, ?_⟩
  split at success
  · rename_i free
    cases success
    exact .inl ⟨free, rfl⟩
  · rename_i owned
    cases success
    exact .inr ⟨by simpa using owned, rfl⟩

theorem acquisitionIfAvailableStep_success
    (success : acquisitionIfAvailableStep c fed t h = .ok t') :
    TakenOrWanted c fed h (fun oa => (oa.setOwner fed).setDivesting false)
      (·.addCandidate fed) t.1 t'.1 := by
  obtain ⟨oca, _, success⟩ := bind_success success
  obtain ⟨oa, found, success⟩ := bind_success success
  refine ⟨oa, Object.getAttribute_ok.mp found, ?_⟩
  split at success
  · rename_i free
    cases success
    exact .inl ⟨free, rfl⟩
  · rename_i owned
    cases success
    exact .inr ⟨by simpa using owned, rfl⟩

theorem cancelAcquisitionStep_success (success : cancelAcquisitionStep fed t h = .ok t') :
    ∃ oa, t.1.attribute? h = some oa ∧ t'.1 = t.1.setAttribute (oa.removeCandidate fed) := by
  obtain ⟨oa, found, success⟩ := bind_success success
  cases success
  exact ⟨oa, Object.getAttribute_ok.mp found, rfl⟩

theorem cancelNegotiatedStep_success (success : cancelNegotiatedStep t h = .ok t') :
    ∃ oa, t.1.attribute? h = some oa ∧ t'.1 = t.1.setAttribute (oa.setDivesting false) := by
  obtain ⟨oa, found, success⟩ := bind_success success
  cases success
  exact ⟨oa, Object.getAttribute_ok.mp found, rfl⟩

/-! ## Every service works on one and the same instance -/

theorem HandedOrKept.sameInstance {kept : ObjectAttribute → ObjectAttribute} {o' : Object}
    (step : HandedOrKept c h kept o o') : o.SameInstance o' := by
  obtain ⟨oa, _, ⟨newOwner, _, rfl⟩ | ⟨_, rfl⟩⟩ := step
  · exact grant_sameInstance o _ newOwner
  · exact o.setAttribute_sameInstance _

theorem TakenOrWanted.sameInstance {taken wanted : ObjectAttribute → ObjectAttribute}
    {o' : Object} (step : TakenOrWanted c fed h taken wanted o o') : o.SameInstance o' := by
  obtain ⟨oa, _, ⟨_, rfl⟩ | ⟨_, rfl⟩⟩ := step
  · exact grant_sameInstance o _ fed
  · exact o.setAttribute_sameInstance _

/-- A refused service leaves the object as it was. -/
theorem serve_sweep {pre : Except RTIException Unit} {p : Object → Prop}
    {step : Transfer → AttributeHandle → Except RTIException Transfer}
    (before : p o) (swept : pre = .ok () → p (sweep step (o, []) hs).1.1) :
    p (serve pre step o hs).1.1 := by
  unfold serve
  split
  · exact before
  · rename_i accepted
    exact swept rfl

/-- What every step keeps of the object, the service keeps. -/
theorem serve_invariant {pre : Except RTIException Unit} {p : Object → Prop}
    {step : Transfer → AttributeHandle → Except RTIException Transfer}
    (kept : ∀ t h t', p t.1 → step t h = .ok t' → p t'.1) (start : p o) :
    p (serve pre step o hs).1.1 :=
  serve_sweep start fun _ => sweep_invariant (p := fun t : Transfer => p t.1)
    (fun t h next _ => kept t h next) start

theorem serve_sameInstance {pre : Except RTIException Unit}
    {step : Transfer → AttributeHandle → Except RTIException Transfer}
    (kept : ∀ t h t', step t h = .ok t' → t.1.SameInstance t'.1) (o : Object)
    (hs : List AttributeHandle) : o.SameInstance (serve pre step o hs).1.1 :=
  serve_invariant (fun t h t' holds success => holds.trans (kept t h t' success)) (.refl o)

theorem unconditional_served (o : Object) (hs : List AttributeHandle) :
    (unconditionalAttributeOwnershipDivestiture c fed o hs).1 =
      (serve (unconditionalPreconditions c fed o hs) (unconditionalStep c) o hs).1 := by
  unfold unconditionalAttributeOwnershipDivestiture
  split <;> rename_i outcome <;> rw [outcome]

/-! ## What one step keeps -/

theorem attribute?_grant {oa b : ObjectAttribute} {newOwner : FederateHandle}
    {h' : AttributeHandle} (found : (grant c o oa newOwner).attribute? h' = some b) :
    (h' = oa.handle ∧ b = oa) ∨ (h' ≠ oa.handle ∧ o.attribute? h' = some b) := by
  have stored : (o.setAttribute oa).attribute? h' = some b := by
    unfold grant at found
    split at found
    · exact found
    · exact found
  exact Object.attribute?_setAttribute stored

theorem handed_consistent {oa : ObjectAttribute} {newOwner : FederateHandle}
    (before : o.Consistent c) (one : c.OnePrivilege) (found : o.attribute? h = some oa)
    (wanted : newOwner ∈ oa.candidates) :
    (grant c o (handOver oa newOwner) newOwner).Consistent c :=
  grant_consistent before one
    (handOver_consistent (before.attributes oa (Object.attribute?_mem found)) wanted) rfl

theorem forM_success {α : Type} {check : α → Except RTIException Unit} {as : List α}
    (success : as.forM check = .ok ()) : ∀ a ∈ as, check a = .ok () := by
  induction as with
  | nil => simp
  | cons a rest ih =>
    obtain ⟨_, head, tail⟩ := bind_success success
    intro b member
    rcases List.mem_cons.mp member with rfl | later
    · exact head
    · exact ih tail b later

/-! ## Negotiated divestiture -/

/-- What the steps still to come rely on: the listed attributes have an owner. -/
private def OwnedFor (c : ObjectClass) (hs : List AttributeHandle) (o : Object) : Prop :=
  o.Consistent c ∧ ∀ h ∈ hs, ∀ oa, o.attribute? h = some oa → oa.owner ≠ 0

private theorem negotiatedStep_owned (one : c.OnePrivilege) (member : h ∈ hs)
    (before : OwnedFor c hs t.1) (success : negotiatedStep c t h = .ok t') : OwnedFor c hs t'.1 := by
  obtain ⟨consistent, owned⟩ := before
  obtain ⟨oa, found, ⟨newOwner, wanted, result⟩ | ⟨_, result⟩⟩ := negotiatedStep_success success
  · rw [result]
    refine ⟨handed_consistent consistent one found wanted, ?_⟩
    intro h' listed b located
    rcases attribute?_grant located with ⟨_, rfl⟩ | ⟨_, old⟩
    · rintro (zero : newOwner = 0)
      rw [zero] at wanted
      exact (consistent.attributes oa (Object.attribute?_mem found)).zero_not_candidate wanted
    · exact owned h' listed b old
  · rw [result]
    have ok := consistent.attributes oa (Object.attribute?_mem found)
    have nonzero := owned h member oa found
    refine ⟨setAttribute_consistent consistent ⟨ok.owner_not_candidate, fun _ => nonzero,
      fun unowned => absurd unowned nonzero, ok.zero_not_candidate⟩
      (consistent.privilege oa (Object.attribute?_mem found)), ?_⟩
    intro h' listed b located
    rcases Object.attribute?_setAttribute located with ⟨_, rfl⟩ | ⟨_, old⟩
    · exact nonzero
    · exact owned h' listed b old

theorem checkNegotiated_success (success : checkNegotiated c fed o h = .ok ()) :
    ∀ oa, o.attribute? h = some oa → oa.owner = fed ∧ oa.divesting = false := by
  obtain ⟨oca, _, success⟩ := bind_success success
  obtain ⟨oa, found, success⟩ := bind_success success
  intro other located
  rw [Object.getAttribute_ok.mp found] at located
  cases located
  by_cases owner : oa.owner = fed
  · cases divesting : oa.divesting with
    | false => exact ⟨owner, rfl⟩
    | true => simp [owner, divesting, pure, bind, Except.pure, Except.bind, throw, throwThe,
        MonadExceptOf.throw] at success
  · simp [owner, bind, Except.bind, throw, throwThe, MonadExceptOf.throw] at success

theorem negotiated_consistent (before : o.Consistent c) (one : c.OnePrivilege) (member : fed ≠ 0) :
    (negotiatedAttributeOwnershipDivestiture c fed o hs).1.1.Consistent c := by
  refine serve_sweep before fun accepted => ?_
  obtain ⟨_, _, checks⟩ := bind_success accepted
  have start : OwnedFor c hs o := by
    refine ⟨before, fun h listed oa found => ?_⟩
    rw [(checkNegotiated_success (forM_success checks h listed) oa found).1]
    exact member
  refine (sweep_invariant (p := fun t : Transfer => OwnedFor c hs t.1) ?_ start).1
  intro t h next listed holds success
  exact negotiatedStep_owned one listed holds success

/-! ## Release response and cancellations -/

theorem releaseResponse_consistent (before : o.Consistent c) (one : c.OnePrivilege) :
    (attributeOwnershipReleaseResponse c fed o hs).1.1.Consistent c := by
  refine serve_invariant (p := fun o => o.Consistent c) ?_ before
  intro t h next holds success
  obtain ⟨oa, found, newOwner, wanted, result⟩ := releaseResponseStep_success success
  rw [result]
  exact handed_consistent holds one found wanted

theorem cancelAcquisition_consistent (before : o.Consistent c) :
    (cancelAttributeOwnershipAcquisition c fed o hs).1.1.Consistent c := by
  refine serve_invariant (p := fun o => o.Consistent c) ?_ before
  intro t h next holds success
  obtain ⟨oa, found, result⟩ := cancelAcquisitionStep_success success
  have belongs := Object.attribute?_mem found
  rw [result]
  exact setAttribute_consistent holds (removeCandidate_consistent (holds.attributes oa belongs))
    (holds.privilege oa belongs)

theorem cancelNegotiated_consistent (before : o.Consistent c) :
    (cancelNegotiatedAttributeOwnershipDivestiture fed o hs).1.1.Consistent c := by
  refine serve_invariant (p := fun o => o.Consistent c) ?_ before
  intro t h next holds success
  obtain ⟨oa, found, result⟩ := cancelNegotiatedStep_success success
  have belongs := Object.attribute?_mem found
  have ok := holds.attributes oa belongs
  rw [result]
  refine setAttribute_consistent holds ⟨ok.owner_not_candidate, ?_, ?_, ok.zero_not_candidate⟩
    (holds.privilege oa belongs)
  · intro divesting
    cases divesting
  · exact fun unowned => ⟨(ok.unowned_idle unowned).1, rfl⟩

/-! ## Unconditional divestiture -/

/-- The privilegeToDelete attribute never runs out of candidates: it is listed at most as
often as it has some. -/
def PrivilegeCovered (c : ObjectClass) (o : Object) (hs : List AttributeHandle) : Prop :=
  ∀ h ∈ hs, c.privileged h = true → ∀ oa, o.attribute? h = some oa →
    hs.count h ≤ oa.candidates.card

private theorem unconditionalStep_covered (one : c.OnePrivilege)
    (before : t.1.Consistent c ∧ PrivilegeCovered c t.1 (h :: hs))
    (success : unconditionalStep c t h = .ok t') :
    t'.1.Consistent c ∧ PrivilegeCovered c t'.1 hs := by
  obtain ⟨consistent, covered⟩ := before
  have later : ∀ h' ∈ hs, h' ≠ h → (h :: hs).count h' = hs.count h' := by
    intro h' _ different
    simp [Ne.symm different]
  obtain ⟨oa, found, ⟨newOwner, wanted, result⟩ | ⟨unwanted, result⟩⟩ :=
    unconditionalStep_success success
  · rw [result]
    refine ⟨handed_consistent consistent one found wanted, ?_⟩
    intro h' listed privileged b located
    have is : oa.handle = h := Object.attribute?_handle found
    rcases attribute?_grant located with ⟨this, rfl⟩ | ⟨different, old⟩
    · have same : h' = h := this.trans is
      subst same
      have enough := covered h' List.mem_cons_self privileged oa found
      rw [List.count_cons_self] at enough
      have fewer : (oa.candidates.erase newOwner).card + 1 = oa.candidates.card :=
        Finset.card_erase_add_one wanted
      change hs.count h' ≤ (oa.candidates.erase newOwner).card
      omega
    · have enough := covered h' (List.mem_cons_of_mem h listed) privileged b old
      have other : h' ≠ h := fun equal => different (equal.trans is.symm)
      rwa [later h' listed other] at enough
  · rw [result]
    have is : oa.handle = h := Object.attribute?_handle found
    have ok := consistent.attributes oa (Object.attribute?_mem found)
    have ordinary : c.privileged h = true → False := by
      intro privileged
      have enough := covered h List.mem_cons_self privileged oa found
      rw [List.count_cons_self, unwanted] at enough
      simp at enough
    refine ⟨setAttribute_consistent consistent ⟨?_, ?_, fun _ => ⟨unwanted, rfl⟩,
      ok.zero_not_candidate⟩ ?_, ?_⟩
    · exact ok.zero_not_candidate
    · intro divesting
      cases divesting
    · intro privileged
      exact absurd (is ▸ privileged : c.privileged h = true) ordinary
    · intro h' listed privileged b located
      rcases Object.attribute?_setAttribute located with ⟨this, rfl⟩ | ⟨different, old⟩
      · have same : h' = h := this.trans is
        subst same
        exact absurd privileged ordinary
      · have enough := covered h' (List.mem_cons_of_mem h listed) privileged b old
        have other : h' ≠ h := fun equal => different (equal.trans is.symm)
        rwa [later h' listed other] at enough

theorem unconditional_consistent (before : o.Consistent c) (one : c.OnePrivilege)
    (covered : unconditionalPreconditions c fed o hs = .ok () → PrivilegeCovered c o hs) :
    (unconditionalAttributeOwnershipDivestiture c fed o hs).1.1.Consistent c := by
  rw [unconditional_served]
  refine serve_sweep before fun accepted => ?_
  obtain ⟨rest, holds, _⟩ := sweep_invariant_rest
    (p := fun (t : Transfer) rest => t.1.Consistent c ∧ PrivilegeCovered c t.1 rest)
    (fun t h rest next holds success => unconditionalStep_covered one holds success)
    (s := (o, [])) ⟨before, covered accepted⟩
  exact holds

/-! ## Acquisition -/

/-- No attribute the federate would obtain is listed twice. -/
def ObtainedOnce (o : Object) (hs : List AttributeHandle) : Prop :=
  ∀ h ∈ hs, ∀ oa, o.attribute? h = some oa → obtainable oa = true → hs.count h ≤ 1

/-- What the steps still to come rely on. -/
private def Seekable (c : ObjectClass) (fed : FederateHandle) (o : Object)
    (hs : List AttributeHandle) : Prop :=
  o.Consistent c ∧ ObtainedOnce o hs ∧ ∀ h ∈ hs, ∀ oa, o.attribute? h = some oa → oa.owner ≠ fed

private theorem Seekable.step {taken wanted : ObjectAttribute → ObjectAttribute} {o' : Object}
    (one : c.OnePrivilege) (before : Seekable c fed o (h :: hs))
    (success : TakenOrWanted c fed h taken wanted o o')
    (takenOk : ∀ oa, o.attribute? h = some oa → obtainable oa = true →
      (taken oa).Consistent ∧ (taken oa).owner = fed ∧ (taken oa).handle = oa.handle)
    (wantedOk : ∀ oa, o.attribute? h = some oa → obtainable oa = false →
      (wanted oa).Consistent ∧ (wanted oa).owner = oa.owner ∧ (wanted oa).handle = oa.handle ∧
        (wanted oa).divesting = oa.divesting) :
    Seekable c fed o' hs := by
  obtain ⟨consistent, once, foreign⟩ := before
  have later : ∀ h' ∈ hs, ∀ b, o.attribute? h' = some b →
      (obtainable b = true → hs.count h' ≤ 1) ∧ b.owner ≠ fed := by
    intro h' listed b old
    refine ⟨fun free => ?_, foreign h' (List.mem_cons_of_mem h listed) b old⟩
    have bound := once h' (List.mem_cons_of_mem h listed) b old free
    exact le_trans List.count_le_count_cons bound
  obtain ⟨oa, found, ⟨free, result⟩ | ⟨owned, result⟩⟩ := success
  · obtain ⟨stored, owner, sameHandle⟩ := takenOk oa found free
    have is : (taken oa).handle = h := sameHandle.trans (Object.attribute?_handle found)
    -- the attribute obtained is not listed again
    have gone : h ∉ hs := by
      have bound := once h List.mem_cons_self oa found free
      rw [List.count_cons_self] at bound
      exact List.count_eq_zero.mp (by omega)
    rw [result]
    refine ⟨grant_consistent consistent one stored owner, ?_, ?_⟩
    · intro h' listed b located
      rcases attribute?_grant located with ⟨this, _⟩ | ⟨_, old⟩
      · exact absurd (this.trans is ▸ listed) gone
      · exact (later h' listed b old).1
    · intro h' listed b located
      rcases attribute?_grant located with ⟨this, _⟩ | ⟨_, old⟩
      · exact absurd (this.trans is ▸ listed) gone
      · exact (later h' listed b old).2
  · obtain ⟨stored, owner, sameHandle, divesting⟩ := wantedOk oa found owned
    have is : (wanted oa).handle = h := sameHandle.trans (Object.attribute?_handle found)
    have privilege := consistent.privilege oa (Object.attribute?_mem found)
    rw [result]
    refine ⟨setAttribute_consistent consistent stored ?_, ?_, ?_⟩
    · rw [sameHandle, owner]
      exact privilege
    · intro h' listed b located free
      rcases Object.attribute?_setAttribute located with ⟨_, rfl⟩ | ⟨_, old⟩
      · simp only [obtainable, owner, divesting] at free owned
        rw [owned] at free
        cases free
      · exact (later h' listed b old).1 free
    · intro h' listed b located
      rcases Object.attribute?_setAttribute located with ⟨_, rfl⟩ | ⟨_, old⟩
      · rw [owner]
        exact foreign h List.mem_cons_self oa found
      · exact (later h' listed b old).2

private theorem acquisitionStep_seekable (one : c.OnePrivilege) (member : fed ≠ 0)
    (before : Seekable c fed t.1 (h :: hs)) (success : acquisitionStep c fed t h = .ok t') :
    Seekable c fed t'.1 hs := by
  refine Seekable.step one before (acquisitionStep_success success) ?_ ?_
  · intro oa found _
    have ok := before.1.attributes oa (Object.attribute?_mem found)
    refine ⟨obtain_consistent (removeCandidate_consistent ok) member ?_, rfl, rfl⟩
    simp [ObjectAttribute.removeCandidate]
  · intro oa found owned
    have ok := before.1.attributes oa (Object.attribute?_mem found)
    refine ⟨addCandidate_consistent (removeCandidate_consistent ok) member
      (not_obtainable.mp owned).1 (before.2.2 h List.mem_cons_self oa found), rfl, rfl, rfl⟩

theorem checkAcquisition_success (success : checkAcquisition c fed o h = .ok ()) :
    ∀ oa, o.attribute? h = some oa → oa.owner ≠ fed := by
  obtain ⟨oca, _, success⟩ := bind_success success
  obtain ⟨oa, found, success⟩ := bind_success success
  intro other located
  rw [Object.getAttribute_ok.mp found] at located
  cases located
  intro owner
  simp [owner, bind, Except.bind, throw, throwThe, MonadExceptOf.throw] at success

theorem acquisition_consistent (before : o.Consistent c) (one : c.OnePrivilege) (member : fed ≠ 0)
    (once : acquisitionPreconditions c fed o hs = .ok () → ObtainedOnce o hs) :
    (attributeOwnershipAcquisition c fed o hs).1.1.Consistent c := by
  refine serve_sweep before fun accepted => ?_
  obtain ⟨_, checks, _⟩ := bind_success accepted
  have start : Seekable c fed o hs := ⟨before, once accepted, fun h listed oa found =>
    checkAcquisition_success (forM_success checks h listed) oa found⟩
  obtain ⟨rest, holds, _⟩ := sweep_invariant_rest
    (p := fun (t : Transfer) rest => Seekable c fed t.1 rest)
    (fun t h rest next holds success => acquisitionStep_seekable one member holds success)
    (s := (o, [])) start
  exact holds

/-! ## Acquisition if available -/

/-- The federate is no candidate of an attribute it would obtain. -/
private def Unsought (fed : FederateHandle) (o : Object) (hs : List AttributeHandle) : Prop :=
  ∀ h ∈ hs, ∀ oa, o.attribute? h = some oa → obtainable oa = true → fed ∉ oa.candidates

private theorem acquisitionIfAvailableStep_seekable (one : c.OnePrivilege) (member : fed ≠ 0)
    (before : Seekable c fed t.1 (h :: hs) ∧ Unsought fed t.1 (h :: hs))
    (success : acquisitionIfAvailableStep c fed t h = .ok t') :
    Seekable c fed t'.1 hs ∧ Unsought fed t'.1 hs := by
  obtain ⟨seekable, unsought⟩ := before
  have outcome := acquisitionIfAvailableStep_success success
  have next : Seekable c fed t'.1 hs := by
    refine Seekable.step one seekable outcome ?_ ?_
    · intro oa found free
      have ok := seekable.1.attributes oa (Object.attribute?_mem found)
      exact ⟨obtain_consistent ok member (unsought h List.mem_cons_self oa found free), rfl, rfl⟩
    · intro oa found owned
      have ok := seekable.1.attributes oa (Object.attribute?_mem found)
      exact ⟨addCandidate_consistent ok member (not_obtainable.mp owned).1
        (seekable.2.2 h List.mem_cons_self oa found), rfl, rfl, rfl⟩
  refine ⟨next, ?_⟩
  intro h' listed b located free
  obtain ⟨oa, found, ⟨available, result⟩ | ⟨owned, result⟩⟩ := outcome
  · rw [result] at located
    rcases attribute?_grant located with ⟨_, rfl⟩ | ⟨_, old⟩
    · exact unsought h List.mem_cons_self oa found available
    · exact unsought h' (List.mem_cons_of_mem h listed) b old free
  · rw [result] at located
    rcases Object.attribute?_setAttribute located with ⟨_, rfl⟩ | ⟨_, old⟩
    · change obtainable oa = true at free
      rw [owned] at free
      cases free
    · exact unsought h' (List.mem_cons_of_mem h listed) b old free

theorem checkAcquisitionIfAvailable_success
    (success : checkAcquisitionIfAvailable c fed o h = .ok ()) :
    ∀ oa, o.attribute? h = some oa → oa.owner ≠ fed ∧ fed ∉ oa.candidates := by
  obtain ⟨oca, _, success⟩ := bind_success success
  obtain ⟨oa, found, success⟩ := bind_success success
  intro other located
  rw [Object.getAttribute_ok.mp found] at located
  cases located
  by_cases refused : (!oca.isPublishing fed && !oca.isNamed "privilegeToDelete") = true
  · simp only [refused, if_true] at success
    cases success
  · simp only [refused] at success
    by_cases owner : oa.owner = fed
    · simp [owner, bind, Except.bind, pure, Except.pure, throw, throwThe,
        MonadExceptOf.throw] at success
    · refine ⟨owner, ?_⟩
      intro candidate
      simp [owner, candidate, ObjectAttribute.isCandidate, bind, Except.bind, pure, Except.pure,
        throw, throwThe, MonadExceptOf.throw] at success

theorem acquisitionIfAvailable_consistent (before : o.Consistent c) (one : c.OnePrivilege)
    (member : fed ≠ 0)
    (once : acquisitionIfAvailablePreconditions c fed o hs = .ok () → ObtainedOnce o hs) :
    (attributeOwnershipAcquisitionIfAvailable c fed o hs).1.1.Consistent c := by
  refine serve_sweep before fun accepted => ?_
  obtain ⟨_, _, checks⟩ := bind_success accepted
  dsimp only at checks
  split at checks
  · cases checks
  have each : ∀ h ∈ hs, ∀ oa, o.attribute? h = some oa → oa.owner ≠ fed ∧ fed ∉ oa.candidates :=
    fun h listed => checkAcquisitionIfAvailable_success (forM_success checks h listed)
  have start : Seekable c fed o hs ∧ Unsought fed o hs :=
    ⟨⟨before, once accepted, fun h listed oa found => (each h listed oa found).1⟩,
      fun h listed oa found _ => (each h listed oa found).2⟩
  obtain ⟨rest, holds, _⟩ := sweep_invariant_rest
    (p := fun (t : Transfer) rest => Seekable c fed t.1 rest ∧ Unsought fed t.1 rest)
    (fun t h rest next holds success =>
      acquisitionIfAvailableStep_seekable one member holds success)
    (s := (o, [])) start
  exact holds.1

end Ownership

end Certi
