import Certi.RTIG.Answers

/-!
# Saves over whole runs

Every accepted request for a save is answered by one verdict: when each federate
still joined has reported, and Federation_Saved exactly if they all reported
success. This is so in every run that meets `Saves`: a request finds members who
can be reached, nobody joins while a save is in progress or leaves it as the
last to report, and reports are made in a save only.
-/
namespace Certi

open Keyed Federation Runs Responses

/-! ## The statement -/

/-- Who has reported, and whether its save was complete. -/
abbrev Reports := List (FederateHandle × Bool)

/-- The federates told how a save ended, and whether it was saved. -/
def Responses.verdicts (sent : Responses) : Reports :=
  sent.filterMap fun response => match response.2 with
    | .federationSaved => some (response.1, true)
    | .federationNotSaved => some (response.1, false)
    | _ => none

/-- An accepted request begins a save, and an accepted report is added to it. -/
def heard (save : Option Reports) (entry : Event × Answer) : Option Reports :=
  match entry.1 with
  | .requestFederationSave .. => if entry.2.2 = none then some [] else save
  | .federateSaveStatus fed complete =>
    if entry.2.2 = none then save.map (· ++ [(fed, complete)]) else save
  | _ => save

/-- The reports of the save that no verdict has ended yet. -/
def currentSave (past : List (Event × Answer)) : Option Reports :=
  past.foldl (fun save entry => if verdicts entry.2.1 = [] then heard save entry else none) none

/-- Every joined federate of whom there are reports reported success each time. -/
def AllComplete (f : Federation) (reports : Reports) : Prop :=
  ∀ report ∈ reports, f.isJoined report.1 = true → report.2 = true

/-- What an event does about a save, after the events and answers of the past. -/
structure SavedSoundly (past : List (Event × Answer)) (f : Federation) (e : Event) : Prop where
  /-- A request is accepted only when no save is open. -/
  single : ∀ fed label timed, e = .requestFederationSave fed label timed →
    (rtig f e).2.2 = none → currentSave past = none
  /-- A verdict ends an open save: everybody still joined has reported, and is told once. -/
  verdict : verdicts (rtig f e).2.1 ≠ [] → currentSave past ≠ none ∧
    ∃ reports, heard (currentSave past) (e, (rtig f e).2) = some reports ∧
      (∀ g, (rtig f e).1.isJoined g = true → g ∈ reports.map Prod.fst) ∧
      (verdicts (rtig f e).2.1).Nodup ∧
      ∀ g saved, (g, saved) ∈ verdicts (rtig f e).2.1 ↔
        (rtig f e).1.isJoined g = true ∧ (saved = true ↔ AllComplete (rtig f e).1 reports)
  /-- A save stays open only as long as somebody has not reported. -/
  awaits : ∀ reports, currentSave (past ++ [(e, (rtig f e).2)]) = some reports →
    ∃ g, (rtig f e).1.isJoined g = true ∧ g ∉ reports.map Prod.fst
  /-- Without an open save the next request is accepted. -/
  ready : currentSave (past ++ [(e, (rtig f e).2)]) = none → ∀ fed label,
    (rtig f e).1.check fed = true → (rtig f e).1.AllReachable →
      ((rtig f e).1.requestFederationSave fed label false).error = none

/-- The federate has reported a failure in the open save. -/
def HasFailed (past : List (Event × Answer)) (fed : FederateHandle) : Prop :=
  (fed, false) ∈ (currentSave past).getD []

/-- A federate that leaves a save leaves somebody behind who has still to report, and is not
the only one to have reported a failure. -/
def LeavesSave (past : List (Event × Answer)) (f : Federation) (fed : FederateHandle) : Prop :=
  f.isJoined fed = true → f.saveInProgress = true →
    (∃ other ∈ f.federates, other.handle ≠ fed ∧ other.isSaving = true) ∧
      (HasFailed past fed → ∃ other ∈ f.federates, other.handle ≠ fed ∧ HasFailed past other.handle)

/-- The condition on an event. -/
def Saves (run : List (Event × Answer) × Federation) : Event → Prop
  | .join name _ =>
    run.2.saveInProgress = true → run.2.federates.any (fun fed => fed.name = name) = true
  | .resign fed | .kill fed => LeavesSave run.1 run.2 fed
  | .requestFederationSave fed _ timed =>
    run.2.check fed = true → run.2.saveInProgress = false →
      run.2.federates ≠ [] ∧ timed = false ∧ run.2.AllReachable
  | .federateSaveStatus fed complete =>
    run.2.isJoined fed = true → run.2.saveInProgress = true ∧
      ((∀ other ∈ run.2.federates, other.isSaving = true → other.handle = fed) →
        run.2.AllReachable ∧ ((run.2.saveStatus && complete) = true → run.2.haveXml = true))
  | _ => True

/-! ## Reading the past -/

theorem verdicts_of_about {topics : List Topic} {sent : Responses} (about : About topics sent)
    (other : .saving ∉ topics) : verdicts sent = [] := by
  refine List.filterMap_eq_nil_iff.mpr fun response member => ?_
  have topic := about response member
  split
  · rename_i message
    rw [message] at topic
    exact absurd topic other
  · rename_i message
    rw [message] at topic
    exact absurd topic other
  · rfl

theorem currentSave_snoc (past : List (Event × Answer)) (entry : Event × Answer) :
    currentSave (past ++ [entry]) =
      if verdicts entry.2.1 = [] then heard (currentSave past) entry else none := by
  simp [currentSave, List.foldl_append]

theorem currentSave_silent (past : List (Event × Answer)) {entry : Event × Answer}
    (silent : verdicts entry.2.1 = []) :
    currentSave (past ++ [entry]) = heard (currentSave past) entry := by
  rw [currentSave_snoc, if_pos silent]

/-! ## What a save sees of a federation -/

/-- The members with their saving flags, and the flags of the federation. -/
structure SaveView where
  members : List (FederateHandle × Bool)
  inProgress : Bool
  status : Bool

def Federation.saveView (f : Federation) : SaveView :=
  ⟨f.federates.map fun fed => (fed.handle, fed.isSaving), f.saveInProgress, f.saveStatus⟩

namespace SaveView

/-- A save under way: who is saving has not reported yet, somebody is, and the status says
whether a member has failed. -/
structure During (reports : Reports) (v : SaveView) : Prop where
  saving : ∀ m ∈ v.members, m.2 = true ↔ m.1 ∉ reports.map Prod.fst
  waiting : ∃ m ∈ v.members, m.2 = true
  status : v.status = true ↔ (∀ r ∈ reports, r.1 ∈ v.members.map Prod.fst → r.2 = true)

structure Sound (past : List (Event × Answer)) (v : SaveView) : Prop where
  opened : v.inProgress = (currentSave past).isSome
  during : ∀ reports, currentSave past = some reports → v.During reports

variable {past : List (Event × Answer)} {v : SaveView} {entry : Event × Answer}
  {fed : FederateHandle} {reports : Reports}

theorem Sound.closed (sound : v.Sound past) (idle : v.inProgress = false) :
    currentSave past = none := by
  have opened := sound.opened
  rw [idle] at opened
  exact Option.not_isSome_iff_eq_none.mp (by rw [← opened]; decide)

/-- Nothing is heard, and nothing changes. -/
theorem Sound.quiet (sound : v.Sound past) (silent : verdicts entry.2.1 = [])
    (unheard : heard (currentSave past) entry = currentSave past) :
    v.Sound (past ++ [entry]) := by
  have same : currentSave (past ++ [entry]) = currentSave past := by
    rw [currentSave_silent past silent, unheard]
  exact ⟨by rw [same]; exact sound.opened, by rw [same]; exact sound.during⟩

/-! ### Leaving -/

def leave (v : SaveView) (fed : FederateHandle) : SaveView :=
  { v with members := drop Prod.fst fed v.members }

theorem During.leave (during : v.During reports)
    (waits : ∃ m ∈ v.members, m.1 ≠ fed ∧ m.2 = true)
    (fails : (fed, false) ∈ reports → ∃ m ∈ v.members, m.1 ≠ fed ∧ (m.1, false) ∈ reports) :
    (v.leave fed).During reports := by
  refine ⟨fun m member => during.saving m (mem_drop.mp member).1, ?_, ?_⟩
  · obtain ⟨m, member, other, saving⟩ := waits
    exact ⟨m, mem_drop.mpr ⟨member, other⟩, saving⟩
  · have listed : ∀ {g}, g ∈ (v.leave fed).members.map Prod.fst ↔
        g ∈ v.members.map Prod.fst ∧ g ≠ fed := by
      intro g
      rw [SaveView.leave, map_key_drop, List.mem_filter]
      simp
    change v.status = true ↔ _
    rw [during.status]
    constructor
    · exact fun all r belongs member => all r belongs (listed.mp member).1
    · intro all r belongs member
      by_cases same : r.1 = fed
      · by_contra failed
        have failure : (fed, false) ∈ reports := by
          have this : r = (fed, false) := Prod.ext same (by simpa using failed)
          rw [← this]
          exact belongs
        -- another member has failed too, and stays
        obtain ⟨m, still, other, hasFailed⟩ := fails failure
        have complete := all _ hasFailed (listed.mpr ⟨List.mem_map.mpr ⟨m, still, rfl⟩, other⟩)
        cases complete
      · exact all r belongs (listed.mpr ⟨member, same⟩)

/-! ### Requesting -/

def request (v : SaveView) : SaveView :=
  ⟨v.members.map fun m => (m.1, true), true, true⟩

theorem request_during (joined : v.members ≠ []) : v.request.During [] := by
  refine ⟨?_, ?_, by simp [request]⟩
  · intro m member
    obtain ⟨old, _, rfl⟩ := List.mem_map.mp member
    simp
  · obtain ⟨m, member⟩ := List.exists_mem_of_ne_nil _ joined
    exact ⟨(m.1, true), List.mem_map.mpr ⟨m, member, rfl⟩, rfl⟩

/-! ### Reporting -/

def report (v : SaveView) (fed : FederateHandle) (complete : Bool) : SaveView :=
  { v with
    members := adjust Prod.fst fed (fun m => (m.1, false)) v.members
    status := v.status && complete }

theorem mem_report {complete : Bool} {m : FederateHandle × Bool} :
    m ∈ (v.report fed complete).members ↔
      (m ∈ v.members ∧ m.1 ≠ fed) ∨ ∃ old ∈ v.members, old.1 = fed ∧ (old.1, false) = m :=
  mem_adjust

theorem report_handles (v : SaveView) (fed : FederateHandle) (complete : Bool) :
    (v.report fed complete).members.map Prod.fst = v.members.map Prod.fst := by
  change (adjust Prod.fst fed _ v.members).map Prod.fst = _
  refine map_key_adjust ?_ v.members
  exact fun _ same => same

/-- After a report, whoever is still saving has not reported. -/
theorem report_saving (during : v.During reports) (fed : FederateHandle) (complete : Bool) :
    ∀ m ∈ (v.report fed complete).members,
      m.2 = true ↔ m.1 ∉ (reports ++ [(fed, complete)]).map Prod.fst := by
  intro m member
  rw [List.map_append, List.mem_append, not_or]
  rcases mem_report.mp member with ⟨belongs, other⟩ | ⟨old, _, same, rfl⟩
  · rw [during.saving m belongs]
    simp [other]
  · simp [same]

theorem report_status (during : v.During reports) (joined : fed ∈ v.members.map Prod.fst)
    (complete : Bool) : (v.report fed complete).status = true ↔
      ∀ r ∈ reports ++ [(fed, complete)], r.1 ∈ v.members.map Prod.fst → r.2 = true := by
  change (v.status && complete) = true ↔ _
  rw [Bool.and_eq_true, during.status]
  constructor
  · rintro ⟨before, now⟩ r belongs member
    rcases List.mem_append.mp belongs with old | new
    · exact before r old member
    · rw [List.mem_singleton.mp new]
      exact now
  · intro all
    refine ⟨fun r belongs => all r (List.mem_append_left _ belongs), ?_⟩
    exact all (fed, complete) (by simp) joined

/-- Somebody still has to report. -/
theorem During.report (during : v.During reports) (joined : fed ∈ v.members.map Prod.fst)
    {complete : Bool} (waits : ∃ m ∈ (v.report fed complete).members, m.2 = true) :
    (v.report fed complete).During (reports ++ [(fed, complete)]) := by
  refine ⟨report_saving during fed complete, waits, ?_⟩
  rw [report_handles]
  exact report_status during joined complete

end SaveView

/-! ## What the services do to the view -/

namespace Federation

variable {f f' : Federation} {past : List (Event × Answer)} {fed : FederateHandle} {e : Event}

theorem mem_members {m : FederateHandle × Bool} :
    m ∈ f.saveView.members ↔ ∃ record ∈ f.federates, (record.handle, record.isSaving) = m :=
  List.mem_map

theorem members_handles (f : Federation) :
    f.saveView.members.map Prod.fst = f.federates.map Federate.handle := by
  simp [saveView, Function.comp_def]

theorem saveView_congr
    (members : f'.federates.map (fun fed => (fed.handle, fed.isSaving)) =
      f.federates.map (fun fed => (fed.handle, fed.isSaving)))
    (progress : f'.saveInProgress = f.saveInProgress) (status : f'.saveStatus = f.saveStatus) :
    f'.saveView = f.saveView := by
  simp only [saveView, members, progress, status]

theorem saveView_of_timeless (same : f'.timeless = f.timeless) : f'.saveView = f.saveView :=
  saveView_congr
    (map_of_erased (e := Federate.timeless) (fun _ => rfl) (congrArg Federation.federates same))
    (congrArg Federation.saveInProgress same :) (congrArg Federation.saveStatus same :)

theorem saveView_of_unlabelled (same : f'.unlabelled = f.unlabelled) :
    f'.saveView = f.saveView :=
  saveView_congr
    (map_of_erased (e := Federate.unlabelled) (fun _ => rfl) (congrArg Federation.federates same))
    (congrArg Federation.saveInProgress same :) (congrArg Federation.saveStatus same :)

theorem saveView_of_onlyRoot (same : OnlyRoot f f') : f'.saveView = f.saveView := by
  rw [same.rest]
  rfl

/-- A request by a member, with everybody in reach, begins a save. -/
theorem requestFederationSave_ok (numbered : f.Numbered) (member : f.check fed = true)
    (idle : f.saveInProgress = false) (reachable : f.AllReachable) (label : String) :
    f.requestFederationSave fed label false = .done (f.startSave label)
      ((f.federates.map Federate.handle).map (·, .initiateFederateSave label)) := by
  have handles : (f.startSave label).federates.map Federate.handle =
      f.federates.map Federate.handle := by
    rw [startSave, List.map_map]
    rfl
  have responses := respondToAll_ok (f := f.startSave label) (.initiateFederateSave label)
    (by
      intro record belongs
      obtain ⟨old, member, rfl⟩ := List.mem_map.mp belongs
      exact reachable old member)
    (by
      intro record belongs
      obtain ⟨old, member, rfl⟩ := List.mem_map.mp belongs
      exact (numbered.bounds old member).1)
  rw [handles] at responses
  unfold requestFederationSave asMember
  rw [if_pos member, idle, if_neg Bool.false_ne_true]
  dsimp only
  rw [responses]
  rfl

/-- What follows from the invariant in the next state. -/
theorem savedSoundly_of_next (numbered : (rtig f e).1.Numbered)
    (next : (rtig f e).1.saveView.Sound (past ++ [(e, (rtig f e).2)]))
    (single : ∀ fed label timed, e = .requestFederationSave fed label timed →
      (rtig f e).2.2 = none → currentSave past = none)
    (verdict : verdicts (rtig f e).2.1 ≠ [] → currentSave past ≠ none ∧
      ∃ reports, heard (currentSave past) (e, (rtig f e).2) = some reports ∧
        (∀ g, (rtig f e).1.isJoined g = true → g ∈ reports.map Prod.fst) ∧
        (verdicts (rtig f e).2.1).Nodup ∧
        ∀ g saved, (g, saved) ∈ verdicts (rtig f e).2.1 ↔
          (rtig f e).1.isJoined g = true ∧ (saved = true ↔ AllComplete (rtig f e).1 reports)) :
    SavedSoundly past f e := by
  refine ⟨single, verdict, fun reports opened => ?_, fun closed fed label member reachable => ?_⟩
  · have during := next.during reports opened
    obtain ⟨m, member, saving⟩ := during.waiting
    refine ⟨m.1, ?_, (during.saving m member).mp saving⟩
    rw [isJoined_iff, ← members_handles]
    exact List.mem_map.mpr ⟨m, member, rfl⟩
  · have idle : (rtig f e).1.saveInProgress = false := by
      have progress := next.opened
      rw [closed] at progress
      exact progress
    rw [requestFederationSave_ok numbered member idle reachable label]
    rfl

/-- Everything an event does to a save. -/
structure SaveStep (past : List (Event × Answer)) (f : Federation) (e : Event) : Prop where
  next : (rtig f e).1.saveView.Sound (past ++ [(e, (rtig f e).2)])
  soundly : SavedSoundly past f e

/-- No verdict is sent, and no request accepted. -/
theorem SaveStep.silent (numbered : f.Numbered)
    (next : (rtig f e).1.saveView.Sound (past ++ [(e, (rtig f e).2)]))
    (silent : verdicts (rtig f e).2.1 = [])
    (unrequested : ∀ fed label timed, e = .requestFederationSave fed label timed →
      (rtig f e).2.2 ≠ none) : SaveStep past f e :=
  ⟨next, savedSoundly_of_next (rtig_numbered numbered e) next
    (fun fed label timed request accepted => absurd accepted (unrequested fed label timed request))
    (fun sent => absurd silent sent)⟩

/-- An event that leaves the view alone and adds nothing to a save. -/
theorem SaveStep.quiet (numbered : f.Numbered) (sound : f.saveView.Sound past)
    (view : (rtig f e).1.saveView = f.saveView) (silent : verdicts (rtig f e).2.1 = [])
    (unheard : e.topics ≠ [.saving] ∨ (rtig f e).2.2 ≠ none) : SaveStep past f e := by
  have kept : heard (currentSave past) (e, (rtig f e).2) = currentSave past := by
    unfold heard
    rcases unheard with other | refused
    · cases e <;> first | rfl | exact absurd rfl other
    · dsimp only
      split
      · rw [if_neg refused]
      · rw [if_neg refused]
      · rfl
  refine .silent numbered ?_ silent ?_
  · rw [view]
    exact sound.quiet silent kept
  · rintro fed label timed rfl
    rcases unheard with other | refused
    · exact absurd rfl other
    · exact refused

/-- An event about something else. -/
theorem SaveStep.other (running : f.crashed = false) (numbered : f.Numbered)
    (sound : f.saveView.Sound past) (view : (f.perform e).state.saveView = f.saveView)
    (topics : Topic.saving ∉ e.topics) : SaveStep past f e := by
  have about := perform_about f e
  refine .quiet numbered sound ?_ ?_ (.inl ?_)
  · rw [rtig_perform running]
    exact view
  · rw [rtig_perform running]
    exact verdicts_of_about about topics
  · intro equal
    rw [equal] at topics
    exact topics List.mem_cons_self

/-! ### Joining and leaving -/

/-- Somebody joins only while no save is in progress, so that no save sees it. -/
theorem join_saveStep (running : f.crashed = false) (numbered : f.Numbered)
    (sound : f.saveView.Sound past) (name : String) (conditions : JoinConditions)
    (ok : Saves (past, f) (.join name conditions)) : SaveStep past f (.join name conditions) := by
  have about := perform_about f (.join name conditions)
  have silent := verdicts_of_about about (by simp [Event.topics])
  cases progress : f.saveInProgress with
  | true =>
    have known : f.add name conditions = .refused f .federateAlreadyExecutionMember := by
      unfold add
      dsimp only
      rw [if_pos (ok progress)]
    exact .other running numbered sound (by rw [perform, known]; rfl) (by simp [Event.topics])
  | false =>
    have still : (f.perform (.join name conditions)).state.saveInProgress = false := by
      rw [← progress, perform]
      rcases add_outcomes f name conditions with result | result | result | result <;>
        rw [result] <;> rfl
    have after : currentSave (past ++ [(.join name conditions,
        (rtig f (.join name conditions)).2)]) = none := by
      rw [rtig_perform running, currentSave_silent past silent]
      exact sound.closed progress
    refine .silent numbered ?_ ?_ ?_
    · refine ⟨?_, fun reports opened => ?_⟩
      · rw [after, rtig_perform running]
        exact still
      · rw [after] at opened
        cases opened
    · rw [rtig_perform running]
      exact silent
    · simp

theorem leave_saveStep (running : f.crashed = false) (numbered : f.Numbered)
    (sound : f.saveView.Sound past) (joined : f.isJoined fed = true)
    (ok : LeavesSave past f fed) (left : e = .resign fed ∨ e = .kill fed)
    (view : (f.perform e).state.saveView = f.saveView.leave fed) : SaveStep past f e := by
  have topics : Topic.saving ∉ e.topics := by
    rcases left with rfl | rfl <;> simp [Event.topics]
  have silent := verdicts_of_about (perform_about f e) topics
  have after : currentSave (past ++ [(e, (rtig f e).2)]) = currentSave past := by
    rw [rtig_perform running, currentSave_silent past silent]
    rcases left with rfl | rfl <;> rfl
  refine .silent numbered ?_ ?_ ?_
  · have same : (rtig f e).1.saveView = f.saveView.leave fed := by
      rw [rtig_perform running]
      exact view
    rw [same]
    refine ⟨by rw [after]; exact sound.opened, fun reports opened => ?_⟩
    rw [after] at opened
    have progress : f.saveInProgress = true := by
      have flag := sound.opened
      rw [opened] at flag
      exact flag
    obtain ⟨⟨other, member, stays, saving⟩, fails⟩ := ok joined progress
    refine (sound.during reports opened).leave ⟨_, mem_members.mpr ⟨other, member, rfl⟩, stays,
      saving⟩ fun failed => ?_
    have hasFailed : HasFailed past fed := by
      rw [HasFailed, opened]
      exact failed
    obtain ⟨another, belongs, remains, failedToo⟩ := fails hasFailed
    rw [HasFailed, opened] at failedToo
    exact ⟨_, mem_members.mpr ⟨another, belongs, rfl⟩, remains, failedToo⟩
  · rw [rtig_perform running]
    exact silent
  · rcases left with rfl | rfl <;> simp

theorem drop_saveView (f : Federation) (fed : FederateHandle) :
    saveView { f with federates := drop Federate.handle fed f.federates } =
      f.saveView.leave fed := by
  simp only [saveView, SaveView.leave, drop, List.filter_map]
  rfl

theorem remove_saveStep (running : f.crashed = false) (numbered : f.Numbered)
    (sound : f.saveView.Sound past) (ok : LeavesSave past f fed) :
    SaveStep past f (.resign fed) := by
  rcases remove_cases f fed with refused | ⟨joined, removed⟩
  · exact .other running numbered sound (by rw [perform, refused]; rfl) (by simp [Event.topics])
  · refine leave_saveStep running numbered sound joined ok (.inl rfl) ?_
    rw [perform, removed]
    exact drop_saveView f fed

theorem kill_saveStep (running : f.crashed = false) (numbered : f.Numbered)
    (sound : f.saveView.Sound past) (ok : LeavesSave past f fed) :
    SaveStep past f (.kill fed) := by
  rcases kill_cases f fed with refused | ⟨joined, result, _, _⟩
  · exact .other running numbered sound (by rw [perform, refused]; rfl) (by simp [Event.topics])
  · refine leave_saveStep running numbered sound joined ok (.inr rfl) ?_
    have unregulated := saveView_of_timeless (removeRegulator_timeless (f.closeLink fed) fed)
    have dropped := drop_saveView ((f.closeLink fed).removeRegulator fed).state fed
    rw [unregulated] at dropped
    rw [perform, result]
    exact dropped

/-! ### Requesting -/

theorem request_saveStep (running : f.crashed = false) (numbered : f.Numbered)
    (sound : f.saveView.Sound past) (label : String) (timed : Bool)
    (ok : Saves (past, f) (.requestFederationSave fed label timed)) :
    SaveStep past f (.requestFederationSave fed label timed) := by
  by_cases admitted : f.check fed = true ∧ f.saveInProgress = false
  · obtain ⟨member, idle⟩ := admitted
    obtain ⟨joined, rfl, reachable⟩ := ok member idle
    have step := rtig_perform (e := .requestFederationSave fed label false) running
    rw [perform, requestFederationSave_ok numbered member idle reachable label] at step
    dsimp only [Outcome.done] at step
    have silent : verdicts (rtig f (.requestFederationSave fed label false)).2.1 = [] := by
      rw [step]
      simp [verdicts]
    have closed := sound.closed idle
    have begun : currentSave (past ++ [(.requestFederationSave fed label false,
        (rtig f (.requestFederationSave fed label false)).2)]) = some [] := by
      rw [currentSave_silent past silent, step]
      rfl
    have next : (rtig f (.requestFederationSave fed label false)).1.saveView.Sound
        (past ++ [(.requestFederationSave fed label false,
          (rtig f (.requestFederationSave fed label false)).2)]) := by
      have view : (rtig f (.requestFederationSave fed label false)).1.saveView =
          f.saveView.request := by
        rw [step]
        simp only [saveView, startSave, SaveView.request, List.map_map]
        rfl
      rw [view]
      refine ⟨by rw [begun]; rfl, fun reports opened => ?_⟩
      rw [begun] at opened
      cases opened
      refine SaveView.request_during ?_
      rw [saveView, ne_eq, List.map_eq_nil_iff]
      exact joined
    exact ⟨next, savedSoundly_of_next (rtig_numbered numbered _) next (fun _ _ _ _ _ => closed)
      fun sent => absurd silent sent⟩
  · -- a request by no member, or during another save
    have refused : ∃ e, f.requestFederationSave fed label timed = .refused f e := by
      unfold requestFederationSave asMember
      split
      · rename_i member
        rw [if_pos (by simpa using fun idle => admitted ⟨member, idle⟩)]
        exact ⟨_, rfl⟩
      · exact ⟨_, rfl⟩
    obtain ⟨error, result⟩ := refused
    have step := rtig_perform (e := .requestFederationSave fed label timed) running
    rw [perform, result] at step
    refine .quiet numbered sound ?_ ?_ (.inr ?_) <;> rw [step]
    · rfl
    · rfl
    · simp [Outcome.refused]

/-! ### Reporting -/

theorem reported_saveView (f : Federation) (fed : FederateHandle) (complete : Bool) :
    (f.reported fed complete).saveView = f.saveView.report fed complete := by
  have members : (f.reported fed complete).federates.map (fun r => (r.handle, r.isSaving)) =
      adjust Prod.fst fed (fun m => (m.1, false)) (f.federates.map fun r => (r.handle, r.isSaving)) := by
    simp only [reported, adjustFederate, adjust, List.map_map]
    refine List.map_congr_left fun record _ => ?_
    by_cases same : record.handle = fed <;> simp [same]
  simp only [saveView, SaveView.report, members]
  rfl

theorem reported_handles (f : Federation) (fed : FederateHandle) (complete : Bool) :
    (f.reported fed complete).federates.map Federate.handle = f.federates.map Federate.handle :=
  adjustFederate_map fun _ => rfl

/-- Refused, heard with others still to come, or heard as the last. -/
theorem federateSaveStatus_cases (f : Federation) (fed : FederateHandle) (complete : Bool) :
    f.federateSaveStatus fed complete = .refused f .federateNotExecutionMember ∨
      f.isJoined fed = true ∧
        (((∃ other ∈ (f.reported fed complete).federates, other.isSaving = true) ∧
            f.federateSaveStatus fed complete = .done (f.reported fed complete) []) ∨
          ((∀ other ∈ (f.reported fed complete).federates, other.isSaving ≠ true) ∧
            f.federateSaveStatus fed complete =
              match (f.reported fed complete).respondToAll
                (if ((f.reported fed complete).saveStatus && f.haveXml) = true then .federationSaved
                  else .federationNotSaved) 0 with
              | .error e => .refused { f.reported fed complete with
                  saveStatus := (f.reported fed complete).saveStatus && f.haveXml } e
              | .ok sent => .done { f.reported fed complete with
                  saveStatus := true, saveInProgress := false } sent)) := by
  unfold federateSaveStatus withFederate
  split
  · rename_i record found
    refine .inr ⟨by rw [isJoined, found]; rfl, ?_⟩
    dsimp only
    split
    · rename_i still
      exact .inl ⟨List.any_eq_true.mp still, rfl⟩
    · rename_i last
      refine .inr ⟨fun other member saving => last ?_, rfl⟩
      exact List.any_eq_true.mpr ⟨other, member, saving⟩
  · exact .inl rfl

theorem verdicts_broadcast (recipients : List FederateHandle) (saved : Bool) :
    verdicts (recipients.map
        (·, if saved = true then NetworkMessage.federationSaved else .federationNotSaved)) =
      recipients.map (·, saved) := by
  induction recipients with
  | nil => rfl
  | cons g rest ih =>
    unfold verdicts at ih ⊢
    rw [List.map_cons, List.filterMap_cons, ih]
    cases saved <;> rfl

/-- The last to report, in reach of everybody, ends the save. -/
theorem federateSaveStatus_last (numbered : f.Numbered) (reachable : f.AllReachable)
    {complete saved : Bool} (status : ((f.saveStatus && complete) && f.haveXml) = saved) :
    (f.reported fed complete).respondToAll
      (if ((f.reported fed complete).saveStatus && f.haveXml) = true then .federationSaved
        else .federationNotSaved) 0 =
      .ok ((f.federates.map Federate.handle).map
        (·, if saved = true then .federationSaved else .federationNotSaved)) := by
  have kept : ∀ record ∈ (f.reported fed complete).federates,
      ∃ old ∈ f.federates, old.handle = record.handle := by
    intro record member
    have listed := List.mem_map_of_mem (f := Federate.handle) member
    rw [reported_handles] at listed
    exact List.mem_map.mp listed
  have responses := respondToAll_ok (f := f.reported fed complete)
    (if saved = true then .federationSaved else .federationNotSaved)
    (by
      intro record member
      obtain ⟨old, belongs, same⟩ := kept record member
      rw [← same]
      exact reachable old belongs)
    (by
      intro record member
      obtain ⟨old, belongs, same⟩ := kept record member
      rw [← same]
      exact (numbered.bounds old belongs).1)
  rw [reported_handles] at responses
  rw [show ((f.reported fed complete).saveStatus && f.haveXml) = saved from status]
  exact responses

/-- The last report is followed by the verdict it decides. -/
theorem verdict_saveStep (running : f.crashed = false) (numbered : f.Numbered)
    (sound : f.saveView.Sound past) {complete : Bool} (joined : f.isJoined fed = true)
    (progress : f.saveInProgress = true) (reachable : f.AllReachable)
    (xml : (f.saveStatus && complete) = true → f.haveXml = true)
    (last : ∀ other ∈ (f.reported fed complete).federates, other.isSaving ≠ true)
    (result : (f.perform (.federateSaveStatus fed complete)) = .done { f.reported fed complete with
        saveStatus := true, saveInProgress := false }
      ((f.federates.map Federate.handle).map
        (·, if (f.saveStatus && complete) = true then NetworkMessage.federationSaved
          else .federationNotSaved))) :
    SaveStep past f (.federateSaveStatus fed complete) := by
  have step := rtig_perform (e := .federateSaveStatus fed complete) running
  rw [result] at step
  dsimp only [Outcome.done] at step
  obtain ⟨reports, opened⟩ : ∃ reports, currentSave past = some reports := by
    have flag := sound.opened
    rw [show f.saveView.inProgress = true from progress] at flag
    exact Option.isSome_iff_exists.mp flag.symm
  have during := sound.during reports opened
  have told : verdicts (rtig f (.federateSaveStatus fed complete)).2.1 =
      (f.federates.map Federate.handle).map (·, f.saveStatus && complete) := by
    rw [step]
    exact verdicts_broadcast _ _
  have member : fed ∈ f.saveView.members.map Prod.fst := by
    rw [members_handles]
    exact isJoined_iff.mp joined
  have somebody : verdicts (rtig f (.federateSaveStatus fed complete)).2.1 ≠ [] := by
    rw [told, ne_eq, List.map_eq_nil_iff, ← members_handles]
    exact List.ne_nil_of_mem member
  have ended : currentSave (past ++ [(.federateSaveStatus fed complete,
      (rtig f (.federateSaveStatus fed complete)).2)]) = none := by
    rw [currentSave_snoc, if_neg somebody]
  have members : ∀ g, (rtig f (.federateSaveStatus fed complete)).1.isJoined g = true ↔
      g ∈ f.saveView.members.map Prod.fst := by
    intro g
    rw [isJoined_iff, step, members_handles]
    exact Iff.of_eq (congrArg (g ∈ ·) (reported_handles f fed complete))
  have next : (rtig f (.federateSaveStatus fed complete)).1.saveView.Sound
      (past ++ [(.federateSaveStatus fed complete,
        (rtig f (.federateSaveStatus fed complete)).2)]) := by
    refine ⟨?_, fun reports open' => ?_⟩
    · rw [ended, step]
      rfl
    · rw [ended] at open'
      cases open'
  refine ⟨next, savedSoundly_of_next (rtig_numbered numbered _) next (by simp) fun _ => ?_⟩
  refine ⟨by rw [opened]; simp, reports ++ [(fed, complete)], ?_, ?_, ?_, ?_⟩
  · rw [opened, step]
    rfl
  · intro g here
    rw [members] at here
    -- nobody saves any more, and who does not save has reported
    rw [← SaveView.report_handles _ fed complete] at here
    obtain ⟨m, belongs, rfl⟩ := List.mem_map.mp here
    have saving := SaveView.report_saving during fed complete m belongs
    rw [← reported_saveView] at belongs
    obtain ⟨record, stays, rfl⟩ := mem_members.mp belongs
    by_contra missing
    exact last record stays (saving.mpr missing)
  · rw [told]
    refine List.Nodup.map (fun a b same => (Prod.mk.inj same).1) numbered.distinct
  · intro g saved
    have status := SaveView.report_status during member complete
    rw [told, List.mem_map, members, members_handles]
    constructor
    · rintro ⟨h, here, same⟩
      cases same
      refine ⟨here, ?_⟩
      change (f.saveView.report fed complete).status = true ↔ _
      rw [status]
      exact forall₂_congr fun r _ => imp_congr_left (members r.1).symm
    · rintro ⟨here, decided⟩
      refine ⟨g, here, Prod.ext rfl ?_⟩
      change (f.saveView.report fed complete).status = saved
      rw [Bool.eq_iff_iff, status, decided]
      exact forall₂_congr fun r _ => imp_congr_left (members r.1).symm

theorem status_saveStep (running : f.crashed = false) (numbered : f.Numbered)
    (sound : f.saveView.Sound past) (complete : Bool)
    (ok : Saves (past, f) (.federateSaveStatus fed complete)) :
    SaveStep past f (.federateSaveStatus fed complete) := by
  have step := rtig_perform (e := .federateSaveStatus fed complete) running
  rcases federateSaveStatus_cases f fed complete with refused | ⟨joined, ⟨waits, result⟩ | ⟨last, result⟩⟩
  · rw [perform, refused] at step
    refine .quiet numbered sound ?_ ?_ (.inr ?_) <;> rw [step]
    · rfl
    · rfl
    · simp [Outcome.refused]
  · rw [perform, result] at step
    dsimp only [Outcome.done] at step
    have view : (rtig f (.federateSaveStatus fed complete)).1.saveView =
        f.saveView.report fed complete := by
      rw [step]
      exact reported_saveView f fed complete
    have silent : verdicts (rtig f (.federateSaveStatus fed complete)).2.1 = [] := by
      rw [step]
      rfl
    have member : fed ∈ f.saveView.members.map Prod.fst := by
      rw [members_handles]
      exact isJoined_iff.mp joined
    have after : currentSave (past ++ [(.federateSaveStatus fed complete,
        (rtig f (.federateSaveStatus fed complete)).2)]) =
        (currentSave past).map (· ++ [(fed, complete)]) := by
      rw [currentSave_silent past silent, step]
      rfl
    refine .silent numbered ?_ silent (by simp)
    rw [view]
    refine ⟨by rw [after, Option.isSome_map]; exact sound.opened, fun reports opened => ?_⟩
    rw [after] at opened
    obtain ⟨before, was, rfl⟩ := Option.map_eq_some_iff.mp opened
    refine (sound.during before was).report member ?_
    obtain ⟨other, belongs, saving⟩ := waits
    rw [← reported_saveView]
    exact ⟨_, mem_members.mpr ⟨other, belongs, rfl⟩, saving⟩
  · obtain ⟨progress, whenLast⟩ := ok joined
    have nobodyElse : ∀ other ∈ f.federates, other.isSaving = true → other.handle = fed := by
      intro other member saving
      by_contra another
      exact last other (mem_adjust.mpr (.inl ⟨member, another⟩)) saving
    obtain ⟨reachable, xml⟩ := whenLast nobodyElse
    have status : ((f.saveStatus && complete) && f.haveXml) = (f.saveStatus && complete) := by
      cases saved : f.saveStatus && complete with
      | true => rw [xml saved]; rfl
      | false => rfl
    refine verdict_saveStep running numbered sound joined progress reachable xml last ?_
    rw [perform, result, federateSaveStatus_last numbered reachable status]

/-- A federate that begins to save changes nothing. -/
theorem begun_saveStep (running : f.crashed = false) (numbered : f.Numbered)
    (sound : f.saveView.Sound past) : SaveStep past f (.federateSaveBegun fed) := by
  have answer : (f.perform (.federateSaveBegun fed)).state = f ∧
      (f.perform (.federateSaveBegun fed)).sent = [] :=
    asMember_cases (p := fun outcome => outcome.state = f ∧ outcome.sent = []) ⟨rfl, rfl⟩
      fun _ => ⟨rfl, rfl⟩
  have step := rtig_perform (e := .federateSaveBegun fed) running
  rw [answer.1, answer.2] at step
  have silent : verdicts (rtig f (.federateSaveBegun fed)).2.1 = [] := by
    rw [step]
    rfl
  refine .silent numbered ?_ silent (by simp)
  rw [step] at silent ⊢
  exact sound.quiet silent rfl

/-! ## Runs -/

theorem perform_saveStep (numbered : f.Numbered) (sound : f.saveView.Sound past)
    (ok : Saves (past, f) e) : SaveStep past f e := by
  cases crashed : f.crashed with
  | true =>
    refine .quiet numbered sound ?_ ?_ (.inr ?_) <;> rw [rtig_crashed crashed]
    · rfl
    · simp
  | false =>
    cases e with
    | join name conditions => exact join_saveStep crashed numbered sound name conditions ok
    | resign fed => exact remove_saveStep crashed numbered sound ok
    | kill fed => exact kill_saveStep crashed numbered sound ok
    | requestFederationSave fed label timed =>
      exact request_saveStep crashed numbered sound label timed ok
    | federateSaveStatus fed complete => exact status_saveStep crashed numbered sound complete ok
    | federateSaveBegun fed => exact begun_saveStep crashed numbered sound
    | setTimeRegulating fed on date =>
      refine .other crashed numbered sound ?_ (by simp [Event.topics])
      cases on with
      | true => exact saveView_of_timeless (addRegulator_timeless f fed date)
      | false => exact saveView_of_timeless (removeRegulator_timeless f fed)
    | messageNull fed date =>
      exact .other crashed numbered sound
        (saveView_of_timeless (updateRegulator_timeless f fed date)) (by simp [Event.topics])
    | setTimeConstrained fed on =>
      exact .other crashed numbered sound
        (saveView_of_timeless (setConstrained_timeless f fed on)) (by simp [Event.topics])
    | registerSynchronization fed label tag set =>
      exact .other crashed numbered sound
        (saveView_of_unlabelled (processRegisterSynchronization_unlabelled f fed label tag set))
        (by simp [Event.topics])
    | synchronizationPointAchieved fed label =>
      exact .other crashed numbered sound
        (saveView_of_unlabelled (unregisterSynchronization_unlabelled f fed label))
        (by simp [Event.topics])
    | _ =>
      exact .other crashed numbered sound (saveView_of_onlyRoot (perform_onRoot f rfl))
        (by simp [Event.topics])

theorem create_saveSound (fom : Fom) (withMom haveXml : Bool) :
    (Federation.create fom withMom haveXml).saveView.Sound [] :=
  ⟨rfl, fun _ opened => by cases opened⟩

end Federation

/-- In every run that meets the condition each accepted request is answered by one verdict,
when everybody still joined has reported, and nothing else is; then the next may be made. -/
theorem saves_sound (fom : Fom) (withMom haveXml : Bool) (es : List Event)
    (ok : rtig.recorded.Meets Saves ([], create fom withMom haveXml) es)
    (before : List Event) (e : Event) (after : List Event) (split : es = before ++ e :: after) :
    SavedSoundly (rtig.trace (create fom withMom haveXml) before)
      (rtig.exec (create fom withMom haveXml) before) e := by
  subst split
  have reached := Machine.trace_steps rtig.recorded
    (p := fun _ run => run.2.Numbered ∧ run.2.saveView.Sound run.1)
    (q := fun _ run e => SavedSoundly run.1 run.2 e)
    (fun _ run e ⟨numbered, sound⟩ ok =>
      ⟨rtig_numbered numbered e, (perform_saveStep numbered sound ok).next⟩)
    (fun _ run e ⟨numbered, sound⟩ ok => (perform_saveStep numbered sound ok).soundly)
    ⟨create_numbered fom withMom haveXml, create_saveSound fom withMom haveXml⟩ ok
  rw [Machine.exec_recorded, List.nil_append] at reached
  exact reached

instance (past : List (Event × Answer)) (fed : FederateHandle) : Decidable (HasFailed past fed) :=
  inferInstanceAs (Decidable (_ ∈ _))

instance (past : List (Event × Answer)) (f : Federation) (fed : FederateHandle) :
    Decidable (LeavesSave past f fed) :=
  inferInstanceAs (Decidable (_ → _ → (∃ other ∈ f.federates, _) ∧ (_ → ∃ other ∈ f.federates, _)))

instance (run : List (Event × Answer) × Federation) : ∀ e, Decidable (Saves run e)
  | .join _ _ => inferInstanceAs (Decidable (_ → _))
  | .resign fed | .kill fed => inferInstanceAs (Decidable (LeavesSave run.1 run.2 fed))
  | .requestFederationSave _ _ _ =>
    inferInstanceAs (Decidable (_ → _ → run.2.federates ≠ [] ∧ _ ∧ run.2.AllReachable))
  | .federateSaveStatus _ _ =>
    inferInstanceAs (Decidable (_ → _ ∧ ((∀ other ∈ run.2.federates, _ → _) →
      run.2.AllReachable ∧ (_ → _))))
  | .setTimeRegulating .. | .messageNull .. | .setTimeConstrained ..
  | .registerSynchronization .. | .synchronizationPointAchieved .. | .federateSaveBegun ..
  | .publishObject .. | .subscribeObject .. | .subscribeAttributesWR ..
  | .unsubscribeAttributesWR .. | .publishInteraction .. | .subscribeInteraction ..
  | .subscribeInteractionWR .. | .createRegion .. | .associateRegion .. | .registerObject ..
  | .registerObjectWithRegion .. | .deleteObject .. | .ownership .. => .isTrue trivial

/-- Two federates save; the second is lost before it reports, a second save fails. -/
def twoSaves : List Event :=
  [joinAs "a", joinAs "b", joinAs "c", .requestFederationSave 1 "s" false,
    .federateSaveBegun 1, .federateSaveStatus 1 true, .kill 2, .federateSaveStatus 3 true,
    .requestFederationSave 3 "t" false, .federateSaveStatus 3 false, .federateSaveStatus 1 true]

theorem saves_sound_twice :
    verdicts (rtig (rtig.exec (create smallFom false true) (twoSaves.take 7))
        (.federateSaveStatus 3 true)).2.1 = [(1, true), (3, true)] ∧
      SavedSoundly (rtig.trace (create smallFom false true) (twoSaves.take 7))
        (rtig.exec (create smallFom false true) (twoSaves.take 7)) (.federateSaveStatus 3 true) :=
  ⟨by decide +kernel,
    saves_sound smallFom false true twoSaves (by decide +kernel) _ _ (twoSaves.drop 8) rfl⟩

/-- A report without a request is answered with a verdict. -/
theorem verdict_unrequested :
    ¬ ∀ (fom : Fom) (withMom haveXml : Bool) (es before after : List Event) (e : Event),
      es = before ++ e :: after →
        SavedSoundly (rtig.trace (create fom withMom haveXml) before)
          (rtig.exec (create fom withMom haveXml) before) e := by
  intro always
  have sound := always smallFom false true [joinAs "a", .federateSaveStatus 1 true]
    [joinAs "a"] [] (.federateSaveStatus 1 true) rfl
  exact (sound.verdict (by decide +kernel)).1 (by decide +kernel)

end Certi
