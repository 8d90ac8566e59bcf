import Certi.Lib.Collect
import Certi.RTIG.Restoring

/-!
# Restores over whole runs

A request for a file that is missing or malformed is to fail without a trace,
one for a saved file of the same federates is to give them back their flags and
to reach them all, and the end of a restore is to be announced once, when
everybody still joined has reported. The request always succeeds, so the first
never happens; a file gives back handles of federates that have left; and
nobody announces the end when the last federate to report leaves instead, or
asks whether there is a restore to end.
-/
namespace Certi

open Keyed Runs

/-! ## The statement -/

/-- The restore that has begun last: who is still joined and has not reported, and how often its
end has been announced. -/
structure Round where
  begun : Bool
  outstanding : List FederateHandle
  announced : Nat

def RestoreMessage.isEnd : RestoreMessage → Bool
  | .federationRestored | .federationNotRestored => true
  | _ => false

def RestoreEvent.reporter : RestoreEvent → Option FederateHandle
  | .federateRestoreStatus h _ => some h
  | _ => none

namespace Round

def initial : Round := ⟨false, [], 0⟩

def next (round : Round) (f after : RestorableFederation) (e : RestoreEvent)
    (sent : List RestoreResponse) : Round :=
  if !f.restoreInProgress && after.restoreInProgress then
    ⟨true, after.federates.map Prod.fst, 0⟩
  else
    { round with
      outstanding := round.outstanding.filter fun h =>
        after.isMember h && e.reporter ≠ some h
      announced := round.announced + (sent.filter (·.message.isEnd)).length }

/-- The end has been announced once if everybody has reported, and otherwise not. -/
def Proper (round : Round) : Prop :=
  round.announced = if round.begun && round.outstanding.isEmpty then 1 else 0

end Round

/-- The RTIG on one federation, with the round; nothing happens after a crash. -/
def restoring : Machine (RestorableFederation × Round) RestoreEvent RestoreAnswer := fun run e =>
  if run.1.crashed then (run, ([], none))
  else
    let result := run.1.perform e
    ((result.1, run.2.next run.1 result.1 e result.2.1), result.2)

/-- An element of a federate has all its properties. -/
def XmlNode.Complete (node : XmlNode) : Prop :=
  node.name = nodeFederate →
    ∀ key ∈ ["name", "handle", "constrained", "regulator"], (node.property key).isSome = true

def XmlDocument.WellFormed (doc : XmlDocument) : Prop :=
  ∃ root federation others, doc.root = some root ∧ root.name = rootNode ∧
    root.children = federation :: others ∧ federation.name = nodeFederation ∧
    (federation.property "name").isSome = true ∧ ∀ node ∈ federation.children, node.Complete

abbrev MemberTable := List (FederateHandle × MemberRecord)

/-- A table that a federation of the same federates may have saved. -/
structure SavedAs (saved current : MemberTable) : Prop where
  handles : ∀ s ∈ saved, s.2.handle ≠ 0
  names : (saved.map (·.2.name)).Perm (current.map (·.2.name))

namespace RestorableFederation

variable (f : RestorableFederation)

/-- The file is neither missing nor malformed. -/
def Readable (label : String) : Prop := ∃ doc, f.document label = some doc ∧ doc.WellFormed

/-- Every federate has the flags that were saved for its name. -/
def FlagsOf (saved : MemberTable) : Prop :=
  ∀ kv ∈ f.federates, ∀ s ∈ saved, s.2.name = kv.2.name →
    kv.2.isConstrained = s.2.isConstrained ∧ kv.2.isRegulator = s.2.isRegulator

/-- The table is keyed by the federates' own handles. -/
def OwnKeys : Prop := ∀ kv ∈ f.federates, kv.2.handle = kv.1

/-- The answer is sent, and over links that exist. -/
def Sent (answer : RestoreAnswer) : Prop :=
  answer.2 = none ∧ ∀ response ∈ answer.1, none ∉ response.sockets

/-- What is asked of a request that is accepted. -/
structure RequestKept (h : FederateHandle) (label : String) : Prop where
  fails : ¬f.Readable label → ∃ socket, f.getSocketLink h = .ok socket ∧
    f.requestFederationRestore h label =
      (f, [⟨[socket], .requestFederationRestoreFailed label⟩], none)
  restores : ∀ saved, f.document label = some (savedDocument f.name saved) →
    SavedAs saved f.federates →
      (f.requestFederationRestore h label).1.FlagsOf saved ∧
      (f.requestFederationRestore h label).1.OwnKeys ∧
      Sent (f.requestFederationRestore h label).2

end RestorableFederation

/-- What is asked of one event: of a request for a restore while there is none, and of the
announcements afterwards. -/
structure RestoredSoundly (run : RestorableFederation × Round) (e : RestoreEvent) : Prop where
  request : ∀ h label, e = .requestFederationRestore h label → run.1.isMember h = true →
    run.1.restoreInProgress = false → run.1.RequestKept h label
  announced : (restoring run e).1.2.Proper

namespace RestorableFederation

variable (f : RestorableFederation)

/-- Every member has an open link. -/
def Linked : Prop := ∀ kv ∈ f.federates, lookup Prod.fst kv.1 f.links = some (kv.1, true)

/-- Every member has references, so that a message to all does not throw. -/
def Addressable : Prop := ∀ kv ∈ f.federates, (lookup Prod.fst kv.1 f.links).isSome = true

def Restoring (h : FederateHandle) : Prop :=
  ∃ kv ∈ f.federates, kv.1 = h ∧ kv.2.isRestoring = true

def OthersRestoring (h : FederateHandle) : Prop :=
  ∃ kv ∈ f.federates, kv.1 ≠ h ∧ kv.2.isRestoring = true

/-- The file is there and, if it was saved by the same federates, they are joined under the
handles they had then and can all be reached. -/
def RequestSettles (label : String) : Prop :=
  f.Readable label ∧
    ∀ saved, f.document label = some (savedDocument f.name saved) → SavedAs saved f.federates →
      f.Linked ∧ ∀ s ∈ saved, ∀ kv ∈ f.federates, kv.2.name = s.2.name → s.2.handle = kv.1

end RestorableFederation

/-- The condition on an event: a request that is accepted settles, nobody leaves as the last to
report, and a report that is the last finds a restore to end and reaches everybody. -/
def Restorable (run : RestorableFederation × Round) : RestoreEvent → Prop
  | .requestFederationRestore h label => run.1.isMember h = true →
    run.1.restoreInProgress = false → run.1.RequestSettles label
  | .federateRestoreStatus h _ => run.1.isMember h = true → ¬run.1.OthersRestoring h →
    (run.1.Restoring h ↔ run.1.Addressable)
  | .resign h => run.1.Restoring h → run.1.OthersRestoring h
  | .connectionLost h => (lookup Prod.fst h run.1.links).isSome = true →
    run.1.Restoring h → run.1.OthersRestoring h
  | _ => True

/-! ## Reading a file -/

namespace RestorableFederation

variable {f g : RestorableFederation} {h : FederateHandle} {label : String}

/-- Reading a file changes the records only, and of them neither keys nor names. -/
theorem restoreXmlData_frame {status : Bool} (read : f.restoreXmlData label = some (g, status)) :
    g = { f with federates := g.federates } ∧
      g.federates.map identity = f.federates.map identity := by
  unfold restoreXmlData at read
  split at read
  · cases read
    exact ⟨rfl, rfl⟩
  · split at read
    · cases read
      exact ⟨rfl, rfl⟩
    · split at read
      · cases read
        exact ⟨rfl, rfl⟩
      · split at read
        · cases read
        · split at read
          · cases read
            exact ⟨rfl, rfl⟩
          · obtain ⟨_, _, read⟩ := Option.bind_eq_some_iff.mp read
            obtain ⟨⟨federates, ended⟩, restored, done⟩ := Option.bind_eq_some_iff.mp read
            cases done
            exact ⟨rfl, restoreFederates_identity restored⟩

/-- A file that is neither missing nor malformed is read to the end. -/
theorem restoreXmlData_readable (readable : f.Readable label) :
    ∃ result, f.restoreXmlData label = some result := by
  obtain ⟨doc, found, root, federation, others, hasRoot, isRoot, child, isFederation, named,
    complete⟩ := readable
  obtain ⟨name, hasName⟩ := Option.isSome_iff_exists.mp named
  obtain ⟨⟨federates, status⟩, restored⟩ := restoreFederates_total complete f.federates false
  exact ⟨({ f with federates := federates }, status), by
    simp [restoreXmlData, found, hasRoot, isRoot, child, isFederation, hasName, restored]⟩

theorem restoreXmlData_saved {saved : MemberTable}
    (distinct : (f.federates.map (·.2.name)).Nodup)
    (found : f.document label = some (savedDocument f.name saved)) :
    ∃ status, f.restoreXmlData label = some ({ f with
      federates := f.federates.map fun kv => (kv.1, saved.foldl restoredFrom kv.2) }, status) := by
  obtain ⟨status, restored⟩ := restoreFederates_saved saved false distinct
  refine ⟨status, ?_⟩
  simp [restoreXmlData, found, savedDocument, XmlNode.name, XmlNode.children, XmlNode.property,
    lookup, restored]

/-- The entry of a record's own name decides what becomes of it. -/
theorem foldl_restoredFrom {saved : MemberTable} (distinct : (saved.map (·.2.name)).Nodup)
    {s : FederateHandle × MemberRecord} (member : s ∈ saved) {m : MemberRecord}
    (named : m.name = s.2.name) :
    saved.foldl restoredFrom m =
      m.restored s.2.isConstrained s.2.isRegulator s.2.handle := by
  have passes : ∀ (rest : MemberTable) (m : MemberRecord),
      (∀ s ∈ rest, m.name ≠ s.2.name) → rest.foldl restoredFrom m = m := by
    intro rest
    induction rest with
    | nil => exact fun _ _ => rfl
    | cons s rest ih =>
      intro m others
      rw [List.foldl_cons, restoredFrom, if_neg (others s List.mem_cons_self)]
      exact ih m fun s later => others s (List.mem_cons_of_mem _ later)
  induction saved generalizing m with
  | nil => cases member
  | cons first rest ih =>
    rw [List.map_cons, List.nodup_cons] at distinct
    rcases List.mem_cons.mp member with rfl | later
    · rw [List.foldl_cons, restoredFrom, if_pos named]
      refine passes rest _ fun s later same => distinct.1 ?_
      rw [MemberRecord.restored_eq] at same
      exact List.mem_map.mpr ⟨s, later, same.symm.trans named⟩
    · have other : m.name ≠ first.2.name := by
        intro same
        exact distinct.1 (List.mem_map.mpr ⟨s, later, named.symm.trans same⟩)
      rw [List.foldl_cons, restoredFrom, if_neg other]
      exact ih distinct.2 later named

/-! ## Sending -/

theorem respondToAll_ok (addressable : f.Addressable) (message : RestoreMessage) :
    ∃ response, f.respondToAll message = .ok response ∧ response.message = message := by
  have linked : ∀ kv ∈ f.federates, f.getSocketLink kv.1 =
      .ok ((f.getSocketLink kv.1).toOption.getD none) := by
    intro kv member
    obtain ⟨link, known⟩ := Option.isSome_iff_exists.mp (addressable kv member)
    simp [getSocketLink, known, Except.toOption]
  refine ⟨⟨f.federates.map fun kv => (f.getSocketLink kv.1).toOption.getD none, message⟩, ?_, rfl⟩
  rw [respondToAll, Collect.mapM_ok linked]
  rfl

theorem respondToAll_success {message : RestoreMessage} {response : RestoreResponse}
    (success : f.respondToAll message = .ok response) :
    response.message = message ∧
      ∀ kv ∈ f.federates, ∃ socket ∈ response.sockets, f.getSocketLink kv.1 = .ok socket := by
  unfold respondToAll at success
  cases collected : f.federates.mapM fun kv => f.getSocketLink kv.1 with
  | error e =>
    rw [collected] at success
    cases success
  | ok sockets =>
    rw [collected] at success
    cases success
    exact ⟨rfl, Collect.mapM_each collected⟩

/-- A message to all is sent exactly if every member has references. -/
theorem respondToAll_iff (message : RestoreMessage) :
    (∃ response, f.respondToAll message = .ok response) ↔ f.Addressable := by
  constructor
  · rintro ⟨response, success⟩ kv member
    obtain ⟨socket, _, linked⟩ := (respondToAll_success success).2 kv member
    unfold getSocketLink at linked
    cases known : lookup Prod.fst kv.1 f.links with
    | none => simp [known] at linked
    | some link => rfl
  · intro addressable
    obtain ⟨response, sent, _⟩ := respondToAll_ok addressable message
    exact ⟨response, sent⟩

/-! ## A request -/

/-- How a request that is accepted ends. -/
inductive RequestEnds (f : RestorableFederation) (h : FederateHandle) (label : String) :
    RestorableFederation × RestoreAnswer → Prop where
  | crashed (unread : f.restoreXmlData label = none) :
    RequestEnds f h label ({ f with crashed := true }, [], none)
  | unlinked (g : RestorableFederation) (status : Bool) (e : RTIException)
      (read : f.restoreXmlData label = some (g, status)) (refused : g.getSocketLink h = .error e) :
    RequestEnds f h label (g, [], some e)
  | unannounced (g : RestorableFederation) (status : Bool) (e : RTIException)
      (read : f.restoreXmlData label = some (g, status))
      (refused : g.startRestore.announceRestore label = .error e) :
    RequestEnds f h label (g.startRestore, [], some e)
  | announced (g : RestorableFederation) (status : Bool) (socket : Option FederateHandle)
      (responses : List RestoreResponse) (read : f.restoreXmlData label = some (g, status))
      (linked : g.getSocketLink h = .ok socket)
      (sent : g.startRestore.announceRestore label = .ok responses) :
    RequestEnds f h label
      (g.startRestore, ⟨[socket], .requestFederationRestoreSucceeded label⟩ :: responses, none)

theorem request_ends (label : String) (member : f.isMember h = true) (idle : f.restoreInProgress = false) :
    RequestEnds f h label (f.requestFederationRestore h label) := by
  cases read : f.restoreXmlData label with
  | none =>
    have ends := RequestEnds.crashed (h := h) read
    simpa [requestFederationRestore, member, idle, read] using ends
  | some result =>
    obtain ⟨g, status⟩ := result
    cases linked : g.getSocketLink h with
    | error e =>
      have ends := RequestEnds.unlinked (f := f) (h := h) g status e read linked
      simpa [requestFederationRestore, member, idle, read, linked] using ends
    | ok socket =>
      cases sent : g.startRestore.announceRestore label with
      | error e =>
        have ends := RequestEnds.unannounced (f := f) (h := h) g status e read sent
        simpa [requestFederationRestore, member, idle, read, linked, sent] using ends
      | ok responses =>
        have ends := RequestEnds.announced (f := f) (h := h) g status socket responses read linked sent
        simpa [requestFederationRestore, member, idle, read, linked, sent] using ends

/-- The failure of a request is never reported. -/
theorem request_never_fails (member : f.isMember h = true) (idle : f.restoreInProgress = false)
    (socket : Option FederateHandle) :
    f.requestFederationRestore h label ≠
      (f, [⟨[socket], .requestFederationRestoreFailed label⟩], none) := by
  intro failed
  have ends := request_ends label member idle
  generalize f.requestFederationRestore h label = result at ends failed
  cases ends <;> simp at failed

/-- What a message to each member at the handle of its record needs. -/
theorem announceRestore_success {responses : List RestoreResponse}
    (success : f.announceRestore label = .ok responses) :
    ∃ begun initiated, responses = begun :: initiated ∧
      f.respondToAll .federationRestoreBegun = .ok begun ∧
      f.federates.mapM (f.initiate label) = .ok initiated := by
  unfold announceRestore at success
  cases first : f.respondToAll .federationRestoreBegun with
  | error e =>
    rw [first] at success
    cases success
  | ok begun =>
    rw [first] at success
    cases second : f.federates.mapM (f.initiate label) with
    | error e =>
      rw [second] at success
      cases success
    | ok initiated =>
      rw [second] at success
      cases success
      exact ⟨begun, initiated, rfl, rfl, rfl⟩

theorem getSocketLink_linked (linked : lookup Prod.fst h f.links = some (h, true)) :
    f.getSocketLink h = .ok (some h) := by
  simp [getSocketLink, linked]

/-- With open links and records under their own handles everybody is reached. -/
theorem announceRestore_linked (label : String) (linked : f.Linked) (keyed : f.OwnKeys) :
    ∃ responses, f.announceRestore label = .ok responses ∧
      ∀ response ∈ responses, none ∉ response.sockets := by
  have each : ∀ kv ∈ f.federates, f.getSocketLink kv.1 = .ok (some kv.1) :=
    fun kv member => getSocketLink_linked (linked kv member)
  have begun : f.respondToAll .federationRestoreBegun =
      .ok ⟨f.federates.map fun kv => some kv.1, .federationRestoreBegun⟩ := by
    rw [respondToAll, Collect.mapM_ok each]
    rfl
  have initiated : f.federates.mapM (f.initiate label) =
      .ok (f.federates.map fun kv =>
        RestoreResponse.mk [some kv.1] (.initiateFederateRestore kv.2.handle label)) := by
    refine Collect.mapM_ok fun kv member => ?_
    rw [initiate, keyed kv member, each kv member]
    rfl
  have all : f.announceRestore label = .ok (⟨f.federates.map fun kv => some kv.1,
      .federationRestoreBegun⟩ :: f.federates.map fun kv =>
        RestoreResponse.mk [some kv.1] (.initiateFederateRestore kv.2.handle label)) := by
    rw [announceRestore, begun, initiated]
    rfl
  refine ⟨_, all, fun response listed => ?_⟩
  rcases List.mem_cons.mp listed with rfl | later
  · simp
  · obtain ⟨kv, _, rfl⟩ := List.mem_map.mp later
    simp

/-- The table a restore of a saved one begins with. -/
def restoredTable (f : RestorableFederation) (saved : MemberTable) : RestorableFederation :=
  { f with federates := f.federates.map fun kv => (kv.1, saved.foldl restoredFrom kv.2) }

/-- Every current federate is in a table saved by the same federates, and its record then has
what was saved. -/
theorem restored_record {saved : MemberTable} (same : SavedAs saved f.federates)
    (distinct : (f.federates.map (·.2.name)).Nodup) {kv : FederateHandle × MemberRecord}
    (member : kv ∈ f.federates) : ∃ s ∈ saved, s.2.name = kv.2.name ∧
      saved.foldl restoredFrom kv.2 = { kv.2 with
        isConstrained := s.2.isConstrained
        isRegulator := s.2.isRegulator
        handle := s.2.handle } := by
  have listed : kv.2.name ∈ saved.map (·.2.name) :=
    same.names.mem_iff.mpr (List.mem_map.mpr ⟨kv, member, rfl⟩)
  obtain ⟨s, inside, named⟩ := List.mem_map.mp listed
  refine ⟨s, inside, named, ?_⟩
  rw [foldl_restoredFrom (same.names.nodup_iff.mpr distinct) inside named.symm,
    MemberRecord.restored_eq, if_neg (same.handles s inside)]

/-- A request is as asked exactly if it settles. -/
theorem requestKept_iff (distinct : (f.federates.map (·.2.name)).Nodup)
    (member : f.isMember h = true) (idle : f.restoreInProgress = false) :
    f.RequestKept h label ↔ f.RequestSettles label := by
  have read : ∀ saved, f.document label = some (savedDocument f.name saved) →
      ∃ status, f.restoreXmlData label = some (f.restoredTable saved, status) :=
    fun saved found => restoreXmlData_saved distinct found
  constructor
  · intro kept
    refine ⟨?_, fun saved found same => ?_⟩
    · by_contra unread
      obtain ⟨socket, _, failed⟩ := kept.fails unread
      exact request_never_fails member idle socket failed
    · obtain ⟨_, keyed, sent⟩ := kept.restores saved found same
      obtain ⟨status, restored⟩ := read saved found
      have ends := request_ends label member idle
      generalize f.requestFederationRestore h label = result at ends keyed sent
      cases ends with
      | crashed unread =>
        rw [restored] at unread
        cases unread
      | unlinked g status' e read' refused => cases sent.1
      | unannounced g status' e read' refused => cases sent.1
      | announced g status' socket responses read' linked announced =>
        rw [restored] at read'
        cases read'
        obtain ⟨begun, initiated, rfl, told, _⟩ := announceRestore_success announced
        obtain ⟨_, reached⟩ := respondToAll_success told
        constructor
        · intro kv inside
          have inTable : (kv.1, { saved.foldl restoredFrom kv.2 with isRestoring := true }) ∈
              (f.restoredTable saved).startRestore.federates :=
            List.mem_map.mpr ⟨(kv.1, saved.foldl restoredFrom kv.2),
              List.mem_map.mpr ⟨kv, inside, rfl⟩, rfl⟩
          obtain ⟨socket', listed, link⟩ := reached _ inTable
          have open_ : socket' ≠ none := by
            rintro rfl
            exact sent.2 begun (by simp) listed
          have sameLinks : (f.restoredTable saved).startRestore.links = f.links := rfl
          unfold getSocketLink at link
          dsimp only at link
          rw [sameLinks] at link
          cases known : lookup Prod.fst kv.1 f.links with
          | none => simp [known] at link
          | some pair =>
            have key : pair.1 = kv.1 := lookup_key known
            rw [known] at link
            cases opened : pair.2 with
            | false =>
              simp only [opened, Except.ok.injEq] at link
              exact absurd link.symm open_
            | true => rw [← key, ← opened]
        · intro s inSaved kv inside named
          obtain ⟨s', inSaved', named', record⟩ := restored_record same distinct inside
          have one : s' = s := by
            have unique := same.names.nodup_iff.mpr distinct
            exact List.inj_on_of_nodup_map unique inSaved' inSaved (named'.trans named)
          have own := keyed (kv.1, { saved.foldl restoredFrom kv.2 with isRestoring := true })
            (List.mem_map.mpr ⟨(kv.1, saved.foldl restoredFrom kv.2),
              List.mem_map.mpr ⟨kv, inside, rfl⟩, rfl⟩)
          simpa [record, one] using own
  · intro settles
    refine ⟨fun unread => absurd settles.1 unread, fun saved found same => ?_⟩
    obtain ⟨linked, handles⟩ := settles.2 saved found same
    obtain ⟨status, restored⟩ := read saved found
    have entry : ∀ kv' ∈ (f.restoredTable saved).startRestore.federates, ∃ kv ∈ f.federates,
        ∃ s ∈ saved, kv'.1 = kv.1 ∧ s.2.name = kv.2.name ∧ kv'.2 = { kv.2 with
          isConstrained := s.2.isConstrained
          isRegulator := s.2.isRegulator
          handle := s.2.handle
          isRestoring := true } := by
      intro kv' inTable
      obtain ⟨mid, inRestored, rfl⟩ := List.mem_map.mp inTable
      obtain ⟨kv, inside, rfl⟩ := List.mem_map.mp inRestored
      obtain ⟨s, inSaved, named, record⟩ := restored_record same distinct inside
      exact ⟨kv, inside, s, inSaved, rfl, named, by rw [record]⟩
    have linked' : (f.restoredTable saved).startRestore.Linked := by
      intro kv' inTable
      obtain ⟨kv, inside, _, _, key, _⟩ := entry kv' inTable
      rw [key]
      exact linked kv inside
    have keyed : (f.restoredTable saved).startRestore.OwnKeys := by
      intro kv' inTable
      obtain ⟨kv, inside, s, inSaved, key, named, record⟩ := entry kv' inTable
      rw [record, key]
      exact handles s inSaved kv inside named.symm
    have flags : (f.restoredTable saved).startRestore.FlagsOf saved := by
      intro kv' inTable s inSaved named
      obtain ⟨kv, inside, s', inSaved', _, named', record⟩ := entry kv' inTable
      have one : s' = s := by
        have unique := same.names.nodup_iff.mpr distinct
        refine List.inj_on_of_nodup_map unique inSaved' inSaved ?_
        rw [record] at named
        exact named'.trans named.symm
      rw [record, one]
      exact ⟨rfl, rfl⟩
    obtain ⟨responses, sent, reached⟩ := announceRestore_linked label linked' keyed
    have link : (f.restoredTable saved).getSocketLink h = .ok (some h) := by
      obtain ⟨kv, known⟩ := Option.isSome_iff_exists.mp member
      have key : kv.1 = h := lookup_key known
      have open_ := linked kv (lookup_mem known)
      rw [key] at open_
      exact getSocketLink_linked (f := f.restoredTable saved) open_
    have ends : f.requestFederationRestore h label = ((f.restoredTable saved).startRestore,
        ⟨[some h], .requestFederationRestoreSucceeded label⟩ :: responses, none) := by
      simp [requestFederationRestore, member, idle, restored, link, sent]
    rw [ends]
    refine ⟨flags, keyed, rfl, fun response listed => ?_⟩
    rcases List.mem_cons.mp listed with rfl | later
    · simp
    · exact reached response later

/-! ## The table -/

/-- Keys and names are given once, and keys before `nextFederate`. -/
structure Table (f : RestorableFederation) : Prop where
  keys : (f.federates.map Prod.fst).Nodup
  below : ∀ kv ∈ f.federates, kv.1 < f.nextFederate
  names : (f.federates.map (·.2.name)).Nodup

theorem mem_keys_iff : h ∈ f.federates.map Prod.fst ↔ f.isMember h = true := by
  constructor
  · intro listed
    obtain ⟨kv, inside, key⟩ := List.mem_map.mp listed
    obtain ⟨found, located⟩ := lookup_of_mem inside key
    simp [isMember, member?, located]
  · intro member
    obtain ⟨kv, located⟩ := Option.isSome_iff_exists.mp member
    exact List.mem_map.mpr ⟨kv, lookup_mem located, lookup_key located⟩

theorem restoring_isMember (waits : f.Restoring h) : f.isMember h = true := by
  obtain ⟨kv, inside, key, _⟩ := waits
  exact mem_keys_iff.mp (List.mem_map.mpr ⟨kv, inside, key⟩)

section SameIdentity

variable (same : g.federates.map identity = f.federates.map identity)
include same

theorem keys_congr : g.federates.map Prod.fst = f.federates.map Prod.fst := by
  have keys := congrArg (List.map Prod.fst) same
  simpa [List.map_map, Function.comp_def, identity] using keys

theorem isMember_congr : g.isMember h = f.isMember h := by
  rw [Bool.eq_iff_iff, ← mem_keys_iff, ← mem_keys_iff, keys_congr same]

theorem restoring_congr : g.Restoring h ↔ f.Restoring h := by
  have read : ∀ k : RestorableFederation, k.Restoring h ↔
      ∃ entry ∈ k.federates.map identity, entry.1 = h ∧ entry.2.2 = true := by
    intro k
    simp [Restoring, identity]
  rw [read, read, same]

theorem table_congr (table : f.Table) (next : g.nextFederate = f.nextFederate) : g.Table := by
  have names := congrArg (List.map fun entry => entry.2.1) same
  simp only [List.map_map, Function.comp_def, identity] at names
  refine ⟨?_, fun kv inside => ?_, ?_⟩
  · rw [keys_congr same]
    exact table.keys
  · have listed : kv.1 ∈ f.federates.map Prod.fst := by
      rw [← keys_congr same]
      exact List.mem_map.mpr ⟨kv, inside, rfl⟩
    obtain ⟨kv', inside', key⟩ := List.mem_map.mp listed
    rw [next, ← key]
    exact table.below kv' inside'
  · rw [names]
    exact table.names

end SameIdentity

/-! ## What an event does about the table -/

/-- What an event that begins no restore keeps: the table is sound, a restoring federate stays so
unless it reports or leaves, and nobody starts restoring. -/
structure Quiet (f g : RestorableFederation) (e : RestoreEvent) : Prop where
  table : f.Table → g.Table
  progress : f.restoreInProgress = false → g.restoreInProgress = false
  restoring : f.Table → ∀ h, g.Restoring h ↔
    f.Restoring h ∧ g.isMember h = true ∧ e.reporter ≠ some h

/-- Everybody who is restoring stays so. -/
structure Harmless (f g : RestorableFederation) (e : RestoreEvent) : Prop extends Quiet f g e where
  stays : ∀ h, f.Restoring h → g.Restoring h

theorem harmless_identity {e : RestoreEvent}
    (same : g.federates.map identity = f.federates.map identity)
    (next : g.nextFederate = f.nextFederate) (progress : g.restoreInProgress = f.restoreInProgress)
    (reporter : ∀ h, f.Restoring h → e.reporter ≠ some h) : Harmless f g e := by
  refine ⟨⟨fun table => table_congr same table next, fun idle => progress.trans idle,
    fun _ h => ?_⟩, fun h waits => (restoring_congr same).mpr waits⟩
  rw [restoring_congr same, isMember_congr same]
  exact ⟨fun waits => ⟨waits, restoring_isMember waits, reporter h waits⟩, fun both => both.1⟩

theorem harmless_refl {e : RestoreEvent} (reporter : ∀ h, f.Restoring h → e.reporter ≠ some h) :
    Harmless f f e :=
  harmless_identity rfl rfl rfl reporter

theorem quiet_drop {e : RestoreEvent} (reporter : e.reporter = none)
    (federates : g.federates = drop Prod.fst h f.federates)
    (next : g.nextFederate = f.nextFederate)
    (progress : g.restoreInProgress = f.restoreInProgress) : Quiet f g e := by
  refine ⟨fun table => ⟨?_, ?_, ?_⟩, fun idle => progress.trans idle, fun table k => ?_⟩
  · rw [federates, map_key_drop]
    exact table.keys.filter _
  · intro kv inside
    rw [federates] at inside
    rw [next]
    exact table.below kv (mem_drop.mp inside).1
  · rw [federates]
    exact table.names.sublist (List.filter_sublist.map _)
  · rw [reporter]
    constructor
    · rintro ⟨kv, inside, key, waits⟩
      have listed : k ∈ g.federates.map Prod.fst := List.mem_map.mpr ⟨kv, inside, key⟩
      rw [federates] at inside
      exact ⟨⟨kv, (mem_drop.mp inside).1, key, waits⟩, mem_keys_iff.mp listed, by simp⟩
    · rintro ⟨⟨kv, inside, key, waits⟩, member, _⟩
      obtain ⟨kv', inside', key'⟩ := List.mem_map.mp (mem_keys_iff.mpr member)
      rw [federates] at inside'
      have other : kv.1 ≠ h := by
        rw [key, ← key']
        exact (mem_drop.mp inside').2
      refine ⟨kv, ?_, key, waits⟩
      rw [federates]
      exact mem_drop.mpr ⟨inside, other⟩

theorem quiet_remove {e : RestoreEvent} (reporter : e.reporter = none) :
    Quiet f (f.remove h).1 e := by
  have silent : ∀ h, f.Restoring h → e.reporter ≠ some h := by simp [reporter]
  unfold remove
  split
  · exact (harmless_refl silent).toQuiet
  · exact quiet_drop reporter rfl rfl rfl

theorem quiet_connectionLost {e : RestoreEvent} (reporter : e.reporter = none) :
    Quiet f (f.connectionLost h).1 e := by
  have silent : ∀ h, f.Restoring h → e.reporter ≠ some h := by simp [reporter]
  unfold connectionLost
  split
  · exact (harmless_refl silent).toQuiet
  · unfold remove
    dsimp only
    split
    · refine (harmless_identity ?_ ?_ ?_ silent).toQuiet <;> rfl
    · exact quiet_drop reporter rfl rfl rfl

theorem harmless_join {e : RestoreEvent} (reporter : e.reporter = none) (name : String)
    (completes : Bool) : Harmless f (f.join name completes).1 e := by
  have silent : ∀ h, f.Restoring h → e.reporter ≠ some h := by simp [reporter]
  unfold join
  by_cases taken : (f.federates.any fun kv => kv.2.name = name) = true
  · rw [if_pos taken]
    exact harmless_refl silent
  · rw [if_neg taken]
    have added : ∀ g : RestorableFederation,
        g.federates = f.federates ++
          [(f.nextFederate, ⟨name, f.nextFederate, false, false, false⟩)] →
        g.nextFederate = f.nextFederate + 1 → g.restoreInProgress = f.restoreInProgress →
        Harmless f g e := by
      intro g federates next progress
      have stays : ∀ k, f.Restoring k → g.Restoring k := by
        rintro k ⟨kv, inside, key, waits⟩
        refine ⟨kv, ?_, key, waits⟩
        rw [federates]
        exact List.mem_append_left _ inside
      refine ⟨⟨fun table => ⟨?_, ?_, ?_⟩, fun idle => progress.trans idle, fun table k => ?_⟩, stays⟩
      · rw [federates, List.map_append, List.map_singleton, List.nodup_append]
        refine ⟨table.keys, List.nodup_singleton _, ?_⟩
        intro key listed other newest
        obtain ⟨kv, inside, rfl⟩ := List.mem_map.mp listed
        rw [List.mem_singleton.mp newest]
        exact Nat.ne_of_lt (table.below kv inside)
      · intro kv inside
        rw [federates] at inside
        rw [next]
        rcases List.mem_append.mp inside with old | new
        · exact Nat.lt_succ_of_lt (table.below kv old)
        · rw [List.mem_singleton.mp new]
          exact Nat.lt_succ_self _
      · rw [federates, List.map_append, List.map_singleton, List.nodup_append]
        refine ⟨table.names, List.nodup_singleton _, ?_⟩
        intro old listed other newest same
        obtain ⟨kv, inside, rfl⟩ := List.mem_map.mp listed
        refine taken (List.any_eq_true.mpr ⟨kv, inside, ?_⟩)
        rw [same, List.mem_singleton.mp newest]
        simp
      · rw [reporter]
        constructor
        · rintro ⟨kv, inside, key, waits⟩
          have listed : k ∈ g.federates.map Prod.fst := List.mem_map.mpr ⟨kv, inside, key⟩
          rw [federates] at inside
          rcases List.mem_append.mp inside with old | new
          · exact ⟨⟨kv, old, key, waits⟩, mem_keys_iff.mp listed, by simp⟩
          · rw [List.mem_singleton.mp new] at waits
            cases waits
        · exact fun both => stays k both.1
    cases completes with
    | true => exact added _ rfl rfl rfl
    | false => exact added _ rfl rfl rfl

theorem harmless_setFlag {e : RestoreEvent} (reporter : e.reporter = none)
    {setter : MemberRecord → Except RTIException MemberRecord}
    (keeps : ∀ m m', setter m = .ok m' → m'.name = m.name ∧ m'.isRestoring = m.isRestoring) :
    Harmless f (f.setFlag h setter).1 e := by
  have silent : ∀ h, f.Restoring h → e.reporter ≠ some h := by simp [reporter]
  have kept : ∀ m : MemberRecord, (m.trying (setter m)).name = m.name ∧
      (m.trying (setter m)).isRestoring = m.isRestoring := by
    intro m
    unfold MemberRecord.trying
    cases set : setter m with
    | error e => exact ⟨rfl, rfl⟩
    | ok after => exact keeps m after set
  unfold setFlag
  split
  · exact harmless_refl silent
  · split
    · exact harmless_refl silent
    · refine harmless_identity (map_adjust (fun kv => ?_) f.federates) rfl rfl silent
      obtain ⟨name, waits⟩ := kept kv.2
      rw [identity, name, waits]
      rfl

theorem harmless_setConstrained (h : FederateHandle) (constrained : Bool) :
    Harmless f (f.perform (.setConstrained h constrained)).1 (.setConstrained h constrained) :=
  harmless_setFlag rfl fun m m' set => by
    unfold MemberRecord.setConstrained at set
    split at set
    · cases set
    · cases set
      exact ⟨rfl, rfl⟩

theorem harmless_setRegulator (h : FederateHandle) (regulator : Bool) :
    Harmless f (f.perform (.setRegulator h regulator)).1 (.setRegulator h regulator) :=
  harmless_setFlag rfl fun m m' set => by
    unfold MemberRecord.setRegulator at set
    split at set
    · cases set
    · cases set
      exact ⟨rfl, rfl⟩

theorem harmless_saved (label : String) :
    Harmless f (f.perform (.saved label)).1 (.saved label) := by
  change Harmless f { f with saveLabel := label }.saveXmlData.1 (.saved label)
  unfold saveXmlData
  split <;> exact harmless_identity rfl rfl rfl (by simp [RestoreEvent.reporter])

theorem harmless_fileChanged (fileName : String) (content : Option XmlDocument) :
    Harmless f (f.perform (.fileChanged fileName content)).1 (.fileChanged fileName content) :=
  harmless_identity rfl rfl rfl (by simp [RestoreEvent.reporter])

theorem setFlag_silent (setter : MemberRecord → Except RTIException MemberRecord) :
    (f.setFlag h setter).2.1 = [] := by
  unfold setFlag
  split
  · rfl
  · split <;> rfl

/-- A request leaves the table alone, or everybody is restoring afterwards. -/
theorem request_harmless (e : RestoreEvent) (reporter : e.reporter = none) :
    Harmless f (f.requestFederationRestore h label).1 e ∧
        (f.requestFederationRestore h label).2.1 = [] ∨
      f.isMember h = true ∧ f.restoreInProgress = false ∧ ∃ g : RestorableFederation,
        g.federates.map identity = f.federates.map identity ∧ g.nextFederate = f.nextFederate ∧
          (f.requestFederationRestore h label).1 = g.startRestore := by
  have silent : ∀ h, f.Restoring h → e.reporter ≠ some h := by simp [reporter]
  cases member : f.isMember h with
  | false =>
    left
    simp only [requestFederationRestore, member]
    exact ⟨harmless_refl silent, rfl⟩
  | true =>
    cases idle : f.restoreInProgress with
    | true =>
      left
      simp only [requestFederationRestore, member, idle]
      exact ⟨harmless_refl silent, rfl⟩
    | false =>
      have ends := request_ends label member idle
      generalize f.requestFederationRestore h label = result at ends
      cases ends with
      | crashed unread => exact .inl ⟨harmless_identity rfl rfl rfl silent, rfl⟩
      | unlinked g status refusal read refused =>
        obtain ⟨frame, same⟩ := restoreXmlData_frame read
        exact .inl ⟨harmless_identity same (by rw [frame]) (by rw [frame]) silent, rfl⟩
      | unannounced g status refusal read refused =>
        obtain ⟨frame, same⟩ := restoreXmlData_frame read
        exact .inr ⟨rfl, rfl, g, same, by rw [frame], rfl⟩
      | announced g status socket responses read linked sent =>
        obtain ⟨frame, same⟩ := restoreXmlData_frame read
        exact .inr ⟨rfl, rfl, g, same, by rw [frame], rfl⟩

theorem startRestore_restoring : f.startRestore.Restoring h ↔ f.isMember h = true := by
  rw [← mem_keys_iff]
  simp [Restoring, startRestore]

theorem startRestore_keys :
    f.startRestore.federates.map Prod.fst = f.federates.map Prod.fst := by
  simp [startRestore, List.map_map, Function.comp_def]

theorem startRestore_table (table : f.Table) : f.startRestore.Table := by
  refine ⟨?_, fun kv inside => ?_, ?_⟩
  · rw [startRestore_keys]
    exact table.keys
  · obtain ⟨old, listed, rfl⟩ := List.mem_map.mp inside
    exact table.below old listed
  · have names : f.startRestore.federates.map (·.2.name) = f.federates.map (·.2.name) := by
      simp [startRestore, List.map_map, Function.comp_def]
    rw [names]
    exact table.names

/-! ## A report -/

theorem reported_mem {status : Bool} {kv : FederateHandle × MemberRecord} :
    kv ∈ (f.restoreReported h status).federates ↔
      (kv ∈ f.federates ∧ kv.1 ≠ h) ∨
        ∃ old ∈ f.federates, old.1 = h ∧ (old.1, { old.2 with isRestoring := false }) = kv :=
  mem_adjust

theorem reported_restoring (status : Bool) {k : FederateHandle} :
    (f.restoreReported h status).Restoring k ↔ f.Restoring k ∧ k ≠ h := by
  constructor
  · rintro ⟨kv, inside, key, waits⟩
    rcases reported_mem.mp inside with ⟨old, other⟩ | ⟨old, inside, here, rfl⟩
    · exact ⟨⟨kv, old, key, waits⟩, key ▸ other⟩
    · cases waits
  · rintro ⟨⟨kv, inside, key, waits⟩, other⟩
    exact ⟨kv, reported_mem.mpr (.inl ⟨inside, key ▸ other⟩), key, waits⟩

theorem reported_map {β : Type} {status : Bool} {read : FederateHandle × MemberRecord → β}
    (keeps : ∀ kv, read (kv.1, { kv.2 with isRestoring := false }) = read kv) :
    (f.restoreReported h status).federates.map read = f.federates.map read := by
  change (adjust Prod.fst h (fun kv => (kv.1, { kv.2 with isRestoring := false }))
    f.federates).map read = _
  exact map_adjust keeps f.federates

theorem reported_keys {status : Bool} :
    (f.restoreReported h status).federates.map Prod.fst = f.federates.map Prod.fst :=
  reported_map fun _ => rfl

theorem reported_addressable (h : FederateHandle) (status : Bool) :
    (f.restoreReported h status).Addressable ↔ f.Addressable := by
  have read : ∀ k : RestorableFederation, k.Addressable ↔
      ∀ key ∈ k.federates.map Prod.fst, (lookup Prod.fst key k.links).isSome = true := by
    intro k
    simp [Addressable]
  rw [read, read, reported_keys]
  rfl

theorem any_restoring : (f.federates.any (·.2.isRestoring)) = true ↔ ∃ k, f.Restoring k := by
  simp [Restoring]

/-- What a report of a member does: the table loses one restoring federate, and the end is
announced if nobody is left and everybody can be reached. -/
theorem quiet_report {status : Bool} {g : RestorableFederation}
    (table : g.federates = (f.restoreReported h status).federates)
    (next : g.nextFederate = f.nextFederate)
    (progress : f.restoreInProgress = false → g.restoreInProgress = false) :
    Quiet f g (.federateRestoreStatus h status) := by
  have keys : g.federates.map Prod.fst = f.federates.map Prod.fst := by
    rw [table, reported_keys]
  refine ⟨fun before => ⟨?_, fun kv inside => ?_, ?_⟩, progress, fun _ k => ?_⟩
  · rw [keys]
    exact before.keys
  · have listed : kv.1 ∈ f.federates.map Prod.fst := by
      rw [← keys]
      exact List.mem_map.mpr ⟨kv, inside, rfl⟩
    obtain ⟨old, inside', key⟩ := List.mem_map.mp listed
    rw [next, ← key]
    exact before.below old inside'
  · have names : g.federates.map (·.2.name) = f.federates.map (·.2.name) := by
      rw [table]
      exact reported_map fun _ => rfl
    rw [names]
    exact before.names
  · have waits : g.Restoring k ↔ f.Restoring k ∧ k ≠ h := by
      rw [← reported_restoring (f := f) status]
      unfold Restoring
      rw [table]
    rw [waits]
    constructor
    · rintro ⟨before, other⟩
      refine ⟨before, ?_, fun same => other ?_⟩
      · rw [← mem_keys_iff, keys, mem_keys_iff]
        exact restoring_isMember before
      · exact (Option.some.inj same).symm
    · rintro ⟨before, _, other⟩
      exact ⟨before, fun same => other (by rw [same]; rfl)⟩

theorem quiet_federateRestoreStatus (h : FederateHandle) (status : Bool) :
    Quiet f (f.federateRestoreStatus h status).1 (.federateRestoreStatus h status) := by
  unfold federateRestoreStatus
  cases member : f.isMember h with
  | false =>
    have unreported : ∀ k, f.Restoring k →
        (RestoreEvent.federateRestoreStatus h status).reporter ≠ some k := by
      intro k waits same
      have joined := restoring_isMember waits
      rw [← Option.some.inj same, member] at joined
      cases joined
    exact (harmless_refl unreported).toQuiet
  | true =>
    simp only [Bool.not_true, Bool.false_eq_true, if_false]
    split
    · exact quiet_report rfl rfl id
    · split
      · exact quiet_report rfl rfl id
      · exact quiet_report rfl rfl fun _ => rfl

/-- No service but a request that is accepted touches a null pointer. -/
theorem perform_running {e : RestoreEvent} (running : f.crashed = false)
    (readable : ∀ h label, e = .requestFederationRestore h label → f.isMember h = true →
      f.restoreInProgress = false → f.Readable label) : (f.perform e).1.crashed = false := by
  have removed : ∀ (k : RestorableFederation) h, (k.remove h).1.crashed = k.crashed := by
    intro k h
    unfold remove
    split <;> rfl
  cases e with
  | join name completes =>
    change (f.join name completes).1.crashed = false
    unfold join
    split
    · exact running
    · split <;> exact running
  | resign h => exact (removed f h).trans running
  | connectionLost h =>
    change (f.connectionLost h).1.crashed = false
    unfold connectionLost
    split
    · exact running
    · exact (removed _ h).trans running
  | setConstrained h constrained =>
    change (f.setFlag h _).1.crashed = false
    unfold setFlag
    split
    · exact running
    · split <;> exact running
  | setRegulator h regulator =>
    change (f.setFlag h _).1.crashed = false
    unfold setFlag
    split
    · exact running
    · split <;> exact running
  | saved label =>
    change ({ f with saveLabel := label }.saveXmlData.1).crashed = false
    unfold saveXmlData
    split <;> exact running
  | fileChanged fileName content => exact running
  | requestFederationRestore h label =>
    change (f.requestFederationRestore h label).1.crashed = false
    cases member : f.isMember h with
    | false => simpa [requestFederationRestore, member] using running
    | true =>
      cases idle : f.restoreInProgress with
      | true => simpa [requestFederationRestore, member, idle] using running
      | false =>
        obtain ⟨result, total⟩ := restoreXmlData_readable (readable h label rfl member idle)
        have ends := request_ends label member idle
        generalize f.requestFederationRestore h label = answer at ends
        cases ends with
        | crashed unread =>
          rw [unread] at total
          cases total
        | unlinked g status refusal read refused =>
          rw [(restoreXmlData_frame read).1]
          exact running
        | unannounced g status refusal read refused =>
          rw [(restoreXmlData_frame read).1]
          exact running
        | announced g status socket responses read linked sent =>
          rw [(restoreXmlData_frame read).1]
          exact running
  | federateRestoreStatus h status =>
    change (f.federateRestoreStatus h status).1.crashed = false
    unfold federateRestoreStatus
    split
    · exact running
    · dsimp only
      split
      · exact running
      · split <;> exact running

end RestorableFederation

/-! ## Runs -/

open RestorableFederation

variable {run : RestorableFederation × Round} {e : RestoreEvent}

/-- What the events that are as asked keep: the round follows the table. -/
structure Tracked (run : RestorableFederation × Round) : Prop where
  running : run.1.crashed = false
  table : run.1.Table
  outstanding : ∀ h, h ∈ run.2.outstanding ↔ run.1.Restoring h
  idle : run.2.begun = false → run.2.outstanding = []
  proper : run.2.Proper

theorem Tracked.nobody (tracked : Tracked run) :
    run.2.outstanding = [] ↔ ¬∃ h, run.1.Restoring h := by
  rw [List.eq_nil_iff_forall_not_mem, not_exists]
  exact forall_congr' fun h => not_congr (tracked.outstanding h)

theorem restoring_running (running : run.1.crashed = false) :
    restoring run e = (((run.1.perform e).1,
      run.2.next run.1 (run.1.perform e).1 e (run.1.perform e).2.1), (run.1.perform e).2) := by
  simp [restoring, running]

/-- The round after an event that begins no restore. -/
theorem next_quiet {round : Round} {f g : RestorableFederation} {sent : List RestoreResponse}
    (quiet : Quiet f g e) : round.next f g e sent =
      { round with
        outstanding := round.outstanding.filter fun h =>
          g.isMember h && e.reporter ≠ some h
        announced := round.announced + (sent.filter (·.message.isEnd)).length } := by
  unfold Round.next
  cases idle : f.restoreInProgress with
  | true => simp
  | false => simp [quiet.progress idle]

theorem next_outstanding (tracked : Tracked run) {g : RestorableFederation}
    (quiet : Quiet run.1 g e) (sent : List RestoreResponse) (h : FederateHandle) :
    h ∈ (run.2.next run.1 g e sent).outstanding ↔ g.Restoring h := by
  rw [next_quiet quiet, quiet.restoring tracked.table h, ← tracked.outstanding h]
  simp

/-- Without an announcement the round stays proper exactly if somebody is still waited for. -/
theorem proper_silent (tracked : Tracked run) {g : RestorableFederation}
    (quiet : Quiet run.1 g e) {sent : List RestoreResponse}
    (silent : sent.filter (·.message.isEnd) = []) :
    (run.2.next run.1 g e sent).Proper ↔
      ((∃ h, run.1.Restoring h) → ∃ h, g.Restoring h) := by
  have listed := next_outstanding tracked quiet sent
  have empty : (run.2.next run.1 g e sent).outstanding = [] ↔ ¬∃ h, g.Restoring h := by
    rw [List.eq_nil_iff_forall_not_mem, not_exists]
    exact forall_congr' fun h => not_congr (listed h)
  have fields : (run.2.next run.1 g e sent).begun = run.2.begun ∧
      (run.2.next run.1 g e sent).announced = run.2.announced := by
    rw [next_quiet quiet]
    simp [silent]
  have before := tracked.proper
  unfold Round.Proper at before ⊢
  rw [fields.1, fields.2, before]
  by_cases waited : ∃ h, run.1.Restoring h
  · have some_ : run.2.outstanding ≠ [] := fun none_ => tracked.nobody.mp none_ waited
    have begun : run.2.begun = true := by
      cases started : run.2.begun with
      | true => rfl
      | false => exact absurd (tracked.idle started) some_
    by_cases waits : ∃ h, g.Restoring h
    · have more := mt empty.mp (not_not.mpr waits)
      simp [begun, some_, more, waits]
    · have done := empty.mpr waits
      simp [begun, some_, done, waits, waited]
  · have none_ := tracked.nobody.mpr waited
    have still : ¬∃ h, g.Restoring h := by
      rintro ⟨h, waits⟩
      exact waited ⟨h, ((quiet.restoring tracked.table h).mp waits).1⟩
    simp [none_, empty.mpr still, waited]

/-- An announcement when nobody is left is proper exactly if somebody was waited for. -/
theorem proper_announced (tracked : Tracked run) {g : RestorableFederation}
    (quiet : Quiet run.1 g e) {sent : List RestoreResponse}
    (once : (sent.filter (·.message.isEnd)).length = 1) (finished : ¬∃ h, g.Restoring h) :
    (run.2.next run.1 g e sent).Proper ↔ ∃ h, run.1.Restoring h := by
  have listed := next_outstanding tracked quiet sent
  have empty : (run.2.next run.1 g e sent).outstanding = [] := by
    rw [List.eq_nil_iff_forall_not_mem]
    exact fun h inside => finished ⟨h, (listed h).mp inside⟩
  have fields : (run.2.next run.1 g e sent).begun = run.2.begun ∧
      (run.2.next run.1 g e sent).announced = run.2.announced + 1 := by
    rw [next_quiet quiet]
    simp [once]
  have before := tracked.proper
  unfold Round.Proper at before ⊢
  rw [fields.1, fields.2, before, empty]
  by_cases waited : ∃ h, run.1.Restoring h
  · have some_ : run.2.outstanding ≠ [] := fun none_ => tracked.nobody.mp none_ waited
    have begun : run.2.begun = true := by
      cases started : run.2.begun with
      | true => rfl
      | false => exact absurd (tracked.idle started) some_
    simp [begun, some_, waited]
  · have none_ := tracked.nobody.mpr waited
    simp [none_, waited]

theorem proper_harmless (tracked : Tracked run) {g : RestorableFederation}
    (harmless : Harmless run.1 g e) {sent : List RestoreResponse}
    (silent : sent.filter (·.message.isEnd) = []) : (run.2.next run.1 g e sent).Proper :=
  (proper_silent tracked harmless.toQuiet silent).mpr fun ⟨h, waits⟩ => ⟨h, harmless.stays h waits⟩

theorem tracked_quiet (tracked : Tracked run) {g : RestorableFederation}
    (quiet : Quiet run.1 g e) (running : g.crashed = false) {sent : List RestoreResponse}
    (proper : (run.2.next run.1 g e sent).Proper) :
    Tracked (g, run.2.next run.1 g e sent) := by
  refine ⟨running, quiet.table tracked.table, next_outstanding tracked quiet sent, ?_, proper⟩
  intro idle
  rw [next_quiet quiet] at idle ⊢
  simp [tracked.idle idle]

/-- A request begins a round in which everybody is to report. -/
theorem next_begun {round : Round} {f g : RestorableFederation} {sent : List RestoreResponse}
    (idle : f.restoreInProgress = false) (begun : g.restoreInProgress = true) :
    round.next f g e sent = ⟨true, g.federates.map Prod.fst, 0⟩ := by
  simp [Round.next, idle, begun]

theorem leave_iff {f g : RestorableFederation} {h : FederateHandle}
    (leaves : ∀ k, g.Restoring k ↔ f.Restoring k ∧ k ≠ h) :
    ((∃ k, f.Restoring k) → ∃ k, g.Restoring k) ↔ (f.Restoring h → f.OthersRestoring h) := by
  have others : f.OthersRestoring h ↔ ∃ k, g.Restoring k := by
    simp only [leaves]
    constructor
    · rintro ⟨kv, inside, other, waits⟩
      exact ⟨kv.1, ⟨kv, inside, rfl, waits⟩, other⟩
    · rintro ⟨k, ⟨kv, inside, rfl, waits⟩, other⟩
      exact ⟨kv, inside, other, waits⟩
  rw [others]
  constructor
  · exact fun kept waits => kept ⟨h, waits⟩
  · rintro kept ⟨k, waits⟩
    by_cases same : k = h
    · exact kept (same ▸ waits)
    · exact ⟨k, (leaves k).mpr ⟨waits, same⟩⟩

theorem remove_restoring {f : RestorableFederation} {h k : FederateHandle} :
    (f.remove h).1.Restoring k ↔ f.Restoring k ∧ k ≠ h := by
  unfold remove
  cases member : f.isMember h with
  | false =>
    refine ⟨fun waits => ⟨waits, ?_⟩, fun both => both.1⟩
    rintro rfl
    have joined := restoring_isMember waits
    simp only [member, Bool.not_false, if_true] at joined
    cases joined
  | true =>
    constructor
    · rintro ⟨kv, inside, key, waits⟩
      obtain ⟨old, other⟩ := mem_drop.mp inside
      exact ⟨⟨kv, old, key, waits⟩, key ▸ other⟩
    · rintro ⟨⟨kv, inside, key, waits⟩, other⟩
      exact ⟨kv, mem_drop.mpr ⟨inside, key ▸ other⟩, key, waits⟩

/-- The announcements after a report are proper exactly under the condition. -/
theorem announced_report (tracked : Tracked run) {h : FederateHandle} {status : Bool} :
    (restoring run (.federateRestoreStatus h status)).1.2.Proper ↔
      (run.1.isMember h = true → ¬run.1.OthersRestoring h →
        (run.1.Restoring h ↔ run.1.Addressable)) := by
  rw [restoring_running tracked.running]
  cases member : run.1.isMember h with
  | false =>
    have refused : run.1.perform (.federateRestoreStatus h status) =
        (run.1, [], some .federateNotExecutionMember) := by
      simp [perform, federateRestoreStatus, member]
    have unreported : ∀ k, run.1.Restoring k →
        (RestoreEvent.federateRestoreStatus h status).reporter ≠ some k := by
      intro k waits same
      have joined := restoring_isMember waits
      rw [← Option.some.inj same, member] at joined
      cases joined
    have proper : (run.2.next run.1 run.1 (.federateRestoreStatus h status) []).Proper :=
      proper_harmless tracked (harmless_refl unreported) rfl
    rw [refused]
    simp [proper]
  | true =>
    have left : ∀ {g : RestorableFederation},
        g.federates = (run.1.restoreReported h status).federates →
        ∀ k, g.Restoring k ↔ run.1.Restoring k ∧ k ≠ h := by
      intro g same k
      rw [← reported_restoring (f := run.1) status]
      unfold Restoring
      rw [same]
    have others : run.1.OthersRestoring h ↔
        ∃ k, (run.1.restoreReported h status).Restoring k := by
      simp only [left rfl]
      constructor
      · rintro ⟨kv, inside, other, waits⟩
        exact ⟨kv.1, ⟨kv, inside, rfl, waits⟩, other⟩
      · rintro ⟨k, ⟨kv, inside, rfl, waits⟩, other⟩
        exact ⟨kv, inside, other, waits⟩
    cases waited : (run.1.restoreReported h status).federates.any (·.2.isRestoring) with
    | true =>
      have still := any_restoring.mp waited
      have silent : run.1.perform (.federateRestoreStatus h status) =
          (run.1.restoreReported h status, [], none) := by
        simp [perform, federateRestoreStatus, member, waited]
      have quiet : Quiet run.1 (run.1.restoreReported h status)
          (.federateRestoreStatus h status) := quiet_report rfl rfl id
      rw [silent]
      exact ⟨fun _ _ alone => absurd (others.mpr still) alone,
        fun _ => (proper_silent tracked quiet rfl).mpr fun _ => still⟩
    | false =>
      have alone : ¬∃ k, (run.1.restoreReported h status).Restoring k := by
        rw [← any_restoring, waited]
        simp
      have last : (∃ k, run.1.Restoring k) ↔ run.1.Restoring h := by
        constructor
        · rintro ⟨k, waits⟩
          by_cases same : k = h
          · exact same ▸ waits
          · exact absurd ⟨k, (left rfl k).mpr ⟨waits, same⟩⟩ alone
        · exact fun waits => ⟨h, waits⟩
      simp only [mt others.mp alone, not_false_iff, true_imp_iff]
      cases told : (run.1.restoreReported h status).respondToAll
          (if (run.1.restoreReported h status).restoreStatus then .federationRestored
            else .federationNotRestored) with
      | error refusal =>
        have silent : run.1.perform (.federateRestoreStatus h status) =
            (run.1.restoreReported h status, [], some refusal) := by
          simp [perform, federateRestoreStatus, member, waited, told]
        have quiet : Quiet run.1 (run.1.restoreReported h status)
            (.federateRestoreStatus h status) := quiet_report rfl rfl id
        have unreachable : ¬run.1.Addressable := by
          rw [← reported_addressable (f := run.1) h status]
          rw [← respondToAll_iff (if (run.1.restoreReported h status).restoreStatus
            then .federationRestored else .federationNotRestored)]
          rintro ⟨response, sent⟩
          rw [told] at sent
          cases sent
        rw [silent, proper_silent tracked quiet rfl, last]
        simp [alone, unreachable]
      | ok response =>
        have done : run.1.perform (.federateRestoreStatus h status) =
            ({ run.1.restoreReported h status with
              restoreStatus := true, restoreInProgress := false }, [response], none) := by
          simp [perform, federateRestoreStatus, member, waited, told]
        have quiet : Quiet run.1 { run.1.restoreReported h status with
            restoreStatus := true, restoreInProgress := false }
            (.federateRestoreStatus h status) := quiet_report rfl rfl fun _ => rfl
        have reachable : run.1.Addressable := by
          rw [← reported_addressable (f := run.1) h status]
          exact (respondToAll_iff _).mp ⟨response, told⟩
        have isEnd : response.message.isEnd = true := by
          rw [(respondToAll_success told).1]
          split <;> rfl
        rw [done, proper_announced tracked quiet (by simp [isEnd]) alone, last]
        simp [reachable]

theorem announced_request (tracked : Tracked run) {h : FederateHandle} {label : String} :
    (restoring run (.requestFederationRestore h label)).1.2.Proper := by
  rw [restoring_running tracked.running]
  rcases request_harmless (f := run.1) (h := h)
    (.requestFederationRestore h label) rfl with ⟨harmless, silent⟩ | ⟨member, idle, g, same, _, is⟩
  · refine proper_harmless tracked harmless ?_
    change List.filter _ (run.1.requestFederationRestore h label).2.1 = []
    rw [silent]
    rfl
  · change (run.2.next run.1 (run.1.requestFederationRestore h label).1 _ _).Proper
    have listed : h ∈ (g.startRestore).federates.map Prod.fst := by
      rw [startRestore_keys, keys_congr same]
      exact mem_keys_iff.mpr member
    rw [is, next_begun idle rfl]
    cases keys : g.startRestore.federates.map Prod.fst with
    | nil =>
      rw [keys] at listed
      cases listed
    | cons first rest => rfl

theorem announced_resign (tracked : Tracked run) {h : FederateHandle} :
    (restoring run (.resign h)).1.2.Proper ↔ (run.1.Restoring h → run.1.OthersRestoring h) := by
  have silent : (run.1.remove h).2.1 = [] := by
    unfold remove
    split <;> rfl
  rw [restoring_running tracked.running]
  change (run.2.next run.1 (run.1.remove h).1 (.resign h) (run.1.remove h).2.1).Proper ↔ _
  rw [silent, proper_silent tracked (quiet_remove rfl) rfl]
  exact leave_iff fun k => remove_restoring

theorem announced_connectionLost (tracked : Tracked run) {h : FederateHandle} :
    (restoring run (.connectionLost h)).1.2.Proper ↔
      ((lookup Prod.fst h run.1.links).isSome = true →
        run.1.Restoring h → run.1.OthersRestoring h) := by
  have silent : (run.1.connectionLost h).2.1 = [] := by
    unfold connectionLost
    split <;> rfl
  rw [restoring_running tracked.running]
  change (run.2.next run.1 (run.1.connectionLost h).1 (.connectionLost h)
    (run.1.connectionLost h).2.1).Proper ↔ _
  rw [silent, proper_silent tracked (quiet_connectionLost rfl) rfl]
  cases known : lookup Prod.fst h run.1.links with
  | none =>
    have kept : (run.1.connectionLost h).1 = run.1 := by simp [connectionLost, known]
    simp [kept]
  | some link =>
    have closed : (run.1.connectionLost h).1 = ({ run.1 with
        links := adjust Prod.fst h (fun link => (link.1, false)) run.1.links }.remove h).1 := by
      simp [connectionLost, known]
    have left : ∀ k, (run.1.connectionLost h).1.Restoring k ↔ run.1.Restoring k ∧ k ≠ h := by
      intro k
      rw [closed, remove_restoring]
      rfl
    rw [leave_iff left]
    simp

/-- An event is as asked exactly under the condition. -/
theorem restoredSoundly_iff (tracked : Tracked run) :
    RestoredSoundly run e ↔ Restorable run e := by
  have unasked : (∀ h label, e ≠ .requestFederationRestore h label) →
      (RestoredSoundly run e ↔ (restoring run e).1.2.Proper) := fun other =>
    ⟨fun sound => sound.announced, fun proper =>
      ⟨fun h label same => absurd same (other h label), proper⟩⟩
  have proper : (run.1.perform e).2.1 = [] → Harmless run.1 (run.1.perform e).1 e →
      (restoring run e).1.2.Proper := by
    intro silent harmless
    rw [restoring_running tracked.running]
    exact proper_harmless tracked harmless (by rw [silent]; rfl)
  cases e with
  | join name completes =>
    have silent : (run.1.join name completes).2.1 = [] := by
      unfold join
      split
      · rfl
      · split <;> rfl
    rw [unasked (by simp)]
    simp [Restorable, proper silent (harmless_join rfl name completes)]
  | resign h =>
    rw [unasked (by simp), announced_resign tracked]
    rfl
  | connectionLost h =>
    rw [unasked (by simp), announced_connectionLost tracked]
    rfl
  | setConstrained h constrained =>
    rw [unasked (by simp)]
    simp [Restorable, proper (setFlag_silent _) (harmless_setConstrained h constrained)]
  | setRegulator h regulator =>
    rw [unasked (by simp)]
    simp [Restorable, proper (setFlag_silent _) (harmless_setRegulator h regulator)]
  | saved label =>
    rw [unasked (by simp)]
    simp [Restorable, proper rfl (harmless_saved label)]
  | fileChanged fileName content =>
    rw [unasked (by simp)]
    simp [Restorable, proper rfl (harmless_fileChanged fileName content)]
  | requestFederationRestore h label =>
    constructor
    · intro sound member idle
      exact (requestKept_iff tracked.table.names member idle).mp
        (sound.request h label rfl member idle)
    · intro settles
      refine ⟨fun h' label' same member idle => ?_, announced_request tracked⟩
      cases same
      exact (requestKept_iff tracked.table.names member idle).mpr (settles member idle)
  | federateRestoreStatus h status =>
    rw [unasked (by simp), announced_report tracked]
    rfl

/-- An event that is as asked keeps the round in step with the table. -/
theorem tracked_step (tracked : Tracked run) (sound : RestoredSoundly run e) :
    Tracked (restoring run e).1 := by
  have proper := sound.announced
  have running : (run.1.perform e).1.crashed = false :=
    perform_running tracked.running fun h label same member idle =>
      ((requestKept_iff tracked.table.names member idle).mp
        (sound.request h label same member idle)).1
  rw [restoring_running tracked.running] at proper ⊢
  have quietly : Quiet run.1 (run.1.perform e).1 e → Tracked ((run.1.perform e).1,
      run.2.next run.1 (run.1.perform e).1 e (run.1.perform e).2.1) :=
    fun quiet => tracked_quiet tracked quiet running proper
  cases e with
  | join name completes => exact quietly (harmless_join rfl name completes).toQuiet
  | resign h => exact quietly (quiet_remove rfl)
  | connectionLost h => exact quietly (quiet_connectionLost rfl)
  | setConstrained h constrained => exact quietly (harmless_setConstrained h constrained).toQuiet
  | setRegulator h regulator => exact quietly (harmless_setRegulator h regulator).toQuiet
  | saved label => exact quietly (harmless_saved label).toQuiet
  | fileChanged fileName content => exact quietly (harmless_fileChanged fileName content).toQuiet
  | federateRestoreStatus h status => exact quietly (quiet_federateRestoreStatus h status)
  | requestFederationRestore h label =>
    rcases request_harmless (f := run.1) (h := h)
      (.requestFederationRestore h label) rfl with ⟨harmless, _⟩ | ⟨member, idle, g, same, next, is⟩
    · exact quietly harmless.toQuiet
    · have begun : (run.1.perform (.requestFederationRestore h label)).1 = g.startRestore := is
      rw [begun] at running proper ⊢
      have round : run.2.next run.1 g.startRestore (.requestFederationRestore h label)
          (run.1.perform (.requestFederationRestore h label)).2.1 =
            ⟨true, g.startRestore.federates.map Prod.fst, 0⟩ := next_begun idle rfl
      refine ⟨running, startRestore_table (table_congr same tracked.table next), fun k => ?_,
        fun none_ => ?_, proper⟩
      · rw [round, startRestore_restoring, ← mem_keys_iff, startRestore_keys]
      · rw [round] at none_
        cases none_

/-- In every run every event is as asked exactly if every event meets the condition. -/
theorem restores_iff (name : String) (haveXml : Bool) (es : List RestoreEvent) :
    restoring.Meets RestoredSoundly (create name haveXml, Round.initial) es ↔
      restoring.Meets Restorable (create name haveXml, Round.initial) es := by
  have start : Tracked (create name haveXml, Round.initial) := by
    refine ⟨rfl, ⟨List.nodup_nil, by simp [create], List.nodup_nil⟩, fun h => ?_, fun _ => rfl, rfl⟩
    simp [Round.initial, Restoring, create]
  exact restoring.meets_congr (p := Tracked) (fun _ _ tracked => restoredSoundly_iff tracked)
    (fun _ _ tracked sound => tracked_step tracked sound) start es

/-- The file was never written: the request succeeds. -/
theorem restores_fails :
    ¬∀ (name : String) (haveXml : Bool) (es : List RestoreEvent),
      restoring.Meets RestoredSoundly (create name haveXml, Round.initial) es := by
  intro claim
  have met := claim "f" true [.join "a" true, .requestFederationRestore 1 "x"]
  obtain ⟨_, ⟨asked, _⟩, _⟩ := met
  have kept := asked 1 "x" rfl (by decide) (by decide)
  obtain ⟨socket, _, failed⟩ := kept.fails (by rintro ⟨doc, found, _⟩; cases found)
  exact request_never_fails (by decide) (by decide) socket failed

end Certi
