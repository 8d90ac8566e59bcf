import Mathlib.Data.List.Nodup
import Mathlib.Data.List.TakeWhile
import Mathlib.Logic.Function.Basic
import Certi.Lib.First
import Certi.Lib.Keyed
import Certi.Lib.Runs
import Certi.LibCERTI.Types

/-!
# Restoring a federation

`requestFederationRestore` and `federateRestoreStatus` of `RTIG/Federation.cc`,
`saveXmlData` and `restoreXmlData` of `Federation_fom.cc` and the setters of
`Federate.cc` they call. The table of federates is keyed by the handle a
federate was given when it joined, and the record has a handle of its own, which
a restore rewrites. Reading a document gives back what was written; the messages
of other services, the MOM and the federation's handle in a document, which
nothing reads, are left out.
-/
namespace Certi

open Keyed Runs

/-! ## Documents -/

/-- An element of a document; text between elements is an element of another name. -/
inductive XmlNode where
  | node (name : String) (properties : List (String × String)) (children : List XmlNode)

namespace XmlNode

def name : XmlNode → String
  | node name _ _ => name

def children : XmlNode → List XmlNode
  | node _ _ children => children

/-- `xmlGetProp`, null for a property that is absent. -/
def property (key : String) : XmlNode → Option String
  | node _ properties _ => (lookup Prod.fst key properties).map Prod.snd

end XmlNode

/-- A parsed file; an empty document has no root. -/
structure XmlDocument where
  root : Option XmlNode

def rootNode : String := "rtigSaveData"
def nodeFederation : String := "federation"
def nodeFederate : String := "federate"

/-- `strtol`: the digits in front; signs and blanks, which no handle has, are left out. -/
def strtol (text : String) : Nat := Nat.ofDigitChars 10 (text.toList.takeWhile Char.isDigit) 0

/-! ## Federates -/

/-- A federate as a restore sees it, `handle` being the record's own. -/
structure MemberRecord where
  name : String
  handle : FederateHandle
  isConstrained : Bool
  isRegulator : Bool
  isRestoring : Bool
  deriving DecidableEq, Repr

namespace MemberRecord

variable (m : MemberRecord)

def setHandle (h : FederateHandle) : Except RTIException MemberRecord :=
  if h = 0 then .error .rtiInternalError
  else if m.handle = h then .error .rtiInternalError
  else .ok { m with handle := h }

def setConstrained (c : Bool) : Except RTIException MemberRecord :=
  if m.isConstrained = c then .error .rtiInternalError else .ok { m with isConstrained := c }

def setRegulator (r : Bool) : Except RTIException MemberRecord :=
  if m.isRegulator = r then .error .rtiInternalError else .ok { m with isRegulator := r }

/-- A setter whose exception is caught. -/
def trying (setter : Except RTIException MemberRecord) : MemberRecord :=
  match setter with
  | .ok after => after
  | .error _ => m

/-- What `restoreXmlData` does with the record of a federate the file names. -/
def restored (constrained regulator : Bool) (h : FederateHandle) : MemberRecord :=
  let constrainedSet := m.trying (m.setConstrained constrained)
  let regulatorSet := constrainedSet.trying (constrainedSet.setRegulator regulator)
  regulatorSet.trying (regulatorSet.setHandle h)

end MemberRecord

structure RestorableFederation where
  name : String
  /-- `my_federates`, in the order of the keys. -/
  federates : List (FederateHandle × MemberRecord)
  nextFederate : FederateHandle
  /-- The federates the socket server has references for, and whether their link is open. -/
  links : List (FederateHandle × Bool)
  haveXml : Bool
  files : String → Option XmlDocument
  saveLabel : String
  restoreInProgress : Bool
  restoreStatus : Bool
  /-- A null pointer has been dereferenced. -/
  crashed : Bool

inductive RestoreMessage where
  | requestFederationRestoreSucceeded (label : String)
  | requestFederationRestoreFailed (label : String)
  | federationRestoreBegun
  | initiateFederateRestore (handle : FederateHandle) (label : String)
  | federationRestored
  | federationNotRestored
  deriving DecidableEq, Repr

/-- A message and the links it goes to; a link is that of the federate which joined over it, and
null once it is closed. -/
structure RestoreResponse where
  sockets : List (Option FederateHandle)
  message : RestoreMessage
  deriving DecidableEq, Repr

abbrev RestoreAnswer := List RestoreResponse × Option RTIException

namespace RestorableFederation

variable (f : RestorableFederation)

def member? (h : FederateHandle) : Option (FederateHandle × MemberRecord) :=
  lookup Prod.fst h f.federates

def isMember (h : FederateHandle) : Bool := (f.member? h).isSome

def getSocketLink (h : FederateHandle) : Except RTIException (Option FederateHandle) :=
  match lookup Prod.fst h f.links with
  | some link => .ok (if link.2 then some h else none)
  | none => .error .federateNotExecutionMember

/-- `respondToAll`, by the keys of the table. -/
def respondToAll (message : RestoreMessage) : Except RTIException RestoreResponse := do
  return ⟨← f.federates.mapM fun kv => f.getSocketLink kv.1, message⟩

/-- Changes the record under a key. -/
def adjustMember (h : FederateHandle) (change : MemberRecord → MemberRecord) :
    RestorableFederation :=
  { f with federates := adjust Prod.fst h (fun kv => (kv.1, change kv.2)) f.federates }

/-! ## Files -/

def fileName (label : String) : String := f.name ++ "_" ++ label ++ ".xcs"

/-- `xmlParseFile`; without an XML library no file is read. -/
def document (label : String) : Option XmlDocument :=
  if f.haveXml then f.files (f.fileName label) else none

def savedFederate (m : MemberRecord) : XmlNode :=
  .node nodeFederate
    [("name", m.name), ("handle", toString m.handle),
      ("constrained", if m.isConstrained then "true" else "false"),
      ("regulator", if m.isRegulator then "true" else "false")] []

def savedDocument (name : String) (federates : List (FederateHandle × MemberRecord)) :
    XmlDocument :=
  ⟨some (.node rootNode [] [.node nodeFederation [("name", name)]
    (federates.map fun kv => savedFederate kv.2)])⟩

/-- `saveXmlData`. -/
def saveXmlData : RestorableFederation × Bool :=
  if f.haveXml then
    ({ f with
      files := Function.update f.files (f.fileName f.saveLabel)
        (some (savedDocument f.name f.federates)) }, true)
  else (f, false)

/-- The loop of `restoreXmlData` over the elements of the federation, with its status; a
property that is absent ends it in a null pointer. -/
def restoreFederates : List (FederateHandle × MemberRecord) → Bool → List XmlNode →
    Option (List (FederateHandle × MemberRecord) × Bool)
  | federates, status, [] => some (federates, status)
  | federates, status, cur :: rest =>
    if cur.name = nodeFederate && !federates.isEmpty then do
      let name ← cur.property "name"
      if federates.any (fun kv => kv.2.name = name) then
        let constrained ← cur.property "constrained"
        let regulator ← cur.property "regulator"
        let handle ← cur.property "handle"
        restoreFederates
          (First.adjust (fun kv => kv.2.name = name)
            (fun kv => (kv.1, kv.2.restored (constrained = "true") (regulator = "true")
              (strtol handle))) federates)
          (regulator = "true") rest
      else restoreFederates federates status rest
    else restoreFederates federates status rest

/-- `restoreXmlData`: the status is the one of the last entry read. -/
def restoreXmlData (label : String) : Option (RestorableFederation × Bool) :=
  match f.document label with
  | none => some (f, false)
  | some doc =>
    match doc.root with
    | none => some (f, false)
    | some root =>
      if root.name ≠ rootNode then some (f, false)
      else match root.children with
        | [] => none
        | federation :: _ =>
          if federation.name ≠ nodeFederation then some (f, false)
          else do
            -- another federation's name only gives a warning, no name a null pointer
            let _ ← federation.property "name"
            let (federates, status) ← restoreFederates f.federates false federation.children
            return ({ f with federates := federates }, status)

/-! ## The services -/

/-- Every member is restoring. -/
def startRestore : RestorableFederation :=
  { f with
    federates := f.federates.map fun kv => (kv.1, { kv.2 with isRestoring := true })
    restoreStatus := true
    restoreInProgress := true }

/-- The message to one federate, with the handle its record has and over the link of that handle. -/
def initiate (label : String) (kv : FederateHandle × MemberRecord) :
    Except RTIException RestoreResponse := do
  return ⟨[← f.getSocketLink kv.2.handle], .initiateFederateRestore kv.2.handle label⟩

/-- The messages of a restore that begins. -/
def announceRestore (label : String) : Except RTIException (List RestoreResponse) := do
  let begun ← f.respondToAll .federationRestoreBegun
  let initiated ← f.federates.mapM (f.initiate label)
  return begun :: initiated

def requestFederationRestore (h : FederateHandle) (label : String) :
    RestorableFederation × RestoreAnswer :=
  if !f.isMember h then (f, [], some .federateNotExecutionMember)
  else if f.restoreInProgress then (f, [], some .restoreInProgress)
  else match f.restoreXmlData label with
    | none => ({ f with crashed := true }, [], none)
    | some (read, _) =>
      -- "forcing success to true to skip xmlParseFile"
      let success := true
      let message : RestoreMessage :=
        if success then .requestFederationRestoreSucceeded label
        else .requestFederationRestoreFailed label
      match read.getSocketLink h with
      | .error e => (read, [], some e)
      | .ok socket =>
        if !success then (read, [⟨[socket], message⟩], none)
        else
          let begun := read.startRestore
          match begun.announceRestore label with
          | .error e => (begun, [], some e)
          | .ok responses => (begun, ⟨[socket], message⟩ :: responses, none)

/-- The federate no longer restores, and a failure is remembered. -/
def restoreReported (h : FederateHandle) (status : Bool) : RestorableFederation :=
  { f.adjustMember h (fun m => { m with isRestoring := false }) with
    restoreStatus := f.restoreStatus && status }

def federateRestoreStatus (h : FederateHandle) (status : Bool) :
    RestorableFederation × RestoreAnswer :=
  if !f.isMember h then (f, [], some .federateNotExecutionMember)
  else
    let reported := f.restoreReported h status
    if reported.federates.any (·.2.isRestoring) then (reported, [], none)
    else
      let message : RestoreMessage :=
        if reported.restoreStatus then .federationRestored else .federationNotRestored
      match reported.respondToAll message with
      | .error e => (reported, [], some e)
      | .ok response =>
        ({ reported with restoreStatus := true, restoreInProgress := false }, [response], none)

/-! ## What else happens to the table -/

/-- `add`; a join that fails halfway leaves a member without references. -/
def join (name : String) (completes : Bool) : RestorableFederation × RestoreAnswer :=
  if f.federates.any (fun kv => kv.2.name = name) then
    (f, [], some .federateAlreadyExecutionMember)
  else
    let h := f.nextFederate
    let inserted := { f with
      federates := f.federates ++ [(h, ⟨name, h, false, false, false⟩)]
      nextFederate := h + 1 }
    if completes then ({ inserted with links := (h, true) :: f.links }, [], none)
    else (inserted, [], some .rtiInternalError)

/-- `remove`. -/
def remove (h : FederateHandle) : RestorableFederation × RestoreAnswer :=
  if !f.isMember h then (f, [], some .federateNotExecutionMember)
  else ({ f with federates := drop Prod.fst h f.federates }, [], none)

/-- The connection of a federate is lost: its link is closed, and a member is killed. -/
def connectionLost (h : FederateHandle) : RestorableFederation × RestoreAnswer :=
  match lookup Prod.fst h f.links with
  | none => (f, [], none)
  | some _ =>
    let closed := { f with links := adjust Prod.fst h (fun link => (link.1, false)) f.links }
    ((closed.remove h).1, [], none)

/-- A service that sets a flag of a member. -/
def setFlag (h : FederateHandle) (setter : MemberRecord → Except RTIException MemberRecord) :
    RestorableFederation × RestoreAnswer :=
  match f.member? h with
  | none => (f, [], some .federateNotExecutionMember)
  | some kv =>
    match setter kv.2 with
    | .error e => (f, [], some e)
    | .ok _ => (f.adjustMember h fun m => m.trying (setter m), [], none)

end RestorableFederation

inductive RestoreEvent where
  | join (name : String) (completes : Bool)
  | resign (h : FederateHandle)
  | connectionLost (h : FederateHandle)
  | setConstrained (h : FederateHandle) (constrained : Bool)
  | setRegulator (h : FederateHandle) (regulator : Bool)
  /-- The save of a label ends in success. -/
  | saved (label : String)
  /-- A file is lost, damaged or put in place. -/
  | fileChanged (fileName : String) (content : Option XmlDocument)
  | requestFederationRestore (h : FederateHandle) (label : String)
  | federateRestoreStatus (h : FederateHandle) (status : Bool)

namespace RestorableFederation

def perform (f : RestorableFederation) : RestoreEvent → RestorableFederation × RestoreAnswer
  | .join name completes => f.join name completes
  | .resign h => f.remove h
  | .connectionLost h => f.connectionLost h
  | .setConstrained h constrained => f.setFlag h (·.setConstrained constrained)
  | .setRegulator h regulator => f.setFlag h (·.setRegulator regulator)
  | .saved label => ({ f with saveLabel := label }.saveXmlData.1, [], none)
  | .fileChanged fileName content =>
    ({ f with files := Function.update f.files fileName content }, [], none)
  | .requestFederationRestore h label => f.requestFederationRestore h label
  | .federateRestoreStatus h status => f.federateRestoreStatus h status

/-- A federation nobody has joined, which has saved nothing. -/
def create (name : String) (haveXml : Bool) : RestorableFederation :=
  { name := name, federates := [], nextFederate := 1, links := [], haveXml := haveXml
    files := fun _ => none, saveLabel := "", restoreInProgress := false, restoreStatus := true
    crashed := false }

end RestorableFederation

/-! ## What a file changes -/

theorem strtol_toString (n : Nat) : strtol (toString n) = n := by
  have digits : (toString n).toList = Nat.toDigits 10 n := Nat.toList_repr
  have all : (Nat.toDigits 10 n).takeWhile Char.isDigit = Nat.toDigits 10 n := by
    rw [List.takeWhile_eq_self_iff]
    exact fun c member => Nat.isDigit_of_mem_toDigits (by decide) (by decide) member
  rw [strtol, digits, all, Nat.ofDigitChars_ten_toDigits]

theorem MemberRecord.restored_eq (m : MemberRecord) (constrained regulator : Bool)
    (h : FederateHandle) :
    m.restored constrained regulator h =
      { m with
        isConstrained := constrained
        isRegulator := regulator
        handle := if h = 0 then m.handle else h } := by
  have constrainedSet : m.trying (m.setConstrained constrained) =
      { m with isConstrained := constrained } := by
    unfold setConstrained
    by_cases same : m.isConstrained = constrained
    · rw [if_pos same, ← same]
      rfl
    · rw [if_neg same]
      rfl
  have regulatorSet : ∀ m' : MemberRecord, m'.trying (m'.setRegulator regulator) =
      { m' with isRegulator := regulator } := by
    intro m'
    unfold setRegulator
    by_cases same : m'.isRegulator = regulator
    · rw [if_pos same, ← same]
      rfl
    · rw [if_neg same]
      rfl
  have handleSet : ∀ m' : MemberRecord, m'.trying (m'.setHandle h) =
      { m' with handle := if h = 0 then m'.handle else h } := by
    intro m'
    unfold setHandle
    by_cases zero : h = 0
    · simp [zero, trying]
    · by_cases same : m'.handle = h
      · rw [if_neg zero, if_pos same, if_neg zero, ← same]
        rfl
      · rw [if_neg zero, if_neg same, if_neg zero]
        rfl
  rw [restored, constrainedSet, regulatorSet, handleSet]

namespace RestorableFederation

variable {f : RestorableFederation}

/-- What a restore leaves of an entry: its key, its name and whether it is restoring. -/
def identity (kv : FederateHandle × MemberRecord) : FederateHandle × String × Bool :=
  (kv.1, kv.2.name, kv.2.isRestoring)

theorem restoreFederates_identity {nodes : List XmlNode}
    {federates after : List (FederateHandle × MemberRecord)} {status ended : Bool}
    (read : restoreFederates federates status nodes = some (after, ended)) :
    after.map identity = federates.map identity := by
  fun_induction restoreFederates federates status nodes with
  | case1 federates status =>
    cases read
    rfl
  | case2 federates status cur rest applies ih ih' =>
    obtain ⟨name, _, read⟩ := Option.bind_eq_some_iff.mp read
    split at read
    · obtain ⟨constrained, _, read⟩ := Option.bind_eq_some_iff.mp read
      obtain ⟨regulator, _, read⟩ := Option.bind_eq_some_iff.mp read
      obtain ⟨handle, _, read⟩ := Option.bind_eq_some_iff.mp read
      rw [ih name constrained regulator handle read]
      refine First.map_adjust (fun kv => ?_) federates
      rw [MemberRecord.restored_eq]
      rfl
    · exact ih' read
  | case3 federates status cur rest skipped ih => exact ih read

/-- Elements that have all their properties are read to the end. -/
theorem restoreFederates_total {nodes : List XmlNode}
    (complete : ∀ node ∈ nodes, node.name = nodeFederate →
      ∀ key ∈ ["name", "handle", "constrained", "regulator"], (node.property key).isSome = true)
    (federates : List (FederateHandle × MemberRecord)) (status : Bool) :
    ∃ result, restoreFederates federates status nodes = some result := by
  induction nodes generalizing federates status with
  | nil => exact ⟨_, rfl⟩
  | cons cur rest ih =>
    have later := ih fun node member => complete node (List.mem_cons_of_mem cur member)
    by_cases applies : (cur.name = nodeFederate && !federates.isEmpty) = true
    · have federate : cur.name = nodeFederate := by
        simp only [Bool.and_eq_true, decide_eq_true_eq] at applies
        exact applies.1
      have properties := complete cur List.mem_cons_self federate
      obtain ⟨name, hasName⟩ := Option.isSome_iff_exists.mp (properties "name" (by simp))
      obtain ⟨handle, hasHandle⟩ := Option.isSome_iff_exists.mp (properties "handle" (by simp))
      obtain ⟨constrained, hasConstrained⟩ :=
        Option.isSome_iff_exists.mp (properties "constrained" (by simp))
      obtain ⟨regulator, hasRegulator⟩ :=
        Option.isSome_iff_exists.mp (properties "regulator" (by simp))
      rw [restoreFederates, if_pos applies]
      simp only [hasName, hasHandle, hasConstrained, hasRegulator, Option.bind_eq_bind,
        Option.bind_some]
      split
      · exact later _ _
      · exact later _ _
    · rw [restoreFederates, if_neg applies]
      exact later _ _

/-- What the entries of a saved table make of one record. -/
def restoredFrom (m : MemberRecord) (s : FederateHandle × MemberRecord) : MemberRecord :=
  if m.name = s.2.name then m.restored s.2.isConstrained s.2.isRegulator s.2.handle else m

theorem restoredFrom_name (m : MemberRecord) (s : FederateHandle × MemberRecord) :
    (restoredFrom m s).name = m.name := by
  unfold restoredFrom
  split
  · rw [MemberRecord.restored_eq]
  · rfl

/-- Reading back a saved table, where the names of the current one are distinct. -/
theorem restoreFederates_saved (saved : List (FederateHandle × MemberRecord))
    {federates : List (FederateHandle × MemberRecord)} (status : Bool)
    (distinct : (federates.map (·.2.name)).Nodup) :
    ∃ ended, restoreFederates federates status (saved.map fun s => savedFederate s.2) =
      some (federates.map fun kv => (kv.1, saved.foldl restoredFrom kv.2), ended) := by
  induction saved generalizing federates status with
  | nil => exact ⟨status, by simp [restoreFederates]⟩
  | cons s rest ih =>
    have single : federates.Pairwise fun kv kv' =>
        ¬(decide (kv.2.name = s.2.name) = true ∧ decide (kv'.2.name = s.2.name) = true) := by
      refine (List.pairwise_map.mp distinct).imp fun {kv kv'} differ both => ?_
      simp only [decide_eq_true_eq] at both
      exact differ (both.1.trans both.2.symm)
    have stepped : First.adjust (fun kv => decide (kv.2.name = s.2.name))
        (fun kv => (kv.1, kv.2.restored s.2.isConstrained s.2.isRegulator s.2.handle)) federates =
          federates.map fun kv => (kv.1, restoredFrom kv.2 s) := by
      rw [First.adjust_eq_map single]
      refine List.map_congr_left fun kv _ => ?_
      unfold restoredFrom
      by_cases named : kv.2.name = s.2.name <;> simp [named]
    have next : ∀ status', ∃ ended, restoreFederates
        (federates.map fun kv => (kv.1, restoredFrom kv.2 s)) status'
          (rest.map fun s => savedFederate s.2) =
        some (federates.map fun kv => (kv.1, rest.foldl restoredFrom (restoredFrom kv.2 s)),
          ended) := by
      intro status'
      have names : ((federates.map fun kv => (kv.1, restoredFrom kv.2 s)).map
          (·.2.name)).Nodup := by
        simpa [List.map_map, Function.comp_def, restoredFrom_name] using distinct
      obtain ⟨ended, read⟩ := ih status' names
      exact ⟨ended, by simpa [List.map_map, Function.comp_def] using read⟩
    have unnamed : (federates.any fun kv => kv.2.name = s.2.name) = false →
        federates.map (fun kv => (kv.1, restoredFrom kv.2 s)) = federates := by
      intro none_named
      refine (List.map_congr_left fun kv member => ?_).trans (List.map_id' federates)
      have other : kv.2.name ≠ s.2.name := by
        simpa using List.any_eq_false.mp none_named kv member
      simp [restoredFrom, other]
    have properties : (savedFederate s.2).property "name" = some s.2.name ∧
        (savedFederate s.2).property "handle" = some (toString s.2.handle) ∧
        (savedFederate s.2).property "constrained" =
          some (if s.2.isConstrained then "true" else "false") ∧
        (savedFederate s.2).property "regulator" =
          some (if s.2.isRegulator then "true" else "false") := ⟨rfl, rfl, rfl, rfl⟩
    have flag : ∀ b : Bool, decide ((if b then "true" else "false") = "true") = b := by decide
    rw [List.map_cons, restoreFederates]
    cases empty : federates.isEmpty with
    | true =>
      rw [List.isEmpty_iff] at empty
      subst empty
      simpa using next status
    | false =>
      rw [if_pos (by rfl)]
      simp only [properties, Option.bind_eq_bind, Option.bind_some, strtol_toString, flag]
      cases named : federates.any fun kv => decide (kv.2.name = s.2.name) with
      | true =>
        rw [if_pos rfl, stepped]
        simpa using next s.2.isRegulator
      | false =>
        obtain ⟨ended, read⟩ := next status
        rw [unnamed named] at read
        rw [if_neg (by simp)]
        exact ⟨ended, read⟩

end RestorableFederation

end Certi
