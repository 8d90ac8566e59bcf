import Certi.LibCERTI.ObjectModel

/-!
# Broadcast lines

`libCERTI/ObjectClassBroadcastList.cc`. A broadcast keeps one line per federate
with the state of each attribute for it. `status` reads the lines as a function
of federate and attribute; the operations are specified by what they change of
it, and a line that does not exist reads like the fresh line `addFederate`
would make.
-/
namespace Certi

open Keyed

inductive LineState where
  | sent | waiting | notSub
  deriving DecidableEq, Repr

structure ObjectBroadcastLine where
  federate : FederateHandle
  initialState : LineState
  states : List (AttributeHandle × LineState)
  deriving DecidableEq, Repr

/-- The attribute numbers a line is asked about. -/
theorem mem_handles {a maxHandle : AttributeHandle} :
    a ∈ List.range' 1 maxHandle ↔ 1 ≤ a ∧ a ≤ maxHandle := by
  rw [List.mem_range'_1, Nat.add_comm 1 maxHandle, Nat.lt_succ_iff]

namespace ObjectBroadcastLine

def stateFor (line : ObjectBroadcastLine) (a : AttributeHandle) : LineState :=
  match lookup Prod.fst a line.states with
  | some entry => entry.2
  | none => line.initialState

def setState (line : ObjectBroadcastLine) (a : AttributeHandle) (value : LineState) :
    ObjectBroadcastLine :=
  { line with states := (a, value) :: drop Prod.fst a line.states }

/-- Attributes are numbered from 1. -/
def isWaitingAny (line : ObjectBroadcastLine) (maxHandle : AttributeHandle) : Bool :=
  (List.range' 1 maxHandle).any (fun a => line.stateFor a = .waiting)

def isWaitingAll (line : ObjectBroadcastLine) (attributes : List AttributeHandle) : Bool :=
  attributes.all (fun a => line.stateFor a = .waiting)

/-- A waiting attribute becomes a sent one. -/
def markSent (line : ObjectBroadcastLine) (a : AttributeHandle) : ObjectBroadcastLine :=
  if line.stateFor a = .waiting then line.setState a .sent else line

/-- `for attrIndex in 1..maxHandle: if waiting then sent`. -/
def markAllSent (line : ObjectBroadcastLine) (maxHandle : AttributeHandle) : ObjectBroadcastLine :=
  (List.range' 1 maxHandle).foldl markSent line

theorem stateFor_setState (line : ObjectBroadcastLine) (a b : AttributeHandle)
    (value : LineState) :
    (line.setState a value).stateFor b = if b = a then value else line.stateFor b := by
  by_cases same : b = a
  · simp [stateFor, setState, lookup, same]
  · have others : lookup Prod.fst b (drop Prod.fst a line.states) =
        lookup Prod.fst b line.states := by
      simp only [lookup, drop, List.find?_filter]
      congr 1
      funext entry
      by_cases hb : entry.1 = b
      · simp [hb, same]
      · simp [hb]
    have skipped : lookup Prod.fst b ((a, value) :: drop Prod.fst a line.states) =
        lookup Prod.fst b line.states := by
      rw [← others]
      simp [lookup, Ne.symm same]
    simp [stateFor, setState, skipped, same]

theorem stateFor_markSent (line : ObjectBroadcastLine) (a b : AttributeHandle) :
    (line.markSent a).stateFor b =
      if b = a ∧ line.stateFor b = .waiting then .sent else line.stateFor b := by
  unfold markSent
  split
  · rename_i waits
    rw [stateFor_setState]
    by_cases same : b = a
    · subst same
      simp [waits]
    · simp [same]
  · rename_i idle
    by_cases same : b = a
    · subst same
      simp [idle]
    · simp [same]

@[simp] theorem markSent_federate (line : ObjectBroadcastLine) (a : AttributeHandle) :
    (line.markSent a).federate = line.federate := by
  unfold markSent
  split <;> rfl

theorem stateFor_foldl_markSent (as : List AttributeHandle) (line : ObjectBroadcastLine)
    (b : AttributeHandle) :
    (as.foldl markSent line).stateFor b =
      if b ∈ as ∧ line.stateFor b = .waiting then .sent else line.stateFor b := by
  induction as generalizing line with
  | nil => simp
  | cons a rest ih =>
    rw [List.foldl_cons, ih, stateFor_markSent]
    by_cases same : b = a
    · subst same
      by_cases waits : line.stateFor b = .waiting <;> simp [waits]
    · simp [same]

theorem stateFor_markAllSent (line : ObjectBroadcastLine) (maxHandle b : AttributeHandle) :
    (line.markAllSent maxHandle).stateFor b =
      if (1 ≤ b ∧ b ≤ maxHandle) ∧ line.stateFor b = .waiting then .sent
      else line.stateFor b := by
  rw [markAllSent, stateFor_foldl_markSent]
  simp only [mem_handles]

theorem markAllSent_federate (line : ObjectBroadcastLine) (maxHandle : AttributeHandle) :
    (line.markAllSent maxHandle).federate = line.federate := by
  have kept : ∀ (as : List AttributeHandle) (line : ObjectBroadcastLine),
      (as.foldl markSent line).federate = line.federate := by
    intro as
    induction as with
    | nil => exact fun _ => rfl
    | cons a rest ih => exact fun line => (ih _).trans (markSent_federate line a)
  exact kept _ line

theorem isWaitingAny_iff (line : ObjectBroadcastLine) (maxHandle : AttributeHandle) :
    line.isWaitingAny maxHandle = true ↔
      ∃ a, 1 ≤ a ∧ a ≤ maxHandle ∧ line.stateFor a = .waiting := by
  simp only [isWaitingAny, List.any_eq_true, mem_handles, decide_eq_true_eq, and_assoc]

end ObjectBroadcastLine

abbrev BroadcastLines := List ObjectBroadcastLine

namespace BroadcastLines

/-- The sender has a line in which everything counts as sent; federate 0 is no sender. -/
def start (sender : FederateHandle) : BroadcastLines :=
  if sender ≠ 0 then [⟨sender, .sent, []⟩] else []

def line? (lines : BroadcastLines) (fed : FederateHandle) : Option ObjectBroadcastLine :=
  lookup ObjectBroadcastLine.federate fed lines

/-- `addFederate`; attribute 0 stands for "any attribute". -/
def addFederate (maxHandle : AttributeHandle) (lines : BroadcastLines) (fed : FederateHandle)
    (a : AttributeHandle) : Except RTIException BroadcastLines :=
  if a > maxHandle then .error .rtiInternalError
  else match lines.line? fed with
    | none => .ok (lines ++ [(⟨fed, .notSub, []⟩ : ObjectBroadcastLine).setState a .waiting])
    | some line =>
      if line.stateFor a ≠ .sent then
        .ok (replace ObjectBroadcastLine.federate (line.setState a .waiting) lines)
      else .ok lines

/-- The state of an attribute for a federate, `notSub` without a line. -/
def status (lines : BroadcastLines) (fed : FederateHandle) (a : AttributeHandle) : LineState :=
  match lines.line? fed with
  | some line => line.stateFor a
  | none => .notSub

/-- Every federate has at most one line. -/
def Distinct (lines : BroadcastLines) : Prop := (lines.map ObjectBroadcastLine.federate).Nodup

theorem start_distinct (sender : FederateHandle) : (start sender).Distinct := by
  unfold start Distinct
  split <;> simp

theorem status_start (sender fed : FederateHandle) (a : AttributeHandle) :
    (start sender).status fed a = if sender ≠ 0 ∧ fed = sender then .sent else .notSub := by
  unfold start
  split
  · rename_i real
    by_cases same : fed = sender
    · simp [status, line?, lookup, same, real, ObjectBroadcastLine.stateFor]
    · simp [status, line?, lookup, same, Ne.symm same]
  · rename_i zero
    have : sender = 0 := by simpa using zero
    simp [status, line?, lookup, this]

theorem status_of_mem {lines : BroadcastLines} (distinct : lines.Distinct)
    {line : ObjectBroadcastLine} (member : line ∈ lines) (a : AttributeHandle) :
    lines.status line.federate a = line.stateFor a := by
  have found : lines.line? line.federate = some line := lookup_of_nodup distinct member
  simp [status, found]

/-- `addFederate` fails only on an attribute above the greatest handle; otherwise the
attribute waits unless it was sent already, and nothing else changes. -/
theorem addFederate_success {maxHandle : AttributeHandle} {lines next : BroadcastLines}
    {fed : FederateHandle} {a : AttributeHandle} (distinct : lines.Distinct)
    (success : addFederate maxHandle lines fed a = .ok next) :
    a ≤ maxHandle ∧ next.Distinct ∧ ∀ g b, next.status g b =
      if g = fed ∧ b = a ∧ lines.status g b ≠ .sent then .waiting else lines.status g b := by
  unfold addFederate at success
  split at success
  · cases success
  · rename_i bound
    refine ⟨not_lt.mp bound, ?_⟩
    split at success
    · rename_i absent
      cases success
      have fresh : ∀ line ∈ lines, line.federate ≠ fed := lookup_eq_none.mp absent
      constructor
      · simp only [Distinct, List.map_append, List.map_cons, List.map_nil]
        refine List.nodup_append.mpr ⟨distinct, by simp, ?_⟩
        intro g member other belongs
        obtain ⟨line, inLines, rfl⟩ := List.mem_map.mp member
        rw [List.mem_singleton] at belongs
        rw [belongs]
        exact fresh line inLines
      · intro g b
        by_cases same : g = fed
        · subst same
          have found : (lines ++ [(⟨g, .notSub, []⟩ : ObjectBroadcastLine).setState a .waiting] :
              BroadcastLines).line? g =
              some ((⟨g, .notSub, []⟩ : ObjectBroadcastLine).setState a .waiting) := by
            have skipped : List.find? (fun line => decide (line.federate = g)) lines = none :=
              absent
            simp [line?, lookup, List.find?_append, skipped, ObjectBroadcastLine.setState]
          have before : lines.status g b = .notSub := by simp [status, absent]
          rw [before]
          simp only [status, found, ObjectBroadcastLine.stateFor_setState, true_and]
          by_cases hb : b = a
          · simp [hb]
          · simp [hb, ObjectBroadcastLine.stateFor, lookup]
        · have kept : (lines ++ [(⟨fed, .notSub, []⟩ : ObjectBroadcastLine).setState a .waiting] :
              BroadcastLines).line? g = lines.line? g := by
            simp [line?, lookup, List.find?_append, ObjectBroadcastLine.setState, Ne.symm same]
          simp [status, kept, same]
    · rename_i line present
      have owner : line.federate = fed := lookup_key present
      have before : ∀ b, lines.status fed b = line.stateFor b := by
        intro b
        simp [status, present]
      split at success
      · rename_i open'
        cases success
        have keep : (line.setState a .waiting).federate = fed := owner
        constructor
        · simpa [Distinct, map_key_replace] using distinct
        · intro g b
          have replaced : line? (replace ObjectBroadcastLine.federate (line.setState a .waiting)
              lines) g =
              (lines.line? g).map (fun l => if l.federate = fed then line.setState a .waiting
                else l) := by
            unfold line? replace
            rw [keep]
            exact lookup_adjust (fun _ _ => keep) g lines
          by_cases same : g = fed
          · subst same
            rw [before b]
            simp only [status, replaced, present, Option.map_some, owner, if_true,
              ObjectBroadcastLine.stateFor_setState, true_and]
            by_cases hb : b = a
            · subst hb
              simp [open']
            · simp [hb]
          · have other : (lines.line? g).map (fun l => if l.federate = fed
                then line.setState a .waiting else l) = lines.line? g := by
              cases located : lines.line? g with
              | none => rfl
              | some l =>
                have : l.federate = g := lookup_key located
                simp [this, same]
            simp [status, replaced, other, same]
      · rename_i closed
        cases success
        refine ⟨distinct, fun g b => ?_⟩
        by_cases same : g = fed ∧ b = a
        · have already : lines.status g b = .sent := by
            rw [same.1, same.2, before]
            simpa using closed
          simp [already]
        · rw [if_neg]
          exact fun h => same ⟨h.1, h.2.1⟩

end BroadcastLines

end Certi
