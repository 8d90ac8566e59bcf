import Mathlib.Data.String.Basic
import Certi.Lib.Ascending
import Certi.Lib.Keyed
import Certi.Lib.Throwing
import Certi.LibCERTI.Types

/-!
# Trees of named and handled classes

`libCERTI/TreeNamedAndHandledSet.hh` with what `ObjectClass.cc` and
`Interaction.cc` do when a class joins the tree. Both kinds of class behave the
same here, so one model serves them: `σ` is what a class carries beside its
members (nothing for an object class; space, order and transport for an
interaction), `μ` what a member carries beside its handle.

The source keeps two maps of pointers. Every class that joins is entered under
its full name, which no other class has and which never changes, so a full name
stands for a pointer here and `ClassSet` lists the classes, newest first. The
map by handle is overwritten when two classes have one handle: the class found
under a handle is the newest one, the first of the list.
-/
namespace Certi.Modules

open Keyed Ascending

@[ext]
structure ClassEntry (σ μ : Type) where
  handle : Nat
  name : String
  superClass : Nat := 0
  subClasses : List String := []
  props : σ
  members : List (Nat × μ) := []
  deriving DecidableEq, Repr

abbrev ClassSet (σ μ : Type) := List (ClassEntry σ μ)

/-! ## Names (`Named.cc`) -/

/-- The four roots whose names are left out of hierarchical names. -/
def isRootName (name : String) : Bool :=
  name = "ObjectRoot" || name = "InteractionRoot" || name = "HLAobjectRoot" ||
    name = "HLAinteractionRoot"

def isQualifiedClassName (name : String) : Bool := '.' ∈ name.toList

/-- The part before the first dot, and what remains of the name. -/
def getNextClassName (name : String) : String × String :=
  let first := name.toList.takeWhile (· ≠ '.')
  if isQualifiedClassName name then
    (String.ofList first, String.ofList (name.toList.drop (first.length + 1)))
  else (name, name)

def getLeafClassName (name : String) : String :=
  String.ofList (name.toList.reverse.takeWhile (· ≠ '.')).reverse

/-- The hierarchical name of a class called `child` under the class `parent`. -/
def hierarchicalName (parent child : String) : String :=
  if isRootName parent then child else parent ++ "." ++ child

section Set

variable {σ μ : Type}

def named (t : ClassSet σ μ) (name : String) : Option (ClassEntry σ μ) :=
  lookup ClassEntry.name name t

def atHandle (t : ClassSet σ μ) (h : Nat) : Option (ClassEntry σ μ) :=
  lookup ClassEntry.handle h t

def getObjectFromHandle (t : ClassSet σ μ) (h : Nat) : Except RTIException (ClassEntry σ μ) :=
  match atHandle t h with
  | some c => .ok c
  | none => .error .objectClassNotDefined

/-- The classes in the order of the map by handle. -/
def handled (t : ClassSet σ μ) : List (ClassEntry σ μ) :=
  t.foldr (store ClassEntry.handle) []

/-- The classes in the order of the map by name. -/
def byName (t : ClassSet σ μ) : List (ClassEntry σ μ) :=
  t.foldr (store ClassEntry.name) []

def getHandleFromName (t : ClassSet σ μ) (name : String) : Except RTIException Nat :=
  let (front, rest) := getNextClassName name
  let sname := if isRootName front then rest else name
  match named t sname with
  | some c => .ok c.handle
  | none =>
    -- CERTI's own shortcut: an unqualified name may stand for any class that ends in it
    match (byName t).find? fun c => !isQualifiedClassName sname && getLeafClassName c.name = sname with
    | some c => .ok c.handle
    | none => .error .nameNotFound

/-! ## Growing the tree -/

/-- The end of `TreeNamedAndHandledSet::add`: the name must be new. -/
def enter (c : ClassEntry σ μ) (t : ClassSet σ μ) :
    EStateM.Result RTIException (ClassSet σ μ) String :=
  if (named t c.name).isSome then .error .rtiInternalError t else .ok c.name (c :: t)

def withSubClass (name : String) (c : ClassEntry σ μ) : ClassEntry σ μ :=
  { c with subClasses := name :: c.subClasses }

def withMember (h : Nat) (m : μ) (c : ClassEntry σ μ) : ClassEntry σ μ :=
  { c with members := store Prod.fst (h, m) c.members }

/-- `parent->addSubClass(child)` registers the child's name with the parent and hands the
parent's members down to it. The child is a new object, so no member is there before. -/
def addSubClass (parent : ClassEntry σ μ) (child : ClassEntry σ μ) (t : ClassSet σ μ) :
    ClassSet σ μ × ClassEntry σ μ :=
  (adjust ClassEntry.name parent.name (withSubClass child.name) t,
    { child with superClass := parent.handle, members := parent.members })

/-- `add` for a new class, under the class whose full name is `parent` or under none. -/
def addClass (name : String) (h : Nat) (props : σ) (parent : Option String) :
    EStateM RTIException (ClassSet σ μ) String := fun t =>
  match parent.bind (named t) with
  | none => enter { handle := h, name := name, props := props } t
  | some p =>
    let child := { handle := h, name := hierarchicalName p.name name, props := props }
    if child.name ∈ p.subClasses then .error .rtiInternalError t
    else
      let (t, child) := addSubClass p child t
      enter child t

/-- `addAttribute`, `addParameter`: a member handle must be new to its class. -/
def addMember (c : String) (h : Nat) (m : μ) : EStateM RTIException (ClassSet σ μ) Unit := fun t =>
  match named t c with
  | none => .ok () t
  | some found =>
    if h ∈ found.members.map Prod.fst then .error .rtiInternalError t
    else
      .ok () (adjust ClassEntry.name c (withMember h m) t)

end Set

end Certi.Modules
