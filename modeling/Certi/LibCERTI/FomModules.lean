import Certi.LibCERTI.ClassTree

/-!
# Root objects built from FOM modules

The FOM part of `RootObject` and the readers that fill it: `XmlParser.cc`
(`XmlParser2000` and `XmlParser2010` differ from it in the text they read, not
in what they add) and the actions of the FED grammar (`fed.cc`).

A document is what the text layer delivers. Its elements form a tree in which
each has its first child and its next sibling, as in libxml: the order of the
elements matters, and an attribute may stand after a subclass. Texts a reader
rejects never reach the live root object, because a module is read into a
temporary one first.
-/
namespace Certi.Modules

open Keyed Throwing

/-! ## Codes of `include/certi.hh`; 0 is what a text that names neither leaves behind -/

def RELIABLE : Nat := 1
def BEST_EFFORT : Nat := 2
def RECEIVE : Nat := 1
def TIMESTAMP : Nat := 2

structure Attribute where
  name : String
  space : SpaceHandle := 0
  order : Nat
  transport : Nat
  deriving DecidableEq, Repr

structure Parameter where
  name : String
  deriving DecidableEq, Repr

/-- What an interaction class carries beside its parameters. -/
structure Delivery where
  space : SpaceHandle := 0
  order : Nat := 0
  transport : Nat := 0
  deriving DecidableEq, Repr

structure Dimension where
  handle : Nat
  name : String
  deriving DecidableEq, Repr

structure RoutingSpace where
  handle : SpaceHandle
  name : String
  dimensions : List Dimension
  deriving DecidableEq, Repr

structure RootObject where
  spaces : List RoutingSpace := []
  objectClasses : ClassSet Unit Attribute := []
  interactions : ClassSet Delivery Parameter := []
  freeObjectClassHandle : Nat := 0
  freeInteractionClassHandle : Nat := 0
  freeDimensionHandle : Nat := 0
  freeParameterHandle : Nat := 0
  deriving DecidableEq, Repr

namespace RootObject

/-- The handle of a routing space is its position, whatever it was called with. -/
def addRoutingSpace (rs : RoutingSpace) (root : RootObject) : RootObject :=
  { root with spaces := root.spaces ++ [{ rs with handle := root.spaces.length + 1 }] }

def getRoutingSpaceHandle (root : RootObject) (name : String) : Except RTIException SpaceHandle :=
  match root.spaces.find? (·.name = name) with
  | some rs => .ok rs.handle
  | none => .error .nameNotFound

def getRoutingSpaceName (root : RootObject) (h : SpaceHandle) : Except RTIException String :=
  match h with
  | 0 => .error .spaceNotDefined
  | n + 1 =>
    match root.spaces[n]? with
    | some rs => .ok rs.name
    | none => .error .spaceNotDefined

end RootObject

/-! ## Documents -/

/-- Sibling elements: members and classes of one level, with what is below the classes. -/
inductive Nodes (κ δ : Type) where
  | done
  | member (decl : δ) (next : Nodes κ δ)
  | subclass (name : String) (decl : κ) (children next : Nodes κ δ)
  deriving Repr

structure SpaceDecl where
  name : String
  dimensions : List String
  deriving Repr

/-- What the text says about the delivery of an attribute or an interaction. -/
structure DeliveryDecl where
  order : Nat
  transport : Nat
  space : Option String := none
  deriving Repr

structure AttributeDecl extends DeliveryDecl where
  name : String
  deriving Repr

abbrev ObjectNodes := Nodes Unit AttributeDecl
abbrev InteractionNodes := Nodes DeliveryDecl String

inductive Group where
  | objects (classes : ObjectNodes)
  | interactions (classes : InteractionNodes)
  deriving Repr

inductive Document where
  | xml (spaces : List SpaceDecl) (groups : List Group)
  | fed (spaces : List SpaceDecl) (objects : ObjectNodes) (interactions : InteractionNodes)
  deriving Repr

/-! ## Reading classes -/

/-- A class set with the counters its reader draws handles from. -/
structure Growing (σ μ : Type) where
  tree : ClassSet σ μ
  freeClass : Nat
  freeMember : Nat
  deriving DecidableEq

/-- How the four readers of classes differ. -/
structure Reader (κ δ σ μ : Type) where
  isParsingModule : Bool       -- a class that is there already is looked up and kept as it is
  countsMembers : Bool         -- member handles come from the counter, not from the class's size
  restartsMembers : Bool       -- the member counter starts again after each top level class
  props : κ → σ
  member : δ → μ

section Reading

variable {κ δ σ μ : Type} (rd : Reader κ δ σ μ)

def onTree {α : Type} : EStateM RTIException (ClassSet σ μ) α →
    EStateM RTIException (Growing σ μ) α :=
  zoom Growing.tree fun t g => { g with tree := t }

def freeClassHandle : EStateM RTIException (Growing σ μ) Nat := fun g =>
  .ok (g.freeClass + 1) { g with freeClass := g.freeClass + 1 }

/-- The full name of the class the reader goes on with, and whether it was there already. -/
def addOrFind (name : String) (h : Nat) (props : σ) (parent : Option String) :
    EStateM RTIException (ClassSet σ μ) (String × Bool) := fun t =>
  match addClass name h props parent t with
  | .ok c t => .ok (c, false) t
  | .error e t =>
    if rd.isParsingModule then
      match getHandleFromName t name >>= getObjectFromHandle t with
      | .ok c => .ok (c.name, true) t
      | .error e => .error e t
    else .error e t

/-- The handle after the class's last attribute. -/
def nextMember (t : ClassSet σ μ) (c : String) : Nat :=
  ((named t c).elim [] ClassEntry.members).length + 1

def readMember (c : String) (decl : δ) : EStateM RTIException (Growing σ μ) Unit := fun g =>
  if rd.countsMembers then
    onTree (addMember c (g.freeMember + 1) (rd.member decl))
      { g with freeMember := g.freeMember + 1 }
  else onTree (addMember c (nextMember g.tree c) (rd.member decl)) g

def endClass (current : Option (String × Bool)) : EStateM RTIException (Growing σ μ) Unit := fun g =>
  .ok () (if rd.restartsMembers && current.isNone then { g with freeMember := 0 } else g)

/-- A member element is read into the class around it, unless that was there already. -/
def readMemberOf (current : Option (String × Bool)) (decl : δ) :
    EStateM RTIException (Growing σ μ) Unit :=
  match current with
  | some (c, false) => readMember rd c decl
  | _ => pure ()

/-- The elements of one level, inside the class `current` or at the top. -/
def readNodes (current : Option (String × Bool)) :
    Nodes κ δ → EStateM RTIException (Growing σ μ) Unit
  | .done => pure ()
  | .member decl next => do
    readMemberOf rd current decl
    readNodes current next
  | .subclass name decl children next => do
    let h ← freeClassHandle
    let found ← onTree (addOrFind rd name h (rd.props decl) (current.map Prod.fst))
    readNodes (some found) children
    endClass rd current
    readNodes current next

end Reading

/-! ## The XML parsers -/

namespace XmlParser

/-- A space name nobody has declared is warned about and left out. -/
def spaceOf (root : RootObject) (space : Option String) : SpaceHandle :=
  match space.map root.getRoutingSpaceHandle with
  | some (.ok h) => h
  | _ => 0

def attributeOf (root : RootObject) (decl : AttributeDecl) : Attribute where
  name := decl.name
  space := spaceOf root decl.space
  order := decl.order
  transport := decl.transport

/-- An interaction that names neither transport nor order is reliable and timestamped. -/
def interactionOf (root : RootObject) (decl : DeliveryDecl) : Delivery where
  space := spaceOf root decl.space
  order := if decl.order = 0 then TIMESTAMP else decl.order
  transport := if decl.transport = 0 then RELIABLE else decl.transport

def parseRoutingSpace (root : RootObject) (decl : SpaceDecl) : RootObject :=
  let first := root.freeDimensionHandle + 1
  { root with freeDimensionHandle := root.freeDimensionHandle + decl.dimensions.length }
    |>.addRoutingSpace
      { handle := 0
        name := decl.name
        dimensions := decl.dimensions.mapIdx fun i name => { handle := first + i, name := name } }

def parseClass (isParsingModule : Bool) (classes : ObjectNodes) :
    EStateM RTIException RootObject Unit := fun root =>
  zoom (fun root => ⟨root.objectClasses, root.freeObjectClassHandle, 0⟩)
    (fun g root => { root with
      objectClasses := g.tree
      freeObjectClassHandle := g.freeClass })
    (readNodes
      { isParsingModule := isParsingModule
        countsMembers := false
        restartsMembers := false
        props := id
        member := attributeOf root } none classes) root

def parseInteraction (isParsingModule : Bool) (classes : InteractionNodes) :
    EStateM RTIException RootObject Unit := fun root =>
  zoom (fun root => ⟨root.interactions, root.freeInteractionClassHandle, root.freeParameterHandle⟩)
    (fun g root => { root with
      interactions := g.tree
      freeInteractionClassHandle := g.freeClass
      freeParameterHandle := g.freeMember })
    (readNodes
      { isParsingModule := isParsingModule
        countsMembers := true
        restartsMembers := false
        props := interactionOf root
        member := Parameter.mk } none classes) root

def parseGroup (isParsingModule : Bool) : Group → EStateM RTIException RootObject Unit
  | .objects classes => parseClass isParsingModule classes
  | .interactions classes => parseInteraction isParsingModule classes

/-- Routing spaces in a first loop, classes in a second one. -/
def parse (isParsingModule : Bool) (spaces : List SpaceDecl) (groups : List Group) :
    EStateM RTIException RootObject Unit := fun root =>
  groups.forM (parseGroup isParsingModule) (spaces.foldl parseRoutingSpace root)

end XmlParser

/-! ## The FED parser

It counts classes, parameters and dimensions itself, from 1 in every file, and
ignores the space an attribute or an interaction names. -/

namespace fedparser

def space (root : RootObject) (decl : SpaceDecl) : RootObject :=
  root.addRoutingSpace
    { handle := 0
      name := decl.name
      dimensions := decl.dimensions.mapIdx fun i name => { handle := i + 1, name := name } }

def objects (classes : ObjectNodes) : EStateM RTIException RootObject Unit :=
  zoom (fun root => ⟨root.objectClasses, 0, 0⟩)
    (fun g root => { root with objectClasses := g.tree })
    (readNodes
      { isParsingModule := false
        countsMembers := false
        restartsMembers := false
        props := id
        member := fun decl =>
          { name := decl.name, order := decl.order, transport := decl.transport } } none classes)

def interactions (classes : InteractionNodes) : EStateM RTIException RootObject Unit :=
  zoom (fun root => ⟨root.interactions, 0, 0⟩)
    (fun g root => { root with interactions := g.tree })
    (readNodes
      { isParsingModule := false
        countsMembers := true
        restartsMembers := true
        props := fun decl => { order := decl.order, transport := decl.transport }
        member := Parameter.mk } none classes)

def build (spaces : List SpaceDecl) (objectNodes : ObjectNodes)
    (interactionNodes : InteractionNodes) : EStateM RTIException RootObject Unit := do
  modify fun root => spaces.foldl space root
  objects objectNodes
  interactions interactionNodes

end fedparser

/-- `parseModuleInto`: classes of an earlier module are skipped only by the XML parsers. -/
def parseModuleInto (isParsingModules : Bool) :
    Document → EStateM RTIException RootObject Unit
  | .xml spaces groups => XmlParser.parse isParsingModules spaces groups
  | .fed spaces objects interactions => fedparser.build spaces objects interactions

/-- The root object after a document has been read into it, also when the reader gave up. -/
def readInto (root : RootObject) (doc : Document) : RootObject :=
  final (parseModuleInto true doc root)

/-- A root object as RTIG builds it, document after document. -/
def built (docs : List Document) : RootObject := docs.foldl readInto {}

end Certi.Modules
