import Certi.Lib.Collect
import Certi.LibCERTI.ClassBroadcast
import Certi.LibCERTI.FomModules

/-!
# Data types of attributes and parameters

What `XmlParser2010.cc` reads about data types: the declarations of the
`dataTypes` sections, which are looked up by name in the order they are read,
and the types that the attributes and parameters of the classes get from them.
The check of a value's size (`ObjectClass.cc`, `Interaction.cc`) goes by that
type. The texts are those of elements that have one; a reader that misses a
text gives up.
-/
namespace Certi.Modules

open Keyed

/-- A value, octet by octet. -/
abbrev Octets := List UInt8

/-- The classes derived from `DataType`, with the names by which other types are found. A simple
type keeps the size of its representation, if it has got one. -/
inductive DataType where
  | na
  | basic (size : Nat)
  | simple (representation : Option Nat)
  | enumerated (representation : String) (enumerators : List String)
  | array (elements : String)
  | fixedRecord (fields : List String)
  | variantRecord (discriminant : String) (alternatives : List (String × String))
  deriving DecidableEq, Repr

/-- `_predefinedDataType`, ascending by name. -/
abbrev TypeTable := List (String × DataType)

namespace TypeTable

def find (table : TypeTable) (name : String) : Option DataType :=
  (lookup Prod.fst name table).map Prod.snd

/-- `std::map::emplace` leaves the first type of a name. -/
def emplace (table : TypeTable) (entry : String × DataType) : TypeTable :=
  if (table.find entry.1).isSome then table else Ascending.store Prod.fst entry table

end TypeTable

/-- Why a document is not accepted. -/
inductive Unreadable where
  | fom (e : RTIException)
  | dataTypeException
  | enumerateException
  deriving DecidableEq, Repr

namespace XmlParser2010

/-! ## Declarations -/

/-- A child of a declaration; an enumerator, a field and an alternative have children of their
own. -/
structure Element where
  tag : String
  text : String := ""
  fields : List (String × String) := []
  deriving Repr

/-- The text of the last child of that name. -/
def lastText (tag default : String) (fields : List (String × String)) : String :=
  fields.foldl (fun text field => if field.1 = tag then field.2 else text) default

/-- `istringstream >> size_t`: blanks, a sign, decimal digits. A negative number wraps around, one
that is too large becomes the largest. -/
def readSize (text : String) : Nat :=
  let chars := text.toList.dropWhile fun c => c = ' ' || (9 ≤ c.toNat && c.toNat ≤ 13)
  let (negative, digits) : Bool × List Char := match chars with
    | '-' :: rest => (true, rest)
    | '+' :: rest => (false, rest)
    | _ => (false, chars)
  let value := (digits.takeWhile Char.isDigit).foldl (fun n c => n * 10 + (c.toNat - 48)) 0
  if 2 ^ 64 ≤ value then 2 ^ 64 - 1
  else if negative then (2 ^ 64 - value) % 2 ^ 64
  else value

/-- The name of a type before it is set. -/
def HLAunknown : String := "HLAunknown"

def parseBasicData (decl : List Element) : String × DataType :=
  decl.foldl (fun read e => match e.tag with
    | "name" => (e.text, read.2)
    | "size" => (read.1, .basic (readSize e.text))
    | _ => read) (HLAunknown, .basic 0)

/-- A representation must be known, and is taken over if it is a basic type. -/
def simpleField (table : TypeTable) (read : String × Option Nat) (e : Element) :
    Except Unreadable (String × Option Nat) :=
  match e.tag with
  | "name" => .ok (e.text, read.2)
  | "representation" =>
    match table.find e.text with
    | none => .error .dataTypeException
    | some (.basic size) => .ok (read.1, some size)
    | some _ => .ok read
  | _ => .ok read

def parseSimpleData (table : TypeTable) (decl : List Element) :
    Except Unreadable (String × DataType) :=
  (decl.foldlM (simpleField table) (HLAunknown, none)).map fun read => (read.1, .simple read.2)

/-- The element names a basic type as the representation. -/
def Represents (table : TypeTable) (e : Element) : Prop :=
  e.tag = "representation" ∧ ∃ size, table.find e.text = some (.basic size)

theorem simpleField_representation {table : TypeTable} {read read' : String × Option Nat}
    {e : Element} (success : simpleField table read e = .ok read') :
    read'.2 = none ↔ read.2 = none ∧ ¬ Represents table e := by
  unfold simpleField at success
  split at success
  · rename_i named
    cases success
    simp [Represents, named]
  · rename_i represents
    split at success
    · cases success
    · rename_i size found
      cases success
      simp [Represents, represents, found]
    · rename_i found notBasic known
      cases success
      have absent : ¬ Represents table e := by
        rintro ⟨_, size, basic⟩
        rw [basic] at known
        cases known
        exact notBasic size rfl
      simp [absent]
  · rename_i other notRepresentation
    cases success
    have absent : ¬ Represents table e := fun represents => notRepresentation represents.1
    simp [absent]

/-- An accepted simple type lacks its representation exactly if no element names a basic type: the
types that are known, but not basic, pass. -/
theorem parseSimpleData_representation {table : TypeTable} {decl : List Element}
    {name : String} {t : DataType} (success : parseSimpleData table decl = .ok (name, t)) :
    t = .simple none ↔ ∀ e ∈ decl, ¬ Represents table e := by
  have fields : ∀ {decl : List Element} {read read' : String × Option Nat},
      decl.foldlM (simpleField table) read = .ok read' →
        (read'.2 = none ↔ read.2 = none ∧ ∀ e ∈ decl, ¬ Represents table e) := by
    intro decl
    induction decl with
    | nil =>
      intro read read' done
      cases done
      simp
    | cons e rest ih =>
      intro read read' done
      rw [List.foldlM_cons] at done
      obtain ⟨next, first, later⟩ := Collect.bind_success done
      rw [ih later, simpleField_representation first, List.forall_mem_cons, and_assoc]
  unfold parseSimpleData at success
  cases done : decl.foldlM (simpleField table) (HLAunknown, none) with
  | error e =>
    rw [done] at success
    cases success
  | ok read =>
    rw [done] at success
    cases success
    simpa using fields done

def parseEnumeratedData (decl : List Element) : String × DataType :=
  let (name, representation, enumerators) := decl.foldl
    (fun (read : String × String × List String) e => match e.tag with
      | "name" => (e.text, read.2)
      | "representation" => (read.1, e.text, read.2.2)
      | "enumerator" => (read.1, read.2.1, read.2.2 ++ [lastText "name" "" e.fields])
      | _ => read) (HLAunknown, "", [])
  (name, .enumerated representation enumerators)

def parseArrayData (decl : List Element) : String × DataType :=
  decl.foldl (fun read e => match e.tag with
    | "name" => (e.text, read.2)
    | "dataType" => (read.1, .array e.text)
    | _ => read) (HLAunknown, .array "")

def parseFixedRecordData (decl : List Element) : String × DataType :=
  let (name, fields) := decl.foldl (fun (read : String × List String) e => match e.tag with
    | "name" => (e.text, read.2)
    | "field" => (read.1, read.2 ++ [lastText "dataType" "" e.fields])
    | _ => read) (HLAunknown, [])
  (name, .fixedRecord fields)

def parseVariantRecordData (decl : List Element) : String × DataType :=
  let (name, discriminant, alternatives) := decl.foldl
    (fun (read : String × String × List (String × String)) e => match e.tag with
      | "name" => (e.text, read.2)
      | "dataType" => (read.1, e.text, read.2.2)
      | "alternative" => (read.1, read.2.1,
          read.2.2 ++ [(lastText "enumerator" "" e.fields, lastText "dataType" "" e.fields)])
      | _ => read) (HLAunknown, "", [])
  (name, .variantRecord discriminant alternatives)

/-- The children of a `dataTypes` section, each with its declarations. -/
inductive TypeGroup where
  | basicDataRepresentations (decls : List (List Element))
  | simpleDataTypes (decls : List (List Element))
  | enumeratedDataTypes (decls : List (List Element))
  | arrayDataTypes (decls : List (List Element))
  | fixedRecordDataTypes (decls : List (List Element))
  | variantRecordDataTypes (decls : List (List Element))
  deriving Repr

def parseTypes (table : TypeTable) : TypeGroup → Except Unreadable TypeTable
  | .basicDataRepresentations decls =>
    .ok (decls.foldl (fun table decl => table.emplace (parseBasicData decl)) table)
  | .simpleDataTypes decls =>
    decls.foldlM (fun table decl => (parseSimpleData table decl).map table.emplace) table
  | .enumeratedDataTypes decls =>
    .ok (decls.foldl (fun table decl => table.emplace (parseEnumeratedData decl)) table)
  | .arrayDataTypes decls =>
    .ok (decls.foldl (fun table decl => table.emplace (parseArrayData decl)) table)
  | .fixedRecordDataTypes decls =>
    .ok (decls.foldl (fun table decl => table.emplace (parseFixedRecordData decl)) table)
  | .variantRecordDataTypes decls =>
    .ok (decls.foldl (fun table decl => table.emplace (parseVariantRecordData decl)) table)

def known (table : TypeTable) (name : String) : Except Unreadable Unit :=
  if (table.find name).isSome then .ok () else .error .dataTypeException

/-- The types a type is made of must be there. A discriminant that is no enumeration has no
enumerators. -/
def connectDataType (table : TypeTable) : DataType → Except Unreadable Unit
  | .enumerated representation _ => known table representation
  | .array elements => known table elements
  | .fixedRecord fields => fields.forM (known table)
  | .variantRecord discriminant alternatives => do
    let enumerators ← match table.find discriminant with
      | none => Except.error .enumerateException
      | some (.enumerated _ enumerators) => .ok enumerators
      | some _ => .ok []
    alternatives.forM fun alternative =>
      if alternative.1 ∈ enumerators then known table alternative.2
      else .error .enumerateException
  | _ => .ok ()

def connectDataTypeBetweenThem (table : TypeTable) : Except Unreadable Unit :=
  table.forM fun entry => connectDataType table entry.2

/-! ## Documents -/

/-- An attribute or a parameter, with the text of its `dataType` if it has one. -/
structure MemberDecl where
  name : String
  dataType : Option String
  deriving Repr

inductive Section where
  | objects (classes : Nodes Unit MemberDecl)
  | interactions (classes : Nodes Unit MemberDecl)
  | dataTypes (groups : List TypeGroup)
  deriving Repr

abbrev Document := List Section

/-- What stands in the tables of a class: an `ObjectClassAttribute1516e` or `Parameter1516e` has a
type, a plain one has none. -/
structure Member where
  name : String
  type : Option DataType
  deriving DecidableEq, Repr

/-- The types are read once, from the sections after the one that asks for them first. -/
def parseDataType (following : Document) (table : TypeTable) : Except Unreadable TypeTable :=
  if !table.isEmpty then .ok table
  else do
    let table ← following.foldlM (fun table s => match s with
      | .dataTypes groups => groups.foldlM parseTypes table
      | _ => .ok table) table
    connectDataTypeBetweenThem table
    return table

/-- A type nobody has declared is warned about, unless it is NA. -/
def typeOf (table : TypeTable) (name : String) : DataType := (table.find name).getD .na

/-- How the readers of the two kinds of class differ. An interaction class remembers the last data
type it has read, and a parameter without one then gets none. -/
structure ClassReader where
  reader : Reader Unit Member Unit Member
  remembers : Bool

def objectReader : ClassReader where
  reader :=
    { isParsingModule := true
      countsMembers := false
      restartsMembers := false
      props := id
      member := id }
  remembers := false

def interactionReader : ClassReader where
  reader :=
    { isParsingModule := true
      countsMembers := true
      restartsMembers := false
      props := id
      member := id }
  remembers := true

def memberType (table : TypeTable) (remembered : Bool) (decl : MemberDecl) :
    Except Unreadable DataType :=
  match decl.dataType with
  | some name => .ok (typeOf table name)
  | none => if remembered then .ok .na else .error .dataTypeException

def run {σ α : Type} (m : EStateM RTIException σ α) (s : σ) : Except Unreadable (α × σ) :=
  match m s with
  | .ok a s => .ok (a, s)
  | .error e _ => .error (.fom e)

/-- What a new class has got from its parent are copies of the base class. -/
def plainCopies (c : ClassEntry Unit Member) : ClassEntry Unit Member :=
  { c with members := c.members.map fun m => (m.1, { m.2 with type := none }) }

/-- The types read so far, and the classes. -/
structure Typing where
  table : TypeTable
  classes : Growing Unit Member

def startClass (rd : ClassReader) (current : Option (String × Bool)) (name : String) :
    EStateM RTIException (Growing Unit Member) (String × Bool) := do
  let h ← freeClassHandle
  let found ← onTree (addOrFind rd.reader name h () (current.map Prod.fst))
  if found.2 then return found
  else do
    modify fun g => { g with tree := adjust ClassEntry.name found.1 plainCopies g.tree }
    return found

/-- `parseClass` and `parseInteraction`, for the elements of one level. No section follows a class
inside another. -/
def parseClasses (rd : ClassReader) (following : Document) (current : Option (String × Bool)) :
    Nodes Unit MemberDecl → Bool → Typing → Except Unreadable Typing
  | .done, _, s => .ok s
  | .member decl next, seen, s =>
    match current with
    | some (c, false) => do
      let type ← memberType s.table (rd.remembers && seen) decl
      let (_, classes) ← run (readMember rd.reader c ⟨decl.name, some type⟩) s.classes
      parseClasses rd following current next (seen || decl.dataType.isSome)
        { s with classes := classes }
    | _ => parseClasses rd following current next seen s
  | .subclass name _ children next, seen, s => do
    let table ← if current.isNone then parseDataType following s.table else .ok s.table
    let (found, classes) ← run (startClass rd current name) s.classes
    let s ← parseClasses rd following (some found) children false ⟨table, classes⟩
    parseClasses rd following current next seen s

structure Root where
  objects : Growing Unit Member := ⟨[], 0, 0⟩
  interactions : Growing Unit Member := ⟨[], 0, 0⟩
  deriving DecidableEq

def parseSections : Document → TypeTable → Root → Except Unreadable Root
  | [], _, root => .ok root
  | .objects classes :: rest, table, root => do
    let s ← parseClasses objectReader rest none classes false ⟨table, root.objects⟩
    parseSections rest s.table { root with objects := s.classes }
  | .interactions classes :: rest, table, root => do
    let s ← parseClasses interactionReader rest none classes false ⟨table, root.interactions⟩
    parseSections rest s.table { root with interactions := s.classes }
  | .dataTypes _ :: rest, table, root => parseSections rest table root

/-- Every document has a parser of its own. -/
def parse (root : Root) (doc : Document) : Except Unreadable Root := parseSections doc [] root

end XmlParser2010

open XmlParser2010

/-- The modules of a federation, each accepted by the parser. -/
structure Fom2010 where
  documents : List XmlParser2010.Document
  root : Root
  accepted : documents.foldlM parse {} = .ok root

/-! ## Sizes -/

/-- The type of a member, where the class has declared that itself. -/
def ownType (tree : ClassSet Unit Member) (c member : Nat) : Option DataType :=
  (atHandle tree c).bind fun entry =>
    (lookup Prod.fst member entry.members).bind fun m => m.2.type

/-- The type a member was declared with, by the class or one above it. -/
def declaredType (tree : ClassSet Unit Member) (member : Nat) : Nat → Nat → Option DataType
  | 0, _ => none
  | fuel + 1, c =>
    (ownType tree c member).or
      ((atHandle tree c).bind fun entry => declaredType tree member fuel entry.superClass)

/-- The size that the FOM gives a type, in bits. -/
def DataType.fixedSize : DataType → Option Nat
  | .basic size => some size
  | .simple representation => representation
  | _ => none

/-- `checkSizeData` of object classes and of interactions. A simple type is taken to have a
representation. -/
def checkSizeData (type : Option DataType) (data : Octets) : Except Stop Bool :=
  match type with
  | some (.basic size) => .ok (size = data.length * 8 % 2 ^ 64)
  | some (.simple (some size)) => .ok (size = data.length * 8 % 2 ^ 64)
  | some (.simple none) => .error .nullDereference
  | _ => .ok true

/-- What an update and an interaction do with it: a wrong size is only warned about. -/
def warnSizeData (type : Option DataType) (data : Octets) : Except Stop Unit :=
  (checkSizeData type data).map fun _ => ()

theorem warnSizeData_eq (type : Option DataType) (data : Octets) :
    warnSizeData type data =
      if type = some (.simple none) then .error .nullDereference else .ok () := by
  unfold warnSizeData checkSizeData
  split
  · rfl
  · rfl
  · rfl
  · rename_i _ _ represented
    rw [if_neg represented]
    rfl

end Certi.Modules
