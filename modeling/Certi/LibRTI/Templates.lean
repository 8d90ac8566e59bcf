import Certi.Lib.Bytes

/-!
# The templates of in-place data types

The templates of `libhla`: a type is laid over the octets where it starts, and its
functions compute where its components are from the octets they find. A template is
a function of what it uses of the types that it is given; `hasVariable` chooses the
specialisation.
-/
namespace Certi.Libhla

open Bytes

/-- The octet at every address. -/
abbrev Memory := Nat → Byte

def octets (mem : Memory) (this n : Nat) : List Byte := (List.range n).map fun i => mem (this + i)

def padding (size boundary : UInt64) : UInt64 := boundary - ((size - 1) % boundary + 1)

/-- What a template uses of a type. `sizeof` of a type of fixed size is static: it does not
look at the memory. -/
structure Member where
  isVariable : Bool
  octetBoundary : UInt64
  sizeof : Memory → Nat → UInt64

/-! ## Basic and enumerated types -/

/-- `__swap` is there for these numbers of octets. -/
inductive Width where
  | one | two | four | eight
  deriving DecidableEq, Repr

def Width.octets : Width → Nat
  | one => 1
  | two => 2
  | four => 4
  | eight => 8

/-- A storage with its encoding. -/
structure Storage where
  width : Width
  order : Order
  isSigned : Bool
  deriving DecidableEq, Repr

namespace Storage

def sizeof (s : Storage) : UInt64 := .ofNat s.width.octets

/-- `E<S>()(*(S*) this)` -/
def value (s : Storage) (mem : Memory) (this : Nat) : Int :=
  let x : BitVec (8 * s.width.octets) := word s.order _ (octets mem this s.width.octets)
  if s.isSigned then x.toInt else x.toNat

/-- The value as an `int`. -/
def toInt (s : Storage) (mem : Memory) (this : Nat) : Int := (s.value mem this).bmod (2 ^ 32)

end Storage

def HLAbasicType (s : Storage) : Member :=
  { isVariable := false, octetBoundary := s.sizeof, sizeof := fun _ _ => s.sizeof }

/-- As its representation. -/
def HLAenumeratedType (r : Storage) : Member :=
  { isVariable := false
    octetBoundary := (HLAbasicType r).octetBoundary
    sizeof := (HLAbasicType r).sizeof }

def HLAinteger32BE : Storage := ⟨.four, .big, true⟩

/-! ## Arrays -/

/-- The loop of `offset`: every member is counted, for it may be variable-sized. -/
def counted (M : Member) (mem : Memory) (this : Nat) (offs : UInt64) : Nat → UInt64
  | 0 => offs
  | j + 1 =>
    let offs := counted M mem this offs j
    let offs := offs + M.sizeof mem (this + offs.toNat)
    offs + padding offs M.octetBoundary

/-- `M::sizeof() + padding(M::sizeof(), M::m_octetBoundary)` -/
def stride (M : Member) (mem : Memory) (this : Nat) : UInt64 :=
  M.sizeof mem this + padding (M.sizeof mem this) M.octetBoundary

namespace HLAfixedArray

variable (M : Member) (N : Nat) (hasVariable : Bool) (mem : Memory) (this : Nat)

def offset (i : Int) : UInt64 :=
  if hasVariable then counted M mem this 0 i.toNat else .ofInt i * stride M mem this

/-- With `N` zero `offset` is asked for the index `-1`. -/
def sizeof : UInt64 :=
  let offs := offset M hasVariable mem this (N - 1)
  offs + M.sizeof mem (if hasVariable then this + offs.toNat else this)

end HLAfixedArray

def HLAfixedArray (M : Member) (N : Nat) : Member :=
  { isVariable := M.isVariable
    octetBoundary := M.octetBoundary
    sizeof := HLAfixedArray.sizeof M N M.isVariable }

namespace HLAvariableArray

def size (mem : Memory) (this : Nat) : Int := HLAinteger32BE.value mem this

variable (M : Member) (hasVariable : Bool) (mem : Memory) (this : Nat)

def emptysizeof : UInt64 := HLAinteger32BE.sizeof + padding HLAinteger32BE.sizeof M.octetBoundary

def offset (i : Int) : UInt64 :=
  if hasVariable then counted M mem this (emptysizeof M) i.toNat
  else emptysizeof M + .ofInt i * stride M mem this

def sizeof : UInt64 :=
  if 0 < size mem this then
    let offs := offset M hasVariable mem this (size mem this - 1)
    offs + M.sizeof mem (if hasVariable then this + offs.toNat else this)
  else emptysizeof M

end HLAvariableArray

def HLAvariableArray (M : Member) : Member :=
  { isVariable := true
    octetBoundary := max HLAinteger32BE.sizeof M.octetBoundary
    sizeof := HLAvariableArray.sizeof M M.isVariable }

/-! ## Fixed records -/

/-- What a fixed record uses of the list of its fields. `field_offsetof` has no value where it
divides by zero. -/
structure FieldList where
  isVariable : Bool
  memberBoundary : UInt64
  octetBoundary : UInt64
  sizeof : Memory → Nat → UInt64 → UInt64
  field_offsetof : Memory → Nat → Int → UInt64 → Option UInt64

def HLAfixedEnd : FieldList :=
  { isVariable := false
    memberBoundary := 0
    octetBoundary := 0
    sizeof := fun _ _ offs => offs
    field_offsetof := fun _ _ _ offs => some offs }

namespace HLAfixedField

variable (E : Int) (M : Member) (N : FieldList) (hasVariable : Bool) (mem : Memory) (this : Nat)

/-- The size of the field with the padding in front of the next. -/
def padded (offs : UInt64) : UInt64 :=
  let size := M.sizeof mem this
  size + padding (offs + size) N.memberBoundary

/-- `(char*) this + size`, where the functions are not static. -/
def next (size : UInt64) : Nat := if hasVariable then this + size.toNat else this

def field_offsetof (d : Int) (offs : UInt64) : Option UInt64 :=
  if d ≠ E then
    if N.memberBoundary = 0 then none
    else
      let size := padded M N mem this offs
      N.field_offsetof mem (next hasVariable this size) d (offs + size)
  else some offs

def sizeof (offs : UInt64) : UInt64 :=
  -- `HLAfixedEnd` is not reached
  if N.memberBoundary ≠ 0 then
    let size := padded M N mem this offs
    N.sizeof mem (next hasVariable this size) (offs + size)
  else offs + M.sizeof mem this

end HLAfixedField

def HLAfixedField (E : Int) (M : Member) (N : FieldList) (hasVariable : Bool) : FieldList :=
  { isVariable := hasVariable
    memberBoundary := M.octetBoundary
    octetBoundary := max M.octetBoundary N.octetBoundary
    sizeof := HLAfixedField.sizeof M N hasVariable
    field_offsetof := HLAfixedField.field_offsetof E M N hasVariable }

/-- The specialisations say the same. -/
def HLAfixedRecord (R : FieldList) : Member :=
  { isVariable := R.isVariable
    octetBoundary := R.octetBoundary
    sizeof := fun mem this => R.sizeof mem this 0 }

/-! ## Variant records -/

/-- The enumerators of an alternative: `HLAsetEnd`, `HLAsetValue`, `HLAsetRange` and
`HLAsetOther`. -/
inductive Enumerators where
  | setEnd
  | setValue (e : Int) (n : Enumerators)
  | setRange (e1 e2 : Int) (n : Enumerators)
  | setOther (n : Enumerators)
  deriving DecidableEq, Repr

def Enumerators.includes : Enumerators → Int → Bool
  | setEnd, _ => false
  | setValue e n, i => i = e || n.includes i
  | setRange e1 e2 n, i => (e1 ≤ i && i ≤ e2) || n.includes i
  | setOther _, _ => true

/-- What a variant record uses of the list of its alternatives. -/
structure AlternativeList where
  isVariable : Bool
  octetBoundary : UInt64
  has_field : Int → Bool
  field_sizeof : Memory → Nat → Int → UInt64

def HLAvariantEnd : AlternativeList :=
  { isVariable := false
    octetBoundary := 0
    has_field := fun _ => false
    field_sizeof := fun _ _ _ => 0 }

/-- The alternative is looked for by its index `E` in `field_sizeof`. -/
def HLAvariantField (D : Enumerators) (E : Int) (M : Member) (N : AlternativeList)
    (hasVariable : Bool) : AlternativeList :=
  { isVariable := hasVariable
    octetBoundary := max M.octetBoundary N.octetBoundary
    has_field := fun d => D.includes d || N.has_field d
    field_sizeof := fun mem this e =>
      if e = E then M.sizeof mem this else N.field_sizeof mem this e }

namespace HLAvariantRecord

variable (DM : Storage) (R : AlternativeList) (hasVariable : Bool) (mem : Memory) (this : Nat)

def emptysizeof : UInt64 := DM.sizeof + padding DM.sizeof R.octetBoundary

def sizeof : UInt64 :=
  let discriminant := DM.toInt mem this
  if R.has_field discriminant then
    emptysizeof DM R + R.field_sizeof mem
      (if hasVariable then this + (emptysizeof DM R).toNat else this) discriminant
  else emptysizeof DM R

end HLAvariantRecord

def HLAvariantRecord (DM : Storage) (R : AlternativeList) : Member :=
  { isVariable := true
    octetBoundary := max DM.sizeof R.octetBoundary
    sizeof := HLAvariantRecord.sizeof DM R R.isVariable }

/-! ## The types that are built from the templates -/

mutual

/-- A record has a first field and a variant record a first alternative. -/
inductive Datatype where
  | basicType (s : Storage)
  | enumeratedType (r : Storage)
  | fixedArray (m : Datatype) (n : Nat)
  | variableArray (m : Datatype)
  | fixedRecord (e : Int) (m : Datatype) (n : Fields)
  | variantRecord (dm : Storage) (d : Enumerators) (e : Int) (m : Datatype) (n : Alternatives)

inductive Fields where
  | fixedEnd
  | field (e : Int) (m : Datatype) (n : Fields)

inductive Alternatives where
  | variantEnd
  | field (d : Enumerators) (e : Int) (m : Datatype) (n : Alternatives)

end

/-- `hasVariable = M::m_isVariable || N::m_isVariable` -/
def HLAfixedField.ofFields (E : Int) (M : Member) (N : FieldList) : FieldList :=
  HLAfixedField E M N (M.isVariable || N.isVariable)

def HLAvariantField.ofAlternatives (D : Enumerators) (E : Int) (M : Member)
    (N : AlternativeList) : AlternativeList :=
  HLAvariantField D E M N (M.isVariable || N.isVariable)

mutual

def Datatype.member : Datatype → Member
  | .basicType s => HLAbasicType s
  | .enumeratedType r => HLAenumeratedType r
  | .fixedArray m n => HLAfixedArray m.member n
  | .variableArray m => HLAvariableArray m.member
  | .fixedRecord e m n => HLAfixedRecord (HLAfixedField.ofFields e m.member n.list)
  | .variantRecord dm d e m n =>
    HLAvariantRecord dm (HLAvariantField.ofAlternatives d e m.member n.list)

def Fields.list : Fields → FieldList
  | .fixedEnd => HLAfixedEnd
  | .field e m n => HLAfixedField.ofFields e m.member n.list

def Alternatives.list : Alternatives → AlternativeList
  | .variantEnd => HLAvariantEnd
  | .field d e m n => HLAvariantField.ofAlternatives d e m.member n.list

end

end Certi.Libhla
