import Certi.Lib.Bytes
import Certi.LibRTI.VariantRecord

/-!
# The data elements

The element classes of `ieee1516-2010/encoding`, with the methods through which
a container sees its elements. A constructed element is its shape over its parts;
the methods of the element are those of the shape over the methods of the parts.
-/
namespace Certi.Encoding

open Bytes

/-- An octet of memory; `none` was never written. -/
abbrev Content := Option Octet

/-- The virtual methods that an element is asked for by the element that holds it. -/
structure Methods where
  encodeInto : Except Stop (List Content)
  getEncodedLength : Except Stop Nat
  getOctetBoundary : Except Stop Nat
  hash : Except Stop Int

/-! ## Padding -/

/-- The octets that are missing from `size` to a multiple of `v`. -/
def padding (size v : Nat) : Nat := if size % v = 0 then 0 else v - size % v

def zeros (count : Nat) : List Content := List.replicate count (some 0)

namespace HlaArray

def calculPaddingAfterNbElements (octetBoundary : Nat) : Nat := padding 4 (max octetBoundary 4)

def calculPaddingAfterEachElements (sizeElement octetBoundary : Nat) : Nat :=
  padding sizeElement (max octetBoundary 4)

end HlaArray

/-! ## Arrays and records -/

def totalLength : List Methods → Except Stop Nat
  | [] => .ok 0
  | e :: rest => do
    let length ← e.getEncodedLength
    return length + (← totalLength rest)

def largestBoundary : List Methods → Except Stop Nat
  | [] => .ok 0
  | e :: rest => do
    let boundary ← e.getOctetBoundary
    return max boundary (← largestBoundary rest)

/-- The elements one after the other, with `PElement` octets between them. -/
def separated (PElement : Nat) : List Methods → Except Stop (List Content)
  | [] => .ok []
  | [e] => e.encodeInto
  | e :: rest => do
    let octets ← e.encodeInto
    return octets ++ zeros PElement ++ (← separated PElement rest)

/-- All elements are followed by the padding of the first. -/
def paddingOfFirst : List Methods → Except Stop Nat
  | [] => .ok 0
  | e :: _ => do
    return HlaArray.calculPaddingAfterEachElements (← e.getEncodedLength) (← e.getOctetBoundary)

/-- What a class that does not override it answers. -/
def noHash : Except Stop Int := .ok (-1)

def HLAfixedArray.encodeInto (elements : List Methods) : Except Stop (List Content) := do
  if elements = [] then throw (.EncoderException "HlaFixedArray is empty")
  separated (← paddingOfFirst elements) elements

def HLAvariableArray.encodeInto (prototype : Methods) (elements : List Methods) :
    Except Stop (List Content) := do
  if 2 ^ 31 ≤ elements.length then
    throw (.EncoderException "Array size is too big for int32")
  let nbElements := (layout .big 4 (BitVec.ofNat 32 elements.length)).map Option.some
  let P := HlaArray.calculPaddingAfterNbElements (← prototype.getOctetBoundary)
  return nbElements ++ zeros P ++ (← separated (← paddingOfFirst elements) elements)

namespace HLAfixedRecord

/-- `a_offset` is a word of 32 bits. -/
def encodeFrom (a_offset : Nat) : List Methods → Except Stop (List Content)
  | [] => .ok []
  | [e] => e.encodeInto
  | e :: next :: rest => do
    let octets ← e.encodeInto
    let sizeElement ← e.getEncodedLength
    let V ← next.getOctetBoundary
    if V = 0 then throw .divisionByZero
    let P := padding (a_offset + sizeElement) V
    let others ← encodeFrom ((a_offset + sizeElement + P) % 2 ^ 32) (next :: rest)
    return octets ++ zeros P ++ others

def encodeInto (elements : List Methods) : Except Stop (List Content) :=
  if elements = [] then .error (.EncoderException "HlaFixedRecord is empty")
  else encodeFrom 0 elements

end HLAfixedRecord

namespace HLAvariantRecord

/-- The first entry whose key has the hash of the discriminant. -/
def matching (discriminant : Methods) :
    List (Methods × Methods) → Except Stop (Option (Methods × Methods))
  | [] => .ok none
  | entry :: rest => do
    if (← entry.1.hash) = (← discriminant.hash) then return some entry
    matching discriminant rest

def getEncodedLength (discriminant : Methods) (entries : List (Methods × Methods)) :
    Except Stop Nat := do
  match ← matching discriminant entries with
  | none => return 0
  | some _ =>
    return (← totalLength (entries.map Prod.fst)) + (← totalLength (entries.map Prod.snd))

def getOctetBoundary (entries : List (Methods × Methods)) : Except Stop Nat :=
  largestBoundary (entries.map Prod.snd)

def encodeInto (discriminant : Methods) (entries : List (Methods × Methods)) :
    Except Stop (List Content) := do
  let octets ← discriminant.encodeInto
  let size ← discriminant.getEncodedLength
  let V ← getOctetBoundary entries
  if V = 0 then throw .divisionByZero
  match ← matching discriminant entries with
  | none => throw (.EncoderException "The discriminant doesn't exist !")
  | some entry => return octets ++ zeros (padding size V) ++ (← entry.2.encodeInto)

end HLAvariantRecord

/-! ## The basic elements -/

/-- The basic classes with what their objects hold: `float` and `double` as their bits,
`wchar_t` of 32 bits. -/
inductive Basic where
  | HLAASCIIchar (data : Octet)
  | HLAASCIIstring (data : List Octet)
  | HLAboolean (data : Bool)
  | HLAbyte (data : Octet)
  | HLAfloat32BE (data : BitVec 32)
  | HLAfloat32LE (data : BitVec 32)
  | HLAfloat64BE (data : BitVec 64)
  | HLAfloat64LE (data : BitVec 64)
  | HLAinteger16LE (data : BitVec 16)
  | HLAinteger16BE (data : BitVec 16)
  | HLAinteger32LE (data : BitVec 32)
  | HLAinteger32BE (data : BitVec 32)
  | HLAinteger64LE (data : BitVec 64)
  | HLAinteger64BE (data : BitVec 64)
  | HLAoctet (data : Octet)
  | HLAoctetPairLE (first second : Octet)
  | HLAoctetPairBE (first second : Octet)
  | HLAunicodeChar (data : BitVec 32)
  | HLAunicodeString (data : List (BitVec 32))
  deriving DecidableEq, Repr

def written (octets : List Octet) : List Content := octets.map Option.some

/-- `encode<I>`: the octets of a word in the given order. -/
def encode (o : Order) (w : Nat) {n : Nat} (data : BitVec n) : Except Stop (List Content) :=
  .ok (written (layout o w data))

/-- The conversion of a `float` to `Integer64`, where it is defined. -/
def truncated (data : BitVec 32) : Except Stop Int :=
  let exponent := data.toNat / 2 ^ 23 % 256
  let mantissa := data.toNat % 2 ^ 23 + if exponent = 0 then 0 else 2 ^ 23
  let magnitude : Nat :=
    if 150 ≤ exponent then mantissa * 2 ^ (exponent - 150)
    else mantissa / 2 ^ (150 - max exponent 1)
  let value : Int := if data.msb then -magnitude else magnitude
  if exponent = 255 ∨ value < -2 ^ 63 ∨ 2 ^ 63 ≤ value then .error .indeterminate else .ok value

/-- A character as an array of characters sees it. -/
def characterMethods (encoded : Except Stop (List Content)) (size : Nat) (hash : Except Stop Int) :
    Methods :=
  { encodeInto := encoded, getEncodedLength := .ok size, getOctetBoundary := .ok size, hash }

def HLAASCIIchar.encodeInto (data : Octet) : Except Stop (List Content) :=
  if data.toInt < 0 then
    .error (.EncoderException "This is not a Standard ASCII character(see ANSI X3.4-1986).")
  else .ok [some data]

def HLAASCIIchar.methods (data : Octet) : Methods :=
  characterMethods (HLAASCIIchar.encodeInto data) 1 (.ok data.toInt)

/-- The low half of the character. -/
def HLAunicodeChar.encodeInto (data : BitVec 32) : Except Stop (List Content) :=
  encode .big 2 (data.setWidth 16)

def HLAunicodeChar.methods (data : BitVec 32) : Methods :=
  characterMethods (HLAunicodeChar.encodeInto data) 2 (.error .indeterminate)

def HLAbyte.methods (data : Content) : Methods :=
  characterMethods (.ok [data]) 1 <| match data with
    | some octet => .ok octet.toInt
    | none => .error .indeterminate

def HLAASCIIstring.encodeInto (data : List Octet) : Except Stop (List Content) :=
  HLAvariableArray.encodeInto (HLAASCIIchar.methods 97) (data.map HLAASCIIchar.methods)

/-- `for(char character: _data)`: a wide character is cut to a `char` and widened again. -/
def HLAunicodeString.encodeInto (data : List (BitVec 32)) : Except Stop (List Content) :=
  HLAvariableArray.encodeInto (HLAunicodeChar.methods 97)
    (data.map fun character => HLAunicodeChar.methods ((character.setWidth 8).signExtend 32))

namespace Basic

def encodeInto : Basic → Except Stop (List Content)
  | HLAASCIIchar data => HLAASCIIchar.encodeInto data
  | HLAASCIIstring data => HLAASCIIstring.encodeInto data
  | HLAboolean data => encode .big 4 (BitVec.ofNat 32 data.toNat)
  | HLAbyte data | HLAoctet data => .ok [some data]
  | HLAfloat32BE data | HLAinteger32BE data => encode .big 4 data
  | HLAfloat32LE data | HLAinteger32LE data => encode .little 4 data
  | HLAfloat64BE data | HLAinteger64BE data => encode .big 8 data
  | HLAfloat64LE data | HLAinteger64LE data => encode .little 8 data
  | HLAinteger16LE data => encode .little 2 data
  | HLAinteger16BE data => encode .big 2 data
  | HLAoctetPairLE first second => .ok [some first, some second]
  -- the two octets are swapped as a word
  | HLAoctetPairBE first second => .ok [some second, some first]
  | HLAunicodeChar data => HLAunicodeChar.encodeInto data
  | HLAunicodeString data => HLAunicodeString.encodeInto data

def getEncodedLength : Basic → Nat
  | HLAASCIIchar _ | HLAbyte _ | HLAoctet _ => 1
  | HLAASCIIstring data => data.length
  | HLAboolean _ | HLAfloat32BE _ | HLAfloat32LE _ | HLAinteger32BE _ | HLAinteger32LE _ => 4
  | HLAfloat64BE _ | HLAfloat64LE _ | HLAinteger64BE _ | HLAinteger64LE _ => 8
  | HLAinteger16BE _ | HLAinteger16LE _ | HLAoctetPairBE .. | HLAoctetPairLE .. => 2
  | HLAunicodeChar _ => 2
  | HLAunicodeString data => data.length * 2

/-- In every class the same as the length. -/
def getOctetBoundary (b : Basic) : Nat := b.getEncodedLength

def hash : Basic → Except Stop Int
  | HLAASCIIchar data | HLAbyte data | HLAoctet data => .ok data.toInt
  | HLAASCIIstring _ | HLAunicodeString _ => .ok 0
  | HLAboolean data => .ok data.toNat
  | HLAfloat32BE data => truncated data
  | HLAfloat32LE data => .ok data.toNat
  -- `Integer64` of a word of 64 bits
  | HLAfloat64BE data | HLAfloat64LE data | HLAinteger64BE data | HLAinteger64LE data =>
    .ok data.toInt
  | HLAinteger16LE data | HLAinteger16BE data => .ok data.toInt
  | HLAinteger32LE data | HLAinteger32BE data => .ok data.toInt
  -- the upper octets of the union are not written
  | HLAoctetPairLE .. | HLAoctetPairBE .. | HLAunicodeChar _ => .error .indeterminate

end Basic

/-! ## The shapes of elements -/

/-- An object of one of the classes; `α` stands for the elements that it points to. -/
inductive Shape (α : Type) where
  | basic (b : Basic)
  | HLAopaqueData (octets : List Content) (bufferSize : Nat)
  | HLAfixedArray (prototype : α) (elements : List α)
  | HLAvariableArray (prototype : α) (elements : List α)
  | HLAfixedRecord (elements : List α)
  | HLAvariantRecord (discriminant : α) (entries : List (α × α))

def HLAopaqueData.encodeInto (octets : List Content) : Except Stop (List Content) :=
  HLAvariableArray.encodeInto (HLAbyte.methods (some 0)) (octets.map HLAbyte.methods)

namespace Shape

def encodeInto : Shape Methods → Except Stop (List Content)
  | basic b => b.encodeInto
  | HLAopaqueData octets _ => HLAopaqueData.encodeInto octets
  | HLAfixedArray _ elements => HLAfixedArray.encodeInto elements
  | HLAvariableArray prototype elements => HLAvariableArray.encodeInto prototype elements
  | HLAfixedRecord elements => HLAfixedRecord.encodeInto elements
  | HLAvariantRecord discriminant entries => HLAvariantRecord.encodeInto discriminant entries

def getEncodedLength : Shape Methods → Except Stop Nat
  | basic b => .ok b.getEncodedLength
  | HLAopaqueData octets _ => .ok octets.length
  | HLAfixedArray _ elements | HLAvariableArray _ elements | HLAfixedRecord elements =>
    totalLength elements
  | HLAvariantRecord discriminant entries => HLAvariantRecord.getEncodedLength discriminant entries

def getOctetBoundary : Shape Methods → Except Stop Nat
  | basic b => .ok b.getOctetBoundary
  | HLAopaqueData _ _ => .ok 1
  | HLAfixedArray _ elements | HLAvariableArray _ elements | HLAfixedRecord elements =>
    largestBoundary elements
  | HLAvariantRecord _ entries => HLAvariantRecord.getOctetBoundary entries

def hash : Shape Methods → Except Stop Int
  | basic b => b.hash
  | _ => noHash

def methods (s : Shape Methods) : Methods :=
  { encodeInto := s.encodeInto
    getEncodedLength := s.getEncodedLength
    getOctetBoundary := s.getOctetBoundary
    hash := s.hash }

end Shape

/-! ## Elements -/

inductive Element where
  | basic (b : Basic)
  | HLAopaqueData (octets : List Content) (bufferSize : Nat)
  | HLAfixedArray (prototype : Element) (elements : List Element)
  | HLAvariableArray (prototype : Element) (elements : List Element)
  | HLAfixedRecord (elements : List Element)
  | HLAvariantRecord (discriminant : Element) (entries : List (Element × Element))

namespace Element

/-- Induction over the elements that an element is made of. -/
theorem parts_induction {P : Element → Prop} (basic : ∀ b, P (.basic b))
    (opaqueData : ∀ octets size, P (.HLAopaqueData octets size))
    (fixedArray : ∀ prototype elements, P prototype → (∀ e ∈ elements, P e) →
      P (.HLAfixedArray prototype elements))
    (variableArray : ∀ prototype elements, P prototype → (∀ e ∈ elements, P e) →
      P (.HLAvariableArray prototype elements))
    (fixedRecord : ∀ elements, (∀ e ∈ elements, P e) → P (.HLAfixedRecord elements))
    (variantRecord : ∀ discriminant entries, P discriminant →
      (∀ entry ∈ entries, P entry.1 ∧ P entry.2) → P (.HLAvariantRecord discriminant entries))
    (e : Element) : P e := by
  apply Element.rec (motive_1 := P) (motive_2 := fun elements => ∀ e ∈ elements, P e)
    (motive_3 := fun entries => ∀ entry ∈ entries, P entry.1 ∧ P entry.2)
    (motive_4 := fun entry => P entry.1 ∧ P entry.2)
  case basic => exact basic
  case HLAopaqueData => exact opaqueData
  case HLAfixedArray => exact fixedArray
  case HLAvariableArray => exact variableArray
  case HLAfixedRecord => exact fixedRecord
  case HLAvariantRecord => exact variantRecord
  all_goals grind

mutual

def methods : Element → Methods
  | .basic b => Shape.methods (.basic b)
  | .HLAopaqueData octets size => Shape.methods (.HLAopaqueData octets size)
  | .HLAfixedArray prototype elements =>
    Shape.methods (.HLAfixedArray prototype.methods (allMethods elements))
  | .HLAvariableArray prototype elements =>
    Shape.methods (.HLAvariableArray prototype.methods (allMethods elements))
  | .HLAfixedRecord elements => Shape.methods (.HLAfixedRecord (allMethods elements))
  | .HLAvariantRecord discriminant entries =>
    Shape.methods (.HLAvariantRecord discriminant.methods (entryMethods entries))

def allMethods : List Element → List Methods
  | [] => []
  | e :: rest => e.methods :: allMethods rest

def entryMethods : List (Element × Element) → List (Methods × Methods)
  | [] => []
  | entry :: rest => pairMethods entry :: entryMethods rest

def pairMethods : Element × Element → Methods × Methods
  | (key, variant) => (key.methods, variant.methods)

end

theorem allMethods_eq (elements : List Element) : allMethods elements = elements.map methods := by
  induction elements with
  | nil => rw [allMethods, List.map_nil]
  | cons e rest ih => rw [allMethods, ih, List.map_cons]

theorem entryMethods_eq (entries : List (Element × Element)) :
    entryMethods entries = entries.map (Prod.map methods methods) := by
  induction entries with
  | nil => rw [entryMethods, List.map_nil]
  | cons entry rest ih => rw [entryMethods, ih, List.map_cons, pairMethods, Prod.map]

/-- `encodeInto` of the element. -/
def encodeInto (e : Element) : Except Stop (List Content) := e.methods.encodeInto

example : encodeInto (.HLAvariableArray (.basic (.HLAinteger16BE 0))
    [.basic (.HLAinteger16BE 1), .basic (.HLAinteger16BE 2)]) =
    .ok (written [0, 0, 0, 2, 0, 1, 0, 0, 0, 2]) := by decide

end Element

end Certi.Encoding
