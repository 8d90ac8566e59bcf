import Certi.Lib.Reading
import Certi.LibRTI.Elements

/-!
# Decoding of the data elements

`decodeFrom` of the element classes of `ieee1516-2010/encoding`, variant records
apart: what an element becomes when it decodes the octets that another one was
encoded into, wherever they stand in a buffer.
-/
namespace Certi.Encoding

open Bytes Reading

/-- How decoding ends early. -/
inductive Halt where
  | stop (s : Stop)
  -- an octet behind the buffer is read
  | outOfBuffer
  -- `std::length_error`
  | lengthError
  deriving DecidableEq, Repr

abbrev Decoder := Reader Halt Octet

/-- An element that decodes into a value of `α`. -/
structure Receiver (α : Type) where
  methods : Methods
  decodeFrom : Decoder α

def ask {α : Type} : Except Stop α → Decoder α
  | .ok a => return a
  | .error s => throw (.stop s)

/-- What the basic classes check before they decode. -/
def checked {α : Type} (decodeFrom : Decoder α) : Decoder α := do
  if (← read).length ≤ (← get) then
    throw (.stop (.EncoderException "Index superior than buffer size"))
  else decodeFrom

def octet : Decoder Octet := next .outOfBuffer

/-- `decode<I>`: the word of `w` octets in the given order. -/
def decode (o : Order) (w n : Nat) : Decoder (BitVec n) := do
  return word o n (← take .outOfBuffer w)

/-! ## Arrays and records -/

section Containers

variable {α : Type}

def HLAfixedArray.decodeFrom (elements : List (Receiver α)) : Decoder (List α) := do
  if elements = [] then throw (.stop (.EncoderException "HlaFixedArray is empty"))
  let paddingEachElem ← ask (paddingOfFirst (elements.map Receiver.methods))
  separately paddingEachElem (elements.map Receiver.decodeFrom)

/-- The elements that are there decode too, before the copies of the prototype. -/
def HLAvariableArray.decodeFrom (prototype : Receiver α) (elements : List (Receiver α)) :
    Decoder (List α) := do
  let nbElements ← checked (decode .big 4 32)
  let P := HlaArray.calculPaddingAfterNbElements (← ask prototype.methods.getOctetBoundary)
  skip P
  -- `reserve` of a negative number
  if nbElements.msb then throw .lengthError
  let elements := elements ++ List.replicate nbElements.toNat prototype
  let paddingEachElem ← ask (paddingOfFirst (elements.map Receiver.methods))
  separately paddingEachElem (elements.map Receiver.decodeFrom)

namespace HLAfixedRecord

/-- The padding follows from the length of the element once it is decoded. -/
def decodeAfter (getEncodedLength : α → Except Stop Nat) (a_offset : Nat) :
    List (Receiver α) → Decoder (List α)
  | [] => return []
  | [r] => do return [← r.decodeFrom]
  | r :: next :: rest => do
    let element ← r.decodeFrom
    let sizeElement ← ask (getEncodedLength element)
    let V ← ask next.methods.getOctetBoundary
    if V = 0 then throw (.stop .divisionByZero)
    let P := padding (a_offset + sizeElement) V
    skip P
    return element :: (← decodeAfter getEncodedLength ((a_offset + sizeElement + P) % 2 ^ 32)
      (next :: rest))

def decodeFrom (getEncodedLength : α → Except Stop Nat) (elements : List (Receiver α)) :
    Decoder (List α) := do
  if elements = [] then throw (.stop (.EncoderException "HlaFixedRecord is empty"))
  decodeAfter getEncodedLength 0 elements

end HLAfixedRecord

end Containers

/-! ## The basic elements -/

def HLAASCIIchar.receiver : Receiver Octet := ⟨HLAASCIIchar.methods 97, checked octet⟩

/-- Two octets, of which the upper half of the character is not filled. -/
def HLAunicodeChar.decodeFrom : Decoder (BitVec 32) := do
  return (← decode .big 2 16).setWidth 32

def HLAunicodeChar.receiver : Receiver (BitVec 32) :=
  ⟨HLAunicodeChar.methods 97, checked HLAunicodeChar.decodeFrom⟩

def HLAbyte.receiver : Receiver Octet := ⟨HLAbyte.methods (some 0), checked octet⟩

/-- Characters are appended to those of the string, and the index moves by the length of the
string, not by what was read. -/
def decodeString {α : Type} (prototype : Receiver α) (data : List α) : Decoder (List α) := do
  let a_index ← get
  let characters ← HLAvariableArray.decodeFrom prototype []
  set (a_index + (data ++ characters).length)
  return data ++ characters

/-- The index moves by one octet. -/
def HLAboolean.decodeFrom : Decoder Bool := do
  let a_index ← get
  let value ← checked (decode .big 4 32)
  set (a_index + 1)
  return value ≠ 0

/-- The index does not move. -/
def HLAopaqueData.decodeFrom (dataSize : Nat) : Decoder (List Octet) := do
  let a_index ← get
  let octets ← HLAvariableArray.decodeFrom HLAbyte.receiver []
  if octets.length ≠ dataSize then
    throw (.stop
      (.EncoderException "Buffer size doesn't match with HLAopaqueData object size"))
  set a_index
  return octets

namespace Basic

def decodeUnchecked : Basic → Decoder Basic
  | HLAASCIIchar _ => do return .HLAASCIIchar (← octet)
  | HLAASCIIstring data => do
    return .HLAASCIIstring (← decodeString HLAASCIIchar.receiver data)
  | HLAboolean _ => do return .HLAboolean (← HLAboolean.decodeFrom)
  | HLAbyte _ => do return .HLAbyte (← octet)
  | HLAfloat32BE _ => do return .HLAfloat32BE (← decode .big 4 32)
  | HLAfloat32LE _ => do return .HLAfloat32LE (← decode .little 4 32)
  | HLAfloat64BE _ => do return .HLAfloat64BE (← decode .big 8 64)
  | HLAfloat64LE _ => do return .HLAfloat64LE (← decode .little 8 64)
  | HLAinteger16LE _ => do return .HLAinteger16LE (← decode .little 2 16)
  | HLAinteger16BE _ => do return .HLAinteger16BE (← decode .big 2 16)
  | HLAinteger32LE _ => do return .HLAinteger32LE (← decode .little 4 32)
  | HLAinteger32BE _ => do return .HLAinteger32BE (← decode .big 4 32)
  | HLAinteger64LE _ => do return .HLAinteger64LE (← decode .little 8 64)
  | HLAinteger64BE _ => do return .HLAinteger64BE (← decode .big 8 64)
  | HLAoctet _ => do return .HLAoctet (← octet)
  | HLAoctetPairLE .. => do
    let first ← octet
    let second ← octet
    return .HLAoctetPairLE first second
  -- the two octets are swapped as a word
  | HLAoctetPairBE .. => do
    let second ← octet
    let first ← octet
    return .HLAoctetPairBE first second
  | HLAunicodeChar _ => do return .HLAunicodeChar (← HLAunicodeChar.decodeFrom)
  | HLAunicodeString data => do
    return .HLAunicodeString (← decodeString HLAunicodeChar.receiver data)

def decodeFrom (b : Basic) : Decoder Basic := checked b.decodeUnchecked

end Basic

/-! ## Elements -/

/-- The elements without variant records. -/
inductive Datum where
  | basic (b : Basic)
  | HLAopaqueData (octets : List Content) (bufferSize : Nat)
  | HLAfixedArray (prototype : Datum) (elements : List Datum)
  | HLAvariableArray (prototype : Datum) (elements : List Datum)
  | HLAfixedRecord (elements : List Datum)

namespace Datum

mutual

def element : Datum → Element
  | .basic b => .basic b
  | .HLAopaqueData octets bufferSize => .HLAopaqueData octets bufferSize
  | .HLAfixedArray prototype elements => .HLAfixedArray prototype.element (allElements elements)
  | .HLAvariableArray prototype elements =>
    .HLAvariableArray prototype.element (allElements elements)
  | .HLAfixedRecord elements => .HLAfixedRecord (allElements elements)

def allElements : List Datum → List Element
  | [] => []
  | e :: rest => e.element :: allElements rest

end

def methods (e : Datum) : Methods := e.element.methods

mutual

/-- `decodeFrom`; the copies of a prototype decode as the prototype does. -/
def decodeFrom : Datum → Decoder Datum
  | .basic b => do return .basic (← b.decodeFrom)
  | .HLAopaqueData octets bufferSize => do
    return .HLAopaqueData (written (← HLAopaqueData.decodeFrom octets.length)) bufferSize
  | .HLAfixedArray prototype elements => do
    return .HLAfixedArray prototype (← HLAfixedArray.decodeFrom (receivers elements))
  | .HLAvariableArray prototype elements => do
    return .HLAvariableArray prototype (← HLAvariableArray.decodeFrom
      ⟨prototype.methods, prototype.decodeFrom⟩ (receivers elements))
  | .HLAfixedRecord elements => do
    return .HLAfixedRecord (← HLAfixedRecord.decodeFrom (fun e => e.methods.getEncodedLength)
      (receivers elements))

def receivers : List Datum → List (Receiver Datum)
  | [] => []
  | e :: rest => ⟨e.methods, e.decodeFrom⟩ :: receivers rest

end

def receiver (e : Datum) : Receiver Datum := ⟨e.methods, e.decodeFrom⟩

theorem allElements_eq (elements : List Datum) : allElements elements = elements.map element := by
  induction elements with
  | nil => rw [allElements, List.map_nil]
  | cons e rest ih => rw [allElements, ih, List.map_cons]

theorem receivers_eq (elements : List Datum) : receivers elements = elements.map receiver := by
  induction elements with
  | nil => rw [receivers, List.map_nil]
  | cons e rest ih => rw [receivers, ih, List.map_cons, receiver]

theorem allMethods_allElements (elements : List Datum) :
    Element.allMethods (allElements elements) = elements.map methods := by
  rw [allElements_eq, Element.allMethods_eq, List.map_map]
  rfl

/-- Induction over the elements that a datum is made of. -/
theorem parts_induction {P : Datum → Prop} (basic : ∀ b, P (.basic b))
    (opaqueData : ∀ octets size, P (.HLAopaqueData octets size))
    (fixedArray : ∀ prototype elements, P prototype → (∀ e ∈ elements, P e) →
      P (.HLAfixedArray prototype elements))
    (variableArray : ∀ prototype elements, P prototype → (∀ e ∈ elements, P e) →
      P (.HLAvariableArray prototype elements))
    (fixedRecord : ∀ elements, (∀ e ∈ elements, P e) → P (.HLAfixedRecord elements))
    (e : Datum) : P e := by
  apply Datum.rec (motive_1 := P) (motive_2 := fun elements => ∀ e ∈ elements, P e)
  case basic => exact basic
  case HLAopaqueData => exact opaqueData
  case HLAfixedArray => exact fixedArray
  case HLAvariableArray => exact variableArray
  case HLAfixedRecord => exact fixedRecord
  all_goals grind

end Datum

/-! ## What an element shows -/

/-- What the getters of an element return, down to the basic elements: not the prototypes. -/
inductive Contents where
  | basic (b : Basic)
  | HLAopaqueData (octets : List Content) (bufferSize : Nat)
  | HLAarray (elements : List Contents)
  | HLAfixedRecord (elements : List Contents)

namespace Contents

mutual

def encodedLength : Contents → Nat
  | .basic b => b.getEncodedLength
  | .HLAopaqueData octets _ => octets.length
  | .HLAarray elements | .HLAfixedRecord elements => total elements

def total : List Contents → Nat
  | [] => 0
  | e :: rest => e.encodedLength + total rest

end

mutual

def octetBoundary : Contents → Nat
  | .basic b => b.getOctetBoundary
  | .HLAopaqueData _ _ => 1
  | .HLAarray elements | .HLAfixedRecord elements => largest elements

def largest : List Contents → Nat
  | [] => 0
  | e :: rest => max e.octetBoundary (largest rest)

end

end Contents

namespace Datum

mutual

def contents : Datum → Contents
  | .basic b => .basic b
  | .HLAopaqueData octets bufferSize => .HLAopaqueData octets bufferSize
  | .HLAfixedArray _ elements | .HLAvariableArray _ elements => .HLAarray (allContents elements)
  | .HLAfixedRecord elements => .HLAfixedRecord (allContents elements)

def allContents : List Datum → List Contents
  | [] => []
  | e :: rest => e.contents :: allContents rest

end

theorem allContents_eq (elements : List Datum) :
    allContents elements = elements.map contents := by
  induction elements with
  | nil => rw [allContents, List.map_nil]
  | cons e rest ih => rw [allContents, ih, List.map_cons]

theorem totalLength_eq {elements : List Datum}
    (each : ∀ e ∈ elements, e.methods.getEncodedLength = .ok e.contents.encodedLength) :
    totalLength (elements.map methods) = .ok (Contents.total (allContents elements)) := by
  induction elements with
  | nil => rfl
  | cons e rest ih =>
    have head := each e List.mem_cons_self
    have tail := ih fun e' inside => each e' (List.mem_cons_of_mem _ inside)
    rw [List.map_cons, totalLength, head, tail]
    rfl

theorem largestBoundary_eq {elements : List Datum}
    (each : ∀ e ∈ elements, e.methods.getOctetBoundary = .ok e.contents.octetBoundary) :
    largestBoundary (elements.map methods) = .ok (Contents.largest (allContents elements)) := by
  induction elements with
  | nil => rfl
  | cons e rest ih =>
    have head := each e List.mem_cons_self
    have tail := ih fun e' inside => each e' (List.mem_cons_of_mem _ inside)
    rw [List.map_cons, largestBoundary, head, tail]
    rfl

theorem getEncodedLength_eq (e : Datum) :
    e.methods.getEncodedLength = .ok e.contents.encodedLength := by
  induction e using parts_induction with
  | basic b => rfl
  | opaqueData octets size => rfl
  | fixedArray prototype elements _ each | variableArray prototype elements _ each
  | fixedRecord elements each =>
    have sum := totalLength_eq each
    rw [← allMethods_allElements] at sum
    exact sum

theorem getOctetBoundary_eq (e : Datum) :
    e.methods.getOctetBoundary = .ok e.contents.octetBoundary := by
  induction e using parts_induction with
  | basic b => rfl
  | opaqueData octets size => rfl
  | fixedArray prototype elements _ each | variableArray prototype elements _ each
  | fixedRecord elements each =>
    have largest := largestBoundary_eq each
    rw [← allMethods_allElements] at largest
    exact largest

end Datum

end Certi.Encoding
